import PandOS.Phase2.Kept
import PandOS.Phase2.Terminals

/-!
# Phase 2 — whose command a completion answers

`commands` is the history of one device: who wrote the commands it has not answered yet, oldest
first.  The nucleus does not keep it; it takes the first of the queue for the one whose command is
answered.  `Lined` says when that is right: the queue is a first part of the commands, and those
after it are of processes that were killed.  `commands_of_run`: it is so in every run in which a
`DOIO` comes last in the queue, with nobody's command before it but those of the queue, and a kill
takes the last ones.
-/

namespace PandOS

/-- If what passes comes first, what does not is at the end. -/
theorem map_of_prefix {α : Type*} {l : List α} {P : α → Prop} [DecidablePred P]
    (h : l.filter (fun x => P x) <+: l) : l.map (fun x => if P x then some x else none) =
      (l.filter fun x => P x).map some ++
        .replicate (l.length - (l.filter fun x => P x).length) none := by
  obtain ⟨r, hr⟩ := h
  have hnil : r.filter (fun x => decide (P x)) = [] := by
    have hf := congrArg (List.filter fun x => decide (P x)) hr
    rw [List.filter_append, List.filter_filter] at hf
    simp only [Bool.and_self] at hf
    exact List.append_right_eq_self.mp hf
  have hlen : l.length - (l.filter fun x => P x).length = r.length := by
    have := congrArg List.length hr
    rw [List.length_append] at this
    omega
  rw [hlen]
  conv_lhs => rw [← hr]
  rw [List.map_append]
  congr 1
  · refine List.map_congr_left fun x hx => if_pos ?_
    exact of_decide_eq_true (List.mem_filter.mp hx).2
  · rw [← List.map_const]
    refine List.map_congr_left fun x hx => if_neg fun hP => ?_
    exact absurd (List.mem_filter.mpr ⟨hx, decide_eq_true hP⟩) (by rw [hnil]; exact List.not_mem_nil)

namespace Sems

variable {L : Layout} {S T : Sems} {a : Word} {j : Fin semDevLen} {cs : List (Option PcbId)}

/-- The word counts the commands, and the queue is a first part of them. -/
structure Lined (S : Sems) (a : Word) (cs : List (Option PcbId)) : Prop where
  word : (S.word a).toInt = -(cs.length : ℤ)
  line : ∃ n, cs = (S.queue a).map some ++ .replicate n none

theorem Lined.of_eq (h : S.Lined a cs) (he : T.word a = S.word a ∧ T.queue a = S.queue a) :
    T.Lined a cs := by
  refine ⟨?_, ?_⟩
  · rw [he.1]
    exact h.word
  · rw [he.2]
    exact h.line

/-- A command is written, and its process is the last of the queue. -/
theorem Lined.join {p : PcbId} (h : S.Lined a cs)
    (hall : ((S.queue a).length : ℤ) = -(S.word a).toInt) (hsmall : (S.queue a).length < 2 ^ 31) :
    ((S.down a).join L a (S.queue a ++ [p])).Lined a (cs ++ [some p]) := by
  have hword : ((S.down a).join L a (S.queue a ++ [p])).word a = S.word a - 1 :=
    Function.update_self ..
  have hqueue : ((S.down a).join L a (S.queue a ++ [p])).queue a = S.queue a ++ [p] :=
    Function.update_self ..
  have hw := h.word
  -- all commands are of processes that wait
  have hcs : cs = (S.queue a).map some := by
    obtain ⟨n, hn⟩ := h.line
    have hlen := congrArg List.length hn
    rw [List.length_append, List.length_map, List.length_replicate] at hlen
    obtain rfl : n = 0 := by omega
    rw [hn, List.replicate_zero, List.append_nil]
  refine ⟨?_, 0, ?_⟩
  · rw [hword, toInt_sub_one (by omega), List.length_append, List.length_singleton]
    push_cast
    omega
  · rw [hqueue, hcs, List.map_append, List.replicate_zero, List.append_nil]
    rfl

/-- The first command is answered. -/
theorem Lined.wake (h : S.Lined (L.sem j) cs) (hne : cs ≠ []) :
    (S.wake L j).Lined (L.sem j) cs.tail := by
  have hw := h.word
  have hpos := List.length_pos_iff.mpr hne
  have hneg : (S.word (L.sem j)).toInt < 0 := by omega
  have hword : (S.wake L j).word (L.sem j) = S.word (L.sem j) + 1 := by
    rw [Sems.wake, if_pos hneg]
    exact Function.update_self ..
  have hqueue : (S.wake L j).queue (L.sem j) = (S.queue (L.sem j)).tail := by
    rw [Sems.wake, if_pos hneg]
    exact Function.update_self ..
  refine ⟨?_, ?_⟩
  · rw [hword, toInt_add_one (by omega), List.length_tail]
    omega
  · obtain ⟨n, hn⟩ := h.line
    rw [hqueue]
    cases hq : S.queue (L.sem j) with
    | nil =>
        rw [hq] at hn
        exact ⟨n - 1, by rw [hn]; exact List.tail_replicate ..⟩
    | cons p rest =>
        rw [hq] at hn
        exact ⟨n, by rw [hn]; rfl⟩

/-- Of the `V`s of an interrupt one at most is of the device. -/
theorem Lined.wakes {l : List (Fin semDevLen × Word)} (h : S.Lined (L.sem j) cs)
    (hl : (l.map Prod.fst).Nodup) (hne : j ∈ l.map Prod.fst → cs ≠ []) :
    (l.foldl (fun S x => S.wake L x.1) S).Lined (L.sem j)
      (if j ∈ l.map Prod.fst then cs.tail else cs) := by
  have hno : ∀ m : List (Fin semDevLen × Word), j ∉ m.map Prod.fst →
      ∀ y ∈ m, L.sem j ≠ L.sem y.1 := fun m hj y hy he =>
    hj (Layout.sem_inj he ▸ List.mem_map_of_mem hy)
  induction l generalizing S with
  | nil => exact h
  | cons x l ih =>
      obtain ⟨hx, hl⟩ := List.nodup_cons.mp hl
      by_cases hj : j = x.1
      · have hjl : j ∉ l.map Prod.fst := hj ▸ hx
        have hmem : j ∈ (x :: l).map Prod.fst := hj ▸ List.mem_cons_self
        rw [if_pos hmem]
        exact (hj ▸ h.wake (hne hmem) : (S.wake L x.1).Lined (L.sem j) cs.tail).of_eq
          (wakes_other (hno l hjl))
      · have hiff : j ∈ (x :: l).map Prod.fst ↔ j ∈ l.map Prod.fst := by
          rw [List.map_cons, List.mem_cons]
          exact or_iff_right hj
        simp only [hiff] at hne ⊢
        exact ih (h.of_eq (wake_other fun he => hj (Layout.sem_inj he))) hl hne

/-- The last of the queue are killed. -/
theorem Lined.cull (h : S.Lined a cs) (ha : isSoftBlockSemaphore L a) {live : PcbId → Prop}
    [DecidablePred live] (hp : (S.queue a).filter (fun p => live p) <+: S.queue a) :
    (S.cull L live).Lined a (cs.map (Option.filter fun p => live p)) := by
  have hword : (S.cull L live).word a = S.word a := if_pos ha
  refine ⟨by rw [hword, List.length_map]; exact h.word, ?_⟩
  obtain ⟨n, hn⟩ := h.line
  refine ⟨(S.queue a).length - ((S.queue a).filter fun p => live p).length + n, ?_⟩
  have hmap : ((S.queue a).map some).map (Option.filter fun p => live p) =
      (S.queue a).map fun p => if live p then some p else none := by
    rw [List.map_map]
    refine List.map_congr_left fun p _ => ?_
    by_cases hl : live p <;> simp [Option.filter, hl]
  rw [hn, List.map_append, hmap, map_of_prefix hp, List.map_replicate, List.append_assoc,
    Option.filter_none, List.replicate_append_replicate]
  rfl

end Sems

namespace Kernel

variable {L : Layout} {s t u : Kernel} {lossy : Prop} {p q cur target : PcbId}
  {j : Fin semDevLen} {cs : List (Option PcbId)} {e : KernelEvent}

/-! ### The commands of a device -/

/-- The commands of the device `j` after an act, from those before it. -/
def Act.commands (j : Fin semDevLen) (s t : Kernel) : Act → List (Option PcbId) →
    List (Option PcbId)
  | .io i, cs => if i = j then cs ++ [s.currentProcess] else cs
  | .kill _, cs => cs.map (Option.filter fun p => t.Live p)
  | .wake l, cs => if j ∈ l.map Prod.fst then cs.tail else cs
  | _, cs => cs

/-- The commands device `j` has not answered: who wrote them, or none if it was killed. -/
def commands (j : Fin semDevLen) (s : Kernel) (e : KernelEvent) (t : Kernel) :
    List (Option PcbId) → List (Option PcbId) :=
  (s.act e).commands j s t

/-- The act has a `V` of the device. -/
def Act.answers (j : Fin semDevLen) : Act → Prop
  | .wake l => j ∈ l.map Prod.fst
  | _ => False

instance (j : Fin semDevLen) : (x : Act) → Decidable (x.answers j)
  | .wake _ => inferInstanceAs (Decidable (_ ∈ _))
  | .quiet | .store _ _ | .create | .kill _ | .pass _ | .block _ | .io _ | .clockWait | .signal _
  | .requeue | .tick => .isFalse id

/-- The device interrupts only to answer a command. -/
def Answers (j : Fin semDevLen) (x : Kernel × List (Option PcbId)) (e : KernelEvent) : Prop :=
  (x.1.act e).answers j → x.2 ≠ []

instance (j : Fin semDevLen) (x : Kernel × List (Option PcbId)) (e : KernelEvent) :
    Decidable (Answers j x e) := inferInstanceAs (Decidable (_ → _))

/-- The act is a `DOIO` on the device. -/
def Act.isCommand (j : Fin semDevLen) : Act → Prop
  | .io i => i = j
  | _ => False

instance (j : Fin semDevLen) : (x : Act) → Decidable (x.isCommand j)
  | .io _ => inferInstanceAs (Decidable (_ = _))
  | .quiet | .store _ _ | .create | .kill _ | .pass _ | .block _ | .clockWait | .signal _
  | .requeue | .wake _ | .tick => .isFalse id

/-- All commands not answered are of processes in the queue, none of smaller priority than the one
that runs, and there is a descriptor. -/
structure Last (L : Layout) (j : Fin semDevLen) (s : Kernel) : Prop where
  semd : s.HasSemd (L.sem j)
  all : ((s.queue (L.sem j)).length : ℤ) = -(s.mem (L.sem j)).toInt
  prio : ∀ q ∈ s.queue (L.sem j), ∀ cur ∈ s.currentProcess,
    (s.pcbFree_table cur).p_prio ≤ (s.pcbFree_table q).p_prio

instance (L : Layout) (j : Fin semDevLen) (s : Kernel) : Decidable (s.Last L j) :=
  decidable_of_iff (s.HasSemd (L.sem j) ∧
    ((s.queue (L.sem j)).length : ℤ) = -(s.mem (L.sem j)).toInt ∧
    ∀ q ∈ s.queue (L.sem j), (s.currentProcess.all fun cur =>
      decide ((s.pcbFree_table cur).p_prio ≤ (s.pcbFree_table q).p_prio)) = true) (by
    simp only [Option.all_eq_true, decide_eq_true_eq]
    exact ⟨fun h => ⟨h.1, h.2.1, h.2.2⟩, fun h => ⟨h.1, h.2, h.3⟩⟩)

/-- Those of the queue who are not killed are its first ones. -/
def TakesLast (L : Layout) (j : Fin semDevLen) (s : Kernel) (target : PcbId) : Prop :=
  (s.queue (L.sem j)).filter (fun q => q ∉ s.doomed target) <+: s.queue (L.sem j)

instance (L : Layout) (j : Fin semDevLen) (s : Kernel) (target : PcbId) :
    Decidable (s.TakesLast L j target) := inferInstanceAs (Decidable (_ <+: _))

/-- A `DOIO` on the device comes last, a kill takes the last ones, and `PASSEREN` and `VERHOGEN`
stay away. -/
structure InTurn (L : Layout) (j : Fin semDevLen) (s : Kernel) (e : KernelEvent) : Prop where
  io : (s.act e).isCommand j → s.Last L j
  kill : ∀ p ∈ (s.act e).kills, s.TakesLast L j p
  apart : (s.act e).serves ≠ some (L.sem j)

instance (L : Layout) (j : Fin semDevLen) (s : Kernel) (e : KernelEvent) :
    Decidable (s.InTurn L j e) :=
  decidable_of_iff (((s.act e).isCommand j → s.Last L j) ∧
    ((s.act e).kills.all fun p => decide (s.TakesLast L j p)) = true ∧
    (s.act e).serves ≠ some (L.sem j)) (by
    simp only [Option.all_eq_true, decide_eq_true_eq]
    exact ⟨fun h => ⟨h.1, h.2.1, h.2.2⟩, fun h => ⟨h.1, h.2, h.3⟩⟩)

/-! ### The queue and the commands -/

/-- Who comes last in priority comes last in the queue. -/
theorem insertProcQ_last {v : Pcbs} {l : List PcbId}
    (h : ∀ q ∈ l, (v.pcbFree_table p).p_prio ≤ (v.pcbFree_table q).p_prio) :
    v.insertProcQ l p = l ++ [p] := by
  unfold Pcbs.insertProcQ
  induction l with
  | nil => rfl
  | cons q l ih =>
      have hq := h q List.mem_cons_self
      rw [List.orderedInsert_cons, if_neg (not_lt.mpr hq),
        ih fun x hx => h x (List.mem_cons_of_mem q hx)]
      rfl

theorem Last.joined (h : s.Last L j) (hc : s.currentProcess = some cur) :
    s.joined (L.sem j) = s.queue (L.sem j) ++ [cur] := by
  unfold Kernel.joined
  simp only [hc, if_pos h.semd]
  exact insertProcQ_last fun q hq => h.prio q hq cur hc

theorem SameTree.doomed (h : SameTree s t) (target : PcbId) :
    t.doomed target = s.doomed target := by
  have hnamed : t.namedChild = s.namedChild := by
    funext p
    unfold namedChild
    rw [(h.pcb p).1]
    exact List.filter_congr fun q _ => decide_eq_decide.mpr h.named
  unfold Kernel.doomed
  rw [hnamed]
  simp only [h.named]

/-- Who is live after a kill. -/
theorem Sound.live_kill (h : Sound lossy s) (hd : Did L s (.kill target) t) (hl : s.Live target)
    (q : PcbId) : t.Live q ↔ s.Live q ∧ q ∉ s.doomed target := by
  cases h.treeStep hd with
  | same _ _ hk => exact absurd rfl (hk target)
  | kill u _ hq ht =>
      have hu := (h.quiet hq).tree.called (P := fun _ => True) trivial
      rw [ht.live, live_terminate hu (fun _ => hq.tree.live.mpr hl), hq.tree.live, hq.tree.doomed]

/-- The `V`s of an interrupt are of different devices. -/
theorem interruptAct_nodup {saved : State} {reg : Word → Word} {l : List (Fin semDevLen × Word)}
    (h : s.interruptAct saved reg = .wake l) : (l.map Prod.fst).Nodup := by
  have hterm : ∀ dev, ((termWakes dev reg).map Prod.fst).Nodup := by
    intro dev
    unfold termWakes
    have hne : TermChannel.tx.sem dev ≠ TermChannel.rx.sem dev := TermChannel.sem_ne nofun
    rw [filterMap_channels]
    split_ifs <;> simp [hne]
  unfold interruptAct at h
  dsimp only at h
  split_ifs at h <;> cases h
  · exact List.nodup_nil
  · unfold deviceWakes
    split
    · exact List.nodup_nil
    · split
      · exact List.nodup_singleton _
      · exact hterm _
  · exact List.nodup_nil

theorem serviceAct_ne_wake (s : Kernel) (cur : PcbId) (saved : State) (c : SysCall)
    (l : List (Fin semDevLen × Word)) : s.serviceAct cur saved c ≠ .wake l := by
  cases c <;> unfold serviceAct <;> dsimp only <;> (try split) <;> exact nofun

theorem act_wake_nodup {l : List (Fin semDevLen × Word)} (h : s.act e = .wake l) :
    (l.map Prod.fst).Nodup := by
  have hfrom := act_from s e
  generalize s.act e = x at hfrom h
  cases hfrom with
  | store | nobody => cases h
  | interrupt => exact interruptAct_nodup h
  | service => exact absurd h (serviceAct_ne_wake s _ _ _ l)
  | passUp => split at h <;> cases h

/-- An act keeps the queue in line with the commands. -/
theorem lined_did {x : Act} (hs : Sound lossy s) (h : s.sems.Lined (L.sem j) cs)
    (he : t.sems = x.sems L s t) (hd : Did L s x t) (hj : j ≠ pseudoClock)
    (hans : x.answers j → cs ≠ []) (hio : x.isCommand j → s.Last L j)
    (hkill : ∀ p, x = .kill p → s.Live p ∧ s.TakesLast L j p)
    (hap : x.serves ≠ some (L.sem j)) (hl : ∀ l, x = .wake l → (l.map Prod.fst).Nodup) :
    t.sems.Lined (L.sem j) (x.commands j s t cs) := by
  have hsoft := L.soft_sem j
  have hne : ∀ {a}, some a ≠ some (L.sem j) → L.sem j ≠ a := fun h he => h (he ▸ rfl)
  rw [he]
  cases x with
  | quiet | create | requeue => exact h
  | store a v =>
      refine h.of_eq ⟨Function.update_of_ne (fun ha => hd.2.1 ?_) .., rfl⟩
      exact ha ▸ hsoft
  | kill p =>
      obtain ⟨hl, hp⟩ := hkill p rfl
      refine h.cull hsoft ?_
      -- those who are left of the queue are those not doomed
      have hf : (s.queue (L.sem j)).filter (fun q => t.Live q) =
          (s.queue (L.sem j)).filter fun q => q ∉ s.doomed p := by
        refine List.filter_congr fun q hq => decide_eq_decide.mpr ?_
        rw [hs.live_kill hd hl]
        exact and_iff_right (hs.links.queue_live hq)
      show (s.queue (L.sem j)).filter (fun q => t.Live q) <+: _
      rw [hf]
      exact hp
  | pass a => exact h.of_eq ⟨Function.update_of_ne (hne hap) .., rfl⟩
  | block a => exact h.of_eq (Sems.down_other (hne hap) _)
  | io i =>
      show (Act.sems L s t (.io i)).Lined _ (if i = j then _ else _)
      by_cases hij : i = j
      · subst hij
        have hlast := hio rfl
        obtain ⟨cur, -, -, -, hc, -⟩ := hd
        rw [if_pos rfl, hc]
        show ((s.sems.down _).join L _ (s.joined (L.sem i))).Lined _ _
        rw [hlast.joined hc]
        exact h.join hlast.all ((hs.links.queue_short (L.sem i)).trans_lt (by decide))
      · rw [if_neg hij]
        exact h.of_eq (Sems.down_other (fun he => hij (Layout.sem_inj he).symm) _)
  | clockWait => exact h.of_eq (Sems.down_other (fun he => hj (Layout.sem_inj he)) _)
  | signal a => exact h.of_eq (Sems.signal_other (hne hap))
  | wake l => exact h.wakes (hl l rfl) hans
  | tick => exact h.of_eq (Sems.tick_other fun he => hj (Layout.sem_inj he))

/-! ### Runs -/

/-- What a completion should do: the process that wrote the command gets the status, and nobody
is woken if it was killed. -/
def Delivered (L : Layout) (u v : Kernel) (j : Fin semDevLen) (status : Word) : Option PcbId → Prop
  | some p => Completed L u v j p status
  | none => v.readyQueue = u.readyQueue ∧ v.pcbFree_table = u.pcbFree_table ∧
      v.currentProcess = u.currentProcess

section
variable {mem : Word → Word} {support : Word → SupportT} {test ramtop tod : Word}
  {es : List KernelEvent}

/-- On every run in turn, the word of a device counts the commands out, and its queue is the first
of those who gave them. -/
theorem lined_of_run {x : Kernel × List (Option PcbId)} (hj : j ≠ pseudoClock)
    (h : Run (record (step L) (commands j)) (fun x e => Answers j x e ∧ x.1.InTurn L j e)
      (initKernel L mem support test ramtop tod, []) es x) :
    x.1.sems.Lined (L.sem j) x.2 := by
  induction h with
  | nil =>
      have hword : (initKernel L mem support test ramtop tod).sems.word (L.sem j) = 0 :=
        if_pos (L.soft_sem j)
      exact ⟨by rw [hword]; rfl, 0, rfl⟩
  | snoc h hc hs ih =>
      obtain ⟨hst, hcs⟩ := record_eq_some hs
      have hsound := sound_of_run h.forget
      rw [hcs]
      refine lined_did hsound ih (hsound.sems_step hst) (did_step hst) hj hc.1 hc.2.io
        (fun p hp => ⟨hsound.kill_live hp, hc.2.kill p ?_⟩) hc.2.apart fun l hl => act_wake_nodup hl
      rw [hp]
      rfl

/-- **Each completion is delivered to the process that wrote the command it answers**, if it was not
killed, and otherwise to nobody, in every run in which a `DOIO` on the device is issued when the
commands not answered are those of the queue, and by a process of no greater priority than theirs,
and a kill takes the last ones of the queue.  `cs` are the commands not answered. -/
theorem commands_of_run {line : Fin 4} {dev : Fin devPerInt} {saved : State} {i : Inputs}
    {c : Option PcbId} (h : Run (record (step L) (commands (devSemBase line dev)))
      (fun x e => Answers (devSemBase line dev) x e ∧ x.1.InTurn L (devSemBase line dev) e)
      (initKernel L mem support test ramtop tod, []) es (s, c :: cs))
    (hint : causeIsInt saved.cause)
    (hc : saved.cause &&& causeExcCodeMask = BitVec.ofNat 32 (17 + line))
    (hd : getHighestPriorityDevice (i.reg (intBitmap (line + 3))) = some dev)
    (hst : s.step L (.exception saved i) = some t) :
    (∀ p, some p ∈ c :: cs → p ∈ s.queue (L.sem (devSemBase line dev))) ∧
    ∃ u v, u = (s.chargeTime (i.tod 0)).output (.store (devRegBase (line + 3) dev + 4) ack) ∧
      Delivered L u v (devSemBase line dev) (i.reg (devRegBase (line + 3) dev)) c ∧
      t = v.resume saved (i.tod 1) := by
  have hj : devSemBase line dev ≠ pseudoClock := by
    have hline := line.isLt
    have hdev := dev.isLt
    intro he
    have hv : line.val * 8 + dev.val = 48 := congrArg Fin.val he
    unfold devPerInt at hdev
    omega
  have hlined := lined_of_run hj h
  obtain ⟨n, hn⟩ := hlined.line
  have hneg : (s.mem (L.sem (devSemBase line dev))).toInt < 0 := by
    have hw : (s.mem (L.sem (devSemBase line dev))).toInt = -((c :: cs).length : ℤ) := hlined.word
    rw [hw, List.length_cons]
    omega
  have hok := (sound_of_run h.forget).links.asl
  have hq := (quiet_chargeTime s (i.tod 0)).trans (quiet_output (s.chargeTime (i.tod 0))
    (.store (devRegBase (line + 3) dev + 4) ack))
  have hn' : c :: cs = (s.queue (L.sem (devSemBase line dev))).map some ++ .replicate n none := hn
  refine ⟨fun p hp => ?_, _, ((s.chargeTime (i.tod 0)).output
    (.store (devRegBase (line + 3) dev + 4) ack)).wake L (devSemBase line dev)
      (i.reg (devRegBase (line + 3) dev)), rfl, ?_, ?_⟩
  · rw [hn'] at hp
    rcases List.mem_append.mp hp with hp | hp
    · obtain ⟨q, hq, he⟩ := List.mem_map.mp hp
      exact Option.some.inj he ▸ hq
    · cases (List.mem_replicate.mp hp).2
  -- the first command is of the first who waits, or nobody waits and it is of one who was killed
  · cases hqueue : s.queue (L.sem (devSemBase line dev)) with
    | nil =>
        obtain rfl : c = none := by
          rw [hqueue, List.map_nil, List.nil_append] at hn'
          have hm : c ∈ List.replicate n (none : Option PcbId) := hn' ▸ List.mem_cons_self
          exact (List.mem_replicate.mp hm).2
        exact wake_none (by rw [hq.asl]; exact hok) (fun _ => by rw [hq.asl]; exact hqueue) _
    | cons p rest =>
        obtain rfl : c = some p := by
          rw [hqueue] at hn'
          exact (List.cons.inj hn').1
        exact wake_some (by rw [hq.asl]; exact hok) (by rw [hq.mem]; exact hneg)
          (by rw [hq.asl]; exact hqueue) _
  · rw [step_interrupt hst hint]
    exact interruptHandler_line L s line hc hd

/-- The semaphore of disk 0. -/
abbrev disk₀ : Fin semDevLen := devSemBase 0 ⟨0, devPerInt_pos⟩

/-- The registers when disk 0 has completed a command. -/
def diskRegs (a : Word) : Word :=
  if a = intBitmap 3 then 1 else if a = devRegBase 3 0 then 1 else 0

/-- The first process and a child of it wait for the disk, in this order. -/
def inTurn : List KernelEvent :=
  [call (-1) 0 0 0, call (-5) 0x10000058 2 0, call (-5) 0x10000058 3 0]

/-- Two processes each with a command out to one disk, and its interrupt. -/
theorem commands_of_run_disk : ∃ s cs t, Run (record (step layout₀) (commands disk₀))
      (fun x e => Answers disk₀ x e ∧ x.1.InTurn layout₀ disk₀ e)
      (boot₀, []) inTurn (s, cs) ∧ cs.length = 2 ∧
    s.step layout₀ (interrupt 17 diskRegs) = some t ∧
    ∀ p, some p ∈ cs → p ∈ s.queue (layout₀.sem disk₀) := by
  obtain ⟨⟨s, cs⟩, hr, hlen, hst⟩ := exists_run (record (step layout₀) (commands disk₀))
    (fun x e => Answers disk₀ x e ∧ x.1.InTurn layout₀ disk₀ e)
    (fun x => x.2.length = 2 ∧ (x.1.step layout₀ (interrupt 17 diskRegs)).isSome = true)
    (boot₀, []) inTurn (by decide +kernel)
  obtain ⟨t, ht⟩ := Option.isSome_iff_exists.mp hst
  obtain ⟨c, cs, rfl⟩ := List.exists_cons_of_length_pos (l := cs) (by rw [hlen]; decide)
  exact ⟨s, c :: cs, t, hr, hlen, ht,
    (commands_of_run hr (by decide) (by decide) (by decide) ht).1⟩

/-- Two children wait for the disk, and the first process kills the one whose command is first. -/
def killWriter : List KernelEvent := [call (-1) 0 0 0, call (-1) 0 0 0, call (-10) 0 0 0,
  call (-5) 0x10000058 2 0, call (-5) 0x10000058 3 0, call (-2) 2 0 0]

/-- The first process waits for the disk, and then a child of greater priority. -/
def overtake : List KernelEvent :=
  [call (-1) 0 1 0, call (-5) 0x10000058 2 0, call (-5) 0x10000058 3 0]

/-- **A completion goes to the wrong process**: to a waiter though the command it answers is of a
process that was killed, and to the waiter of greater priority though the command it answers is of
the other one, which waits as well. -/
theorem completion_goes_astray :
    (∃ s cs t, Run (record (step layout₀) (commands disk₀))
        (Answers disk₀) (boot₀, []) killWriter (s, none :: cs) ∧
      s.step layout₀ (interrupt 17 diskRegs) = some t ∧
      s.blockedCount (layout₀.sem disk₀) = 1 ∧
      t.blockedCount (layout₀.sem disk₀) = 0) ∧
    ∃ s p cs t, Run (record (step layout₀) (commands disk₀))
        (Answers disk₀) (boot₀, []) overtake (s, some p :: cs) ∧
      s.step layout₀ (interrupt 17 diskRegs) = some t ∧
      s.blockedCount (layout₀.sem disk₀) = 2 ∧
      t.queue (layout₀.sem disk₀) = [p] := by
  constructor
  · obtain ⟨⟨s, cs⟩, hr, hhead, hb, hst⟩ := exists_run
      (record (step layout₀) (commands disk₀)) (Answers disk₀)
      (fun x => x.2.head? = some none ∧ x.1.blockedCount (layout₀.sem disk₀) = 1 ∧
        (x.1.step layout₀ (interrupt 17 diskRegs)).any (fun t : Kernel => decide
          (t.blockedCount (layout₀.sem disk₀) = 0)) = true)
      (boot₀, []) killWriter (by decide +kernel)
    obtain ⟨t, ht, hb'⟩ := (Option.any_eq_true _ _).mp hst
    obtain ⟨cs, rfl⟩ := List.head?_eq_some_iff.mp hhead
    exact ⟨s, cs, t, hr, ht, hb, of_decide_eq_true hb'⟩
  · obtain ⟨⟨s, cs⟩, hr, hhead, hb, hst⟩ := exists_run
      (record (step layout₀) (commands disk₀)) (Answers disk₀)
      (fun x => x.2.head? = some (some first) ∧
        x.1.blockedCount (layout₀.sem disk₀) = 2 ∧
        (x.1.step layout₀ (interrupt 17 diskRegs)).any (fun t : Kernel => decide
          (t.queue (layout₀.sem disk₀) = [first])) = true)
      (boot₀, []) overtake (by decide +kernel)
    obtain ⟨t, ht, hb'⟩ := (Option.any_eq_true _ _).mp hst
    obtain ⟨cs, rfl⟩ := List.head?_eq_some_iff.mp hhead
    exact ⟨s, first, cs, t, hr, ht, hb, of_decide_eq_true hb'⟩

end

end Kernel

end PandOS
