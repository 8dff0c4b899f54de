import PandOS.Phase2.Counting
import PandOS.Phase2.Dispatch

/-!
# Phase 2 — the semaphores of the nucleus, and mutual exclusion

A word that only `PASSEREN`, `VERHOGEN` and the killer change, with the queue of its descriptor, is
the semaphore of the library that the Support Level is modelled with: along a run it is what the
calls made on it so far make of the first state (`semaphore_of_run`), as long as each process that
blocks finds a descriptor and has no higher priority than those who wait.  And a word started at
1 excludes, in whatever order they wait: of the processes between their `PASSEREN` and their
`VERHOGEN` one at most is not blocked on it, and one is if anybody waits (`excluded_of_run`).
-/

namespace PandOS

namespace Kernel

variable {L : Layout} {s t : Kernel} {lossy : Prop} {a : Word} {p q cur : PcbId} {e : KernelEvent}
  {x : Act}

/-- The word at `a` and the queue of its descriptor. -/
def semaphore (s : Kernel) (a : Word) : Sem PcbId := ⟨(s.mem a).toInt, s.queue a⟩

/-- Who waits for `a` in `s` and is killed. -/
def culled (s t : Kernel) (a : Word) : List PcbId := (s.queue a).filter fun p => ¬ t.Live p

/-- The calls a step makes on the semaphore at `a`. -/
def Act.callsOn (s t : Kernel) (a : Word) : Act → List (SemCall PcbId)
  | .pass b | .block b => if b = a then s.currentProcess.toList.map .P else []
  | .signal b => if b = a then [.V] else []
  | .kill _ => (s.culled t a).map .drop
  | _ => []

/-- The history: the calls on the semaphore at `a`. -/
def noteCalls (a : Word) (s : Kernel) (e : KernelEvent) (t : Kernel)
    (cs : List (SemCall PcbId)) : List (SemCall PcbId) := cs ++ (s.act e).callsOn s t a

/-- Who blocks on `a` has no higher priority than those who wait for it. -/
def Behind (a : Word) (s : Kernel) (e : KernelEvent) : Prop :=
  s.act e = .block a → ∀ p ∈ s.currentProcess.toList, ∀ q ∈ s.queue a, s.prio p ≤ s.prio q

instance (a : Word) (s : Kernel) (e : KernelEvent) : Decidable (s.Behind a e) :=
  inferInstanceAs (Decidable (_ → _))

/-! ### One step -/

/-- The word is in range, and counts those who wait below 0. -/
structure InRange (a : Word) (s : Kernel) : Prop where
  low : -2 ^ 31 < (s.mem a).toInt
  waiters : ((s.queue a).length : ℤ) = max 0 (-(s.mem a).toInt)

/-- The semaphore where neither word nor queue changes. -/
theorem semaphore_eq (hw : t.mem a = s.mem a) (hq : t.queue a = s.queue a) :
    t.semaphore a = s.semaphore a := by
  unfold semaphore
  rw [hw, hq]

/-- An act that does not concern `a`. -/
theorem semaphore_frame (he : t.sems = x.sems L s t)
    (hw : (x.sems L s t).word a = s.mem a ∧ (x.sems L s t).queue a = s.queue a) :
    t.semaphore a = s.semaphore a :=
  semaphore_eq ((congrFun (congrArg Sems.word he) a).trans hw.1)
    ((congrFun (congrArg Sems.queue he) a).trans hw.2)

/-- Those who wait and are killed leave with their tokens. -/
theorem semaphore_cull (hs : Sound lossy s) (h : s.InRange a) (ha : ¬ isSoftBlockSemaphore L a)
    (he : t.sems = s.sems.cull L t.Live) :
    t.semaphore a = (s.culled t a).foldl Sem.drop (s.semaphore a) := by
  have hn := hs.links.nodup_queue a
  have hq : t.queue a = (s.queue a).filter fun p => t.Live p := congrFun (congrArg Sems.queue he) a
  have hword : t.mem a = s.mem a + BitVec.ofNat 32 (s.sems.lost a t.Live) :=
    (congrFun (congrArg Sems.word he) a).trans (if_neg ha)
  have hsplit := (s.queue a).length_eq_length_filter_add fun p => decide (t.Live p)
  have hlen : (s.culled t a).length = s.sems.lost a t.Live := by
    show (s.culled t a).length = (s.queue a).length - ((s.queue a).filter fun p => t.Live p).length
    unfold culled
    simp only [decide_not]
    omega
  have hlost : s.sems.lost a t.Live ≤ (s.queue a).length := by
    rw [← hlen]
    exact List.length_filter_le _ _
  have hval : (t.mem a).toInt = (s.mem a).toInt + s.sems.lost a t.Live := by
    have hw := h.waiters
    have hhi : (s.mem a).toInt < 2 ^ 31 := BitVec.toInt_lt
    rw [hword]
    exact toInt_add_nat (by omega)
  rw [Sem.foldl_drop_eq (S := s.semaphore a) (l := s.culled t a) hn (hn.filter _)
    fun i hi => (List.mem_filter.mp hi).1, hlen]
  unfold semaphore
  rw [hval, hq]
  congr 1
  refine List.filter_congr fun p hp => decide_eq_decide.mpr ?_
  simp only [culled, List.mem_filter, hp, true_and, decide_eq_true_eq, not_not]

/-- The process that runs blocks on `a`. -/
theorem semaphore_block (h : s.InRange a) (he : t.sems = (Act.block a).sems L s t)
    (hdid : Did L s (.block a) t) : ∃ cur, s.currentProcess = some cur ∧
      t.semaphore a = ⟨(s.mem a).toInt - 1, s.joined a⟩ ∧
      (s.semaphore a).P cur = ⟨(s.mem a).toInt - 1, s.queue a ++ [cur]⟩ := by
  obtain ⟨⟨cur, u, tod₁, tod₂, hc, -, -⟩, hneg⟩ := hdid
  have hword : t.mem a = s.mem a - 1 :=
    (congrFun (congrArg Sems.word he) a).trans (Function.update_self ..)
  have hq : t.queue a = s.joined a :=
    (congrFun (congrArg Sems.queue he) a).trans (Function.update_self ..)
  rw [toInt_sub_one h.low] at hneg
  refine ⟨cur, hc, ?_, ?_⟩
  · unfold semaphore
    rw [hword, hq, toInt_sub_one h.low]
  · unfold semaphore Sem.P
    rw [if_pos hneg]

/-- **Every step makes its calls on the semaphore.** -/
theorem semaphore_did (hs : Sound lossy s) (h : s.InRange a) (ha : ¬ isSoftBlockSemaphore L a)
    (he : t.sems = x.sems L s t) (hdid : Did L s x t) (hd : ∀ w ∈ x.blocksOn L, s.HasSemd w)
    (hsp : x.storesTo ≠ some a) (hv : x = .signal a → (s.mem a).toInt + 1 < 2 ^ 31)
    (hb : x = .block a → ∀ p ∈ s.currentProcess.toList, ∀ q ∈ s.queue a, s.prio p ≤ s.prio q) :
    t.semaphore a = (x.callsOn s t a).foldl Sem.call (s.semaphore a) := by
  have hj : ∀ j, a ≠ L.sem j := fun j hj => ha (hj ▸ L.soft_sem j)
  -- an act without a call on `a`
  have still : x.callsOn s t a = [] → t.semaphore a = s.semaphore a →
      t.semaphore a = (x.callsOn s t a).foldl Sem.call (s.semaphore a) := by
    intro hnil hsame
    rw [hnil, hsame]
    rfl
  cases x with
  | pass b =>
      by_cases hba : b = a
      · subst hba
        obtain ⟨-, hcur, hneg, -⟩ := hdid
        obtain ⟨cur, hc⟩ := Option.ne_none_iff_exists'.mp hcur
        have hword : t.mem b = s.mem b - 1 :=
          (congrFun (congrArg Sems.word he) b).trans (Function.update_self ..)
        have hq : t.queue b = s.queue b := congrFun (congrArg Sems.queue he) b
        rw [toInt_sub_one h.low] at hneg
        rw [Act.callsOn, if_pos rfl, hc]
        show _ = (s.semaphore b).P cur
        unfold semaphore Sem.P
        rw [hword, hq, toInt_sub_one h.low, if_neg hneg]
      · exact still (if_neg hba) (semaphore_frame he ⟨Function.update_of_ne (Ne.symm hba) .., rfl⟩)
  | block b =>
      by_cases hba : b = a
      · subst hba
        obtain ⟨cur, hc, hafter, hP⟩ := semaphore_block h he hdid
        have hjoin : s.joined b = s.queue b ++ [cur] := by
          unfold joined
          rw [hc]
          dsimp only
          rw [if_pos (hd b rfl)]
          have hlast : ∀ q ∈ s.queue b, s.prio cur ≤ s.prio q := hb rfl cur (by simp [hc])
          exact enqueue_last hlast
        rw [Act.callsOn, if_pos rfl, hc, hafter, hjoin]
        exact hP.symm
      · exact still (if_neg hba) (semaphore_frame he (Sems.down_other (Ne.symm hba) _))
  | signal b =>
      by_cases hba : b = a
      · subst hba
        have hsucc := toInt_add_one (hv rfl)
        rw [Act.callsOn, if_pos rfl]
        show _ = (s.semaphore b).V
        unfold semaphore Sem.V
        by_cases hle : (s.mem b + 1).toInt ≤ 0
        · have he' : t.sems = (s.sems.up b).release b := he.trans (if_pos hle)
          have hword : t.mem b = s.mem b + 1 :=
            (congrFun (congrArg Sems.word he') b).trans (Function.update_self ..)
          have hq : t.queue b = (s.queue b).tail :=
            (congrFun (congrArg Sems.queue he') b).trans (Function.update_self ..)
          rw [hsucc] at hle
          rw [hword, hq, hsucc, if_pos hle]
        · have he' : t.sems = s.sems.up b := he.trans (if_neg hle)
          have hword : t.mem b = s.mem b + 1 :=
            (congrFun (congrArg Sems.word he') b).trans (Function.update_self ..)
          have hq : t.queue b = s.queue b := congrFun (congrArg Sems.queue he') b
          rw [hsucc] at hle
          rw [hword, hq, hsucc, if_neg hle]
      · exact still (if_neg hba) (semaphore_frame he (Sems.signal_other (Ne.symm hba)))
  | kill p =>
      rw [Act.callsOn, Sem.foldl_call_drop]
      exact semaphore_cull hs h ha he
  | store b v =>
      have hb : a ≠ b := fun hab => hsp (congrArg some hab.symm)
      exact still rfl (semaphore_frame he ⟨Function.update_of_ne hb .., rfl⟩)
  | io j => exact still rfl (semaphore_frame he (Sems.down_other (hj j) _))
  | clockWait => exact still rfl (semaphore_frame he (Sems.down_other (hj pseudoClock) _))
  | wake l => exact still rfl (semaphore_frame he (Sems.wakes_other fun x _ => hj x.1))
  | tick => exact still rfl (semaphore_frame he (Sems.tick_other (hj pseudoClock)))
  | quiet | create | requeue => exact still rfl (semaphore_frame he ⟨rfl, rfl⟩)

/-- Whatever the priorities, the order of the queue apart. -/
theorem semaphore_perm (hs : Sound lossy s) (h : s.InRange a) (ha : ¬ isSoftBlockSemaphore L a)
    (he : t.sems = x.sems L s t) (hdid : Did L s x t) (hd : ∀ w ∈ x.blocksOn L, s.HasSemd w)
    (hsp : x.storesTo ≠ some a) (hv : x = .signal a → (s.mem a).toInt + 1 < 2 ^ 31) :
    (t.semaphore a).value = ((x.callsOn s t a).foldl Sem.call (s.semaphore a)).value ∧
      (t.semaphore a).queue.Perm ((x.callsOn s t a).foldl Sem.call (s.semaphore a)).queue := by
  by_cases hx : x = .block a
  · subst hx
    obtain ⟨cur, hc, hafter, hP⟩ := semaphore_block h he hdid
    have hjoin : (s.joined a).Perm (s.queue a ++ [cur]) := by
      unfold joined
      rw [hc]
      dsimp only
      rw [if_pos (hd a rfl)]
      exact (perm_enqueue ..).trans (List.perm_append_singleton ..).symm
    have hcalls : ((Act.block a).callsOn s t a).foldl Sem.call (s.semaphore a) =
        ⟨(s.mem a).toInt - 1, s.queue a ++ [cur]⟩ := by
      rw [Act.callsOn, if_pos rfl, hc]
      exact hP
    rw [hafter, hcalls]
    exact ⟨rfl, hjoin⟩
  · rw [semaphore_did hs h ha he hdid hd hsp hv fun he => absurd he hx]
    exact ⟨rfl, .refl _⟩

theorem semaphore_step (hs : Sound lossy s) (h : s.InRange a) (ha : ¬ isSoftBlockSemaphore L a)
    (hst : s.step L e = some t) (hc : Counting L a s e) (hb : s.Behind a e)
    (hv : s.Signals a e → (s.mem a).toInt + 1 < 2 ^ 31) :
    t.semaphore a = ((s.act e).callsOn s t a).foldl Sem.call (s.semaphore a) :=
  semaphore_did hs h ha (hs.sems_step hst) (did_step hst) hc.1 hc.2 hv hb

/-! ### Runs -/

section
variable {mem : Word → Word} {support : Word → SupportT} {test ramtop tod : Word} {s₀ : Kernel}
  {es₀ es : List KernelEvent} {k : ℕ} {cs : List (SemCall PcbId)}

theorem Obeys.inRange {g : ℕ} (h : s.Obeys a g k) (hs : Sound lossy s) : s.InRange a :=
  ⟨h.low hs, h.waiters⟩

/-- **The nucleus implements the semaphores of the Support Level.**  From any state of a run in which
nobody waits for the word at `a`, as long as nobody stores to it, each process that blocks finds a
descriptor, and nobody blocks on it with a higher priority than those who wait: the word and the queue
are what the calls of `PASSEREN` and `VERHOGEN` so far, and the deaths of waiters, make of the
semaphore it was. -/
theorem semaphore_of_run (ha : ¬ isSoftBlockSemaphore L a)
    (h₀ : Run (step L) anyStep (initKernel L mem support test ramtop tod) es₀ s₀)
    (hq : s₀.queue a = []) (hk : (s₀.mem a).toInt = k)
    (h : Run (record (step L) (noteCalls a)) (fun y e => Counting L a y.1 e ∧ y.1.Behind a e)
      (s₀, []) es (s, cs))
    (hn : k + tally (step L) (Signals a) s₀ es < 2 ^ 31) :
    s.semaphore a = cs.foldl Sem.call ⟨k, []⟩ := by
  suffices hall : ∀ y, Run (record (step L) (noteCalls a))
      (fun y e => Counting L a y.1 e ∧ y.1.Behind a e) (s₀, []) es y →
      y.1.semaphore a = y.2.foldl Sem.call ⟨k, []⟩ from hall (s, cs) h
  clear h
  intro y h
  induction h with
  | nil =>
      show s₀.semaphore a = ⟨k, []⟩
      unfold semaphore
      rw [hk, hq]
  | snoc h hc hs ih =>
      rename_i y z es e
      obtain ⟨hst, hnote⟩ := record_eq_some hs
      have hrun : Run (step L) (Counting L a) s₀ es y.1 :=
        (Run.unrecord (D := fun u e => Counting L a u e ∧ u.Behind a e) h).mono fun _ _ hd => hd.1
      rw [hrun.tally_snoc] at hn
      have hsound := sound_of_run (h₀.append (hrun.mono fun _ _ _ => trivial))
      have ho := obeys_of_run ha h₀ hq hk hrun (by omega)
      rw [semaphore_step hsound (ho.inRange hsound) ha hst hc.1 hc.2 fun hsig => ?_, hnote,
        noteCalls, List.foldl_append, ih (by omega)]
      -- the value is at most the tokens given
      have hbal := ho.balance
      rw [if_pos hsig] at hn
      omega

/-! ### Mutual exclusion -/

/-- The history: who has done `PASSEREN` on `a` and not yet `VERHOGEN`. -/
def enter (a : Word) (s : Kernel) (e : KernelEvent) (t : Kernel) (I : List PcbId) : List PcbId :=
  match s.act e with
  | .pass b | .block b => if b = a then s.currentProcess.toList ++ I else I
  | .signal b => if b = a then I.filter fun p => s.currentProcess ≠ some p else I
  | .kill _ => I.filter fun p => t.Live p
  | _ => I

/-- `PASSEREN` is done by who is outside, `VERHOGEN` by who is inside, and who is killed is outside
or still waits. -/
def Brackets (L : Layout) (a : Word) (y : Kernel × List PcbId) (e : KernelEvent) : Prop :=
  match y.1.act e with
  | .pass b | .block b => b = a → ∀ p ∈ y.1.currentProcess.toList, p ∉ y.2
  | .signal b => b = a → ∀ p ∈ y.1.currentProcess.toList, p ∈ y.2
  | .kill _ => ∀ t ∈ y.1.step L e, ∀ p ∈ y.2, t.Live p ∨ p ∈ y.1.queue a
  | _ => True

instance (L : Layout) (a : Word) (y : Kernel × List PcbId) (e : KernelEvent) :
    Decidable (Brackets L a y e) := by
  unfold Brackets
  split <;> infer_instance

theorem mutex_inRange {I : PcbId → Prop} (h : Mutex (s.semaphore a) I) (hs : Sound lossy s) :
    s.InRange a ∧ (s.mem a).toInt ≤ 1 := by
  have hlen := hs.links.queue_short a
  have h20 : maxProc = 20 := rfl
  have hold := h.holder
  unfold semaphore at hold
  dsimp only at hold
  rcases hold with ⟨hv, hq, -⟩ | ⟨hv, -⟩
  · exact ⟨⟨by omega, by rw [hq]; simp [hv]⟩, by omega⟩
  · exact ⟨⟨by omega, by omega⟩, by omega⟩

/-- The process that runs enters. -/
theorem mutex_enter {I : List PcbId} (h : Mutex (s.semaphore a) fun p => p ∈ I)
    (hc : s.currentProcess = some cur) (hout : cur ∉ I) :
    Mutex ((s.currentProcess.toList.map SemCall.P).foldl Sem.call (s.semaphore a))
      fun p => p ∈ s.currentProcess.toList ++ I := by
  rw [hc]
  exact (h.P hout).congr fun p => by simp [or_comm]

/-- The process that runs leaves. -/
theorem mutex_leave {I : List PcbId} (h : Mutex (s.semaphore a) fun p => p ∈ I)
    (hs : Sound lossy s) (hc : s.currentProcess = some cur) (hin : cur ∈ I) :
    Mutex (s.semaphore a).V fun p => p ∈ I.filter fun p => s.currentProcess ≠ some p := by
  have hrun : cur ∉ s.queue a := fun hq => by
    obtain ⟨d, hd, -⟩ := hs.links.asl.mem_queue.mp hq
    exact (hs.links.current hc).2.2 d hd
  rw [hc]
  refine (h.V hin hrun).congr fun p => ?_
  rw [List.mem_filter, decide_eq_true_eq]
  exact and_congr_right fun _ => not_congr ⟨fun he => congrArg some he.symm, fun he =>
    (Option.some.inj he).symm⟩

/-- Those who wait may be killed. -/
theorem mutex_kill {I : List PcbId} (h : Mutex (s.semaphore a) fun p => p ∈ I)
    (hw : ∀ p ∈ I, t.Live p ∨ p ∈ s.queue a) :
    Mutex (((s.culled t a).map SemCall.drop).foldl Sem.call (s.semaphore a))
      fun p => p ∈ I.filter fun p => t.Live p := by
  have hn : (s.queue a).Nodup := h.nodup
  rw [Sem.foldl_call_drop]
  refine (h.drops (l := s.culled t a) (hn.filter _) fun p hp => (List.mem_filter.mp hp).1).congr
    fun p => ?_
  constructor
  · intro ⟨hp, hno⟩
    refine List.mem_filter.mpr ⟨hp, decide_eq_true ?_⟩
    by_contra hl
    exact hno (List.mem_filter.mpr ⟨(hw p hp).resolve_left hl, decide_eq_true hl⟩)
  · intro hp
    obtain ⟨hpI, hl⟩ := List.mem_filter.mp hp
    exact ⟨hpI, fun hd => of_decide_eq_true (List.mem_filter.mp hd).2 (of_decide_eq_true hl)⟩

/-- **A step keeps the law.** -/
theorem mutex_step {I : List PcbId} (h : Mutex (s.semaphore a) fun p => p ∈ I) (hs : Sound lossy s)
    (ha : ¬ isSoftBlockSemaphore L a) (hst : s.step L e = some t) (hc : Counting L a s e)
    (hbr : Brackets L a (s, I) e) : Mutex (t.semaphore a) fun p => p ∈ enter a s e t I := by
  obtain ⟨hr, hle⟩ := mutex_inRange h hs
  have hdid := did_step hst
  obtain ⟨hval, hqueue⟩ := semaphore_perm hs hr ha (hs.sems_step hst) hdid hc.1 hc.2
    fun _ => by omega
  refine .perm ?_ hval hqueue
  clear hval hqueue
  unfold Brackets at hbr
  unfold enter
  dsimp only at hbr
  generalize s.act e = x at hdid hbr ⊢
  cases x with
  | pass b =>
      obtain ⟨cur, hcur⟩ := Option.ne_none_iff_exists'.mp hdid.2.1
      dsimp only [Act.callsOn] at hbr ⊢
      split
      · rename_i hba
        exact mutex_enter h hcur (hbr hba cur (by simp [hcur]))
      · exact h
  | block b =>
      obtain ⟨⟨cur, -, -, -, hcur, -, -⟩, -⟩ := hdid
      dsimp only [Act.callsOn] at hbr ⊢
      split
      · rename_i hba
        exact mutex_enter h hcur (hbr hba cur (by simp [hcur]))
      · exact h
  | signal b =>
      obtain ⟨cur, hcur⟩ := Option.ne_none_iff_exists'.mp hdid.1
      dsimp only [Act.callsOn] at hbr ⊢
      split
      · rename_i hba
        exact mutex_leave h hs hcur (hbr hba cur (by simp [hcur]))
      · exact h
  | kill p => exact mutex_kill h (hbr t hst)
  | _ => exact h

/-- **A word started at 1 excludes**, in whatever order they wait.  As long as nobody stores to it
and each process that blocks finds a descriptor, `PASSEREN` is done by who is outside and
`VERHOGEN` by who is inside, and nobody is killed inside unless it still waits: two processes inside
that are not blocked on the word are one; if anybody waits, some process inside does not; and who
waits is inside. -/
theorem excluded_of_run (ha : ¬ isSoftBlockSemaphore L a)
    (h₀ : Run (step L) anyStep (initKernel L mem support test ramtop tod) es₀ s₀)
    (hq : s₀.queue a = []) (h1 : s₀.mem a = 1) {I : List PcbId}
    (h : Run (record (step L) (enter a))
      (fun y e => Counting L a y.1 e ∧ Brackets L a y e) (s₀, []) es (s, I)) :
    (∀ p ∈ I, ∀ q ∈ I, p ∉ s.queue a → q ∉ s.queue a → p = q) ∧
    (s.queue a ≠ [] → ∃ p ∈ I, p ∉ s.queue a) ∧ ∀ p ∈ s.queue a, p ∈ I := by
  have hI := h.inv (I := fun y => Sound True y.1 ∧ Mutex (y.1.semaphore a) fun p => p ∈ y.2)
    ⟨sound_of_run h₀, ?_⟩ fun y e z hy hc hs => ?_
  · obtain ⟨-, hm⟩ := hI
    refine ⟨fun p hp q hq hpq hqq => hm.unique hp hpq hq hqq, fun hne => ?_, hm.sub⟩
    refine hm.exists_holder ?_
    rcases hm.holder with ⟨-, hnil, -⟩ | ⟨hv, -⟩
    · exact absurd hnil hne
    · rw [hv]
      omega
  · have hfree : s₀.semaphore a = ⟨1, []⟩ := by
      unfold semaphore
      rw [h1, hq]
      rfl
    rw [hfree]
    exact .free fun p => List.not_mem_nil
  · obtain ⟨hst, hnote⟩ := record_eq_some hs
    refine ⟨hy.1.step hst (fun _ _ => .inl trivial) fun _ _ => .inl trivial, ?_⟩
    rw [hnote]
    exact mutex_step hy.2 hy.1 ha hst hc.1 hc.2

/-- As `pair`, with the calls that are made. -/
theorem semaphore_of_run_pair : ∃ s₀ s cs, Run (step layout₀) anyStep boot₀ [.store 0x1000 1] s₀ ∧
    Run (record (step layout₀) (noteCalls 0x1000))
      (fun y e => Counting layout₀ 0x1000 y.1 e ∧ y.1.Behind 0x1000 e) (s₀, []) pair (s, cs) ∧
    cs = [.P first, .P ⟨18, by decide⟩, .V] ∧
    s.semaphore 0x1000 = cs.foldl Sem.call ⟨1, []⟩ := by
  have hs₀ : Run (step layout₀) anyStep boot₀ [.store 0x1000 1] (boot₀.setMem 0x1000 1) :=
    run_of_exec rfl
  obtain ⟨⟨s, cs⟩, hr, hcs⟩ := exists_run (record (step layout₀) (noteCalls 0x1000))
    (fun y e => Counting layout₀ 0x1000 y.1 e ∧ y.1.Behind 0x1000 e)
    (fun y => y.2 = [.P first, .P ⟨18, by decide⟩, .V]) (boot₀.setMem 0x1000 1, []) pair
    (by decide +kernel)
  have hn : (1 : ℕ) + tally (step layout₀) (Signals 0x1000) (boot₀.setMem 0x1000 1) pair < 2 ^ 31 := by
    decide +kernel
  exact ⟨_, s, cs, hs₀, hr, hcs,
    semaphore_of_run (k := 1) (by decide) hs₀ (by decide +kernel) (by decide +kernel) hr hn⟩

/-- The first process is inside and the second waits. -/
theorem excluded_of_run_pair : ∃ s₀ s I, Run (step layout₀) anyStep boot₀ [.store 0x1000 1] s₀ ∧
    Run (record (step layout₀) (enter 0x1000))
      (fun y e => Counting layout₀ 0x1000 y.1 e ∧ Brackets layout₀ 0x1000 y e) (s₀, [])
      (pair.take 4) (s, I) ∧
    I = [⟨18, by decide⟩, first] ∧ s.queue 0x1000 ≠ [] ∧ ∃ p ∈ I, p ∉ s.queue 0x1000 := by
  have hs₀ : Run (step layout₀) anyStep boot₀ [.store 0x1000 1] (boot₀.setMem 0x1000 1) :=
    run_of_exec rfl
  obtain ⟨⟨s, I⟩, hr, hI, hne⟩ := exists_run (record (step layout₀) (enter 0x1000))
    (fun y e => Counting layout₀ 0x1000 y.1 e ∧ Brackets layout₀ 0x1000 y e)
    (fun y => y.2 = [⟨18, by decide⟩, first] ∧ y.1.queue 0x1000 ≠ []) (boot₀.setMem 0x1000 1, [])
    (pair.take 4) (by decide +kernel)
  exact ⟨_, s, I, hs₀, hr, hI, hne,
    (excluded_of_run (by decide) hs₀ (by decide +kernel) (by decide +kernel) hr).2.1 hne⟩

end

end Kernel

end PandOS
