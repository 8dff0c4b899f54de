import PandOS.Phase2.Allocation

/-!
# Phase 2 — what one step does to the semaphores

`Sems` is what the nucleus keeps about semaphores: the words, the queues, and `softBlockCount`.
Its operations say what the services, the interrupts and the killer do to it, whatever the
descriptors look like.  `Sound.sems`: every step of the nucleus is one of them; the laws about
semaphores are proved from this.
-/

namespace PandOS

/-- The addresses inside `deviceSemaphores`. -/
def Layout.inside (L : Layout) : Finset Word :=
  (Finset.range (wordLen * semDevLen)).image fun i => L.deviceSemaphores + BitVec.ofNat 32 i

/-- The addresses of the device semaphores are those `isSoftBlockSemaphore` accepts. -/
theorem Layout.mem_inside {L : Layout} {a : Word} :
    a ∈ L.inside ↔ isSoftBlockSemaphore L a := by
  have hf := L.fits
  have hw : wordLen * semDevLen = 196 := rfl
  have hadd : ∀ i, i < 196 → (L.deviceSemaphores + BitVec.ofNat 32 i).toNat =
      L.deviceSemaphores.toNat + i := by
    intro i hi
    rw [BitVec.toNat_add, BitVec.toNat_ofNat]
    omega
  unfold Layout.inside isSoftBlockSemaphore
  rw [Finset.mem_image]
  constructor
  · intro h
    obtain ⟨i, hi, rfl⟩ := h
    rw [Finset.mem_range] at hi
    rw [hadd i (by omega)]
    omega
  · intro h
    refine ⟨a.toNat - L.deviceSemaphores.toNat, Finset.mem_range.mpr (by omega), ?_⟩
    refine BitVec.eq_of_toNat_eq ?_
    rw [hadd _ (by omega)]
    omega

theorem Layout.soft_sem (L : Layout) (j : Fin semDevLen) : isSoftBlockSemaphore L (L.sem j) := by
  rw [← Layout.mem_inside]
  refine Finset.mem_image.mpr ⟨wordLen * j.val, Finset.mem_range.mpr ?_, rfl⟩
  have hj := j.isLt
  unfold wordLen
  omega

/-! ### Words as integers -/

theorem toInt_add_nat {w : Word} {n : ℕ} (hn : w.toInt + n < 2 ^ 31) :
    (w + BitVec.ofNat 32 n).toInt = w.toInt + n := by
  have hlo : -2 ^ 31 ≤ w.toInt := BitVec.le_toInt w
  rw [BitVec.toInt_add, BitVec.toInt_ofNat', Int.add_bmod_bmod]
  exact Int.bmod_eq_of_le (by omega) (by omega)

theorem toInt_add_one {w : Word} (h : w.toInt + 1 < 2 ^ 31) : (w + 1).toInt = w.toInt + 1 :=
  toInt_add_nat (n := 1) h

theorem toInt_sub_one {w : Word} (h : -2 ^ 31 < w.toInt) : (w - 1).toInt = w.toInt - 1 := by
  have hhi : w.toInt < 2 ^ 31 := BitVec.toInt_lt
  rw [BitVec.toInt_sub, show (1 : Word).toInt = 1 from rfl]
  exact Int.bmod_eq_of_le (by omega) (by omega)

/-! ### What the nucleus keeps -/

/-- The words, the queues, and the counter of processes blocked on devices. -/
structure Sems where
  word : Word → Word
  queue : Word → List PcbId
  soft : ℤ

namespace Sems

variable (L : Layout) (S : Sems) (a : Word)

@[ext] theorem ext' {S T : Sems} (hw : S.word = T.word) (hq : S.queue = T.queue)
    (hs : S.soft = T.soft) : S = T := by
  cases S
  cases T
  cases hw
  cases hq
  cases hs
  rfl

/-- The word at `a` is written. -/
def setWord (v : Word) : Sems := { S with word := Function.update S.word a v }

/-- The queue of the semaphore at `a` is written. -/
def setQueue (q : List PcbId) : Sems := { S with queue := Function.update S.queue a q }

/-- A token is taken. -/
def down : Sems := S.setWord a (S.word a - 1)

/-- A token is given. -/
def up : Sems := S.setWord a (S.word a + 1)

/-- A process blocks; the queue becomes `q`. -/
def join (q : List PcbId) : Sems :=
  { S.setQueue a q with soft := if isSoftBlockSemaphore L a then S.soft + 1 else S.soft }

/-- The first process leaves the queue. -/
def release : Sems := S.setQueue a (S.queue a).tail

/-- `VERHOGEN`. -/
def signal : Sems := if (S.word a + 1).toInt ≤ 0 then (S.up a).release a else S.up a

/-- The `V` of a device. -/
def wake (j : Fin semDevLen) : Sems :=
  if (S.word (L.sem j)).toInt < 0 then
    { (S.up (L.sem j)).release (L.sem j) with
      soft := if S.queue (L.sem j) = [] then S.soft else S.soft - 1 }
  else S

/-- The pseudo-clock tick. -/
def tick : Sems :=
  { (S.setQueue (L.sem pseudoClock) []).setWord (L.sem pseudoClock) 0 with
    soft := S.soft - (S.queue (L.sem pseudoClock)).length }

/-- How many processes of the queue are not live. -/
def lost (live : PcbId → Prop) [DecidablePred live] : ℕ :=
  (S.queue a).length - ((S.queue a).filter fun p => live p).length

/-- The processes that are not live leave their queues. -/
def cull (live : PcbId → Prop) [DecidablePred live] : Sems where
  word a := if isSoftBlockSemaphore L a then S.word a else S.word a + BitVec.ofNat 32 (S.lost a live)
  queue a := (S.queue a).filter fun p => live p
  soft := S.soft - ∑ a ∈ L.inside, (S.lost a live : ℤ)

/-- `cull` depends on who is live. -/
theorem cull_congr {live live' : PcbId → Prop} [DecidablePred live] [DecidablePred live']
    (h : ∀ p, live p ↔ live' p) : S.cull L live = S.cull L live' := by
  have hf : (fun p => decide (live p)) = fun p => decide (live' p) :=
    funext fun p => decide_eq_decide.mpr (h p)
  unfold cull lost
  rw [hf]

/-- One more process leaves the queues. -/
theorem lost_erase {p : PcbId} {live live' : PcbId → Prop} [DecidablePred live]
    [DecidablePred live'] (h : ∀ q, live' q ↔ q ≠ p ∧ live q)
    (hn : ((S.queue a).filter fun q => live q).Nodup) :
    (S.queue a).filter (fun q => live' q) = ((S.queue a).filter fun q => live q).erase p ∧
    S.lost a live' = S.lost a live + if p ∈ (S.queue a).filter (fun q => live q) then 1 else 0 := by
  have hf : (S.queue a).filter (fun q => live' q) =
      ((S.queue a).filter fun q => live q).erase p := by
    rw [hn.erase_eq_filter, List.filter_filter]
    refine List.filter_congr fun q _ => ?_
    by_cases hq : q = p <;> simp [h, hq]
  refine ⟨hf, ?_⟩
  have hle := List.length_filter_le (fun q => decide (live q)) (S.queue a)
  unfold lost
  rw [hf, List.length_erase]
  by_cases hp : p ∈ (S.queue a).filter fun q => live q
  · have hpos := List.length_pos_of_mem hp
    rw [if_pos hp, if_pos hp]
    omega
  · rw [if_neg hp, if_neg hp, add_zero]

/-! ### What is left alone -/

variable {L S a}

theorem wake_other {j : Fin semDevLen} (h : a ≠ L.sem j) :
    (S.wake L j).word a = S.word a ∧ (S.wake L j).queue a = S.queue a := by
  unfold wake
  split
  · exact ⟨Function.update_of_ne h .., Function.update_of_ne h ..⟩
  · exact ⟨rfl, rfl⟩

theorem wakes_other {l : List (Fin semDevLen × Word)} (h : ∀ x ∈ l, a ≠ L.sem x.1) :
    (l.foldl (fun S x => S.wake L x.1) S).word a = S.word a ∧
    (l.foldl (fun S x => S.wake L x.1) S).queue a = S.queue a := by
  induction l generalizing S with
  | nil => exact ⟨rfl, rfl⟩
  | cons x l ih =>
      obtain ⟨hw, hq⟩ := ih (S := S.wake L x.1) fun y hy => h y (List.mem_cons_of_mem _ hy)
      obtain ⟨hw', hq'⟩ := wake_other (S := S) (h x List.mem_cons_self)
      exact ⟨hw.trans hw', hq.trans hq'⟩

theorem tick_other (h : a ≠ L.sem pseudoClock) :
    (S.tick L).word a = S.word a ∧ (S.tick L).queue a = S.queue a :=
  ⟨Function.update_of_ne h .., Function.update_of_ne h ..⟩

theorem down_other {b : Word} (h : a ≠ b) (q : List PcbId) :
    ((S.down b).join L b q).word a = S.word a ∧ ((S.down b).join L b q).queue a = S.queue a :=
  ⟨Function.update_of_ne h .., Function.update_of_ne h ..⟩

theorem signal_other {b : Word} (h : a ≠ b) :
    (S.signal b).word a = S.word a ∧ (S.signal b).queue a = S.queue a := by
  unfold signal
  split
  · exact ⟨Function.update_of_ne h .., Function.update_of_ne h ..⟩
  · exact ⟨Function.update_of_ne h .., rfl⟩

end Sems

namespace Kernel

variable {L : Layout} {s t u : Kernel} {lossy : Prop} {p q cur target : PcbId} {a b : Word}

/-- The semaphores. -/
def sems (s : Kernel) : Sems := ⟨s.mem, s.queue, s.softBlockCount⟩

/-- The semaphores are the same. -/
structure SameSems (s t : Kernel) : Prop where
  asl : t.toAsl = s.toAsl
  mem : t.mem = s.mem
  soft : t.softBlockCount = s.softBlockCount

theorem SameSems.sems (h : SameSems s t) : t.sems = s.sems := by
  unfold Kernel.sems
  rw [h.asl, h.mem, h.soft]

theorem Quiet.sameSems (h : Quiet s t) : SameSems s t := ⟨h.asl, h.mem, h.soft⟩

theorem sameSems_scheduler (s : Kernel) (tod : Word) : SameSems s (s.scheduler tod) := by
  unfold Kernel.scheduler
  split
  · exact ⟨rfl, rfl, rfl⟩
  · split
    · exact ⟨rfl, rfl, rfl⟩
    · split
      · exact ⟨rfl, rfl, rfl⟩
      · split <;> exact ⟨rfl, rfl, rfl⟩

theorem sameSems_resumes (h : Resumes s t) : SameSems s t := by
  unfold Resumes at h
  split at h
  · obtain ⟨tod, rfl⟩ := h
    exact sameSems_scheduler s tod
  · exact h.1.sameSems

theorem sems_setMem (s : Kernel) (a v : Word) : (s.setMem a v).sems = s.sems.setWord a v := rfl

/-! ### Blocking -/

/-- The queue of the semaphore once the process that runs has blocked on it. -/
def joined (s : Kernel) (a : Word) : List PcbId :=
  match s.currentProcess with
  | some cur => if s.HasSemd a then s.insertProcQ (s.queue a) cur else s.queue a
  | none => s.queue a

theorem insertProcQ_congr {v w : Pcbs}
    (h : ∀ p, (w.pcbFree_table p).p_prio = (v.pcbFree_table p).p_prio) (l : List PcbId)
    (p : PcbId) : w.insertProcQ l p = v.insertProcQ l p := by
  unfold Pcbs.insertProcQ
  simp only [h]

/-- `insertBlocked` puts the process in the queue, if there is a descriptor for it. -/
theorem insertBlocked_queue_eq {x : Phase1} (hok : x.toAsl.Ok) (a b : Word) (p : PcbId) :
    (x.insertBlocked a p).2.queue b = if b = a then
      (if (x.find a).isSome = true ∨ x.semdFree_h ≠ [] then x.insertProcQ (x.queue a) p
        else x.queue a) else x.queue b := by
  cases hb : (x.insertBlocked a p).1 with
  | false =>
      rw [Phase1.insertBlocked_queue hok hb]
      split
      · refine (if_pos ?_).symm
        rcases x.insertBlocked_cases a p with ⟨d, hf, -⟩ | ⟨-, d, rest, hl, -⟩ | ⟨-, -, he⟩
        · exact .inl (by rw [hf]; rfl)
        · exact .inr (by rw [hl]; exact List.cons_ne_nil d rest)
        · rw [he] at hb
          cases hb
      · rfl
  | true =>
      rw [Phase1.insertBlocked_true hb]
      rcases x.insertBlocked_cases a p with ⟨d, -, he⟩ | ⟨-, d, rest, -, he⟩ | ⟨hf, hl, -⟩
      · rw [he] at hb
        cases hb
      · rw [he] at hb
        cases hb
      · have hno : ¬ ((x.find a).isSome = true ∨ x.semdFree_h ≠ []) := by simp [hf, hl]
        rw [if_neg hno]
        split
        · rename_i hba
          rw [hba]
        · rfl

/-- Blocking takes a token and joins the queue. -/
theorem sems_blocks (h : Sound lossy s) (hb : Blocks L s a t) :
    t.sems = (s.sems.down a).join L a (s.joined a) := by
  obtain ⟨cur, u, tod₁, tod₂, hc, hq, rfl⟩ := hb
  rw [blockCurrentProcess_eq, (sameSems_scheduler _ tod₂).sems]
  -- no priority has changed, so the process is inserted where it would be in `s`
  have hprio : ∀ x, (((u.updateCPUTime cur tod₁).modify cur fun pcb =>
      { pcb with p_semAdd := a }).pcbFree_table x).p_prio = (s.pcbFree_table x).p_prio := by
    intro x
    have hx := (hq.trans (quiet_updateCPUTime u cur tod₁)).field (g := Pcb.p_prio)
      (fun _ _ _ => rfl) x
    refine Eq.trans ?_ hx
    exact Pcbs.modify_field (s := (u.updateCPUTime cur tod₁).toPcbs) (p := cur)
      (f := fun pcb => { pcb with p_semAdd := a }) (g := Pcb.p_prio) (fun _ => rfl) x
  have hasl : ((u.updateCPUTime cur tod₁).modify cur fun pcb =>
      { pcb with p_semAdd := a }).toAsl = s.toAsl := hq.asl
  have hqueue : ∀ b, (((u.updateCPUTime cur tod₁).modify cur fun pcb =>
      { pcb with p_semAdd := a }).toPhase1.insertBlocked a cur).2.queue b =
      Function.update s.queue a (s.joined a) b := by
    intro b
    rw [insertBlocked_queue_eq (by rw [hasl]; exact h.links.asl)]
    have hins := insertProcQ_congr (v := s.toPcbs) hprio (s.queue a) cur
    unfold joined HasSemd
    rw [hc, hasl, hins]
    by_cases hba : b = a
    · rw [hba, if_pos rfl, Function.update_self]
      rfl
    · rw [if_neg hba, Function.update_of_ne hba]
  refine Sems.ext' ?_ (funext fun b => ?_) ?_
  · refine Eq.trans ?_ hq.mem
    unfold blocked
    dsimp only
    split <;> rfl
  · refine Eq.trans ?_ (hqueue b)
    unfold blocked
    dsimp only
    split <;> rfl
  · have hs := hq.soft
    unfold blocked Sems.join
    dsimp only
    split
    · rename_i hsoft
      show u.softBlockCount + 1 = s.softBlockCount + 1
      rw [hs]
      rfl
    · exact hs

/-! ### Releasing -/

/-- `release` takes the head of the queue. -/
theorem release_spec (hok : s.toAsl.Ok) (a : Word) (f : State → State) :
    (s.release a f).1 = (s.queue a).head? ∧ (s.release a f).2.sems = s.sems.release a := by
  have hq := fun b => Phase1.removeBlocked_queue (s := s.toPhase1) hok a b
  have hqueue : (s.toPhase1.removeBlocked a).2.queue =
      Function.update s.queue a (s.queue a).tail := by
    funext b
    rw [(hq b).2]
    by_cases hba : b = a
    · rw [hba, if_pos rfl, Function.update_self]
    · rw [if_neg hba, Function.update_of_ne hba]
  have hfst := (hq a).1
  unfold Kernel.release
  generalize s.toPhase1.removeBlocked a = r at hfst hqueue ⊢
  obtain ⟨x, v⟩ := r
  cases x with
  | none => exact ⟨hfst, Sems.ext' rfl hqueue rfl⟩
  | some p => exact ⟨hfst, Sems.ext' rfl hqueue rfl⟩

/-- Nobody waits: everybody stays as it is. -/
theorem release_none {f : State → State} (h : (s.release a f).1 = none) :
    (s.release a f).2.readyQueue = s.readyQueue ∧
    (s.release a f).2.pcbFree_table = s.pcbFree_table := by
  have hp := removeBlocked_pcbs s.toPhase1 a
  unfold Kernel.release at h ⊢
  generalize s.toPhase1.removeBlocked a = r at h hp ⊢
  obtain ⟨x, v⟩ := r
  cases x with
  | none => exact ⟨rfl, congrArg Pcbs.pcbFree_table hp⟩
  | some p => cases h

/-- Who is released is ready. -/
theorem release_some {f : State → State} (h : (s.release a f).1 = some p) :
    (s.release a f).2.readyQueue = s.insertProcQ s.readyQueue p ∧
    (s.release a f).2.pcbFree_table = Function.update s.pcbFree_table p { s.pcbFree_table p with
      p_semAdd := 0
      p_s := f (s.pcbFree_table p).p_s } ∧
    (s.release a f).2.currentProcess = s.currentProcess := by
  have hp := removeBlocked_pcbs s.toPhase1 a
  unfold Kernel.release at h ⊢
  generalize s.toPhase1.removeBlocked a = r at h hp ⊢
  obtain ⟨x, v⟩ := r
  cases x with
  | none => cases h
  | some q =>
      obtain rfl : q = p := Option.some.inj h
      have htable : v.pcbFree_table = s.pcbFree_table := congrArg Pcbs.pcbFree_table hp
      refine ⟨?_, ?_, rfl⟩
      · refine insertProcQ_congr (fun x => ?_) _ _
        refine Eq.trans (Pcbs.modify_field (s := v.toPcbs) (p := q) (f := fun pcb =>
          { pcb with p_semAdd := 0, p_s := f pcb.p_s }) (g := Pcb.p_prio) (fun _ => rfl) x) ?_
        rw [htable]
      · show Function.update v.pcbFree_table q _ = _
        rw [htable]

/-- The `V` of a device, on the semaphores. -/
theorem sems_wake (h : Sound lossy s) (j : Fin semDevLen) (status : Word) :
    (s.wake L j status).sems = s.sems.wake L j := by
  unfold Kernel.wake Sems.wake
  by_cases hneg : (s.mem (L.sem j)).toInt < 0
  · have hr := release_spec (s := s.setMem (L.sem j) (s.mem (L.sem j) + 1)) h.links.asl (L.sem j)
      fun st => { st with reg_a0 := status }
    have hneg' : (s.sems.word (L.sem j)).toInt < 0 := hneg
    rw [if_pos hneg, if_pos hneg']
    generalize (s.setMem (L.sem j) (s.mem (L.sem j) + 1)).release (L.sem j)
      (fun st => { st with reg_a0 := status }) = r at hr ⊢
    obtain ⟨x, v⟩ := r
    obtain ⟨hx, hv⟩ := hr
    have hx : x = (s.queue (L.sem j)).head? := hx
    cases x with
    | none =>
        have hnil : s.sems.queue (L.sem j) = [] := List.head?_eq_none_iff.mp hx.symm
        rw [if_pos hnil]
        exact hv
    | some p =>
        have hne : s.sems.queue (L.sem j) ≠ [] := fun hnil => by
          rw [show s.queue (L.sem j) = [] from hnil] at hx
          cases hx
        rw [if_neg hne]
        have hword := congrArg Sems.word hv
        have hqueue := congrArg Sems.queue hv
        have hsoft := congrArg (fun S => S.soft - 1) hv
        exact Sems.ext' hword hqueue hsoft
  · have hneg' : ¬ (s.sems.word (L.sem j)).toInt < 0 := hneg
    rw [if_neg hneg, if_neg hneg']

theorem sems_wakes {l : List (Fin semDevLen × Word)} (h : Sound lossy s) (hw : Wakes L l s t) :
    t.sems = l.foldl (fun S x => S.wake L x.1) s.sems := by
  induction l generalizing s with
  | nil => exact (Quiet.sameSems hw).sems
  | cons x l ih =>
      obtain ⟨u, hu, hw⟩ := hw
      have hsu := h.quiet hu
      rw [ih (hsu.wake x.1 x.2) hw, sems_wake hsu, hu.sameSems.sems]
      rfl

/-- A queue has each process once. -/
theorem Linked.nodup_queue (h : Linked lossy s none) (a : Word) : (s.queue a).Nodup := by
  refine List.nodup_iff_count_le_one.mpr fun p => ?_
  cases hf : s.find a with
  | none =>
      rw [Asl.queue, hf]
      exact Nat.zero_le _
  | some d =>
      have h₁ := Asl.count_le_queuedCount (s := s.toAsl) (p := p) d
      have h₂ := h.le_one p
      unfold places at h₂
      rw [Asl.queue, hf]
      show (s.semd_table d).s_procq.count p ≤ 1
      omega

/-- No more processes wait than there are. -/
theorem Linked.queue_short (h : Linked lossy s none) (a : Word) : (s.queue a).length ≤ maxProc := by
  have hle := (h.nodup_queue a).length_le_card
  rwa [Fintype.card_fin] at hle

/-- The last turn of the interval timer's loop: nobody waits. -/
theorem release_clock_nil (h : Sound lossy s) (hq : s.queue (L.sem pseudoClock) = []) : ∃ v,
    s.release (L.sem pseudoClock) (fun st => { st with reg_a0 := 0 }) = (none, v) ∧
      v.sems = s.sems.release (L.sem pseudoClock) := by
  have hr := release_spec h.links.asl (L.sem pseudoClock) fun st => { st with reg_a0 := 0 }
  generalize s.release (L.sem pseudoClock) (fun st => { st with reg_a0 := 0 }) = r at hr ⊢
  obtain ⟨x, v⟩ := r
  obtain ⟨hx, hv⟩ := hr
  rw [hq] at hx
  exact ⟨v, congrArg (·, v) hx, hv⟩

/-- Another turn: the first of the queue is ready. -/
theorem release_clock (h : Sound lossy s) {rest : List PcbId}
    (hq : s.queue (L.sem pseudoClock) = p :: rest) : ∃ v,
    s.release (L.sem pseudoClock) (fun st => { st with reg_a0 := 0 }) = (some p, v) ∧
      v.sems = s.sems.release (L.sem pseudoClock) ∧
      Sound lossy { v with softBlockCount := v.softBlockCount - 1 } ∧
      ({ v with softBlockCount := v.softBlockCount - 1 } : Kernel).queue (L.sem pseudoClock) =
        rest := by
  have hr := release_spec h.links.asl (L.sem pseudoClock) fun st => { st with reg_a0 := 0 }
  have hs := h.release (L.sem pseudoClock) fun st => { st with reg_a0 := 0 }
  generalize s.release (L.sem pseudoClock) (fun st => { st with reg_a0 := 0 }) = r at hr hs ⊢
  obtain ⟨x, v⟩ := r
  obtain ⟨hx, hv⟩ := hr
  have hqv : v.queue (L.sem pseudoClock) = (s.queue (L.sem pseudoClock)).tail :=
    (congrFun (congrArg Sems.queue hv) _).trans (Function.update_self ..)
  rw [hq] at hx hqv
  exact ⟨v, congrArg (·, v) hx, hv, hs.setSoft _, hqv⟩

/-- The loop of the interval timer empties the queue of the clock. -/
theorem sems_wakeClock {k : ℕ} (h : Sound lossy s) (hk : (s.queue (L.sem pseudoClock)).length < k) :
    (s.wakeClock L k).sems = { s.sems.setQueue (L.sem pseudoClock) [] with
      soft := s.softBlockCount - (s.queue (L.sem pseudoClock)).length } := by
  induction k generalizing s with
  | zero => omega
  | succ k ih =>
      unfold Kernel.wakeClock
      cases hq : s.queue (L.sem pseudoClock) with
      | nil =>
          obtain ⟨v, hr, hv⟩ := release_clock_nil h hq
          rw [hr]
          refine hv.trans (Sems.ext' rfl ?_ (sub_zero _).symm)
          show Function.update s.queue _ (s.queue (L.sem pseudoClock)).tail = _
          rw [hq]
          rfl
      | cons p rest =>
          obtain ⟨v, hr, hv, hs, hrest⟩ := release_clock h hq
          rw [hr]
          rw [hq, List.length_cons] at hk
          have hih := ih hs (by
            rw [hrest]
            omega)
          rw [hrest] at hih
          have hword := congrArg Sems.word hv
          have hsoft : v.softBlockCount = s.softBlockCount := congrArg Sems.soft hv
          have hqueue : v.queue = Function.update s.queue _ _ := congrArg Sems.queue hv
          refine hih.trans (Sems.ext' hword ?_ ?_)
          · show Function.update v.queue _ [] = Function.update s.queue _ []
            rw [hqueue, Function.update_idem]
          · show v.softBlockCount - 1 - (rest.length : ℤ) = s.softBlockCount - ((p :: rest).length : ℤ)
            rw [hsoft, List.length_cons]
            push_cast
            omega

/-! ### Killing -/

theorem Unlinked.queue (h : Unlinked s t p) (a : Word) : t.queue a = (s.queue a).erase p := by
  have hfind : t.find a = s.find a := by
    unfold Asl.find
    rw [h.active]
    simp only [h.key]
  unfold Asl.queue
  rw [hfind]
  cases s.find a with
  | none => rfl
  | some d => exact h.procq d

/-- A process that is buried leaves the queue it is in, and gives its token back unless the
semaphore is of a device. -/
theorem Linked.bury_cases (h : Linked lossy s none) (L : Layout) (p : PcbId) :
    ((∀ a, p ∉ s.queue a) ∧ (s.bury L p).mem = s.mem ∧
      (s.bury L p).softBlockCount = s.softBlockCount) ∨
    ∃ a, (∀ b, p ∈ s.queue b ↔ b = a) ∧
      (s.bury L p).mem = (if isSoftBlockSemaphore L a then s.mem
        else Function.update s.mem a (s.mem a + 1)) ∧
      (s.bury L p).softBlockCount =
        if isSoftBlockSemaphore L a then s.softBlockCount - 1 else s.softBlockCount := by
  rcases h.leave_cases L p with ⟨hp, he⟩ | ⟨d, hd, hp, hk, he⟩
  · left
    refine ⟨fun a ha => ?_, ?_, ?_⟩
    · obtain ⟨d, hd, -⟩ := h.asl.mem_queue.mp ha
      exact hp d hd
    · rw [Kernel.bury, he]
      rfl
    · rw [Kernel.bury, he]
      rfl
  · right
    refine ⟨(s.semd_table d).s_key, fun b => ⟨fun hb => ?_, fun hb => ?_⟩, ?_, ?_⟩
    · obtain ⟨d', hd', rfl⟩ := h.asl.mem_queue.mp hb
      exact ((h.queued d' p hd').1.symm.trans hk)
    · rw [hb, h.asl.queue_key hd]
      exact hp
    · rw [Kernel.bury, he]
      rfl
    · rw [Kernel.bury, he]
      rfl

/-- From `s` to `u` the processes that are not live any more have left the semaphores. -/
theorem cull_kills (L : Layout) (K : PcbId → Prop) (s : Kernel) :
    Kills L K fun u => Linked True u none ∧ u.sems = s.sems.cull L u.Live where
  mark u p h _ _ _ := ⟨h.1.same (mark_links u p), h.2⟩
  detach u p c rest h _ _ hc :=
    ⟨h.1.same (detach_links hc), h.2.trans (Sems.cull_congr L _ fun _ => (detach_live hc).symm)⟩
  bury u p h _ hl _ _ := by
    obtain ⟨hlink, he⟩ := h
    refine ⟨hlink.bury hl, ?_⟩
    have hqueue : ∀ a, u.queue a = (s.queue a).filter fun q => u.Live q :=
      fun a => congrFun (congrArg Sems.queue he) a
    have hword := congrFun (congrArg Sems.word he)
    have hsoft := congrArg Sems.soft he
    have hlost := fun a => s.sems.lost_erase a (p := p) (fun q => bury_live (L := L) (s := u)) (by
        have hn := hlink.nodup_queue a
        rwa [hqueue a] at hn)
    have hq' : ∀ a, (u.bury L p).queue a = (s.queue a).filter fun q => (u.bury L p).Live q := by
      intro a
      rw [(hlink.unlinked L p).queue a, hqueue a]
      exact (hlost a).1.symm
    have hin : ∀ a, p ∈ (s.sems.queue a).filter (fun q => u.Live q) ↔ p ∈ u.queue a := fun a => by
      rw [hqueue a]
      rfl
    refine Sems.ext' (funext fun a => ?_) (funext hq') ?_
    · show (u.bury L p).mem a = if isSoftBlockSemaphore L a then s.mem a
        else s.mem a + BitVec.ofNat 32 (s.sems.lost a (u.bury L p).Live)
      have hwa : u.mem a = if isSoftBlockSemaphore L a then s.mem a
        else s.mem a + BitVec.ofNat 32 (s.sems.lost a u.Live) := hword a
      rw [(hlost a).2]
      rcases hlink.bury_cases L p with ⟨hno, hm, -⟩ | ⟨K, hK, hm, -⟩
      · rw [if_neg fun hp => hno a ((hin a).mp hp), add_zero, hm]
        exact hwa
      · rw [hm]
        by_cases haK : a = K
        · subst haK
          rw [if_pos ((hin a).mpr ((hK a).mpr rfl))]
          by_cases hs : isSoftBlockSemaphore L a
          · rw [if_pos hs] at hwa ⊢
            rw [if_pos hs]
            exact hwa
          · rw [if_neg hs] at hwa ⊢
            rw [if_neg hs, Function.update_self, hwa, BitVec.ofNat_add, BitVec.add_assoc]
            rfl
        · rw [if_neg fun hp => haK ((hK a).mp ((hin a).mp hp)), add_zero]
          split
          · rw [← hwa]
          · rw [Function.update_of_ne haK, hwa]
    · show (u.bury L p).softBlockCount =
        s.softBlockCount - ∑ a ∈ L.inside, (s.sems.lost a (u.bury L p).Live : ℤ)
      have hsu : u.softBlockCount =
        s.softBlockCount - ∑ a ∈ L.inside, (s.sems.lost a u.Live : ℤ) := hsoft
      -- one summand is one larger where `p` was queued on a device
      have hsum : ∑ a ∈ L.inside, (s.sems.lost a (u.bury L p).Live : ℤ) =
          ∑ a ∈ L.inside, (s.sems.lost a u.Live : ℤ) +
            ∑ a ∈ L.inside, if p ∈ u.queue a then (1 : ℤ) else 0 := by
        rw [← Finset.sum_add_distrib]
        refine Finset.sum_congr rfl fun a _ => ?_
        rw [(hlost a).2]
        simp only [hin a]
        push_cast
        rfl
      rw [hsum]
      rcases hlink.bury_cases L p with ⟨hno, -, hn⟩ | ⟨K, hK, -, hn⟩
      · rw [hn, hsu, Finset.sum_eq_zero (s := L.inside) fun a _ => if_neg (hno a), add_zero]
      · simp only [hK, Finset.sum_ite_eq', Layout.mem_inside]
        rw [hn, hsu]
        split <;> omega

/-- A process that is queued is live. -/
theorem Linked.queue_live (h : Linked lossy s none) (hp : p ∈ s.queue a) : s.Live p := by
  obtain ⟨d, hd, -⟩ := h.asl.mem_queue.mp hp
  exact (h.in_queue hd).1

/-- A process waits for one semaphore. -/
theorem Linked.queue_unique (h : Linked lossy s none) (ha : p ∈ s.queue a) (hb : p ∈ s.queue b) :
    a = b := by
  obtain ⟨d, hd, rfl⟩ := h.asl.mem_queue.mp ha
  obtain ⟨d', hd', rfl⟩ := h.asl.mem_queue.mp hb
  exact (h.queued d p hd).1.symm.trans (h.queued d' p hd').1

/-- Nobody is lost while everybody who waits is live. -/
theorem Linked.cull_live (h : Linked lossy s none) (L : Layout) :
    s.sems = s.sems.cull L s.Live := by
  have hfilter : ∀ a, (s.queue a).filter (fun p => s.Live p) = s.queue a := fun a =>
    List.filter_eq_self.mpr fun p hp => decide_eq_true (h.queue_live hp)
  have hlost : ∀ a, s.sems.lost a s.Live = 0 := by
    intro a
    have hlen : ((s.sems.queue a).filter fun p => s.Live p).length = (s.sems.queue a).length :=
      congrArg List.length (hfilter a)
    unfold Sems.lost
    omega
  refine Sems.ext' (funext fun a => ?_) (funext fun a => (hfilter a).symm) ?_
  · show s.mem a = if isSoftBlockSemaphore L a then s.mem a
      else s.mem a + BitVec.ofNat 32 (s.sems.lost a s.Live)
    rw [hlost]
    split
    · rfl
    · exact (BitVec.add_zero _).symm
  · show s.softBlockCount = s.softBlockCount - ∑ a ∈ L.inside, (s.sems.lost a s.Live : ℤ)
    rw [Finset.sum_eq_zero fun a _ => by rw [hlost]; rfl, sub_zero]

/-- What `recursiveTerminateProcess` does to the semaphores. -/
theorem Sound.sems_terminate (h : Sound lossy s) (hl : s.Live target) :
    (recursiveTerminateProcess L maxProc s target).sems =
      s.sems.cull L (recursiveTerminateProcess L maxProc s target).Live := by
  obtain ⟨⟨-, he⟩, -, -⟩ := terminate_rule (cull_kills L (fun _ => True) s)
    (h.tree.called ⟨h.links.forget, h.links.cull_live L⟩) (fun _ => hl) fun _ _ => trivial
  exact he

/-! ### Every step -/

/-- What an act does to the semaphores. -/
def Act.sems (L : Layout) (s t : Kernel) : Act → Sems
  | .quiet | .create | .requeue => s.sems
  | .store a v => s.sems.setWord a v
  | .kill _ => s.sems.cull L t.Live
  | .pass a => s.sems.down a
  | .block a => (s.sems.down a).join L a (s.joined a)
  | .io j => (s.sems.down (L.sem j)).join L (L.sem j) (s.joined (L.sem j))
  | .clockWait =>
      (s.sems.down (L.sem pseudoClock)).join L (L.sem pseudoClock) (s.joined (L.sem pseudoClock))
  | .signal a => s.sems.signal a
  | .wake l => l.foldl (fun S x => S.wake L x.1) s.sems
  | .tick => s.sems.tick L

/-- **Every step does to the semaphores what its act does.** -/
theorem Sound.sems {a : Act} (h : Sound lossy s) (hd : Did L s a t)
    (hk : ∀ p, a = .kill p → s.Live p) : t.sems = a.sems L s t := by
  cases a with
  | quiet => exact hd.1.sameSems.sems
  | store a v => exact hd.1.sameSems.sems
  | create =>
      obtain ⟨cur, newPcb, v, f, hc, ha, hf, hq, -⟩ := hd
      exact hq.sameSems.sems
  | kill target =>
      obtain ⟨u, hq, hd⟩ := hd
      have hu := h.quiet hq
      have hv := hu.sems_terminate (L := L) (hq.tree.live.mpr (hk target rfl))
      rw [hq.sameSems.sems] at hv
      rcases hd with ⟨-, tod, rfl⟩ | ⟨-, -, hq', -⟩
      · rw [(sameSems_scheduler _ tod).sems]
        refine hv.trans ?_
        show _ = s.sems.cull L (Kernel.scheduler _ tod).Live
        exact Sems.cull_congr L _ fun p => (tree_scheduler { recursiveTerminateProcess L maxProc u
          target with currentProcess := none } tod).live.symm
      · refine (hq'.sameSems.sems.trans hv).trans (Sems.cull_congr L _ fun p => ?_)
        exact hq'.tree.live.symm
  | pass a => exact hd.1.sameSems.sems
  | block a => exact sems_blocks h hd.1
  | io j => exact sems_blocks h hd
  | clockWait => exact sems_blocks h hd
  | signal a =>
      obtain ⟨-, u, hq, hq', -⟩ := hd
      have hu := (h.setMem a (s.mem a + 1)).quiet hq
      have hsu : u.sems = s.sems.up a := hq.sameSems.sems
      rw [hq'.sameSems.sems]
      show _ = s.sems.signal a
      unfold Sems.signal
      split
      · rename_i hle
        rw [if_pos (show (s.sems.word a + 1).toInt ≤ 0 from hle),
          (release_spec hu.links.asl a id).2, hsu]
      · rename_i hle
        rw [if_neg (show ¬ (s.sems.word a + 1).toInt ≤ 0 from hle), hsu]
  | requeue =>
      obtain ⟨cur, u, tod, hc, hq, rfl⟩ := hd
      rw [(sameSems_scheduler _ tod).sems]
      exact hq.sameSems.sems
  | wake l =>
      obtain ⟨u, hw, hr⟩ := hd
      exact (sameSems_resumes hr).sems.trans (sems_wakes h hw)
  | tick =>
      obtain ⟨u, hq, hr⟩ := hd
      have hu := h.quiet hq
      have hw := sems_wakeClock hu (Nat.lt_succ_of_le (hu.links.queue_short (L.sem pseudoClock)))
      rw [(sameSems_resumes hr).sems, sems_setMem, hw, hq.sameSems.sems]
      show _ = s.sems.tick L
      unfold Sems.tick Sems.setWord
      rw [show u.queue = s.queue from congrArg Asl.queue hq.asl, hq.soft]
      rfl

theorem Sound.sems_step {e : KernelEvent} (h : Sound lossy s) (hs : s.step L e = some t) :
    t.sems = (s.act e).sems L s t :=
  h.sems (did_step hs) fun _ hk => h.kill_live hk

end Kernel

end PandOS
