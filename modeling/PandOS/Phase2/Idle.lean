import PandOS.Phase2.Semaphores

/-!
# Phase 2 — `softBlockCount`, and what the scheduler does when nobody is ready

`idle_of_run`: as long as every process that blocks finds a descriptor and `VERHOGEN` releases
nobody from a semaphore of a device, `softBlockCount` is the number of processes blocked on
devices, and the scheduler halts, panics or waits as it should.  `signalled_device`: a `VERHOGEN`
that does release one leaves the counter too large, so that a deadlock is taken for a wait.
-/

namespace PandOS

namespace Sems

variable {L : Layout} {S : Sems} {a : Word} {q : List PcbId}

/-- `softBlockCount` is the number of processes in the queues of devices. -/
def Exact (L : Layout) (S : Sems) : Prop := S.soft = ∑ a ∈ L.inside, ((S.queue a).length : ℤ)

/-- One queue changes. -/
theorem sum_setQueue (L : Layout) (S : Sems) (a : Word) (q : List PcbId) :
    ∑ b ∈ L.inside, (((S.setQueue a q).queue b).length : ℤ) =
      ∑ b ∈ L.inside, ((S.queue b).length : ℤ) +
        if isSoftBlockSemaphore L a then (q.length : ℤ) - (S.queue a).length else 0 := by
  have hb : ∀ b, (((S.setQueue a q).queue b).length : ℤ) =
      ((S.queue b).length : ℤ) + if b = a then (q.length : ℤ) - (S.queue a).length else 0 := by
    intro b
    show ((Function.update S.queue a q b).length : ℤ) = _
    by_cases hba : b = a
    · subst hba
      rw [Function.update_self, if_pos rfl]
      omega
    · rw [Function.update_of_ne hba, if_neg hba, add_zero]
  simp only [hb, Finset.sum_add_distrib, Finset.sum_ite_eq', Layout.mem_inside]

theorem Exact.setWord (h : S.Exact L) (a v : Word) : (S.setWord a v).Exact L := h

theorem Exact.join (h : S.Exact L) (hq : q.length = (S.queue a).length + 1) :
    (S.join L a q).Exact L := by
  unfold Exact at h ⊢
  refine Eq.trans ?_ (sum_setQueue L S a q).symm
  show (if isSoftBlockSemaphore L a then S.soft + 1 else S.soft) = _
  rw [h, hq]
  split
  · push_cast
    omega
  · rw [add_zero]

/-- A process leaves a queue that is no device's, or an empty queue is looked at. -/
theorem Exact.release (h : S.Exact L) (ha : isSoftBlockSemaphore L a → S.queue a = []) :
    (S.release a).Exact L := by
  unfold Exact at h ⊢
  refine Eq.trans h ?_
  unfold Sems.release
  rw [sum_setQueue]
  split
  · rename_i hs
    rw [ha hs]
    simp
  · rw [add_zero]

theorem Exact.signal (h : S.Exact L)
    (ha : isSoftBlockSemaphore L a → (S.word a + 1).toInt ≤ 0 → S.queue a = []) :
    (S.signal a).Exact L := by
  unfold Sems.signal
  split
  · rename_i hle
    exact Exact.release (S := S.up a) (h.setWord a _) fun hs => ha hs hle
  · exact h.setWord a _

/-- The `V` of a device keeps the count of blocked processes exact. -/
theorem Exact.wake (h : S.Exact L) (j : Fin semDevLen) : (S.wake L j).Exact L := by
  unfold Sems.wake
  split
  · unfold Exact at h ⊢
    refine Eq.trans ?_ (sum_setQueue L (S.up (L.sem j)) (L.sem j) (S.queue (L.sem j)).tail).symm
    show (if S.queue (L.sem j) = [] then S.soft else S.soft - 1) =
      ∑ b ∈ L.inside, ((S.queue b).length : ℤ) + if isSoftBlockSemaphore L (L.sem j)
        then ((S.queue (L.sem j)).tail.length : ℤ) - (S.queue (L.sem j)).length else 0
    rw [← h, if_pos (L.soft_sem j)]
    cases S.queue (L.sem j) with
    | nil => simp
    | cons p rest =>
        simp
        omega
  · exact h

theorem Exact.wakes (h : S.Exact L) (l : List (Fin semDevLen × Word)) :
    (l.foldl (fun S x => S.wake L x.1) S).Exact L := by
  induction l generalizing S with
  | nil => exact h
  | cons x l ih => exact ih (h.wake x.1)

theorem Exact.tick (h : S.Exact L) : (S.tick L).Exact L := by
  unfold Exact at h ⊢
  refine Eq.trans ?_ (sum_setQueue L S (L.sem pseudoClock) []).symm
  show S.soft - ((S.queue (L.sem pseudoClock)).length : ℤ) = _
  rw [if_pos (L.soft_sem pseudoClock), ← h, List.length_nil]
  omega

theorem Exact.cull (h : S.Exact L) (live : PcbId → Prop) [DecidablePred live] :
    (S.cull L live).Exact L := by
  unfold Exact at h ⊢
  show S.soft - ∑ a ∈ L.inside, (S.lost a live : ℤ) =
    ∑ a ∈ L.inside, (((S.queue a).filter fun p => live p).length : ℤ)
  rw [h, ← Finset.sum_sub_distrib]
  refine Finset.sum_congr rfl fun a _ => ?_
  have hle := List.length_filter_le (fun p => decide (live p)) (S.queue a)
  unfold lost
  omega

end Sems

namespace Kernel

variable {L : Layout} {s t : Kernel} {lossy : Prop} {a : Word}

/-- Who blocks finds a descriptor: `insertBlocked` does not return TRUE. -/
def Admits (L : Layout) (s : Kernel) (e : KernelEvent) : Prop :=
  ∀ w ∈ (s.act e).blocksOn L, s.HasSemd w

instance (L : Layout) (s : Kernel) (e : KernelEvent) : Decidable (s.Admits L e) :=
  decidable_of_iff (((s.act e).blocksOn L).all fun w => decide (s.HasSemd w)) (by
    simp only [Admits, Option.all_eq_true, Option.mem_def, decide_eq_true_eq])

/-- The semaphore of a device on which the step does a `VERHOGEN`. -/
def Act.signals (L : Layout) : Act → Option Word
  | .signal a => if isSoftBlockSemaphore L a then some a else none
  | _ => none

/-- `VERHOGEN` releases nobody from a semaphore of a device. -/
def LeavesDevices (L : Layout) (s : Kernel) (e : KernelEvent) : Prop :=
  ∀ a ∈ (s.act e).signals L, (s.mem a + 1).toInt ≤ 0 → s.queue a = []

instance (L : Layout) (s : Kernel) (e : KernelEvent) : Decidable (s.LeavesDevices L e) :=
  decidable_of_iff (((s.act e).signals L).all fun a =>
    decide ((s.mem a + 1).toInt ≤ 0 → s.queue a = [])) (by
    simp only [LeavesDevices, Option.all_eq_true, Option.mem_def, decide_eq_true_eq])

theorem joined_length (hc : s.currentProcess ≠ none) (hs : s.HasSemd a) :
    (s.joined a).length = (s.queue a).length + 1 := by
  obtain ⟨cur, hcur⟩ := Option.ne_none_iff_exists'.mp hc
  unfold joined
  rw [hcur]
  show (if s.HasSemd a then s.insertProcQ (s.queue a) cur else s.queue a).length = _
  rw [if_pos hs]
  exact List.orderedInsert_length ..

theorem Blocks.current (h : Blocks L s a t) : s.currentProcess ≠ none := by
  obtain ⟨cur, -, -, -, hc, -⟩ := h
  rw [hc]
  exact Option.some_ne_none cur

/-- A step keeps the counter exact. -/
theorem exact_step {e : KernelEvent} (h : s.sems.Exact L) (hs : Sound lossy s)
    (hst : s.step L e = some t) (hd : s.Admits L e) (hv : s.LeavesDevices L e) :
    t.sems.Exact L := by
  rw [hs.sems_step hst]
  have hdid := did_step hst
  unfold Admits at hd
  unfold LeavesDevices at hv
  cases ha : s.act e with
  | quiet => exact h
  | create => exact h
  | requeue => exact h
  | store a v => exact h
  | pass a => exact h
  | kill p => exact h.cull t.Live
  | block a =>
      rw [ha] at hdid hd
      exact Sems.Exact.join (S := s.sems.down a) h (joined_length hdid.1.current (hd a rfl))
  | io j =>
      rw [ha] at hdid hd
      exact Sems.Exact.join (S := s.sems.down (L.sem j)) h
        (joined_length (Blocks.current hdid) (hd (L.sem j) rfl))
  | clockWait =>
      rw [ha] at hdid hd
      exact Sems.Exact.join (S := s.sems.down (L.sem pseudoClock)) h
        (joined_length (Blocks.current hdid) (hd (L.sem pseudoClock) rfl))
  | signal a =>
      rw [ha] at hv
      refine h.signal fun hsoft => hv a ?_
      show a ∈ if isSoftBlockSemaphore L a then some a else none
      rw [if_pos hsoft]
      rfl
  | wake l => exact h.wakes l
  | tick => exact h.tick

/-! ### The decision -/

/-- While no process runs, `cpu` is what the scheduler decided. -/
def Decided (s : Kernel) : Prop := s.currentProcess = none → s.readyQueue = [] ∧
  s.cpu = if s.processCount = 0 then .halt
    else if 0 < s.processCount ∧ 0 < s.softBlockCount then .wait
    else if 0 < s.processCount ∧ s.softBlockCount = 0 then .panic
    else .ret

theorem decided_scheduler (s : Kernel) (tod : Word) : (s.scheduler tod).Decided := by
  unfold Decided Kernel.scheduler
  split
  · intro hc
    cases hc
  · rename_i hr
    split_ifs <;> exact fun _ => ⟨hr, rfl⟩

theorem Decided.running (h : s.Decided) (hr : s.running) : s.currentProcess ≠ none := by
  intro hc
  unfold Kernel.running at hr
  rw [(h hc).2] at hr
  split_ifs at hr <;> exact hr

theorem decided_of_current (hc : s.currentProcess ≠ none) : s.Decided := fun h => absurd h hc

theorem decided_resumes (h : Resumes s t) : t.Decided := by
  unfold Resumes at h
  split at h
  · obtain ⟨tod, rfl⟩ := h
    exact decided_scheduler s tod
  · rename_i hc
    exact decided_of_current (by rwa [h.1.current])

theorem decided_blocks (h : Blocks L s a t) : t.Decided := by
  obtain ⟨cur, u, tod₁, tod₂, -, -, rfl⟩ := h
  exact decided_scheduler _ _

/-- Where nobody runs after a step, `cpu` is what `scheduler` decides from the counters. -/
theorem Decided.step {e : KernelEvent} (h : s.Decided) (hst : s.step L e = some t) :
    t.Decided := by
  have hd := did_step hst
  generalize s.act e = x at hd
  cases x with
  | quiet => exact decided_of_current (by rw [hd.1.current]; exact hd.2.1)
  | store a v =>
      obtain ⟨hq, -, hr, -⟩ := hd
      exact decided_of_current (by rw [hq.current]; exact h.running hr)
  | create =>
      obtain ⟨cur, newPcb, v, f, hc, -, -, hq, -⟩ := hd
      exact decided_of_current (by rw [hq.current]; exact current_ne hc)
  | kill target =>
      obtain ⟨u, -, ⟨-, tod, rfl⟩ | ⟨-, hc, hq, -⟩⟩ := hd
      · exact decided_scheduler _ tod
      · exact decided_of_current (by rwa [hq.current])
  | pass a => exact decided_of_current (by rw [hd.1.current]; exact hd.2.1)
  | block a => exact decided_blocks hd.1
  | io j => exact decided_blocks hd
  | clockWait => exact decided_blocks hd
  | signal a =>
      obtain ⟨hc, u, hq, hq', -⟩ := hd
      refine decided_of_current ?_
      have hu : u.currentProcess ≠ none := by rw [hq.current]; exact hc
      rw [hq'.current]
      split
      · unfold Kernel.release
        split <;> exact hu
      · exact hu
  | requeue =>
      obtain ⟨cur, u, tod, -, -, rfl⟩ := hd
      exact decided_scheduler _ tod
  | wake l =>
      obtain ⟨u, -, hr⟩ := hd
      exact decided_resumes hr
  | tick =>
      obtain ⟨u, -, hr⟩ := hd
      exact decided_resumes hr

/-! ### Runs -/

/-- The counter is exact and the decision made. -/
structure Idling (L : Layout) (s : Kernel) : Prop where
  sound : Sound True s
  exact : s.sems.Exact L
  decided : s.Decided

theorem Idling.init (L : Layout) (mem : Word → Word) (support : Word → SupportT)
    (test ramtop tod : Word) : (initKernel L mem support test ramtop tod).Idling L where
  sound := .init ..
  exact := (Finset.sum_eq_zero fun _ _ => rfl).symm
  decided := decided_of_current (Option.some_ne_none first)

/-- While nobody runs, the scheduler's decision is the right one. -/
theorem Idling.decision (h : s.Idling L) (hc : s.currentProcess = none) :
    s.readyQueue = [] ∧ (s.cpu = .halt ↔ ∀ p, ¬ s.Live p) ∧
    (s.cpu = .panic ↔ (∃ p, s.Live p) ∧ ∀ a, isSoftBlockSemaphore L a → s.queue a = []) ∧
    (s.cpu = .wait ↔ ∃ a, isSoftBlockSemaphore L a ∧ s.queue a ≠ []) := by
  obtain ⟨hr, hcpu⟩ := h.decided hc
  have hcount := h.sound.count
  unfold Counted at hcount
  have hle : s.pcbFree_h.length ≤ maxProc := by
    have := h.sound.links.nodup_free.length_le_card
    rwa [Fintype.card_fin] at this
  have hlive : (∃ p, s.Live p) ↔ s.processCount ≠ 0 := by
    constructor
    · intro ⟨p, hp⟩ h0
      have hn : s.pcbFree_h.length = maxProc := by omega
      -- all PCBs are free
      have hmem : s.pcbFree_h.toFinset = Finset.univ := by
        refine Finset.eq_univ_of_card _ ?_
        rw [List.toFinset_card_of_nodup h.sound.links.nodup_free, hn, Fintype.card_fin]
      exact hp (List.mem_toFinset.mp (hmem ▸ Finset.mem_univ p))
    · intro h0
      by_contra hno
      have hall : ∀ p, p ∈ s.pcbFree_h := fun p => not_not.mp fun hp => hno ⟨p, hp⟩
      have hcard := Finset.card_le_card fun p (_ : p ∈ Finset.univ) =>
        List.mem_toFinset.mpr (hall p)
      have htwo := s.pcbFree_h.toFinset_card_le
      rw [Finset.card_univ, Fintype.card_fin] at hcard
      omega
  have hexact := h.exact
  unfold Sems.Exact at hexact
  have hsoft : s.softBlockCount = 0 ↔ ∀ a, isSoftBlockSemaphore L a → s.queue a = [] := by
    rw [show s.softBlockCount = _ from hexact, Finset.sum_eq_zero_iff_of_nonneg
      fun _ _ => Int.natCast_nonneg _]
    refine forall_congr' fun a => ?_
    rw [Layout.mem_inside, Int.natCast_eq_zero, List.length_eq_zero_iff]
    rfl
  have hnonneg : 0 ≤ s.softBlockCount := by
    rw [show s.softBlockCount = _ from hexact]
    exact Finset.sum_nonneg fun _ _ => Int.natCast_nonneg _
  have hwaits : s.softBlockCount ≠ 0 → s.processCount ≠ 0 := by
    intro hs
    rw [Ne, hsoft] at hs
    push Not at hs
    obtain ⟨a, -, hq⟩ := hs
    obtain ⟨p, hp⟩ := List.exists_mem_of_ne_nil _ hq
    exact hlive.mp ⟨p, h.sound.links.queue_live hp⟩
  have hdev : (∃ a, isSoftBlockSemaphore L a ∧ s.queue a ≠ []) ↔ s.softBlockCount ≠ 0 := by
    rw [Ne, hsoft]
    push Not
    rfl
  have hnone : (∀ p, ¬ s.Live p) ↔ s.processCount = 0 := by
    rw [← not_exists, hlive, not_not]
  rw [hnone, hlive, ← hsoft, hdev, hcpu]
  have hpos : 0 ≤ s.processCount := by omega
  refine ⟨hr, ?_⟩
  split_ifs with h₁ h₂ h₃
  · simp [h₁]
    exact not_not.mp fun hs => hwaits hs h₁
  · simp [h₁]
    omega
  · simp [h₁]
    omega
  · omega

/-- **`softBlockCount` is exact and the idle decision is right**, in every run in which each
process that blocks finds a descriptor and `VERHOGEN` releases nobody from a semaphore of a
device. -/
theorem idle_of_run {mem : Word → Word} {support : Word → SupportT} {test ramtop tod : Word}
    {es : List KernelEvent} (h : Run (step L) (fun s e => s.Admits L e ∧ s.LeavesDevices L e)
      (initKernel L mem support test ramtop tod) es s) :
    s.softBlockCount = ∑ a ∈ L.inside, (s.blockedCount a : ℤ) ∧
    (s.currentProcess = none → s.readyQueue = [] ∧ (s.cpu = .halt ↔ ∀ p, ¬ s.Live p) ∧
      (s.cpu = .panic ↔ (∃ p, s.Live p) ∧
        ∀ a, isSoftBlockSemaphore L a → s.blockedCount a = 0) ∧
      (s.cpu = .wait ↔ ∃ a, isSoftBlockSemaphore L a ∧ s.blockedCount a ≠ 0)) := by
  have hi : s.Idling L := h.inv (.init ..) fun u e v hu hc hs =>
    ⟨hu.sound.step hs (fun _ _ => .inl trivial) fun _ _ => .inl trivial,
      exact_step hu.exact hu.sound hs hc.1 hc.2, hu.decided.step hs⟩
  have hb : ∀ a, s.blockedCount a = (s.queue a).length := fun a => s.toPhase1.blockedCount_eq a
  simp only [hb, Ne, List.length_eq_zero_iff]
  exact ⟨hi.exact, hi.decision⟩

/-- The first process creates a child and waits for the clock; the child waits for a semaphore. -/
theorem idle_of_run_wait : ∃ s, Run (step layout₀)
    (fun s e => s.Admits layout₀ e ∧ s.LeavesDevices layout₀ e) boot₀
    [call (-1) 0 0 0, call (-7) 0 0 0, call (-3) 0x1000 0 0] s ∧
    s.softBlockCount = ∑ a ∈ layout₀.inside, (s.blockedCount a : ℤ) := by
  obtain ⟨s, hr, -⟩ := exists_run (step layout₀)
    (fun s e => s.Admits layout₀ e ∧ s.LeavesDevices layout₀ e) (fun _ => True) boot₀
    [call (-1) 0 0 0, call (-7) 0 0 0, call (-3) 0x1000 0 0] (by decide +kernel)
  exact ⟨s, hr, (idle_of_run hr).1⟩

/-- The first process blocks on a semaphore of a device and its child releases it; then both block
on another semaphore. -/
def signalled : List KernelEvent := [call (-1) 0 0 0, call (-3) 0x20001000 0 0,
  call (-4) 0x20001000 0 0, call (-3) 0x1000 0 0, call (-3) 0x1000 0 0]

/-- **A `VERHOGEN` on a device's semaphore leaves `softBlockCount` too large**: nobody is blocked
on a device, but the processor waits. -/
theorem signalled_device : ∃ s, Run (step layout₀) (fun s e => s.Admits layout₀ e) boot₀ signalled s ∧
    s.waiting ∧ s.softBlockCount = 1 ∧ ∀ a, isSoftBlockSemaphore layout₀ a → s.blockedCount a = 0 := by
  obtain ⟨s, hr, hw, hs, hq⟩ := exists_run (step layout₀) (fun s e => s.Admits layout₀ e)
    (fun s => s.waiting ∧ s.softBlockCount = 1 ∧
      ∀ d, isSoftBlockSemaphore layout₀ (s.semd_table d).s_key → (s.semd_table d).s_procq = [])
    boot₀ signalled (by decide +kernel)
  refine ⟨s, hr, hw, hs, fun a ha => ?_⟩
  rw [Phase1.blockedCount_eq, List.length_eq_zero_iff, List.eq_nil_iff_forall_not_mem]
  intro p hp
  obtain ⟨d, hd, rfl⟩ := (sound_of_run (hr.mono fun _ _ _ => trivial)).links.asl.mem_queue.mp hp
  rw [hq d ha] at hd
  cases hd

end Kernel

end PandOS
