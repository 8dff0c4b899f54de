import Mathlib.Algebra.BigOperators.Fin
import Mathlib.Algebra.Order.BigOperators.Group.Finset
import PandOS.Phase2.Interrupt

/-!
# Phase 2 — every PCB is in one place

`Kernel.Linked lossy s hand`: each PCB is linked once, in the free list, in the ready queue, in the
queue of a descriptor, or as `currentProcess`; but for `hand`, the PCB a function of the nucleus
has in hand, which is linked nowhere, and, where `lossy` holds, for those the nucleus has lost.  A
queued process has its semaphore in `p_semAdd`, a process that is ready or runs has NULL there.
One lemma for each thing the nucleus does with a PCB says how the hand changes.
-/

namespace PandOS

/-! ### Sums over the descriptors -/

/-- One summand changes. -/
theorem sum_update {ι β : Type*} [Fintype ι] [DecidableEq ι] (T : ι → β) (i : ι) (x : β)
    (g : β → ℕ) : ∑ j, g (Function.update T i x j) + g (T i) = ∑ j, g (T j) + g x := by
  have h₁ := Finset.add_sum_erase Finset.univ (fun j => g (Function.update T i x j))
    (Finset.mem_univ i)
  have h₂ := Finset.add_sum_erase Finset.univ (fun j => g (T j)) (Finset.mem_univ i)
  have h₃ : ∑ j ∈ Finset.univ.erase i, g (Function.update T i x j) =
      ∑ j ∈ Finset.univ.erase i, g (T j) :=
    Finset.sum_congr rfl fun j hj => by rw [Function.update_of_ne (Finset.ne_of_mem_erase hj)]
  simp only [Function.update_self] at h₁
  omega

namespace Asl

variable {s : Asl} {d : SemdId} {p : PcbId}

/-- A sum over the descriptors. -/
def total (s : Asl) (g : Semd → ℕ) : ℕ := ∑ d, g (s.semd_table d)

theorem le_total (g : Semd → ℕ) (d : SemdId) : g (s.semd_table d) ≤ s.total g := by
  have h := Finset.add_sum_erase Finset.univ (fun j => g (s.semd_table j)) (Finset.mem_univ d)
  rw [total, ← h]
  exact Nat.le_add_right _ _

theorem total_setProcq (g : Semd → ℕ) (q : List PcbId) : (s.setProcq d q).total g +
    g (s.semd_table d) = s.total g + g ⟨(s.semd_table d).s_key, q⟩ :=
  sum_update ..

theorem total_take (g : Semd → ℕ) (semAdd : Word) (rest : List SemdId) :
    (s.take semAdd d rest).total g + g (s.semd_table d) = s.total g + g ⟨semAdd, []⟩ :=
  sum_update ..

/-- The places in queues `p` has. -/
def queuedCount (s : Asl) (p : PcbId) : ℕ := s.total fun x => x.s_procq.count p

theorem count_le_queuedCount (d : SemdId) :
    (s.semd_table d).s_procq.count p ≤ s.queuedCount p := by
  unfold queuedCount
  exact le_total (fun x => x.s_procq.count p) d

theorem queuedCount_pos (hp : p ∈ (s.semd_table d).s_procq) : 0 < s.queuedCount p :=
  Nat.lt_of_lt_of_le (List.count_pos_iff.mpr hp) (count_le_queuedCount d)

theorem queuedCount_eq_zero (h : ∀ d, p ∉ (s.semd_table d).s_procq) : s.queuedCount p = 0 := by
  unfold queuedCount total
  exact Finset.sum_eq_zero fun d _ => List.count_eq_zero.mpr (h d)

end Asl

namespace Kernel

variable {s t : Kernel} {lossy : Prop} {h₀ : Option PcbId} {p q : PcbId} {d : SemdId}
  {semAdd : Word}

/-- A PCB that is allocated and not freed. -/
def Live (s : Kernel) (p : PcbId) : Prop := p ∉ s.pcbFree_h

instance (s : Kernel) (p : PcbId) : Decidable (s.Live p) := inferInstanceAs (Decidable (¬ _))

/-- 1 where the pointer is to `p`. -/
def isAt (x : Option PcbId) (p : PcbId) : ℕ := if x = some p then 1 else 0

@[simp] theorem isAt_none : isAt none p = 0 := rfl

@[simp] theorem isAt_some : isAt (some q) p = if q = p then 1 else 0 := by simp [isAt]

/-- How many times `p` is linked, or in hand. -/
def places (s : Kernel) (hand : Option PcbId) (p : PcbId) : ℕ :=
  s.pcbFree_h.count p + s.readyQueue.count p + s.queuedCount p + isAt s.currentProcess p +
    isAt hand p

/-- Each PCB is in one place; a PCB may be in none only where `lossy` holds. -/
structure Linked (lossy : Prop) (s : Kernel) (hand : Option PcbId) : Prop where
  once : ∀ p, s.places hand p = 1 ∨ s.places hand p = 0 ∧ lossy
  asl : s.toAsl.Ok
  queued : ∀ d, ∀ p ∈ (s.semd_table d).s_procq,
    (s.pcbFree_table p).p_semAdd = (s.semd_table d).s_key ∧ (s.semd_table d).s_key ≠ 0
  awake : ∀ p, s.currentProcess = some p ∨ p ∈ s.readyQueue → (s.pcbFree_table p).p_semAdd = 0

/-! ### Where a PCB is not -/

theorem Linked.le_one (h : Linked lossy s h₀) (p : PcbId) : s.places h₀ p ≤ 1 := by
  rcases h.once p with h | h <;> omega

/-- That a PCB may be lost can be allowed for. -/
theorem Linked.forget (h : Linked lossy s none) : Linked True s none :=
  ⟨fun p => (h.once p).imp_right fun h => ⟨h.1, trivial⟩, h.asl, h.queued, h.awake⟩

/-- The free list has each PCB once. -/
theorem Linked.nodup_free (h : Linked lossy s h₀) : s.pcbFree_h.Nodup := by
  refine List.nodup_iff_count_le_one.mpr fun p => ?_
  have ho := h.le_one p
  rw [places] at ho
  omega

/-- The ready queue has each PCB once. -/
theorem Linked.nodup_ready (h : Linked lossy s h₀) : s.readyQueue.Nodup := by
  refine List.nodup_iff_count_le_one.mpr fun p => ?_
  have ho := h.le_one p
  rw [places] at ho
  omega

/-- What is in hand is linked nowhere. -/
theorem Linked.hand (h : Linked lossy s (some p)) : p ∉ s.pcbFree_h ∧ p ∉ s.readyQueue ∧
    (∀ d, p ∉ (s.semd_table d).s_procq) ∧ s.currentProcess ≠ some p := by
  have ho := h.le_one p
  simp only [isAt_some, if_true, places] at ho
  refine ⟨List.count_eq_zero.mp (by omega), List.count_eq_zero.mp (by omega), fun d hd => ?_,
    fun hc => ?_⟩
  · have := Asl.queuedCount_pos hd
    omega
  · rw [hc, isAt_some, if_pos rfl] at ho
    omega

/-- The process that runs is linked nowhere else. -/
theorem Linked.current (h : Linked lossy s h₀) (hc : s.currentProcess = some p) :
    p ∉ s.pcbFree_h ∧ p ∉ s.readyQueue ∧ ∀ d, p ∉ (s.semd_table d).s_procq := by
  have ho := h.le_one p
  rw [places, hc, isAt_some, if_pos rfl] at ho
  refine ⟨List.count_eq_zero.mp (by omega), List.count_eq_zero.mp (by omega), fun d hd => ?_⟩
  have := Asl.queuedCount_pos hd
  omega

/-- A process in a queue is linked nowhere else. -/
theorem Linked.in_queue (h : Linked lossy s h₀) (hp : p ∈ (s.semd_table d).s_procq) :
    p ∉ s.pcbFree_h ∧ p ∉ s.readyQueue ∧ s.currentProcess ≠ some p := by
  have ho := h.le_one p
  have hq := Asl.queuedCount_pos hp
  rw [places] at ho
  refine ⟨List.count_eq_zero.mp (by omega), List.count_eq_zero.mp (by omega), fun hc => ?_⟩
  rw [hc, isAt_some, if_pos rfl] at ho
  omega

theorem Linked.in_ready (h : Linked lossy s h₀) (hp : p ∈ s.readyQueue) :
    p ∉ s.pcbFree_h ∧ (∀ d, p ∉ (s.semd_table d).s_procq) ∧ s.currentProcess ≠ some p :=
  have ho := h.le_one p
  have hr := List.count_pos_iff.mpr hp
  ⟨List.count_eq_zero.mp (by rw [places] at ho; omega), fun _ hd => (h.in_queue hd).2.1 hp,
    fun hc => (h.current hc).2.1 hp⟩

/-! ### Changes that do not concern the links -/

/-- The links are the same. -/
structure SameLinks (s t : Kernel) : Prop where
  free : t.pcbFree_h = s.pcbFree_h
  ready : t.readyQueue = s.readyQueue
  current : t.currentProcess = s.currentProcess
  asl : t.toAsl = s.toAsl
  semAdd : ∀ p, (t.pcbFree_table p).p_semAdd = (s.pcbFree_table p).p_semAdd

namespace SameLinks

theorem refl (s : Kernel) : SameLinks s s := ⟨rfl, rfl, rfl, rfl, fun _ => rfl⟩

theorem trans {u : Kernel} (h₁ : SameLinks s t) (h₂ : SameLinks t u) : SameLinks s u :=
  ⟨h₂.free.trans h₁.free, h₂.ready.trans h₁.ready, h₂.current.trans h₁.current,
    h₂.asl.trans h₁.asl, fun p => (h₂.semAdd p).trans (h₁.semAdd p)⟩

theorem table (h : SameLinks s t) : t.semd_table = s.semd_table := congrArg Asl.semd_table h.asl

theorem places (h : SameLinks s t) (p : PcbId) : t.places h₀ p = s.places h₀ p := by
  unfold Kernel.places
  rw [h.free, h.ready, h.current, h.asl]

end SameLinks

/-- A step that leaves the links alone. -/
theorem Linked.same (h : Linked lossy s h₀) (hs : SameLinks s t) : Linked lossy t h₀ where
  once p := by
    rw [hs.places]
    exact h.once p
  asl := by rw [hs.asl]; exact h.asl
  queued d p hp := by
    rw [hs.table] at hp ⊢
    rw [hs.semAdd]
    exact h.queued d p hp
  awake p hp := by
    rw [hs.current, hs.ready] at hp
    rw [hs.semAdd]
    exact h.awake p hp

/-- The PCB in hand may be rewritten. -/
theorem Linked.modify_hand (h : Linked lossy s (some p)) (f : Pcb → Pcb) :
    Linked lossy (s.modify p f) (some p) where
  once := h.once
  asl := h.asl
  queued d q hq := by
    have hne : q ≠ p := by rintro rfl; exact h.hand.2.2.1 d hq
    have ht : (s.modify p f).pcbFree_table q = s.pcbFree_table q := Pcbs.modify_of_ne hne
    rw [ht]
    exact h.queued d q hq
  awake q hq := by
    have hne : q ≠ p := by
      rintro rfl
      rcases hq with hq | hq
      · exact h.hand.2.2.2 hq
      · exact h.hand.2.1 hq
    have ht : (s.modify p f).pcbFree_table q = s.pcbFree_table q := Pcbs.modify_of_ne hne
    rw [ht]
    exact h.awake q hq

/-- What is in hand may be lost. -/
theorem Linked.lose (h : Linked lossy s (some p)) (hl : lossy) : Linked lossy s none where
  once q := by
    have ho := h.once q
    by_cases hq : p = q
    · refine .inr ⟨?_, hl⟩
      have := h.le_one q
      rw [places, isAt_some, if_pos hq] at this
      rw [places, isAt_none]
      omega
    · rw [places, isAt_some, if_neg hq] at ho
      rwa [places, isAt_none]
  asl := h.asl
  queued := h.queued
  awake := h.awake

/-! ### From and to the processor and the ready queue -/

/-- The process that runs is taken. -/
theorem Linked.take (h : Linked lossy s none) (hc : s.currentProcess = some p) :
    Linked lossy { s with currentProcess := none } (some p) where
  once q := by
    have he : { s with currentProcess := none }.places (some p) q = s.places none q := by
      rw [places, places, hc]
      simp only [isAt_none]
      omega
    rw [he]
    exact h.once q
  asl := h.asl
  queued := h.queued
  awake q hq := h.awake q (.inr (hq.resolve_left (by simp)))

/-- The PCB in hand becomes ready. -/
theorem Linked.ready (h : Linked lossy s (some p)) (hp : (s.pcbFree_table p).p_semAdd = 0) :
    Linked lossy (s.ready p) none where
  once q := by
    have he : (s.ready p).places none q = s.places (some p) q := by
      show s.pcbFree_h.count q + (s.insertProcQ s.readyQueue p).count q + s.queuedCount q +
        isAt s.currentProcess q + isAt none q = _
      rw [places, Pcbs.insertProcQ, List.orderedInsert_count, isAt_none, isAt_some]
      omega
    rw [he]
    exact h.once q
  asl := h.asl
  queued := h.queued
  awake q hq := by
    rcases hq with hq | hq
    · exact h.awake q (.inl hq)
    · rcases (List.mem_orderedInsert _).mp hq with rfl | hq
      · exact hp
      · exact h.awake q (.inr hq)

/-- `scheduler`, when no process runs. -/
theorem Linked.scheduler (h : Linked lossy s none) (hc : s.currentProcess = none) (tod : Word) :
    Linked lossy (s.scheduler tod) none := by
  unfold Kernel.scheduler
  split
  · rename_i p rest hr
    refine ⟨fun q => ?_, h.asl, h.queued, fun q hq => h.awake q (.inr ?_)⟩
    · have ho := h.once q
      rw [places, hc, hr, List.count_cons, isAt_none] at ho
      simp only [beq_iff_eq] at ho
      have he : s.pcbFree_h.count q + rest.count q + s.queuedCount q + isAt (some p) q +
          isAt none q = s.pcbFree_h.count q + (rest.count q + if p = q then 1 else 0) +
            s.queuedCount q + 0 + 0 := by
        rw [isAt_some, isAt_none]
        omega
      rw [← he] at ho
      exact ho
    · rw [hr]
      rcases hq with hq | hq
      · cases hq; exact List.mem_cons_self
      · exact List.mem_cons_of_mem _ hq
  · split
    · exact h.same ⟨rfl, rfl, rfl, rfl, fun _ => rfl⟩
    · split
      · exact h.same ⟨rfl, rfl, rfl, rfl, fun _ => rfl⟩
      · split <;> exact h.same ⟨rfl, rfl, rfl, rfl, fun _ => rfl⟩

/-! ### From the free list -/

/-- After `allocPcb` the new PCB is in the hands of the caller. -/
theorem Linked.alloc (h : Linked lossy s none) {u : Pcbs} (ha : s.toPcbs.allocPcb = some (p, u)) :
    Linked lossy (s.withPcbs u) (some p) := by
  obtain ⟨hf, ht, -, -⟩ := Pcbs.allocPcb_some ha
  have hmem : p ∈ s.pcbFree_h := by rw [hf]; exact List.mem_cons_self
  refine ⟨fun q => ?_, h.asl, fun d q hq => ?_, fun q hq => ?_⟩
  · have he : (s.withPcbs u).places (some p) q = s.places none q := by
      show u.pcbFree_h.count q + s.readyQueue.count q + s.queuedCount q +
        isAt s.currentProcess q + isAt (some p) q = _
      rw [places, hf, List.count_cons, isAt_none, isAt_some]
      simp only [beq_iff_eq]
      omega
    rw [he]
    exact h.once q
  · have hne : q ≠ p := by rintro rfl; exact (h.in_queue hq).1 hmem
    show (u.pcbFree_table q).p_semAdd = _ ∧ _
    rw [ht q hne]
    exact h.queued d q hq
  · have hne : q ≠ p := by
      rintro rfl
      rcases hq with hq | hq
      · exact (h.current hq).1 hmem
      · exact (h.in_ready hq).1 hmem
    show (u.pcbFree_table q).p_semAdd = 0
    rw [ht q hne]
    exact h.awake q hq

/-! ### From and to the queues of semaphores -/

/-- A descriptor is taken for a semaphore that has none. -/
theorem Linked.takeSemd (h : Linked lossy s h₀) {rest : List SemdId}
    (hf : s.find semAdd = none) (hl : s.semdFree_h = d :: rest) :
    Linked lossy { s with toAsl := s.toAsl.take semAdd d rest } h₀ := by
  have hd := h.asl.first_notMem hl
  refine ⟨fun q => ?_, h.asl.take hf hl, fun d' q hq => ?_, h.awake⟩
  · have hsum := s.toAsl.total_take (d := d) (fun x => x.s_procq.count q) semAdd rest
    rw [h.asl.idle d hd] at hsum
    simp only [List.count_nil, add_zero] at hsum
    have ho := h.once q
    rw [places, Asl.queuedCount, ← hsum] at ho
    exact ho
  · by_cases hdd : d' = d
    · subst hdd
      rw [Asl.take_self] at hq
      cases hq
    · rw [Asl.take_of_ne hdd] at hq ⊢
      exact h.queued d' q hq

/-- The PCB in hand joins the queue of an active descriptor. -/
theorem Linked.enqueue (h : Linked lossy s (some p)) (h0 : semAdd ≠ 0) (hd : d ∈ s.semd_h)
    (hk : (s.semd_table d).s_key = semAdd) :
    Linked lossy { s with toPhase1 := s.toPhase1.enqueue d semAdd p } none := by
  obtain ⟨-, hready, hq, hcur⟩ := h.hand
  have hne : ∀ q', q' ≠ p →
      (s.toPhase1.enqueue d semAdd p).pcbFree_table q' = s.pcbFree_table q' :=
    fun q' => Phase1.enqueue_of_ne
  refine ⟨fun q' => ?_, h.asl.setProcq hd _, fun d' q' hq' => ?_, fun q' hq' => ?_⟩
  -- `p` leaves the hand and is in one queue more
  · have hsum := s.toAsl.total_setProcq (d := d) (fun x => x.s_procq.count q')
      (s.insertProcQ (s.semd_table d).s_procq p)
    dsimp only at hsum
    have hcount : (s.insertProcQ (s.semd_table d).s_procq p).count q' =
        (s.semd_table d).s_procq.count q' + if p = q' then 1 else 0 := List.orderedInsert_count ..
    have he : s.pcbFree_h.count q' + s.readyQueue.count q' +
        (s.toAsl.setProcq d (s.insertProcQ (s.semd_table d).s_procq p)).queuedCount q' +
        isAt s.currentProcess q' + isAt none q' = s.places (some p) q' := by
      rw [places, isAt_some, isAt_none, Asl.queuedCount, Asl.queuedCount]
      omega
    have ho := h.once q'
    rw [← he] at ho
    exact ho
  -- the queue of `d` is the one of `semAdd`, and the other queues are as they were
  · by_cases hdd : d' = d
    · rw [hdd, Phase1.enqueue_self] at hq'
      rw [hdd, Phase1.enqueue_self]
      show _ = (s.semd_table d).s_key ∧ (s.semd_table d).s_key ≠ 0
      rw [hk]
      refine ⟨?_, h0⟩
      rcases (List.mem_orderedInsert _).mp hq' with he | hq'
      · rw [he]
        exact congrArg Pcb.p_semAdd Phase1.enqueue_table
      · have hqp : q' ≠ p := fun he => hq d (he ▸ hq')
        rw [hne q' hqp, (h.queued d q' hq').1, hk]
    · have hs : (s.toPhase1.enqueue d semAdd p).semd_table d' = s.semd_table d' :=
        Asl.setProcq_of_ne hdd
      rw [hs] at hq' ⊢
      have hqp : q' ≠ p := fun he => hq d' (he ▸ hq')
      rw [hne q' hqp]
      exact h.queued d' q' hq'
  · have hqp : q' ≠ p := by
      rintro rfl
      exact hq'.elim hcur hready
    rw [hne q' hqp]
    exact h.awake q' hq'

/-- There is a descriptor for the semaphore. -/
def HasSemd (s : Kernel) (semAdd : Word) : Prop :=
  (s.find semAdd).isSome = true ∨ s.semdFree_h ≠ []

instance (s : Kernel) (semAdd : Word) : Decidable (s.HasSemd semAdd) :=
  inferInstanceAs (Decidable (_ ∨ _))

/-- `insertBlocked` of the PCB in hand, which is lost if there is no descriptor for it. -/
theorem Linked.insertBlocked (h : Linked lossy s (some p)) (h0 : semAdd ≠ 0)
    (hd : lossy ∨ s.HasSemd semAdd) :
    Linked lossy { s with toPhase1 := (s.toPhase1.insertBlocked semAdd p).2 } none := by
  rcases s.toPhase1.insertBlocked_cases semAdd p with
    ⟨d, hf, he⟩ | ⟨hf, d, rest, hl, he⟩ | ⟨hf, hl, he⟩
  · obtain ⟨hm, hk⟩ := Asl.find_some hf
    rw [he]
    exact h.enqueue h0 hm hk
  · rw [he]
    refine (h.takeSemd hf hl).enqueue h0 ?_ (by rw [Asl.take_self])
    exact (Asl.link_perm s.toAsl semAdd d).mem_iff.mpr List.mem_cons_self
  · rw [he]
    rcases hd with hd | hd | hd
    · exact h.lose hd
    · rw [hf] at hd
      cases hd
    · exact absurd hl hd

/-- An active descriptor with an empty queue is given back. -/
theorem Linked.giveBack (h : Linked lossy s h₀) (hd : d ∈ s.semd_h)
    (hq : (s.semd_table d).s_procq = []) : Linked lossy { s with toAsl := s.toAsl.giveBack d } h₀ :=
  ⟨h.once, h.asl.giveBack hd hq, h.queued, h.awake⟩

/-- The head of a queue is taken. -/
theorem Linked.dequeue (h : Linked lossy s none) (hd : d ∈ s.semd_h) {rest : List PcbId}
    (hq : (s.semd_table d).s_procq = p :: rest) :
    Linked lossy { s with toAsl := s.toAsl.setProcq d rest } (some p) := by
  refine ⟨fun q' => ?_, h.asl.setProcq hd _, fun d' q' hq' => ?_, h.awake⟩
  · have hsum := s.toAsl.total_setProcq (d := d) (fun x => x.s_procq.count q') rest
    rw [hq, List.count_cons] at hsum
    simp only [beq_iff_eq] at hsum
    have he : s.pcbFree_h.count q' + s.readyQueue.count q' +
        (s.toAsl.setProcq d rest).queuedCount q' + isAt s.currentProcess q' + isAt (some p) q' =
        s.places none q' := by
      rw [places, isAt_some, isAt_none, Asl.queuedCount, Asl.queuedCount]
      omega
    have ho := h.once q'
    rw [← he] at ho
    exact ho
  · rw [Asl.setProcq_key]
    refine h.queued d' q' ?_
    by_cases hdd : d' = d
    · rw [hdd, Asl.setProcq_self] at hq'
      rw [hdd, hq]
      exact List.mem_cons_of_mem _ hq'
    · rwa [Asl.setProcq_of_ne hdd] at hq'

/-- `removeBlocked` takes the process it returns. -/
theorem Linked.removeBlocked (h : Linked lossy s none) (semAdd : Word) :
    Linked lossy { s with toPhase1 := (s.toPhase1.removeBlocked semAdd).2 }
      (s.toPhase1.removeBlocked semAdd).1 := by
  rcases s.toPhase1.removeBlocked_cases semAdd with
    ⟨-, he⟩ | ⟨d, hf, ⟨hq, he⟩ | ⟨p, rest, hq, he⟩⟩
  · rw [he]
    exact h
  · rw [he]
    obtain ⟨hm, -⟩ := Asl.find_some hf
    rw [Asl.setProcq_eq hq]
    exact h.giveBack hm hq
  · rw [he]
    obtain ⟨hm, -⟩ := Asl.find_some hf
    have hd := h.dequeue hm hq
    by_cases hr : rest = []
    · rw [if_pos hr]
      exact hd.giveBack hm (by rw [Asl.setProcq_self, hr])
    · rw [if_neg hr]
      exact hd

end Kernel

end PandOS
