import Mathlib.Data.BitVec
import Mathlib.Data.List.Find
import PandOS.Phase2.Commands

/-!
# Phase 2 — saved states and times

`Accounts` is what the nucleus keeps of processes on the processor: the states in `p_s`, the times
in `p_time`, and the reading `start_time_current_quantum`.  What its utilities do to them, and what
the `V`s of an interrupt do (`Answered`).
-/

namespace PandOS

/-- The states and the times of processes, and the mark from which the next charge is counted. -/
structure Accounts where
  saved : PcbId → State
  time : PcbId → Word
  mark : Word

namespace Accounts

variable {A : Accounts} {p q : PcbId}

/-- `p` is charged with the ticks since the mark. -/
def charge (A : Accounts) (p : PcbId) (tod : Word) : Accounts :=
  { A with time := Function.update A.time p (A.time p + (tod - A.mark)), mark := tod }

/-- A state is saved for `p`. -/
def save (A : Accounts) (p : PcbId) (st : State) : Accounts :=
  { A with saved := Function.update A.saved p st }

/-- Two charges are one. -/
theorem charge_charge (A : Accounts) (p : PcbId) (x y : Word) :
    (A.charge p x).charge p y = A.charge p y := by
  have hsum : A.time p + (x - A.mark) + (y - x) = A.time p + (y - A.mark) := by
    rw [add_assoc, sub_add_sub_cancel']
  unfold charge
  simp only [Function.update_self, Function.update_idem, hsum]

theorem save_charge (A : Accounts) (p : PcbId) (st : State) (x : Word) :
    (A.save p st).charge p x = (A.charge p x).save p st := rfl

end Accounts

namespace Kernel

variable {L : Layout} {s t u : Kernel} {lossy : Prop} {p q cur target : PcbId} {a : Word}
  {j : Fin semDevLen} {e : KernelEvent}

/-- The states, the times and the mark. -/
def accounts (s : Kernel) : Accounts :=
  ⟨fun p => (s.pcbFree_table p).p_s, fun p => (s.pcbFree_table p).p_time,
    s.start_time_current_quantum⟩

/-! ### The utilities -/

@[ext] theorem accounts_ext {A B : Accounts} (h₁ : A.saved = B.saved) (h₂ : A.time = B.time)
    (h₃ : A.mark = B.mark) : A = B := by
  cases A
  cases B
  cases h₁
  cases h₂
  cases h₃
  rfl

/-- The PCBs have the same states and times. -/
theorem accounts_table {v : Kernel} (hm : v.start_time_current_quantum = s.start_time_current_quantum)
    (h : ∀ p, (v.pcbFree_table p).p_s = (s.pcbFree_table p).p_s ∧
      (v.pcbFree_table p).p_time = (s.pcbFree_table p).p_time) : v.accounts = s.accounts :=
  accounts_ext (funext fun p => (h p).1) (funext fun p => (h p).2) hm

theorem accounts_modify (s : Kernel) (p : PcbId) (f : Pcb → Pcb) : (s.modify p f).accounts =
    ⟨Function.update s.accounts.saved p (f (s.pcbFree_table p)).p_s,
      Function.update s.accounts.time p (f (s.pcbFree_table p)).p_time, s.accounts.mark⟩ := by
  refine accounts_ext (funext fun q => ?_) (funext fun q => ?_) rfl
  · exact Function.apply_update (fun _ => Pcb.p_s) s.pcbFree_table p _ q
  · exact Function.apply_update (fun _ => Pcb.p_time) s.pcbFree_table p _ q

theorem accounts_updateCPUTime (s : Kernel) (p : PcbId) (tod : Word) :
    (s.updateCPUTime p tod).accounts = s.accounts.charge p tod := by
  have h := accounts_modify s p fun pcb =>
    { pcb with p_time := pcb.p_time + (tod - s.start_time_current_quantum) }
  have hsaved := congrArg Accounts.saved h
  have htime := congrArg Accounts.time h
  exact accounts_ext (hsaved.trans (Function.update_eq_self p _)) htime rfl

theorem accounts_copyState (s : Kernel) (p : PcbId) (st : State) :
    (s.copyState p st).accounts = s.accounts.save p st := by
  have h := accounts_modify s p fun pcb => { pcb with p_s := st }
  have hsaved := congrArg Accounts.saved h
  have htime := congrArg Accounts.time h
  exact accounts_ext hsaved (htime.trans (Function.update_eq_self p _)) rfl

/-- `insertBlocked` touches no account. -/
theorem accounts_insertBlocked (s : Kernel) (semAdd : Word) (p : PcbId) :
    { s with toPhase1 := (s.toPhase1.insertBlocked semAdd p).2 }.accounts = s.accounts := by
  refine accounts_table rfl fun q => ?_
  have henq : ∀ (x : Phase1) (d : SemdId), x.pcbFree_table = s.pcbFree_table →
      ((x.enqueue d semAdd p).pcbFree_table q).p_s = (s.pcbFree_table q).p_s ∧
      ((x.enqueue d semAdd p).pcbFree_table q).p_time = (s.pcbFree_table q).p_time := by
    intro x d hx
    by_cases hq : q = p
    · rw [hq, Phase1.enqueue_table, hx]
      exact ⟨rfl, rfl⟩
    · rw [Phase1.enqueue_of_ne hq, hx]
      exact ⟨rfl, rfl⟩
  show ((s.toPhase1.insertBlocked semAdd p).2.pcbFree_table q).p_s = _ ∧
    ((s.toPhase1.insertBlocked semAdd p).2.pcbFree_table q).p_time = _
  rcases s.toPhase1.insertBlocked_cases semAdd p with
    ⟨d, -, he⟩ | ⟨-, d, rest, -, he⟩ | ⟨-, -, he⟩
  · rw [he]
    exact henq _ d rfl
  · rw [he]
    exact henq _ d rfl
  · rw [he]
    exact ⟨rfl, rfl⟩

/-- A process that blocks is charged up to then. -/
theorem accounts_blocked (L : Layout) (s : Kernel) (cur : PcbId) (sem tod : Word) :
    (s.blocked L cur sem tod).accounts = s.accounts.charge cur tod := by
  have hmod : ((s.updateCPUTime cur tod).modify cur fun pcb =>
      { pcb with p_semAdd := sem }).accounts = s.accounts.charge cur tod := by
    rw [← accounts_updateCPUTime]
    exact (accounts_modify _ cur _).trans (accounts_ext (Function.update_eq_self cur _)
      (Function.update_eq_self cur _) rfl)
  rw [← hmod]
  unfold blocked
  dsimp only
  split
  · exact accounts_insertBlocked { (s.updateCPUTime cur tod).modify cur _ with
      softBlockCount := _ } sem cur
  · exact accounts_insertBlocked _ sem cur

/-- A kill leaves the accounts alone. -/
theorem accounts_kills (L : Layout) (K : PcbId → Prop) (A : Accounts) :
    Kills L K fun u => u.accounts = A where
  mark u p h _ _ _ := by
    rw [← h]
    refine accounts_table rfl fun q => ?_
    rw [mark_table]
    exact ⟨rfl, rfl⟩
  detach u p c rest h _ _ hc := by
    obtain ⟨-, -, -, ht⟩ := Pcbs.removeChild_cons hc
    rw [← h]
    refine accounts_table rfl fun q => ?_
    show ((u.toPcbs.removeChild p).2.pcbFree_table q).p_s = _ ∧
      ((u.toPcbs.removeChild p).2.pcbFree_table q).p_time = _
    rw [ht]
    exact ⟨rfl, rfl⟩
  bury u p h _ _ _ _ := by
    rw [← h]
    refine accounts_table ?_ fun q => ?_
    · obtain ⟨asl, n, m, he⟩ := leaveSemaphore_frame L u p
      unfold Kernel.bury
      rw [he]
      rfl
    · rw [bury_table]
      exact ⟨rfl, rfl⟩

theorem accounts_terminate (h : Sound lossy s) (hl : s.Live target) :
    (recursiveTerminateProcess L maxProc s target).accounts = s.accounts :=
  (terminate_rule (accounts_kills L (fun _ => True) s.accounts) (h.tree.called rfl) (fun _ => hl)
    fun _ _ => trivial).1

/-! ### The `V`s -/

/-- `p` has left the queue of the semaphore. -/
def Released (s t : Kernel) (a : Word) (p : PcbId) : Prop := p ∈ s.queue a ∧ p ∉ t.queue a

instance (s t : Kernel) (a : Word) (p : PcbId) : Decidable (Released s t a p) :=
  inferInstanceAs (Decidable (_ ∧ _))

/-- The process released has its saved state rewritten; times stay. -/
theorem accounts_release (hok : s.toAsl.Ok) (a : Word) (f : State → State) :
    (s.release a f).2.accounts = match (s.queue a).head? with
      | none => s.accounts
      | some p => s.accounts.save p (f (s.accounts.saved p)) := by
  have hp := removeBlocked_pcbs s.toPhase1 a
  have hfst := (release_spec hok a f).1
  unfold Kernel.release at hfst ⊢
  generalize s.toPhase1.removeBlocked a = r at hp hfst ⊢
  obtain ⟨x, v⟩ := r
  have htable : v.pcbFree_table = s.pcbFree_table := congrArg Pcbs.pcbFree_table hp
  cases x with
  | none =>
      rw [← hfst]
      refine accounts_table rfl fun q => ?_
      show (v.pcbFree_table q).p_s = _ ∧ (v.pcbFree_table q).p_time = _
      rw [htable]
      exact ⟨rfl, rfl⟩
  | some p =>
      rw [← hfst]
      refine (accounts_modify { s with toPhase1 := v } p _).trans ?_
      have hacc : { s with toPhase1 := v }.accounts = s.accounts := accounts_table rfl fun q => by
        show (v.pcbFree_table q).p_s = _ ∧ (v.pcbFree_table q).p_time = _
        rw [htable]
        exact ⟨rfl, rfl⟩
      rw [hacc]
      refine accounts_ext ?_ ?_ rfl
      · show Function.update s.accounts.saved p (f (v.pcbFree_table p).p_s) = _
        rw [htable]
        rfl
      · show Function.update s.accounts.time p (v.pcbFree_table p).p_time = _
        rw [htable]
        exact Function.update_eq_self p _

/-- From `s` to `t` nobody is charged, and those with an answer have it in `reg_a0`. -/
structure Answered (s t : Kernel) (ans : PcbId → Option Word) : Prop where
  time : t.accounts.time = s.accounts.time
  mark : t.accounts.mark = s.accounts.mark
  saved : ∀ p, t.accounts.saved p = match ans p with
    | some v => { s.accounts.saved p with reg_a0 := v }
    | none => s.accounts.saved p

theorem Answered.refl (s : Kernel) : Answered s s fun _ => none := ⟨rfl, rfl, fun _ => rfl⟩

/-- The first of the queue is released and answered. -/
theorem answered_release (hs : Sound lossy s) (a v : Word) :
    Answered s (s.release a fun st => { st with reg_a0 := v }).2 fun p =>
      if p ∈ s.queue a ∧ p ∉ (s.queue a).tail then some v else none := by
  have hacc := accounts_release hs.links.asl a fun st => { st with reg_a0 := v }
  have hsaved := fun p => congrFun (congrArg Accounts.saved hacc) p
  have htime := congrArg Accounts.time hacc
  have hmark := congrArg Accounts.mark hacc
  cases hq : s.queue a with
  | nil =>
      rw [hq] at hsaved htime hmark
      refine ⟨htime, hmark, fun p => (hsaved p).trans ?_⟩
      rw [if_neg fun h => List.not_mem_nil h.1]
      rfl
  | cons p rest =>
      have hnodup := hs.links.nodup_queue a
      rw [hq] at hnodup hsaved htime hmark
      have hp := (List.nodup_cons.mp hnodup).1
      refine ⟨htime, hmark, fun q => (hsaved q).trans ?_⟩
      show Function.update s.accounts.saved p _ q = _
      by_cases hqp : q = p
      · subst hqp
        rw [Function.update_self, if_pos ⟨List.mem_cons_self, hp⟩]
      · rw [Function.update_of_ne hqp, if_neg fun h => h.2 ((List.mem_cons.mp h.1).resolve_left hqp)]

/-- The first of the queue, if any, is not in it any more. -/
theorem released_tail (h : t.queue a = (s.queue a).tail) (p : PcbId) :
    Released s t a p ↔ p ∈ s.queue a ∧ p ∉ (s.queue a).tail := by
  unfold Released
  rw [h]

/-- The `V` of a device answers with the status whom it releases. -/
theorem answered_wake (hs : Sound lossy s) (j : Fin semDevLen) (v : Word) :
    Answered s (s.wake L j v) fun p =>
      if Released s (s.wake L j v) (L.sem j) p then some v else none := by
  have hqueue : (s.wake L j v).queue (L.sem j) = (s.sems.wake L j).queue (L.sem j) :=
    congrFun (congrArg Sems.queue (sems_wake hs j v)) _
  by_cases hneg : (s.mem (L.sem j)).toInt < 0
  · have hnegS : (s.sems.word (L.sem j)).toInt < 0 := hneg
    have htail : (s.wake L j v).queue (L.sem j) = (s.queue (L.sem j)).tail := by
      rw [hqueue, Sems.wake, if_pos hnegS]
      exact Function.update_self ..
    have hacc : (s.wake L j v).accounts = ((s.setMem (L.sem j) (s.mem (L.sem j) + 1)).release
        (L.sem j) fun st => { st with reg_a0 := v }).2.accounts := by
      unfold Kernel.wake
      rw [if_pos hneg]
      split
      · rename_i he
        rw [he]
      · rename_i he
        rw [he]
        rfl
    have hr := answered_release (hs.setMem (L.sem j) (s.mem (L.sem j) + 1)) (L.sem j) v
    refine ⟨(congrArg Accounts.time hacc).trans hr.time, (congrArg Accounts.mark hacc).trans hr.mark,
      fun p => ((congrFun (congrArg Accounts.saved hacc) p).trans (hr.saved p)).trans ?_⟩
    simp only [released_tail htail]
    rfl
  · have hsame : s.wake L j v = s := by
      unfold Kernel.wake
      rw [if_neg hneg]
    rw [hsame]
    refine ⟨rfl, rfl, fun p => ?_⟩
    rw [if_neg fun h => h.2 h.1]

/-- The status of the `V` that has released `p`. -/
def statusOf (L : Layout) (l : List (Fin semDevLen × Word)) (s t : Kernel) (p : PcbId) :
    Option Word :=
  (l.find? fun x => Released s t (L.sem x.1) p).map Prod.snd

/-- The `V`s of an interrupt, on different devices. -/
theorem answered_vs {l : List (Fin semDevLen × Word)} (hs : Sound lossy s) (h : Vs L l s t)
    (hl : (l.map Prod.fst).Nodup) : Answered s t (statusOf L l s t) := by
  induction l generalizing s with
  | nil =>
      obtain ⟨o, rfl⟩ := h
      exact ⟨rfl, rfl, fun p => rfl⟩
  | cons x l ih =>
      obtain ⟨o, h⟩ := h
      obtain ⟨hx, hl⟩ := List.nodup_cons.mp hl
      have hso := hs.quiet (quiet_out s o)
      have hw := answered_wake (L := L) hso x.1 x.2
      have hsu := hso.wake (L := L) x.1 x.2
      have hqu := sems_wake (L := L) hso x.1 x.2
      have hqt := sems_wakes hsu h.wakes
      generalize ({ s with out := o } : Kernel).wake L x.1 x.2 = u at h hw hsu hqu hqt
      have hih := ih hsu h hl
      have hsem : ∀ y ∈ l, L.sem y.1 ≠ L.sem x.1 := fun y hy he =>
        hx (Layout.sem_inj he ▸ List.mem_map_of_mem hy)
      -- the queue of this device is as in `u` at the end, those of the others as in `s` in `u`
      have hthis : t.queue (L.sem x.1) = u.queue (L.sem x.1) :=
        (congrFun (congrArg Sems.queue hqt) _).trans
          (Sems.wakes_other fun y hy he => hsem y hy he.symm).2
      have hother : ∀ y ∈ l, u.queue (L.sem y.1) = s.queue (L.sem y.1) := fun y hy =>
        (congrFun (congrArg Sems.queue hqu) _).trans (Sems.wake_other (hsem y hy)).2
      have hsub : ∀ p, p ∈ u.queue (L.sem x.1) → p ∈ s.queue (L.sem x.1) := by
        intro p hp
        have he : u.queue (L.sem x.1) = (s.sems.wake L x.1).queue (L.sem x.1) :=
          congrFun (congrArg Sems.queue hqu) _
        rw [he] at hp
        unfold Sems.wake at hp
        split at hp
        · have he' : Function.update s.queue (L.sem x.1) (s.queue (L.sem x.1)).tail (L.sem x.1) =
              (s.queue (L.sem x.1)).tail := Function.update_self ..
          exact List.mem_of_mem_tail (he' ▸ hp)
        · exact hp
      refine ⟨hih.time.trans hw.time, hih.mark.trans hw.mark, fun p => ?_⟩
      have hfind : ∀ y ∈ l, decide (Released u t (L.sem y.1) p) =
          decide (Released s t (L.sem y.1) p) := fun y hy => by
        refine decide_eq_decide.mpr ?_
        unfold Released
        rw [hother y hy]
      have hrel : Released { s with out := o } u (L.sem x.1) p ↔ Released s t (L.sem x.1) p := by
        unfold Released
        rw [hthis]
      rw [hih.saved p, hw.saved p]
      unfold statusOf
      rw [List.find?_congr hfind, List.find?_cons]
      by_cases hp : Released s t (L.sem x.1) p
      · -- it waits for this device only
        have hnone : l.find? (fun y => decide (Released s t (L.sem y.1) p)) = none :=
          List.find?_eq_none.mpr fun y hy hy' =>
            hsem y hy (hs.links.queue_unique (of_decide_eq_true hy').1 hp.1)
        rw [if_pos (hrel.mpr hp), hnone, decide_eq_true hp]
        rfl
      · rw [if_neg fun hx => hp (hrel.mp hx), decide_eq_false hp]
        rfl

/-- The interval timer. -/
theorem answered_wakeClock {k : ℕ} (hs : Sound lossy s)
    (hk : (s.queue (L.sem pseudoClock)).length < k) :
    Answered s (s.wakeClock L k) fun p =>
      if p ∈ s.queue (L.sem pseudoClock) then some 0 else none := by
  induction k generalizing s with
  | zero => omega
  | succ k ih =>
      have hacc := answered_release hs (L.sem pseudoClock) 0
      unfold Kernel.wakeClock
      cases hq : s.queue (L.sem pseudoClock) with
      | nil =>
          obtain ⟨v, hr, -⟩ := release_clock_nil hs hq
          rw [hq, hr] at hacc
          rw [hr]
          refine ⟨hacc.time, hacc.mark, fun p => (hacc.saved p).trans ?_⟩
          rw [if_neg fun h => List.not_mem_nil h.1, if_neg List.not_mem_nil]
      | cons p rest =>
          obtain ⟨v, hr, -, hsv, hrest⟩ := release_clock hs hq
          rw [hq, hr] at hacc
          rw [hr]
          rw [hq, List.length_cons] at hk
          have hih := ih hsv (by
            rw [hrest]
            omega)
          rw [hrest] at hih
          refine ⟨hih.time.trans hacc.time, hih.mark.trans hacc.mark, fun q => ?_⟩
          have hvq := hacc.saved q
          refine Eq.trans (hih.saved q) ?_
          by_cases hqr : q ∈ rest
          · rw [if_neg fun h => h.2 hqr] at hvq
            rw [if_pos hqr, if_pos (List.mem_cons_of_mem p hqr)]
            exact congrArg (fun st : State => { st with reg_a0 := 0 }) hvq
          · rw [if_neg hqr]
            refine Eq.trans hvq ?_
            by_cases hqp : q ∈ p :: rest
            · rw [if_pos ⟨hqp, hqr⟩, if_pos hqp]
            · rw [if_neg fun h => hqp h.1, if_neg hqp]

end Kernel

end PandOS
