import PandOS.Phase3.Refine

/-!
# Phase 3 — the session: one job at a time

What PandOS is for, seen from the terminal: a session is opened by the shell, runs one program
after the other in the foreground, is closed by the shell and ends the machine.  `Desk` is that
machine, over the marks of a session: a U-proc is launched, has finished, `test` halts.

A step of the Support Level makes a mark where it is the `CREATEPROCESS` of a U-proc, the
`V(masterSemaphore)` or `V(shellSemaphore)` of one that ends, or the `TERMPROCESS` of `test`.
`Support.session_of_run`: on every run the marks are a run of `Desk`, and the state it is in tells who
is at work.
-/

namespace PandOS

/-! ### The session -/

/-- What is seen of a session. -/
inductive Mark where
  | launched (a : Asid)
  | finished (a : Asid)
  | halted
  deriving DecidableEq

/-- `shell job`: the shell is at work, and `job` is the program in the foreground. -/
inductive Desk where
  | off
  | shell (job : Option Asid)
  | closed
  | halted
  deriving DecidableEq

/-- What may be seen next, and the state after it. -/
def Desk.step : Desk → Mark → Option Desk
  | .off, .launched a => if a = .shell then some (.shell none) else none
  | .shell none, .launched a => if a = .shell then none else some (.shell (some a))
  | .shell none, .finished a => if a = .shell then some .closed else none
  | .shell (some b), .finished a => if a = b then some (.shell none) else none
  | .closed, .halted => some .halted
  | _, _ => none

namespace Support

variable {n : ℕ} {s t : Support n} {e : SupportEvent n} {q j : Pid} {a b : Asid} {c : Stage}
  {d : Desk} {m : Mark}

/-- The mark of a step. -/
def mark (s : Support n) : SupportEvent n → Option Mark
  | .test =>
      match s.testPc with
      | .create => some (.launched .shell)
      | .term => some .halted
      | _ => none
  | .handler q =>
      match s.vm.proc q, s.pc q with
      | some ⟨_, .run⟩, .sys6 (.create asid) => some (.launched asid)
      | some ⟨a, .dying⟩, .signal => some (.finished a)
      | _, _ => none
  | _ => none

/-- The marks made so far. -/
def marks (s : Support n) (e : SupportEvent n) (_ : Support n) (l : List Mark) : List Mark :=
  l ++ (s.mark e).toList

/-! ### Who is at work -/

/-- The ASID of a live process that has not done its last `V`. -/
def atWork (s : Support n) (q : Pid) : Option Asid :=
  (s.stageOf q).bind fun x => if x.2 = .term then none else some x.1

theorem atWork_eq_some : s.atWork q = some a ↔ ∃ c, s.stageOf q = some (a, c) ∧ c ≠ .term := by
  unfold atWork
  cases s.stageOf q with
  | none => simp
  | some x =>
      obtain ⟨b, c⟩ := x
      by_cases hc : c = .term
      · simp [hc]
      · simp [hc]

theorem atWork_of (hq : s.stageOf q = some (a, c)) (hc : c ≠ .term) : s.atWork q = some a :=
  atWork_eq_some.mpr ⟨c, hq, hc⟩

theorem atWork_none (hq : s.stageOf q = none) : s.atWork q = none := by
  rw [atWork, hq]
  rfl

theorem stageOf_eq_none : s.stageOf q = none ↔ s.vm.proc q = none := Option.map_eq_none_iff

theorem atWork_same (h : t.stageOf = s.stageOf) : t.atWork = s.atWork := by
  unfold atWork
  rw [h]

/-- A process moves to another stage. -/
theorem atWork_update {x : Option (Asid × Stage)} (h : t.stageOf = Function.update s.stageOf q x) :
    t.atWork = Function.update s.atWork q
      (x.bind fun x => if x.2 = .term then none else some x.1) := by
  funext i
  unfold atWork
  rw [h]
  by_cases hi : i = q
  · rw [hi, Function.update_self, Function.update_self]
  · rw [Function.update_of_ne hi, Function.update_of_ne hi]

/-- A process at work moves to another stage at which it is at work. -/
theorem atWork_move {x : Stage} (hq : s.stageOf q = some (a, x)) (hx : x ≠ .term)
    (hc : c ≠ .term) (h : t.stageOf = Function.update s.stageOf q (some (a, c))) :
    t.atWork = s.atWork := by
  rw [atWork_update h, Option.bind_some, if_neg hc, ← atWork_of hq hx, Function.update_eq_self]

/-- `TERMPROCESS` of processes that have done their last `V`. -/
theorem atWork_terminate (h : ∀ j ∈ s.progeny q, ∃ b, s.stageOf j = some (b, .term)) :
    (s.terminate q).atWork = s.atWork := by
  funext j
  unfold atWork
  rw [stageOf_terminate]
  by_cases hj : j ∈ s.progeny q
  · obtain ⟨b, hb⟩ := h j hj
    rw [if_pos hj, hb]
    rfl
  · rw [if_neg hj]

/-! ### What a step does to them -/

/-- How `test` goes on without a mark. -/
def TestGoes (s t : Support n) : Prop :=
  t.testPc = s.testPc ∨ s.testPc.early ∧ t.testPc.early ∨ s.testPc = .wait ∧ t.testPc = .term

/-- A step with a mark. -/
inductive Marked (s t : Support n) : Mark → Prop where
  | shell (ht : s.testPc = .create)
      (hw : t.atWork = Function.update s.atWork s.vm.nextPid (some .shell)) :
      Marked s t (.launched .shell)
  | program (q : Pid) (b a : Asid) (hb : ¬ s.blocked q) (hq : s.stageOf q = some (b, .exec a))
      (hw : t.atWork = Function.update s.atWork s.vm.nextPid (some a)) : Marked s t (.launched a)
  | finished (q : Pid) (a : Asid) (hb : ¬ s.blocked q) (hq : s.stageOf q = some (a, .plain))
      (hw : t.atWork = Function.update s.atWork q none) (ht : t.testPc = s.testPc) :
      Marked s t (.finished a)
  | halted (ht : s.testPc = .term) (hb : 0 ∉ s.masterSemaphore.queue) (ht' : t.testPc = .done) :
      Marked s t .halted

/-- **What a step does to those at work.** -/
theorem Step.marked (h : Step s e t) (hg : s.Good) :
    (s.mark e = none ∧ t.atWork = s.atWork ∧ TestGoes s t) ∨
      ∃ m, s.mark e = some m ∧ Marked s t m := by
  have keep : ∀ {f : VmEvent n} {u : VM n}, s.vm.step f = some u → (∀ a, f ≠ .create a) →
      (∀ q, f ≠ .exit q) → ∀ q, (u.proc q).map Proc.asid = (s.vm.proc q).map Proc.asid :=
    fun hu hc hx => ((VM.step_view hu).asids hc hx).1
  have same : s.mark e = none → t.stageOf = s.stageOf → t.testPc = s.testPc →
      s.mark e = none ∧ t.atWork = s.atWork ∧ TestGoes s t :=
    fun hm hst ht => ⟨hm, atWork_same hst, .inl ht⟩
  -- `q` moves to a statement of the same stage
  have quiet : ∀ {q : Pid} {u : Support n} {g : GenPc}, u.vm.proc = s.vm.proc →
      u.pc = Function.update s.pc q g → g.stage = (s.pc q).stage → u.stageOf = s.stageOf :=
    fun hv hp hg => stageOf_setPc_same (fun j => by rw [hv]) hp hg
  -- `q` moves to a statement of another stage
  have move : ∀ {q : Pid} {a : Asid} {c : Ctl} {u : Support n} (g : GenPc),
      s.vm.proc q = some ⟨a, c⟩ → u.vm.proc = s.vm.proc → u.pc = Function.update s.pc q g →
      u.stageOf = Function.update s.stageOf q (some (a, g.stage)) :=
    fun _ hq hv hp => stageOf_setPc hq (fun j => by rw [hv]) hp
  have here : ∀ {q : Pid} {a : Asid} {c : Ctl} {g : GenPc}, s.vm.proc q = some ⟨a, c⟩ →
      s.pc q = g → s.stageOf q = some (a, g.stage) :=
    fun hq hpc => by rw [stageOf_some hq, hpc]
  cases h with
  | testInit hpc =>
      exact .inl ⟨by simp [mark, hpc], atWork_same rfl, .inr (.inl ⟨by rw [hpc]; trivial, trivial⟩)⟩
  | testInitDone hpc =>
      exact .inl ⟨by simp [mark, hpc], atWork_same rfl, .inr (.inl ⟨by rw [hpc]; trivial, trivial⟩)⟩
  | testCreate hpc =>
      exact .inr ⟨_, by simp [mark, hpc], .shell hpc (atWork_update (stageOf_create rfl rfl))⟩
  | testWait hpc => exact .inl ⟨by simp [mark, hpc], atWork_same rfl, .inr (.inr ⟨hpc, rfl⟩)⟩
  | testTerm hpc hb => exact .inr ⟨_, by simp [mark, hpc], .halted hpc hb rfl⟩
  | load hb hpc hu =>
      exact .inl (same rfl (stageOf_eq (keep hu (by simp) (by simp)) fun _ _ => rfl) rfl)
  | store hb hpc hu =>
      exact .inl (same rfl (stageOf_eq (keep hu (by simp) (by simp)) fun _ _ => rfl) rfl)
  | sys4Load hb hpc hu =>
      exact .inl (same rfl (stageOf_setPc_same (keep hu (by simp) (by simp)) rfl
        (by rw [hpc]; rfl)) rfl)
  | sys5Store hb hpc hu =>
      exact .inl (same rfl (stageOf_setPc_same (keep hu (by simp) (by simp)) rfl
        (by rw [hpc, sys5Loop_plain]; rfl)) rfl)
  | refill hb hu =>
      exact .inl (same rfl (stageOf_eq (keep hu (by simp) (by simp)) fun _ _ => rfl) rfl)
  | fault hb hp hu =>
      have hv := keep hu (by simp) (by simp)
      have hn := ((VM.step_view hu).asids (by simp) (by simp)).2
      exact .inl (same rfl (withVm_stageOf hv (mayTouch_touching hp)) (withVm_frame hn).test)
  | pager hb hu =>
      have hv := keep hu (by simp) (by simp)
      have hn := ((VM.step_view hu).asids (by simp) (by simp)).2
      cases VM.step_view hu with
      | pager hq =>
          exact .inl (same rfl (withVm_stageOf hv (hg.placed _ _ _ _ hq)) (withVm_frame hn).test)
  | flashDone hu =>
      exact .inl (same rfl (stageOf_eq (keep hu (by simp) (by simp)) fun _ _ => rfl) rfl)
  | ecall hq hpc => exact .inl (same rfl (quiet rfl rfl (by rw [hpc]; rfl)) rfl)
  | trap hq hpc => exact .inl (same rfl (quiet rfl rfl (by rw [hpc]; rfl)) rfl)
  | @dispatch q a hb hq hpc hne =>
      refine .inl ⟨by simp [mark, hq, hpc], ?_, .inl rfl⟩
      rcases supportGeneralExHandler_stage a (s.saved a) with hpl | ⟨rfl, asid, -, hex⟩
      · exact atWork_same (quiet rfl rfl (by rw [hpc, hpl]; rfl))
      · exact atWork_move (c := .exec asid) (here hq hpc) (by simp [GenPc.stage]) (by simp)
          (move (.sys6 (.init asid 0)) hq rfl (by rw [← hex]; rfl))
  | @doom q a hb hq hpc hne =>
      refine .inl (same (by simp [mark, hq, hpc]) (stageOf_setPc_same (q := q) (g := .signal)
        (fun j => ?_) rfl (by rw [hpc]; rfl)) rfl)
      show (Function.update s.vm.proc q (some ⟨a, .dying⟩) j).map Proc.asid = _
      rw [Function.update_apply]
      by_cases hj : j = q
      · rw [if_pos hj, hj, hq]; rfl
      · rw [if_neg hj]
  | sys4Acquire hb hq hpc =>
      exact .inl (same (by simp [mark, hq, hpc])
        (quiet rfl rfl (by rw [hpc, sys4Loop_plain]; rfl)) rfl)
  | sys5Acquire hb hq hpc =>
      exact .inl (same (by simp [mark, hq, hpc])
        (quiet rfl rfl (by rw [hpc, sys5Loop_plain]; rfl)) rfl)
  | sys4Command hb hq hpc | sys4Release hb hq hpc | sys5Command hb hq hpc | sys5Release hb hq hpc
  | sys6Init hb hq hpc | sys6InitDone hb hq hpc | ldst hb hq hpc =>
      exact .inl (same (by simp [mark, hq, hpc]) (quiet rfl rfl (by rw [hpc]; rfl)) rfl)
  | @sys6Create q a asid hb hq hpc =>
      refine .inr ⟨_, by simp [mark, hq, hpc], .program q a asid hb (here hq hpc) ?_⟩
      have hne : q ≠ s.vm.nextPid := hg.iso.excl.ne_next hq
      have hq' : (s.createProc q asid).vm.proc q = some ⟨a, .run⟩ :=
        (Function.update_of_ne hne ..).trans hq
      have hw : (s.createProc q asid).atWork = Function.update s.atWork s.vm.nextPid (some asid) :=
        atWork_update (stageOf_create rfl rfl)
      have hexec : (s.createProc q asid).stageOf q = some (a, .exec asid) := by
        rw [stageOf_create (t := s.createProc q asid) rfl rfl, Function.update_of_ne hne, here hq hpc]
        rfl
      rw [← hw]
      exact atWork_move (c := .wait) hexec (by simp) (by simp)
        (stageOf_setPc (s := s.createProc q asid) (g := .sys6 .wait) hq' (fun _ => rfl) rfl)
  | @sys6Wait q a hb hq hpc =>
      exact .inl ⟨by simp [mark, hq, hpc], atWork_move (here hq hpc) (by simp [GenPc.stage])
        (by simp [GenPc.stage]) (move .ldst hq rfl rfl), .inl rfl⟩
  | @signal q a hb hq hpc =>
      obtain ⟨hv, hp⟩ := signal_setPc (s := s) (a := a) (q := q) (g := .term)
      have hst := move .term hq (congrArg VM.proc hv) hp
      exact .inr ⟨_, by simp [mark, hq, hpc], .finished q a hb (here hq hpc)
        (atWork_update hst) (by unfold setPc Support.signal; split <;> rfl)⟩
  | @term q pr hb hq hpc =>
      refine .inl ⟨?_, atWork_terminate fun j hj => ?_, .inl ?_⟩
      · obtain ⟨a, c⟩ := pr
        cases c <;> simp [mark, hq, hpc]
      · exact hg.sync.victims (here (c := pr.ctl) hq hpc) hb hj
      · exact (foldl_remove (s.progeny q) s).2.2.1
  | @noPcb q a asid hb hq hpc =>
      exact .inl ⟨rfl, atWork_move (here hq hpc) (by simp [GenPc.stage]) (by simp [GenPc.stage])
        (move (.sys6 .wait) hq rfl rfl), .inl rfl⟩
  | sys4Done hq hpc =>
      refine .inl (same rfl (quiet rfl rfl ?_) rfl)
      rw [hpc]
      split
      · rfl
      · rw [sys4Loop_plain]; rfl
  | sys5Done hq hpc =>
      refine .inl (same rfl (quiet rfl rfl ?_) rfl)
      rw [hpc]
      split <;> rfl

/-! ### The state of the session -/

/-- Who is at work in each state of the session. -/
inductive Session (s : Support n) : Desk → Prop where
  | off (ht : s.testPc.early) (hw : ∀ q, s.atWork q = none) : Session s .off
  /-- The shell is at work, and nobody else. -/
  | shell (h : Pid) (hh : s.atWork h = some .shell) (hw : ∀ q, q ≠ h → s.atWork q = none) :
      Session s (.shell none)
  /-- So is one program, and the shell is about to wait for it, or waits. -/
  | job (h q : Pid) (a : Asid) (ha : a ≠ .shell) (hh : s.atWork h = some .shell)
      (hq : s.atWork q = some a) (hw : ∀ j, j ≠ h → j ≠ q → s.atWork j = none)
      (hwait : s.pc h = .sys6 .wait ∨ s.shellSemaphore.queue = [h]) : Session s (.shell (some a))
  | closed (ht : s.testPc = .wait ∨ s.testPc = .term) (hw : ∀ q, s.atWork q = none) :
      Session s .closed
  | halted (ht : s.testPc = .done) (hno : ∀ q, s.vm.proc q = none) : Session s .halted

theorem GenPc.eq_wait {g : GenPc} (h : g.stage = .wait) : g = .sys6 .wait := by
  cases g with
  | sys6 pc =>
      cases pc with
      | wait => rfl
      | _ => cases h
  | _ => cases h

/-- While a program is at work the shell is about to wait, or waits. -/
theorem Sync.waits (h : s.Sync) {i : Pid} (hi : s.atWork i = some .shell)
    (hj : s.atWork j = some a) (ha : a ≠ .shell) :
    s.pc i = .sys6 .wait ∨ s.shellSemaphore.queue = [i] := by
  obtain ⟨c, hi, -⟩ := atWork_eq_some.mp hi
  obtain ⟨c', hj, hc'⟩ := atWork_eq_some.mp hj
  cases h.shell with
  | idle _ hk _ => exact absurd (hk j a c' hj ha) hc'
  | opened k _ hk =>
      obtain rfl := h.shell1 _ _ _ _ hk hi
      left
      obtain ⟨pr, hpr, he⟩ := Option.map_eq_some_iff.mp hk
      exact GenPc.eq_wait (congrArg Prod.snd he)
  | early _ _ _ hk => exact absurd (hk j a c' hj ha) hc'
  | asleep k hs hk =>
      obtain rfl := h.shell1 _ _ _ _ hk hi
      exact .inr (by rw [hs])

/-- When `test` is done nobody lives. -/
theorem Sync.done (h : s.Sync) (hd : s.testPc = .done) (q : Pid) : s.vm.proc q = none := by
  cases h.test with
  | done _ hno => exact stageOf_eq_none.mp (hno q)
  | early h₁ => rw [hd] at h₁; exact h₁.elim
  | ready _ _ h₁ => rw [hd] at h₁; cases h₁
  | signalled h₁ => rw [hd] at h₁; cases h₁
  | asleep _ _ h₁ => rw [hd] at h₁; cases h₁
  | woken h₁ => rw [hd] at h₁; cases h₁

/-- A step without a mark. -/
theorem Session.quiet (h : Session s d) (ht : t.Sync) (hw : t.atWork = s.atWork)
    (hg : TestGoes s t) : Session t d := by
  cases h with
  | off he h₀ =>
      refine .off ?_ fun q => by rw [hw]; exact h₀ q
      rcases hg with hg | ⟨-, hg⟩ | ⟨hg, -⟩
      · rw [hg]; exact he
      · exact hg
      · rw [hg] at he; exact he.elim
  | shell i hi h₀ => exact .shell i (by rw [hw]; exact hi) fun q hq => by rw [hw]; exact h₀ q hq
  | job i q a ha hi hq h₀ =>
      rw [← hw] at hi hq
      exact .job i q a ha hi hq (fun j hj hjq => by rw [hw]; exact h₀ j hj hjq) (ht.waits hi hq ha)
  | closed he h₀ =>
      refine .closed ?_ fun q => by rw [hw]; exact h₀ q
      rcases hg with hg | ⟨hg, -⟩ | ⟨-, hg⟩
      · rw [hg]; exact he
      · rcases he with he | he
        all_goals rw [he] at hg; exact hg.elim
      · exact .inr hg
  | halted he _ =>
      have hd : t.testPc = .done := by
        rcases hg with hg | ⟨hg, -⟩ | ⟨hg, -⟩
        · rw [hg]; exact he
        · rw [he] at hg; exact hg.elim
        · rw [he] at hg; cases hg
      exact .halted hd (ht.done hd)

/-- The shell is at work and no program is: the state of the session. -/
theorem Session.eq_shell (h : Session s d) (hq : s.atWork q = some .shell) (hno : s.NoOpen) :
    d = .shell none ∧ ∀ j, j ≠ q → s.atWork j = none := by
  cases h with
  | off _ hw | closed _ hw =>
      rw [hw q] at hq
      cases hq
  | shell i _ hw =>
      obtain rfl : q = i := by
        by_contra hne
        rw [hw q hne] at hq
        cases hq
      exact ⟨rfl, hw⟩
  | job _ j a ha _ hj =>
      obtain ⟨c, hj, hc⟩ := atWork_eq_some.mp hj
      exact absurd (hno j a c hj ha) hc
  | halted _ hno =>
      obtain ⟨c, hq, -⟩ := atWork_eq_some.mp hq
      rw [stageOf_eq_none.mpr (hno q)] at hq
      cases hq

/-- A program is at work: the state of the session. -/
theorem Session.eq_job (h : Session s d) (hs : s.Sync) (hq : s.atWork q = some a) (ha : a ≠ .shell) :
    ∃ i, d = .shell (some a) ∧ s.atWork i = some .shell ∧
      ∀ j, j ≠ i → j ≠ q → s.atWork j = none := by
  cases h with
  | off _ hw | closed _ hw =>
      rw [hw q] at hq
      cases hq
  | shell i hi hw =>
      obtain rfl : q = i := by
        by_contra hne
        rw [hw q hne] at hq
        cases hq
      rw [hq] at hi
      exact absurd (Option.some.inj hi) ha
  | job i k b hb hi hk hw =>
      obtain rfl : k = q := by
        obtain ⟨c, hk, hc⟩ := atWork_eq_some.mp hk
        obtain ⟨c', hq, hc'⟩ := atWork_eq_some.mp hq
        exact hs.one _ _ _ _ _ _ hk hq hb ha hc hc'
      rw [hk] at hq
      cases hq
      exact ⟨i, rfl, hi, hw⟩
  | halted _ hno =>
      obtain ⟨c, hq, -⟩ := atWork_eq_some.mp hq
      rw [stageOf_eq_none.mpr (hno q)] at hq
      cases hq

/-- A step with a mark. -/
theorem Session.marked (h : Session s d) (hs : s.Sync) (ht : t.Sync) (hm : Marked s t m) :
    ∃ d', d.step m = some d' ∧ Session t d' := by
  cases hm with
  | shell hc hw =>
      -- `test` has not launched the shell, so nobody lives
      have hno : ∀ q, s.atWork q = none := by
        cases hs.test with
        | early _ _ hno => exact fun q => atWork_none (hno q)
        | ready _ _ h₁ => rw [hc] at h₁; cases h₁
        | signalled h₁ => rw [hc] at h₁; cases h₁
        | asleep _ _ h₁ => rw [hc] at h₁; cases h₁
        | woken h₁ => rw [hc] at h₁; cases h₁
        | done h₁ => rw [hc] at h₁; cases h₁
      have hd : d = .off := by
        cases h with
        | off => rfl
        | shell i hi => rw [hno i] at hi; cases hi
        | job i _ _ _ hi => rw [hno i] at hi; cases hi
        | closed h₁ => rw [hc] at h₁; rcases h₁ with h₁ | h₁ <;> cases h₁
        | halted h₁ => rw [hc] at h₁; cases h₁
      rw [hd]
      refine ⟨.shell none, rfl, .shell s.vm.nextPid ?_ fun q hq => ?_⟩
      · rw [hw, Function.update_self]
      · rw [hw, Function.update_of_ne hq, hno]
  | program q b a hb hq hw =>
      obtain ⟨rfl, ha⟩ := hs.exec _ _ _ hq
      obtain ⟨-, hno, -⟩ := hs.idle hq hb (by simp)
      have hqw := atWork_of hq (by simp)
      obtain ⟨rfl, hother⟩ := h.eq_shell hqw hno
      have hne : q ≠ s.vm.nextPid := (hs.live q _ hq).2.ne
      have hqt : t.atWork q = some .shell := by rw [hw, Function.update_of_ne hne, hqw]
      have hnew : t.atWork s.vm.nextPid = some a := by rw [hw, Function.update_self]
      refine ⟨.shell (some a), if_neg ha, .job q _ a ha hqt hnew (fun j hj hjn => ?_)
        (ht.waits hqt hnew ha)⟩
      rw [hw, Function.update_of_ne hjn, hother j hj]
  | finished q a hb hq hw htest =>
      have hqw := atWork_of hq (by simp)
      by_cases ha : a = .shell
      · subst ha
        obtain ⟨-, hno, -⟩ := hs.idle hq hb (by simp)
        obtain ⟨rfl, hother⟩ := h.eq_shell hqw hno
        have hnone : ∀ j, t.atWork j = none := by
          intro j
          rw [hw]
          by_cases hj : j = q
          · rw [hj, Function.update_self]
          · rw [Function.update_of_ne hj, hother j hj]
        refine ⟨.closed, rfl, .closed ?_ hnone⟩
        rw [htest]
        cases hs.test with
        | early _ _ hno | done _ hno => rw [hno q] at hq; cases hq
        | ready _ _ h₁ | signalled h₁ => exact .inl h₁
        | asleep _ _ h₁ | woken h₁ => exact .inr h₁
      · obtain ⟨i, rfl, hi, hother⟩ := h.eq_job hs hqw ha
        refine ⟨.shell none, if_pos rfl, .shell i ?_ fun j hj => ?_⟩
        · have hne : i ≠ q := by
            rintro rfl
            rw [hqw] at hi
            exact ha (Option.some.inj hi)
          rw [hw, Function.update_of_ne hne, hi]
        · rw [hw]
          by_cases hjq : j = q
          · rw [hjq, Function.update_self]
          · rw [Function.update_of_ne hjq, hother j hj hjq]
  | halted hc hb hd =>
      -- `test` is past its `P`, so the shell is over
      have ho : s.ShellOver := by
        cases hs.test with
        | early h₁ => rw [hc] at h₁; exact h₁.elim
        | ready _ _ h₁ => rw [hc] at h₁; cases h₁
        | signalled h₁ => rw [hc] at h₁; cases h₁
        | asleep _ _ _ h₂ => exact absurd (by simp [h₂]) hb
        | woken _ _ ho => exact ho
        | done h₁ => rw [hc] at h₁; cases h₁
      have hno : ∀ i, s.atWork i ≠ some .shell := by
        intro i hi
        obtain ⟨c, hi, hne⟩ := atWork_eq_some.mp hi
        exact hne (ho i c hi)
      have hcl : d = .closed := by
        cases h with
        | closed => rfl
        | off h₁ => rw [hc] at h₁; exact h₁.elim
        | shell i hi | job i _ _ _ hi => exact absurd hi (hno i)
        | halted h₁ => rw [hc] at h₁; cases h₁
      rw [hcl]
      exact ⟨.halted, rfl, .halted hd (ht.done hd)⟩

/-! ### Runs -/

/-- **One job at a time.**  On every run, whatever the interleaving, the devices and the failures:
the marks are a run of the session, and its state tells who is at work. -/
theorem session_of_run (flash : PageId → Page) (frame : FrameNo → Page) (reg : Asid → FlashReg)
    {es : List (SupportEvent n)} {l : List Mark}
    (hr : Run (record step marks) anyStep ((boot flash frame reg : Support n), []) es (s, l)) :
    ∃ d, Run Desk.step anyStep .off l d ∧ Session s d := by
  have hoff : Session (boot flash frame reg : Support n) .off := .off trivial fun _ => rfl
  have hinv := hr.inv (I := fun x => x.1.Good ∧
    ∃ d, Run Desk.step anyStep .off x.2 d ∧ Session x.1 d)
    ⟨.boot flash frame reg, .off, .nil _, hoff⟩ ?_
  · exact hinv.2
  · intro x e y ⟨hg, d, hd, hs⟩ _ hst
    obtain ⟨hstep, hnote⟩ := record_eq_some hst
    have hv := step_view hstep
    have hg' := hg.step hv
    refine ⟨hg', ?_⟩
    rw [hnote, marks]
    rcases hv.marked hg with ⟨hm, hw, hgo⟩ | ⟨m, hm, hmk⟩
    · rw [hm, Option.toList_none, List.append_nil]
      exact ⟨d, hd, hs.quiet hg'.sync hw hgo⟩
    · obtain ⟨d', hd', hs'⟩ := hs.marked hg.sync hg'.sync hmk
      rw [hm]
      exact ⟨d', .snoc hd trivial hd', hs'⟩

/-- A session with one program. -/
def session : List (SupportEvent 16) :=
  launch ++ execute 1 2 ++ exit 2 ++ .handler 1 :: exit 1 ++ [.test]

theorem session_of_run_halted : ∃ s l, Run (record step marks) anyStep (blank, []) session (s, l) ∧
    l = [.launched .shell, .launched prog, .finished prog, .finished .shell, .halted] ∧
    Session s .halted := by
  obtain ⟨⟨s, l⟩, hr, hl⟩ := exists_run (record step marks) anyStep
    (fun x => x.2 = [.launched .shell, .launched prog, .finished prog, .finished .shell, .halted])
    (blank, []) session (by decide +kernel)
  obtain ⟨d, hd, hs⟩ := session_of_run _ _ _ hr
  have hd' : Run Desk.step anyStep .off l .halted := by
    rw [show l = _ from hl]
    exact run_of_exec rfl
  rw [hd.det hd'] at hs
  exact ⟨s, l, hr, hl, hs⟩

end Support

end PandOS
