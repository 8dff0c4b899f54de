import PandOS.Phase2.Effects
import PandOS.Phase3.TerminalSteps

/-!
# Phase 3 — what `EXECUTE` reports

A call of `sys6_execute` by the shell is seen as the list of its `ExecAct`s: what `CREATEPROCESS`
answers, the `P` on `shellSemaphore`, the `V`s that are done on it, and the `reg_a0` the shell
resumes with.  What the nucleus answers is read off one of its states, by whether a PCB is free.

`Reports` says what a call should do in the three cases.  `Support.reports_iff`: it does exactly
where `reg_a1` is not the ASID of a program.  Else `reg_a0` is never written, so the shell resumes
with the number of the service; and it waits for the child even where there is none.
-/

namespace PandOS

variable {n : ℕ}

/-- What a call of `EXECUTE` does, and what is done on the semaphore it waits on. -/
inductive ExecAct where
  /-- `CREATEPROCESS` returns a PID. -/
  | created
  /-- `CREATEPROCESS` returns -1. -/
  | failed
  | waits
  | signalled
  /-- `LDST`, with this `reg_a0`. -/
  | resumes (a0 : Word)
  deriving DecidableEq

/-- What a statement does for the calls of `EXECUTE`. -/
def SupportAct.exec : SupportAct → Option ExecAct
  | .createProcess => some .created
  | .passeren .shell => some .waits
  | .verhogen .shell => some .signalled
  | _ => none

/-- A child is created, and later somebody signals. -/
def Signalled (h : List ExecAct) : Prop := ∃ h₁ h₂, h = h₁ ++ .created :: h₂ ∧ .signalled ∈ h₂

namespace Kernel

/-- What `CREATEPROCESS` returns. -/
theorem createProcess_result {lossy : Prop} {K : Kernel} {cur : PcbId}
    (hs : Sound lossy K) (hc : K.currentProcess = some cur) (state : State) (i : Inputs) :
    (K.createProcess cur state i).cpu =
      .ldst { state with reg_a0 := if K.toPcbs.allocPcb = none then -1 else K.next_pid } := by
  cases ha : K.toPcbs.allocPcb with
  | none =>
      rw [createProcess, ha, if_pos rfl]
      rfl
  | some r =>
      rw [if_neg (by simp)]
      exact (createProcess_accounts hc (hs.links.current hc).1 ha state i).2.2

end Kernel

namespace Support

variable {s t u s₁ : Support n} {e : SupportEvent n} {es : List (SupportEvent n)} {q : Pid}
  {a asid : Asid} {h l : List ExecAct} {K : Kernel} {sv : Saved}

/-- What a step does, for a call of `EXECUTE` by the shell `q`. -/
def execAct (q : Pid) (s : Support n) : SupportEvent n → Option ExecAct
  | .noPcb i => if i = q then some .failed else none
  | .handler i =>
      if i = q then
        if s.pc q = .ldst then some (.resumes (s.saved .shell).reg_a0)
        else (s.act (.handler q)).bind fun x => x.2.exec
      else if s.act (.handler i) = some (i, .verhogen .shell) then some .signalled
      else none
  | _ => none

/-- What has been done so far. -/
def execActs (q : Pid) (s : Support n) (e : SupportEvent n) (_ : Support n) (h : List ExecAct) :
    List ExecAct := h ++ (execAct q s e).toList

/-- The step answers a `CREATEPROCESS` of `q` as the nucleus does in the state `K`. -/
def Answered (K : Kernel) (q : Pid) (s : Support n) (e : SupportEvent n) : Prop :=
  (execAct q s e = some .created → K.toPcbs.allocPcb ≠ none) ∧
    (execAct q s e = some .failed → K.toPcbs.allocPcb = none)

instance (K : Kernel) (q : Pid) (s : Support n) (e : SupportEvent n) :
    Decidable (Answered K q s e) := inferInstanceAs (Decidable (_ ∧ _))

/-- During a call of `q` whose `CREATEPROCESS` comes in the nucleus state `K`. -/
def Executing (K : Kernel) (q : Pid) (x : Support n × List ExecAct) (e : SupportEvent n) : Prop :=
  x.1.pc q ≠ .user ∧ Answered K q x.1 e

instance (K : Kernel) (q : Pid) (x : Support n × List ExecAct) (e : SupportEvent n) :
    Decidable (Executing K q x e) := inferInstanceAs (Decidable (_ ∧ _))

/-- A run of such a call, with what was done before it and with it. -/
abbrev Executes (K : Kernel) (q : Pid) (x : Support n × List ExecAct)
    (es : List (SupportEvent n)) (y : Support n × List ExecAct) : Prop :=
  Run (record step (execActs q)) (Executing K q) x es y

/-- Nothing keeps `q` from returning to the U-proc. -/
def Returns (K : Kernel) (q : Pid) (t : Support n) (h : List ExecAct) : Prop :=
  t.pc q ≠ .user → ∃ k u l, Executes K q (t, h) (.replicate k (.handler q)) (u, l) ∧ u.pc q = .user

/-- From `s` to `t`, the shell `q` goes on and may get another `reg_a0`; processes, support
structures and semaphores are the same. -/
structure Untouched (q : Pid) (s t : Support n) : Prop where
  vm : t.vm = s.vm
  pc : ∀ i, i ≠ q → t.pc i = s.pc i
  sem : ∀ m, t.sem m = s.sem m
  others : ∀ b, b ≠ .shell → t.saved b = s.saved b
  own : t.saved .shell = { s.saved .shell with reg_a0 := (t.saved .shell).reg_a0 }

/-- **`EXECUTE` reports its outcome**: the call the shell `q` is about to make in `s₁`, where the
nucleus answers as in `K`. -/
structure Reports (K : Kernel) (s₁ : Support n) (q : Pid) : Prop where
  /-- An ASID out of range is rejected, and nothing is touched. -/
  rejected : childAsid (s₁.saved .shell).reg_a1.toInt = none →
    ∀ es t h, Executes K q (s₁, []) es (t, h) →
      (∀ a0, .resumes a0 ∈ h → a0 = -1) ∧ Returns K q t h ∧
        ∀ e u, e.subject = some q → t.pc q ≠ .user → t.step e = some u → Untouched q t u
  /-- The shell waits for a child that is created, and then resumes with 0. -/
  created : ∀ es t h, Executes K q (s₁, []) es (t, h) → .created ∈ h →
    (∀ l a0, h = l ++ [.resumes a0] → Signalled l ∧ a0 = 0) ∧ (Signalled h → Returns K q t h)
  /-- It does not wait for a child that is not, and resumes with an error. -/
  failed : ∀ es t h, Executes K q (s₁, []) es (t, h) → .failed ∈ h →
    .waits ∉ h ∧ (∀ a0, .resumes a0 ∈ h → a0.toInt < 0) ∧ Returns K q t h

/-! ### A statement of `EXECUTE` -/

/-- The statements that touch neither memory nor devices. -/
def GenPc.inert : GenPc → Prop
  | .handler | .sys6 _ | .ldst => True
  | _ => False

theorem GenPc.inert.not_touching {g : GenPc} (h : GenPc.inert g) : ¬ GenPc.touching g := by
  cases g with
  | handler | ldst => exact id
  | sys6 => exact id
  | _ => exact h.elim

theorem GenPc.inert.ne_term {g : GenPc} (h : GenPc.inert g) : g ≠ .term := by
  rintro rfl
  exact h

/-- There a process does its statement, or finds no PCB. -/
theorem own_event (hs : s.step e = some t) (he : e.subject = some q)
    (hq : s.vm.proc q = some ⟨a, .run⟩) (hpc : GenPc.inert (s.pc q)) :
    e = .handler q ∧ s.handlerStep q a (s.pc q) = some t ∨
      e = .noPcb q ∧ (∃ asid, s.pc q = .sys6 (.create asid)) ∧ t = s.setPc q (.sys6 .wait) := by
  have at_ : ∀ {g : GenPc}, s.pc q = g → GenPc.inert g := fun hg => hg ▸ hpc
  cases handling hs he hq (fun hg => at_ hg) (fun hg => at_ hg) with
  | load _ hg => exact (at_ hg).elim
  | store _ hg => exact (at_ hg).elim
  | refill _ hg => exact absurd hg hpc.not_touching
  | fault _ hg => exact absurd hg hpc.not_touching
  | handler he' ht => exact .inl ⟨he', ht⟩
  | noPcb he' hg ht => exact .inr ⟨he', ⟨_, hg⟩, ht⟩
  | termDone _ ht =>
      rw [termDone] at ht
      split at ht
      case h_1 hg => exact (at_ hg).elim
      case h_2 hg => exact (at_ hg).elim
      case h_3 => cases ht

/-- But at `CREATEPROCESS`, it does its statement. -/
theorem own_handler {g : GenPc} (hs : s.step e = some t) (he : e.subject = some q)
    (hq : s.vm.proc q = some ⟨a, .run⟩) (hpc : s.pc q = g) (hin : GenPc.inert g)
    (hne : ∀ b, g ≠ .sys6 (.create b)) : e = .handler q ∧ s.handlerStep q a g = some t := by
  subst hpc
  rcases own_event hs he hq hin with ho | ⟨-, ⟨b, hb⟩, -⟩
  · exact ho
  · exact absurd hb (hne b)

/-- A step of another process can only signal the shell. -/
theorem execAct_other (he : e.subject ≠ some q) : ∀ x ∈ execAct q s e, x = .signalled := by
  have ne : ∀ {i : Pid}, e.subject = some i → i ≠ q := fun hi h => he (h ▸ hi)
  intro x hx
  cases e with
  | noPcb i =>
      rw [execAct, if_neg (ne rfl)] at hx
      cases hx
  | handler i =>
      rw [execAct, if_neg (ne rfl)] at hx
      split at hx
      · cases hx; rfl
      · cases hx
  | _ => cases hx

theorem execAct_handler {c : Ctl} {g : GenPc} (hq : s.vm.proc q = some ⟨a, c⟩) (hg : s.pc q = g)
    (hne : g ≠ .ldst) : execAct q s (.handler q) = (g.act a).bind SupportAct.exec := by
  rw [execAct, if_pos rfl, hg, if_neg hne, act_handler hq hg]
  cases g.act a <;> rfl

theorem execAct_ldst (hg : s.pc q = .ldst) :
    execAct q s (.handler q) = some (.resumes (s.saved .shell).reg_a0) := by
  rw [execAct, if_pos rfl, if_pos hg]

theorem execActs_none (hn : execAct q s e = none) : execActs q s e t h = h := by
  rw [execActs, hn]
  exact List.append_nil h

theorem execActs_some {x : ExecAct} (hn : execAct q s e = some x) :
    execActs q s e t h = h ++ [x] := by
  rw [execActs, hn]
  rfl

theorem execActs_other {P : ExecAct → Prop} (he : e.subject ≠ some q) (hh : ∀ x ∈ h, P x)
    (hp : P .signalled) : ∀ x ∈ execActs q s e t h, P x := by
  intro x hx
  rcases List.mem_append.mp hx with hx | hx
  · exact hh x hx
  · rw [execAct_other he x (Option.mem_toList.mp hx)]
    exact hp

/-- Nobody puts another process in a queue. -/
theorem Parked.unqueued (hp : s.Parked) (hs : Step s e t) (he : e.subject ≠ some q) (h0 : q ≠ 0)
    {m : SemName} (hm : q ∉ (s.sem m).queue) : q ∉ (t.sem m).queue := by
  intro hq
  cases hp.moves hs with
  | plain _ _ _ _ _ sems =>
      cases sems m with
      | same h => exact hm (h ▸ hq)
      | acquire i ha _ h =>
          rw [h] at hq
          rcases VM.P_mem hq with hq | rfl
          · exact hm hq
          · exact (act_subject hs ha).elim he h0
      | release i _ h =>
          rw [h] at hq
          exact hm (VM.V_mem hq)
  | terminates i _ ht =>
      obtain ⟨tp, rfl⟩ := ht
      have hsem : ({ s.terminate i with testPc := tp } : Support n).sem m =
          (s.progeny i).foldl Sem.drop (s.sem m) := by
        rw [← foldl_remove_sem]
        rcases m with _ | _ | ⟨_ | _⟩ | _ | d <;> rfl
      rw [hsem] at hq
      exact hm (((Sem.foldl_drop (hp.nodup m) _).2 q).mp hq).2

/-- Who is at a statement of `EXECUTE` is not blocked, but for the `LDST` after the `P`. -/
theorem Parked.inert_free (hp : s.Parked) (hq : s.vm.proc q = some ⟨a, .run⟩)
    (hpc : GenPc.inert (s.pc q)) (hb : s.pc q = .ldst → q ∉ s.shellSemaphore.queue) :
    ¬ s.blocked q := by
  have hw := awaited_run hq
  cases hg : s.pc q with
  | handler | sys6 => exact hp.free (by rw [hq]; simp) (by rw [hw, hg]; rfl)
  | ldst =>
      intro hbl
      obtain ⟨m, hm⟩ := blocked_iff.mp hbl
      rcases hp.place m q hm with hm' | ⟨-, rfl, -⟩
      · rw [hw, hg] at hm'
        cases hm'
        exact hb hg hm
      · rw [hp.test] at hq
        cases hq
  | _ => rw [hg] at hpc; exact hpc.elim

theorem Parked.inert_awake {g : GenPc} (hp : s.Parked) (hq : s.vm.proc q = some ⟨a, .run⟩)
    (hpc : s.pc q = g) (hin : GenPc.inert g) (hne : g ≠ .ldst) : ¬ s.blocked q :=
  hp.inert_free hq (hpc ▸ hin) fun h => absurd (hpc.symm.trans h) hne

/-! ### An ASID out of range -/

theorem supportGeneralExHandler_execute (hc : isEcall sv.cause) (ha : sv.reg_a0 = PandOS.execute) :
    supportGeneralExHandler .shell sv = sys6_execute .shell sv := by
  rw [supportGeneralExHandler, if_pos hc, syscallHandler, ha, if_neg (by decide),
    if_neg (by decide), if_neg (by decide), if_pos rfl]

theorem sys6_execute_none (h : childAsid sv.reg_a1.toInt = none) :
    sys6_execute .shell sv = (.ldst, -1) := by
  rw [sys6_execute, if_neg (not_not.mpr rfl), h]

theorem sys6_execute_some (h : childAsid sv.reg_a1.toInt = some asid) :
    sys6_execute .shell sv = (.sys6 (.init asid 0), sv.reg_a0) := by
  rw [sys6_execute, if_neg (not_not.mpr rfl), h]

/-- How far a call has come that is rejected. -/
inductive Rejecting (q : Pid) (sv : Saved) (s : Support n) (h : List ExecAct) : Prop where
  | handler (hq : s.vm.proc q = some ⟨.shell, .run⟩) (hpc : s.pc q = .handler)
      (hsv : s.saved .shell = sv) (hh : ∀ x ∈ h, x = .signalled)
  | ldst (hq : s.vm.proc q = some ⟨.shell, .run⟩) (hpc : s.pc q = .ldst)
      (ha : (s.saved .shell).reg_a0 = -1) (hb : q ∉ s.shellSemaphore.queue)
      (hh : ∀ x ∈ h, x = .signalled)
  | user (hpc : s.pc q = .user) (hh : ∀ x ∈ h, x = .signalled ∨ x = .resumes (-1))

/-- The statement at the start of the handler. -/
theorem reject_step (hb : ¬ s.blocked q) (hq : s.vm.proc q = some ⟨.shell, .run⟩)
    (hpc : s.pc q = .handler)
    (hgo : supportGeneralExHandler .shell (s.saved .shell) = (.ldst, -1)) :
    s.step (.handler q) = some ((s.setA0 .shell (-1)).setPc q .ldst) := by
  have := step_dispatch hb hq hpc (by rw [hgo]; simp)
  rwa [hgo] at this

theorem ldst_step (hb : ¬ s.blocked q) (hq : s.vm.proc q = some ⟨a, .run⟩) (hpc : s.pc q = .ldst) :
    s.step (.handler q) = some (s.setPc q .user) := by
  rw [step_handler hb hq (by rw [hpc]; simp), hpc]
  rfl

theorem setA0_self {a0 : Word} {g : GenPc} :
    ((s.setA0 a a0).setPc q g).saved a = { s.saved a with reg_a0 := a0 } :=
  Function.update_self ..

/-- What the shell does there. -/
theorem Rejecting.own (hr : Rejecting q sv s h) (hg : s.Sane)
    (hgo : supportGeneralExHandler .shell sv = (.ldst, -1)) (hc : s.pc q ≠ .user)
    (he : e.subject = some q) (hs : s.step e = some t) :
    Rejecting q sv t (execActs q s e t h) ∧ Untouched q s t := by
  cases hr with
  | user hpc => exact absurd hpc hc
  | handler hq hpc hsv hh =>
      have hb := hg.parked.inert_awake hq hpc trivial (by simp)
      obtain ⟨rfl, -⟩ := own_handler hs he hq hpc trivial (by simp)
      rw [reject_step hb hq hpc (hsv ▸ hgo)] at hs
      cases hs
      rw [execActs_none (by rw [execAct_handler hq hpc (by simp)]; rfl)]
      have hpcs : ∀ i, i ≠ q → ((s.setA0 .shell (-1)).setPc q .ldst).pc i = s.pc i :=
        fun i hi => Function.update_of_ne hi ..
      have hsvs : ∀ b, b ≠ .shell → ((s.setA0 .shell (-1)).setPc q .ldst).saved b = s.saved b :=
        fun b hb => Function.update_of_ne hb ..
      refine ⟨.ldst hq setPc_self (by rw [setA0_self]) (fun hm => hb (.inr (.inl hm))) hh,
        rfl, hpcs, fun m => setPc_sem, hsvs, ?_⟩
      rw [setA0_self]
  | ldst hq hpc ha hb hh =>
      obtain ⟨rfl, ht⟩ := own_handler hs he hq hpc trivial (by simp)
      cases ht
      rw [execActs_some (execAct_ldst hpc), ha]
      refine ⟨.user setPc_self fun x hx => ?_, rfl, fun i hi => Function.update_of_ne hi ..,
        fun m => setPc_sem, fun _ _ => rfl, rfl⟩
      rcases List.mem_append.mp hx with hx | hx
      · exact .inl (hh x hx)
      · exact .inr (List.mem_singleton.mp hx)

/-- A rejected call stays one until it is over. -/
theorem Rejecting.step (hr : Rejecting q sv s h) (hg : s.Sane)
    (hgo : supportGeneralExHandler .shell sv = (.ldst, -1)) (hc : s.pc q ≠ .user)
    (hs : s.step e = some t) : Rejecting q sv t (execActs q s e t h) := by
  by_cases he : e.subject = some q
  · exact (hr.own hg hgo hc he hs).1
  have hst := step_view hs
  cases hr with
  | user hpc => exact absurd hpc hc
  | handler hq hpc hsv hh =>
      obtain ⟨hq', hpc', hsv'⟩ := hg.keeps hst he hq (by simp) hpc (by simp)
      exact .handler hq' hpc' (hsv'.trans hsv) (execActs_other he hh rfl)
  | ldst hq hpc ha hb hh =>
      obtain ⟨hq', hpc', hsv'⟩ := hg.keeps hst he hq (by simp) hpc (by simp)
      have h0 : q ≠ 0 := by
        rintro rfl
        rw [hg.parked.test] at hq
        cases hq
      exact .ldst hq' hpc' (by rw [hsv', ha]) (hg.parked.unqueued hst he h0 (m := .shell) hb)
        (execActs_other he hh rfl)

theorem Rejecting.mem (hr : Rejecting q sv s h) : ∀ x ∈ h, x = .signalled ∨ x = .resumes (-1) := by
  cases hr with
  | handler _ _ _ hh => exact fun x hx => .inl (hh x hx)
  | ldst _ _ _ _ hh => exact fun x hx => .inl (hh x hx)
  | user _ hh => exact hh

theorem executes_one (hc : s.pc q ≠ .user) (ha : Answered K q s e) (hs : s.step e = some t) :
    Executes K q (s, h) [e] (t, execActs q s e t h) :=
  .one ⟨hc, ha⟩ (record_of hs)

/-- A step that is nothing to the call. -/
theorem executes_quiet (hc : s.pc q ≠ .user) (hn : execAct q s e = none) (hs : s.step e = some t) :
    Executes K q (s, h) [e] (t, h) := by
  have := executes_one (K := K) (h := h) hc ⟨by simp [hn], by simp [hn]⟩ hs
  rwa [execActs_none hn] at this

/-- A step of it that is not `CREATEPROCESS`. -/
theorem executes_act {x : ExecAct} (hc : s.pc q ≠ .user) (hx : execAct q s e = some x)
    (h₁ : x ≠ .created) (h₂ : x ≠ .failed) (hs : s.step e = some t) :
    Executes K q (s, h) [e] (t, h ++ [x]) := by
  have := executes_one (K := K) (h := h) hc ⟨by simp [hx, h₁], by simp [hx, h₂]⟩ hs
  rwa [execActs_some hx] at this

/-- A rejected call returns. -/
theorem Rejecting.returns (hr : Rejecting q sv s h) (hg : s.Sane)
    (hgo : supportGeneralExHandler .shell sv = (.ldst, -1)) : Returns K q s h := by
  -- from `LDST` on
  have last : ∀ {s : Support n} {h : List ExecAct}, s.Sane → Rejecting q sv s h → s.pc q = .ldst →
      ∃ l, Executes K q (s, h) [.handler q] (s.setPc q .user, l) := by
    intro s h hg hr hpc
    cases hr with
    | handler _ hx => rw [hpc] at hx; cases hx
    | user hx => rw [hpc] at hx; cases hx
    | ldst hq _ _ hb =>
        have hfree := hg.parked.inert_free hq (by rw [hpc]; trivial) fun _ => hb
        exact ⟨_, executes_act (by rw [hpc]; simp) (execAct_ldst hpc) (by simp) (by simp)
          (ldst_step hfree hq hpc)⟩
  intro hu
  cases hr with
  | user hpc => exact absurd hpc hu
  | ldst hq hpc ha hb hh =>
      obtain ⟨l, hl⟩ := last hg (.ldst hq hpc ha hb hh) hpc
      exact ⟨1, _, l, hl, setPc_self⟩
  | handler hq hpc hsv hh =>
      have hb := hg.parked.inert_awake hq hpc trivial (by simp)
      have hs := reject_step hb hq hpc (hsv ▸ hgo)
      have hn : execAct q s (.handler q) = none := by rw [execAct_handler hq hpc (by simp)]; rfl
      have hl := (Rejecting.handler hq hpc hsv hh).step hg hgo hu hs
      rw [execActs_none hn] at hl
      obtain ⟨l, h₂⟩ := last (hg.step (step_view hs)) hl setPc_self
      exact ⟨2, _, l, (executes_quiet hu hn hs).append h₂, setPc_self⟩

/-- **An ASID out of range.** -/
theorem reports_of_none (hg : s₁.Sane) (hq : s₁.vm.proc q = some ⟨.shell, .run⟩)
    (hpc : s₁.pc q = .handler) (hc : isEcall (s₁.saved .shell).cause)
    (ha : (s₁.saved .shell).reg_a0 = PandOS.execute)
    (hn : childAsid (s₁.saved .shell).reg_a1.toInt = none) : Reports K s₁ q := by
  have hgo := (supportGeneralExHandler_execute hc ha).trans (sys6_execute_none hn)
  have hinv : ∀ {es t h}, Executes K q (s₁, []) es (t, h) →
      t.Sane ∧ Rejecting q (s₁.saved .shell) t h := by
    intro es t h hr
    refine hr.inv (I := fun x => x.1.Sane ∧ Rejecting q (s₁.saved .shell) x.1 x.2)
      ⟨hg, .handler hq hpc rfl (by simp)⟩ ?_
    rintro x e y ⟨hx, hi⟩ hd hy
    obtain ⟨hst, hnote⟩ := record_eq_some hy
    rw [hnote]
    exact ⟨hx.step (step_view hst), hi.step hx hgo hd.1 hst⟩
  constructor
  · intro _ es t h hr
    obtain ⟨ht, hi⟩ := hinv hr
    refine ⟨fun a0 hm => ?_, hi.returns ht hgo, fun e u he hu hs => (hi.own ht hgo hu he hs).2⟩
    rcases hi.mem _ hm with hx | hx <;> cases hx
    rfl
  · intro es t h hr hm
    rcases (hinv hr).2.mem _ hm with hx | hx <;> cases hx
  · intro es t h hr hm
    rcases (hinv hr).2.mem _ hm with hx | hx <;> cases hx

/-! ### The ASID of a program -/

/-- The support structure of the child is built. -/
theorem exists_built (m : ℕ) {i : ℕ} (hg : s.Sane) (hq : s.vm.proc q = some ⟨.shell, .run⟩)
    (hpc : s.pc q = .sys6 (.init asid i)) (hm : maxPages - i = m) :
    ∃ fs u, Executes K q (s, h) fs (u, h) ∧ u.Sane ∧ u.vm.proc q = some ⟨.shell, .run⟩ ∧
      u.pc q = .sys6 (.create asid) ∧ u.saved = s.saved := by
  induction m generalizing s i with
  | zero =>
      have hb := hg.parked.inert_awake hq hpc trivial (by simp)
      have hst : s.step (.handler q) = some (s.setPc q (.sys6 (.create asid))) := by
        rw [step_handler hb hq (by rw [hpc]; simp), hpc]
        exact dif_neg (by omega)
      have hn : execAct q s (.handler q) = none := by rw [execAct_handler hq hpc (by simp)]; rfl
      have h₁ := executes_quiet (K := K) (h := h) (by rw [hpc]; simp) hn hst
      exact ⟨_, _, h₁, hg.step (step_view hst), hq, setPc_self, rfl⟩
  | succ m ih =>
      have hi : i < maxPages := by omega
      have hb := hg.parked.inert_awake hq hpc trivial (by simp)
      have hst : s.step (.handler q) = some
          ({ s with vm := s.vm.initPte (asid, ⟨i, hi⟩) }.setPc q (.sys6 (.init asid (i + 1)))) := by
        rw [step_handler hb hq (by rw [hpc]; simp), hpc]
        exact dif_pos hi
      have hn : execAct q s (.handler q) = none := by rw [execAct_handler hq hpc (by simp)]; rfl
      have h₁ := executes_quiet (K := K) (h := h) (by rw [hpc]; simp) hn hst
      obtain ⟨fs, u, hr, hu⟩ := ih (hg.step (step_view hst)) hq setPc_self (by omega)
      exact ⟨_, u, h₁.append hr, hu⟩

/-- The call comes to `CREATEPROCESS`, with `reg_a0` as it was. -/
theorem exists_create (hg : s₁.Sane) (hq : s₁.vm.proc q = some ⟨.shell, .run⟩)
    (hpc : s₁.pc q = .handler) (hc : isEcall (s₁.saved .shell).cause)
    (ha : (s₁.saved .shell).reg_a0 = PandOS.execute)
    (hn : childAsid (s₁.saved .shell).reg_a1.toInt = some asid) :
    ∃ fs u, Executes K q (s₁, []) fs (u, []) ∧ u.Sane ∧ u.vm.proc q = some ⟨.shell, .run⟩ ∧
      u.pc q = .sys6 (.create asid) ∧ (u.saved .shell).reg_a0 = PandOS.execute := by
  have hgo := (supportGeneralExHandler_execute hc ha).trans (sys6_execute_some hn)
  have hb := hg.parked.inert_awake hq hpc trivial (by simp)
  have hst : s₁.step (.handler q) = some
      ((s₁.setA0 .shell (s₁.saved .shell).reg_a0).setPc q (.sys6 (.init asid 0))) := by
    have := step_dispatch hb hq hpc (by rw [hgo]; simp)
    rwa [hgo] at this
  have hx : execAct q s₁ (.handler q) = none := by rw [execAct_handler hq hpc (by simp)]; rfl
  have h₁ := executes_quiet (K := K) (h := []) (by rw [hpc]; simp) hx hst
  obtain ⟨fs, u, hr, hu, hq', hpc', hsv⟩ := exists_built maxPages (hg.step (step_view hst)) hq
    setPc_self (Nat.sub_zero _)
  refine ⟨_, u, h₁.append hr, hu, hq', hpc', ?_⟩
  rw [hsv, setA0_self]
  exact ha

/-- The `P` after `CREATEPROCESS`. -/
theorem exists_wait (hg : s.Sane) (hq : s.vm.proc q = some ⟨a, .run⟩) (hpc : s.pc q = .sys6 .wait) :
    ∃ t, Executes K q (s, h) [.handler q] (t, h ++ [.waits]) ∧ t.Sane ∧ t.vm = s.vm ∧
      t.pc = Function.update s.pc q .ldst ∧ t.saved = s.saved ∧
      t.shellSemaphore = s.shellSemaphore.P q := by
  have hb := hg.parked.inert_awake hq hpc trivial (by simp)
  have hst : s.step (.handler q) =
      some ({ s with shellSemaphore := s.shellSemaphore.P q }.setPc q .ldst) := by
    rw [step_handler hb hq (by rw [hpc]; simp), hpc]
    rfl
  have hx : execAct q s (.handler q) = some .waits := by
    rw [execAct_handler hq hpc (by simp)]
    rfl
  have h₁ := executes_act (K := K) (h := h) (by rw [hpc]; simp) hx (by simp) (by simp) hst
  exact ⟨_, h₁, hg.step (step_view hst), rfl, rfl, rfl, rfl⟩

/-- **No PCB**: the shell waits all the same. -/
theorem exists_failed (hg : s.Sane) (hq : s.vm.proc q = some ⟨.shell, .run⟩)
    (hpc : s.pc q = .sys6 (.create asid)) (hK : K.toPcbs.allocPcb = none) :
    ∃ fs u, Executes K q (s, []) fs (u, [.failed, .waits]) := by
  have hb := hg.parked.inert_awake hq hpc trivial (by simp)
  have hst : s.step (.noPcb q) = some (s.setPc q (.sys6 .wait)) := by
    rw [Support.step, if_neg hb, hq, hpc]
  have hx : execAct q s (.noPcb q) = some .failed := if_pos rfl
  have h₁ := executes_one (K := K) (h := []) (by rw [hpc]; simp) ⟨by simp [hx], fun _ => hK⟩ hst
  rw [execActs_some hx] at h₁
  obtain ⟨u, h₂, -⟩ := exists_wait (K := K) (h := [.failed]) (hg.step (step_view hst)) hq setPc_self
  exact ⟨_, u, h₁.append h₂⟩

/-- A program calls `TERMINATE`, and signals the shell. -/
theorem exists_signalled {c : Pid} (hg : s.Sane) (hc : s.vm.proc c = some ⟨a, .run⟩)
    (hpc : s.pc c = .user) (ha : a ≠ .shell) (hne : c ≠ q) (hq : s.pc q ≠ .user) :
    ∃ fs u, Executes K q (s, h) fs (u, h ++ [.signalled]) ∧ u.Sane ∧
      u.vm.proc q = s.vm.proc q ∧ u.pc q = s.pc q ∧ u.saved .shell = s.saved .shell ∧
      u.shellSemaphore = s.shellSemaphore.V := by
  have live : ∀ {u : Support n} {pr : Proc}, u.vm.proc c = some pr → u.vm.proc c ≠ none :=
    fun hu => by rw [hu]; simp
  -- `ecall`
  have h₁ : s.step (.ecall c PandOS.terminate 0 0) = some
      ((s.setSaved a ⟨ecallCause PandOS.terminate, PandOS.terminate, 0, 0⟩).setPc c .handler) := by
    rw [Support.step, hc, hpc]
  obtain ⟨t₁, ht₁⟩ : ∃ t, t = (s.setSaved a ⟨ecallCause PandOS.terminate, PandOS.terminate, 0,
    0⟩).setPc c .handler := ⟨_, rfl⟩
  rw [← ht₁] at h₁
  have hg₁ := hg.step (step_view h₁)
  have hc₁ : t₁.vm.proc c = some ⟨a, .run⟩ := by rw [ht₁]; exact hc
  have hpc₁ : t₁.pc c = .handler := by rw [ht₁]; exact setPc_self
  have hq₁ : t₁.pc q = s.pc q := by rw [ht₁]; exact Function.update_of_ne hne.symm ..
  have hsv₁ : t₁.saved .shell = s.saved .shell := by
    rw [ht₁]
    exact Function.update_of_ne ha.symm ..
  -- it is to terminate
  have hsig : (supportGeneralExHandler a (t₁.saved a)).1 = .signal := by
    have : t₁.saved a = ⟨ecallCause PandOS.terminate, PandOS.terminate, 0, 0⟩ := by
      rw [ht₁]
      exact Function.update_self ..
    rw [this]
    rfl
  have hb₁ := hg₁.parked.free (live hc₁) (by rw [awaited_run hc₁, hpc₁]; rfl)
  have h₂ := step_doom hb₁ hc₁ hpc₁ hsig
  obtain ⟨t₂, ht₂⟩ : ∃ t, t = { t₁ with vm := t₁.vm.goto c a .dying }.setPc c .signal := ⟨_, rfl⟩
  rw [← ht₂] at h₂
  have hg₂ := hg₁.step (step_view h₂)
  have hc₂ : t₂.vm.proc c = some ⟨a, .dying⟩ := by rw [ht₂]; exact Function.update_self ..
  have hpc₂ : t₂.pc c = .signal := by rw [ht₂]; exact setPc_self
  have hq₂ : t₂.pc q = s.pc q := by
    rw [← hq₁, ht₂]
    exact Function.update_of_ne hne.symm ..
  -- the `V`
  have hb₂ := hg₂.parked.free (live hc₂) (by rw [awaited, hc₂])
  have h₃ := step_signal hb₂ hc₂ hpc₂
  have hx₃ : execAct q t₂ (.handler c) = some .signalled := by
    rw [execAct, if_neg hne, act_handler hc₂ hpc₂]
    refine if_pos ?_
    show (some (SupportAct.verhogen a.signals)).map (c, ·) = _
    rw [Asid.signals, if_neg ha]
    rfl
  have hn₁ : execAct q s (.ecall c PandOS.terminate 0 0) = none := rfl
  have hn₂ : execAct q t₁ (.handler c) = none := by
    rw [execAct, if_neg hne, act_handler hc₁ hpc₁]
    rfl
  have r₁ := executes_quiet (K := K) (h := h) hq hn₁ h₁
  have r₂ := executes_quiet (K := K) (h := h) (by rw [hq₁]; exact hq) hn₂ h₂
  have r₃ := executes_act (K := K) (h := h) (by rw [hq₂]; exact hq) hx₃ (by simp) (by simp) h₃
  refine ⟨_, _, (r₁.append r₂).append r₃, hg₂.step (step_view h₃), ?_, ?_, ?_, ?_⟩
  · have hv : (t₂.signal a).vm = t₂.vm := signal_vm.1
    show (t₂.signal a).vm.proc q = _
    rw [hv, ht₂]
    show Function.update t₁.vm.proc c _ q = _
    rw [Function.update_of_ne hne.symm, ht₁]
    rfl
  · rw [← hq₂]
    show Function.update (t₂.signal a).pc c .term q = _
    rw [Function.update_of_ne hne.symm]
    unfold Support.signal
    split <;> rfl
  · show (t₂.signal a).saved .shell = _
    rw [← hsv₁, Support.signal, if_neg ha, ht₂]
    rfl
  · show (t₂.signal a).shellSemaphore = _
    rw [Support.signal, if_neg ha, ht₂, ht₁]
    rfl

/-- **A child is created**: when it has signalled, the shell resumes with the number of the
service. -/
theorem exists_created (hg : s.Sane) (hq : s.vm.proc q = some ⟨.shell, .run⟩)
    (hpc : s.pc q = .sys6 (.create asid)) (hK : K.toPcbs.allocPcb ≠ none) :
    ∃ fs u, Executes K q (s, []) fs
      (u, [.created, .waits, .signalled] ++ [.resumes (s.saved .shell).reg_a0]) := by
  have hb := hg.parked.inert_awake hq hpc trivial (by simp)
  have hst : s.step (.handler q) = some ((s.createProc q asid).setPc q (.sys6 .wait)) := by
    rw [step_handler hb hq (by rw [hpc]; simp), hpc]
    rfl
  have hne : s.vm.nextPid ≠ q := (hg.parked.lt (by rw [hq]; simp)).ne'
  have hexec := stageOf_some hq
  rw [hpc] at hexec
  obtain ⟨hsem, -⟩ := hg.good.sync.idle hexec hb (by rintro ⟨⟩)
  have hasid := (hg.good.sync.exec _ _ _ hexec).2
  have hx : execAct q s (.handler q) = some .created := by
    rw [execAct_handler hq hpc (by simp)]
    rfl
  have h₁ := executes_one (K := K) (h := []) (by rw [hpc]; simp) ⟨fun _ => hK, by simp [hx]⟩ hst
  rw [execActs_some hx] at h₁
  have hq₁ : ((s.createProc q asid).setPc q (.sys6 .wait)).vm.proc q = some ⟨.shell, .run⟩ :=
    (Function.update_of_ne hne.symm ..).trans hq
  have hg₁ := hg.step (step_view hst)
  obtain ⟨t, h₂, ht, hv, hpc', hsv, hs'⟩ := exists_wait (K := K) (h := [.created]) hg₁ hq₁ setPc_self
  -- the child
  have hc : t.vm.proc s.vm.nextPid = some ⟨asid, .run⟩ := by
    rw [hv]
    exact Function.update_self ..
  have hcpc : t.pc s.vm.nextPid = .user := by
    rw [hpc', Function.update_of_ne hne]
    show Function.update (Function.update s.pc s.vm.nextPid .user) q _ s.vm.nextPid = _
    rw [Function.update_of_ne hne, Function.update_self]
  have hqt : t.pc q = .ldst := by rw [hpc', Function.update_self]
  obtain ⟨fs, u, h₃, hu, hvu, hpcu, hsvu, hsu⟩ := exists_signalled (K := K)
    (h := [.created] ++ [.waits]) ht hc hcpc hasid hne (by rw [hqt]; simp)
  have hshell : u.shellSemaphore = ⟨0, []⟩ := by
    have hw : t.shellSemaphore = s.shellSemaphore.P q := hs'
    rw [hsu, hw, hsem]
    rfl
  -- and the shell
  have hqu : u.vm.proc q = some ⟨.shell, .run⟩ := by rw [hvu, hv, hq₁]
  have hpcu : u.pc q = .ldst := hpcu.trans hqt
  have hfree := hu.parked.inert_free hqu (by rw [hpcu]; trivial) fun _ => by rw [hshell]; simp
  have hl := ldst_step hfree hqu hpcu
  have h₄ := executes_act (K := K) (h := [.created] ++ [.waits] ++ [.signalled])
    (by rw [hpcu]; simp) (execAct_ldst hpcu) (by simp) (by simp) hl
  rw [hsvu, hsv] at h₄
  exact ⟨_, _, ((h₁.append h₂).append h₃).append h₄⟩

/-- **What `EXECUTE` reports.**  In every state that is reached and for every answer of the nucleus,
the call of `EXECUTE` the shell is about to make reports its outcome if and only if its argument is
not the ASID of a program. -/
theorem reports_iff {flash : PageId → Page} {frame : FrameNo → Page} {reg : Asid → FlashReg}
    (hr : Run step anyStep (.boot flash frame reg) es s₁)
    (hq : s₁.vm.proc q = some ⟨.shell, .run⟩) (hpc : s₁.pc q = .handler)
    (hc : isEcall (s₁.saved .shell).cause) (ha : (s₁.saved .shell).reg_a0 = PandOS.execute)
    (K : Kernel) : Reports K s₁ q ↔ childAsid (s₁.saved .shell).reg_a1.toInt = none := by
  have hg := (Sane.boot flash frame reg).reach hr
  constructor
  · intro hrep
    by_contra hsome
    obtain ⟨asid, hn⟩ := Option.ne_none_iff_exists'.mp hsome
    obtain ⟨fs, u, h₁, hu, hq', hpc', ha'⟩ := exists_create (K := K) hg hq hpc hc ha hn
    by_cases hK : K.toPcbs.allocPcb = none
    · obtain ⟨gs, v, h₂⟩ := exists_failed hu hq' hpc' hK
      exact (hrep.failed _ _ _ (h₁.append h₂) (by simp)).1 (by simp)
    · obtain ⟨gs, v, h₂⟩ := exists_created hu hq' hpc' hK
      obtain ⟨-, h0⟩ := (hrep.created _ _ _ (h₁.append h₂) (by simp)).1 _ _ rfl
      rw [ha'] at h0
      exact absurd h0 (by decide)
  · exact reports_of_none hg hq hpc hc ha

/-- The shell executes program 9. -/
theorem reports_iff_shell : ∃ s : Support 16,
    Run step anyStep blank (launch ++ [.ecall 1 PandOS.execute 9 0]) s ∧
      s.saved .shell = ⟨excEcm, PandOS.execute, 9, 0⟩ ∧ Reports Kernel.boot₀ s 1 := by
  obtain ⟨s, hr, hq, hpc, hsv⟩ := exists_run step anyStep
    (fun s : Support 16 => s.vm.proc 1 = some ⟨.shell, .run⟩ ∧ s.pc 1 = .handler ∧
      s.saved .shell = ⟨excEcm, PandOS.execute, 9, 0⟩)
    blank (launch ++ [.ecall 1 PandOS.execute 9 0]) (by decide +kernel)
  refine ⟨s, hr, hsv, (reports_iff hr hq hpc (by rw [hsv]; decide) (by rw [hsv]) _).mpr ?_⟩
  rw [hsv]
  decide

/-- **The number of the service, returned.**  The shell executes program 2, which terminates; the
shell resumes with 6. -/
theorem execute_returns_number : ∃ s : Support 16,
    Run step anyStep blank (launch ++ [.ecall 1 PandOS.execute 2 0]) s ∧
      s.saved .shell = ⟨excEcm, PandOS.execute, 2, 0⟩ ∧
      (∃ es t, Executes Kernel.boot₀ 1 (s, []) es
        (t, [.created, .waits, .signalled, .resumes 6])) ∧
      ¬ Reports Kernel.boot₀ s 1 := by
  obtain ⟨s, hr, hsv, hrun⟩ := exists_run step anyStep
    (fun s : Support 16 => s.saved .shell = ⟨excEcm, PandOS.execute, 2, 0⟩ ∧
      (execIf (record step (execActs 1)) (Executing Kernel.boot₀ 1) (s, [])
        (.replicate 36 (.handler 1) ++
          [.ecall 2 PandOS.terminate 0 0, .handler 2, .handler 2, .handler 1])).any fun x =>
            decide (x.2 = [.created, .waits, .signalled, .resumes 6]))
    blank (launch ++ [.ecall 1 PandOS.execute 2 0]) (by decide +kernel)
  obtain ⟨⟨t, h⟩, hr', hh⟩ := exists_run (record step (execActs 1)) (Executing Kernel.boot₀ 1)
    (fun x => x.2 = [.created, .waits, .signalled, .resumes 6]) (s, []) _ hrun
  have hh : h = [.created, .waits, .signalled] ++ [.resumes 6] := hh
  subst hh
  refine ⟨s, hr, hsv, ⟨_, t, hr'⟩, fun hrep => ?_⟩
  obtain ⟨-, h0⟩ := (hrep.created _ _ _ hr' (by simp)).1 _ _ rfl
  exact absurd h0 (by decide)

end Support

end PandOS
