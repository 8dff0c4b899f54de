import PandOS.Phase3.SupportSteps
import PandOS.Phase3.Exclusion

/-!
# Phase 3 — shell, children and `test`

How far the semaphores `masterSemaphore` and `shellSemaphore` keep the shell, the programs it
launches and `test` in step.  A process is seen as its ASID and its `Stage`: building a child,
about to wait for it, past its `V` (`term`), or anything else.  `SyncMove` lists what a step can
do to the stages and the two semaphores.

`Support.Sync` is the invariant, on every run: at most one child has not yet done its
`V(shellSemaphore)`, and while there is one the shell waits or is about to; every process that
`TERMPROCESS` removes has done its `V`.  It does not say that a child whose `V` is done is gone.
-/

namespace PandOS

/-- A place in the general handler, as the synchronization sees it. -/
inductive Stage where
  | plain
  | exec (asid : Asid)
  | wait
  | term
  deriving DecidableEq

/-- The stage of a place in the general handler. -/
def GenPc.stage : GenPc → Stage
  | .sys6 (.init asid _) | .sys6 (.create asid) => .exec asid
  | .sys6 .wait => .wait
  | .term => .term
  | _ => .plain

/-- `test` has not launched the shell. -/
def TestPc.early : TestPc → Prop
  | .init _ | .create => True
  | _ => False

namespace Support

variable {n : ℕ} {s t : Support n} {q q' : Pid} {a a' : Asid}

/-- The ASID and the stage of a live process. -/
def stageOf (s : Support n) (q : Pid) : Option (Asid × Stage) :=
  (s.vm.proc q).map fun pr => (pr.asid, (s.pc q).stage)

/-! ### What a step does to stages and semaphores -/

/-- The fields a move leaves alone. -/
structure Frame (s t : Support n) : Prop where
  next : t.vm.nextPid = s.vm.nextPid
  parent : t.parent = s.parent
  test : t.testPc = s.testPc
  master : t.masterSemaphore = s.masterSemaphore
  shell : t.shellSemaphore = s.shellSemaphore

/-- What a step does to the stages, and to `masterSemaphore` and `shellSemaphore`. -/
inductive SyncMove (s t : Support n) : Prop where
  | same (hst : t.stageOf = s.stageOf) (hf : Frame s t)
  | early (he : s.testPc.early) (he' : t.testPc.early) (hst : t.stageOf = s.stageOf)
      (hf : Frame s { t with testPc := s.testPc })
  | launch (he : s.testPc = .create)
      (hst : t.stageOf = Function.update s.stageOf s.vm.nextPid (some (.shell, .plain)))
      (hn : t.vm.nextPid = s.vm.nextPid + 1)
      (hp : t.parent = Function.update s.parent s.vm.nextPid 0) (ht : t.testPc = .wait)
      (hm : t.masterSemaphore = s.masterSemaphore) (hs : t.shellSemaphore = s.shellSemaphore)
  | testWait (he : s.testPc = .wait) (ht : t.testPc = .term) (hst : t.stageOf = s.stageOf)
      (hm : t.masterSemaphore = s.masterSemaphore.P 0)
      (hf : Frame s { t with testPc := s.testPc, masterSemaphore := s.masterSemaphore })
  | testTerm (he : s.testPc = .term) (hb : 0 ∉ s.masterSemaphore.queue)
      (ht : t = { s.terminate 0 with testPc := .done })
  | start (q : Pid) (a : Asid) (ha : a ≠ .shell) (hb : ¬ s.blocked q)
      (hq : s.stageOf q = some (.shell, .plain))
      (hst : t.stageOf = Function.update s.stageOf q (some (.shell, .exec a))) (hf : Frame s t)
  | child (q : Pid) (b a : Asid) (hb : ¬ s.blocked q) (hq : s.stageOf q = some (b, .exec a))
      (hst : t.stageOf = Function.update (Function.update s.stageOf s.vm.nextPid (some (a, .plain)))
        q (some (b, .wait)))
      (hn : t.vm.nextPid = s.vm.nextPid + 1)
      (hp : t.parent = Function.update s.parent s.vm.nextPid q) (ht : t.testPc = s.testPc)
      (hm : t.masterSemaphore = s.masterSemaphore) (hs : t.shellSemaphore = s.shellSemaphore)
  | childless (q : Pid) (b a : Asid) (hb : ¬ s.blocked q) (hq : s.stageOf q = some (b, .exec a))
      (hst : t.stageOf = Function.update s.stageOf q (some (b, .wait))) (hf : Frame s t)
  | wait (q : Pid) (b : Asid) (hb : ¬ s.blocked q) (hq : s.stageOf q = some (b, .wait))
      (hst : t.stageOf = Function.update s.stageOf q (some (b, .plain)))
      (hs : t.shellSemaphore = s.shellSemaphore.P q)
      (hf : Frame s { t with shellSemaphore := s.shellSemaphore })
  | signal (q : Pid) (a : Asid) (hb : ¬ s.blocked q) (hq : s.stageOf q = some (a, .plain))
      (hst : t.stageOf = Function.update s.stageOf q (some (a, .term)))
      (hf : Frame (s.signal a) t)
  | term (q : Pid) (a : Asid) (hb : ¬ s.blocked q) (hq : s.stageOf q = some (a, .term))
      (ht : t = s.terminate q)

/-- Stages depend on the ASIDs and the handler statements only. -/
theorem stageOf_eq (hv : ∀ q, (t.vm.proc q).map Proc.asid = (s.vm.proc q).map Proc.asid)
    (hp : ∀ q, s.vm.proc q ≠ none → (t.pc q).stage = (s.pc q).stage) : t.stageOf = s.stageOf := by
  funext q
  have h := hv q
  unfold stageOf
  cases hs : s.vm.proc q with
  | none =>
      rw [hs] at h
      rw [Option.map_eq_none_iff.mp h]
      rfl
  | some pr =>
      rw [hs] at h
      obtain ⟨pr', hpr', ha⟩ := Option.map_eq_some_iff.mp h
      rw [hpr', Option.map_some, Option.map_some, hp q (by simp [hs]), ha]

/-- `q` moves to another statement. -/
theorem stageOf_setPc {pr : Proc} {g : GenPc} (hq : s.vm.proc q = some pr)
    (hv : ∀ q, (t.vm.proc q).map Proc.asid = (s.vm.proc q).map Proc.asid)
    (hp : t.pc = Function.update s.pc q g) :
    t.stageOf = Function.update s.stageOf q (some (pr.asid, g.stage)) := by
  funext j
  have h := hv j
  by_cases hj : j = q
  · subst hj
    rw [hq] at h
    obtain ⟨pr', hpr', ha⟩ := Option.map_eq_some_iff.mp h
    rw [Function.update_self, stageOf, hpr', hp, Function.update_self, Option.map_some, ha]
  · rw [Function.update_of_ne hj]
    have : (t.vm.proc j).map (fun pr => (pr.asid, (s.pc j).stage)) =
        (s.vm.proc j).map (fun pr => (pr.asid, (s.pc j).stage)) := by
      cases hs : s.vm.proc j with
      | none => rw [hs] at h; rw [Option.map_eq_none_iff.mp h]
      | some pr' =>
          rw [hs] at h
          obtain ⟨pr'', hpr, ha⟩ := Option.map_eq_some_iff.mp h
          rw [hpr, Option.map_some, Option.map_some, ha]
    rw [stageOf, hp, Function.update_of_ne hj, this, stageOf]

/-- `q` moves to another statement of the same stage. -/
theorem stageOf_setPc_same {g : GenPc}
    (hv : ∀ q, (t.vm.proc q).map Proc.asid = (s.vm.proc q).map Proc.asid)
    (hp : t.pc = Function.update s.pc q g) (hg : g.stage = (s.pc q).stage) :
    t.stageOf = s.stageOf := by
  refine stageOf_eq hv fun j _ => ?_
  rw [hp, Function.update_apply]
  by_cases hj : j = q
  · rw [if_pos hj, hg, hj]
  · rw [if_neg hj]

/-- A process is created, in user mode. -/
theorem stageOf_create {i : Pid} (hv : t.vm.proc = Function.update s.vm.proc i (some ⟨a, .run⟩))
    (hp : t.pc = Function.update s.pc i .user) :
    t.stageOf = Function.update s.stageOf i (some (a, .plain)) := by
  funext j
  rw [stageOf, hv, hp]
  by_cases hj : j = i
  · subst hj
    rw [Function.update_self, Function.update_self, Function.update_self]
    rfl
  · rw [Function.update_of_ne hj, Function.update_of_ne hj, Function.update_of_ne hj, stageOf]

theorem stageOf_some {pr : Proc} (hq : s.vm.proc q = some pr) :
    s.stageOf q = some (pr.asid, (s.pc q).stage) := by
  rw [stageOf, hq, Option.map_some]

end Support

/-! ### The pager machine under the Support Level -/

namespace VM

variable {n : ℕ} {s t : VM n} {e : VmEvent n}

/-- A step creates or removes a process, or no process comes or goes. -/
theorem Step.asids (h : Step s e t) (hc : ∀ a, e ≠ .create a) (hx : ∀ q, e ≠ .exit q) :
    (∀ q, (t.proc q).map Proc.asid = (s.proc q).map Proc.asid) ∧ t.nextPid = s.nextPid := by
  have upd : ∀ {q : Pid} {a : Asid} {c : Ctl} (d : Ctl) {u : VM n}, s.proc q = some ⟨a, c⟩ →
      u.proc = Function.update s.proc q (some ⟨a, d⟩) →
      ∀ j, (u.proc j).map Proc.asid = (s.proc j).map Proc.asid := by
    intro q a c d u hq hp j
    rw [hp, Function.update_apply]
    by_cases hj : j = q
    · rw [if_pos hj, hj, hq]; rfl
    · rw [if_neg hj]
  cases h with
  | create => exact absurd rfl (hc _)
  | exit => exact absurd rfl (hx _)
  | initPte | load | store | refill => exact ⟨fun _ => rfl, rfl⟩
  | faultMod hq => exact ⟨upd .dying hq rfl, rfl⟩
  | @fault _ _ _ _ p hq => exact ⟨upd (.pager p .enter) hq rfl, rfl⟩
  | pager hq hb hst =>
      obtain ⟨c, hp, -⟩ := hst.proc
      refine ⟨upd c hq hp, ?_⟩
      cases hst <;> rfl
  | @flashDone q a p _ _ _ _ here _ status _ u c hq hu =>
      obtain ⟨hp, hn, -⟩ := flashPerform_proc hu
      have hproc : (u.goto q a (.pager p (here (.release status)))).proc =
          Function.update s.proc q (some ⟨a, .pager p (here (.release status))⟩) := by
        rw [goto_proc, hp]
      exact ⟨upd _ hq hproc, hn⟩
  | die hq => exact ⟨upd .dying hq rfl, rfl⟩

/-- A process that is dying stays so. -/
theorem Step.dying {q : Pid} {a : Asid} {c : Ctl} (h : Step s e t) (hx : s.Excl)
    (hq : s.proc q = some ⟨a, .dying⟩) (hq' : t.proc q = some ⟨a, c⟩) : c = .dying := by
  have upd : ∀ {j : Pid} {pr : Proc} {pr' : Option Proc}, s.proc j = some pr → pr.ctl ≠ .dying →
      t.proc = Function.update s.proc j pr' → c = .dying := by
    intro j pr pr' hj hne hp
    rcases proc_update hp hq' with ⟨-, hold⟩ | ⟨rfl, -⟩
    · rw [hq] at hold; cases hold; rfl
    · rw [hq] at hj; cases hj; exact absurd rfl hne
  cases h.control with
  | same hp => rw [hp, hq] at hq'; cases hq'; rfl
  | create b _ hp =>
      rcases proc_update hp hq' with ⟨-, hold⟩ | ⟨rfl, -⟩
      · rw [hq] at hold; cases hold; rfl
      · exact absurd rfl (hx.ne_next hq)
  | move j b c₁ c' hj hc₁ _ _ hp => exact upd hj hc₁ hp
  | enter j b p hj hp => exact upd hj (by simp) hp
  | leave j b p pc c' hj _ _ _ hp => exact upd hj (by simp) hp
  | exit j b hj hp =>
      rcases proc_update hp hq' with ⟨-, hold⟩ | ⟨-, hpr⟩
      · rw [hq] at hold; cases hold; rfl
      · cases hpr

end VM

namespace Support

variable {n : ℕ} {s t : Support n} {e : SupportEvent n} {q q' : Pid} {a a' : Asid}

/-- A process in the pager was, if in the handler, about to touch user memory. -/
def GenPc.touching : GenPc → Prop
  | .user | .sys4 (.load _) | .sys5 (.store _ _) => True
  | _ => False

/-- Who is in the pager stands at a memory access. -/
def Placed (s : Support n) : Prop :=
  ∀ q a p pc, s.vm.proc q = some ⟨a, .pager p pc⟩ → GenPc.touching (s.pc q)

theorem GenPc.touching.plain {g : GenPc} (h : GenPc.touching g) : g.stage = .plain := by
  unfold GenPc.touching at h
  split at h
  · rfl
  · rfl
  · rfl
  · exact h.elim

theorem mayTouch_touching {p : PageNo} (h : s.mayTouch q p) : GenPc.touching (s.pc q) := by
  rcases h with h | h
  · rw [h]; trivial
  · obtain ⟨pr, -, h⟩ := Option.bind_eq_some_iff.mp h
    obtain ⟨addr, haddr, -⟩ := Option.bind_eq_some_iff.mp h
    unfold target at haddr
    split at haddr
    case h_1 i hpc => rw [hpc]; trivial
    case h_2 i c hpc => rw [hpc]; trivial
    case h_3 => cases haddr

theorem withVm_vm {u : VM n} : (s.withVm q u).vm = u := by
  unfold withVm
  split <;> rfl

theorem withVm_frame {u : VM n} (hn : u.nextPid = s.vm.nextPid) : Frame s (s.withVm q u) := by
  unfold withVm
  split <;> exact ⟨hn, rfl, rfl, rfl, rfl⟩

theorem withVm_pc {u : VM n} :
    (s.withVm q u).pc = s.pc ∨
      ((s.withVm q u).pc = Function.update s.pc q .signal ∧ ∃ a, u.proc q = some ⟨a, .dying⟩) := by
  unfold withVm
  split
  case h_1 a hq => exact .inr ⟨rfl, a, hq⟩
  case h_2 => exact .inl rfl

theorem withVm_stageOf {u : VM n} (hv : ∀ q, (u.proc q).map Proc.asid = (s.vm.proc q).map Proc.asid)
    (ht : GenPc.touching (s.pc q)) : (s.withVm q u).stageOf = s.stageOf := by
  rcases withVm_pc (s := s) (q := q) (u := u) with hp | ⟨hp, -⟩
  · exact stageOf_eq (fun j => by rw [withVm_vm]; exact hv j) fun j _ => by rw [hp]
  · exact stageOf_setPc_same (fun j => by rw [withVm_vm]; exact hv j) hp ht.plain.symm

theorem sys4Loop_plain {sv : Saved} {i : ℕ} : (sys4Loop sv i).stage = .plain := by
  unfold sys4Loop
  split <;> rfl

theorem sys5Loop_plain {i : ℕ} {c : Option (BitVec 8)} : (sys5Loop i c).stage = .plain := by
  unfold sys5Loop
  split <;> rfl

theorem childAsid_ne {x : ℤ} (h : childAsid x = some a) : a ≠ .shell := by
  unfold childAsid at h
  split at h
  case isTrue hx =>
    cases h
    intro he
    have := congrArg Subtype.val he
    have h1 : x.toNat = 1 := this
    omega
  case isFalse => cases h

/-- The handler starts to build a child for the shell only, and never the shell again. -/
theorem supportGeneralExHandler_stage (a : Asid) (sv : Saved) :
    (supportGeneralExHandler a sv).1.stage = .plain ∨
      a = .shell ∧ ∃ asid, asid ≠ .shell ∧
        (supportGeneralExHandler a sv).1 = .sys6 (.init asid 0) := by
  unfold supportGeneralExHandler
  split
  · unfold syscallHandler
    split
    · exact .inl rfl
    · split
      · left; show (sys4_writeTerminal sv).stage = _; unfold sys4_writeTerminal; split <;> rfl
      · split
        · left; show (sys5_readTerminal sv).stage = _; unfold sys5_readTerminal; split <;> rfl
        · split
          · unfold sys6_execute
            split
            · exact .inl rfl
            · rename_i ha
              split
              · rename_i asid hasid
                exact .inr ⟨not_not.mp ha, asid, childAsid_ne hasid, rfl⟩
              · exact .inl rfl
          · exact .inl rfl
  · exact .inl rfl

/-- **What a step does to stages and semaphores.** -/
theorem Step.syncMove (h : Step s e t) (hpl : s.Placed) (hx : s.vm.Excl) : SyncMove s t := by
  have keep : ∀ {f : VmEvent n} {u : VM n}, s.vm.step f = some u → (∀ a, f ≠ .create a) →
      (∀ q, f ≠ .exit q) →
      (∀ q, (u.proc q).map Proc.asid = (s.vm.proc q).map Proc.asid) ∧ u.nextPid = s.vm.nextPid :=
    fun hu hc hx => (VM.step_view hu).asids hc hx
  -- `q` moves to a statement of the same stage
  have quiet : ∀ {q : Pid} {u : Support n} {g : GenPc}, u.vm.proc = s.vm.proc →
      u.pc = Function.update s.pc q g → g.stage = (s.pc q).stage → u.stageOf = s.stageOf :=
    fun hv hp hg => stageOf_setPc_same (fun j => by rw [hv]) hp hg
  -- `q` moves to a statement of another stage
  have move : ∀ {q : Pid} {a : Asid} {c : Ctl} {u : Support n} (g : GenPc),
      s.vm.proc q = some ⟨a, c⟩ → u.vm.proc = s.vm.proc → u.pc = Function.update s.pc q g →
      u.stageOf = Function.update s.stageOf q (some (a, g.stage)) :=
    fun _ hq hv hp => stageOf_setPc hq (fun j => by rw [hv]) hp
  have here : ∀ {q : Pid} {a : Asid} {c : Ctl} {g : GenPc}, s.vm.proc q = some ⟨a, c⟩ →
      s.pc q = g → s.stageOf q = some (a, g.stage) :=
    fun hq hpc => by rw [stageOf_some hq, hpc]
  have fr : ∀ {u : Support n}, u.vm.nextPid = s.vm.nextPid → u.parent = s.parent →
      u.testPc = s.testPc → u.masterSemaphore = s.masterSemaphore →
      u.shellSemaphore = s.shellSemaphore → Frame s u := Frame.mk
  cases h with
  | testInit hpc => exact .early (by rw [hpc]; trivial) trivial rfl (fr rfl rfl rfl rfl rfl)
  | testInitDone hpc => exact .early (by rw [hpc]; trivial) trivial rfl (fr rfl rfl rfl rfl rfl)
  | testCreate hpc => exact .launch hpc (stageOf_create rfl rfl) rfl rfl rfl rfl rfl
  | testWait hpc => exact .testWait hpc rfl rfl rfl (fr rfl rfl rfl rfl rfl)
  | testTerm hpc hb => exact .testTerm hpc hb rfl
  | load hb hpc hu =>
      obtain ⟨hv, hn⟩ := keep hu (by simp) (by simp)
      exact .same (stageOf_eq hv fun _ _ => rfl) (fr hn rfl rfl rfl rfl)
  | store hb hpc hu =>
      obtain ⟨hv, hn⟩ := keep hu (by simp) (by simp)
      exact .same (stageOf_eq hv fun _ _ => rfl) (fr hn rfl rfl rfl rfl)
  | sys4Load hb hpc hu =>
      obtain ⟨hv, hn⟩ := keep hu (by simp) (by simp)
      exact .same (stageOf_setPc_same hv rfl (by rw [hpc]; rfl)) (fr hn rfl rfl rfl rfl)
  | sys5Store hb hpc hu =>
      obtain ⟨hv, hn⟩ := keep hu (by simp) (by simp)
      exact .same (stageOf_setPc_same hv rfl (by rw [hpc, sys5Loop_plain]; rfl))
        (fr hn rfl rfl rfl rfl)
  | refill hb hu =>
      obtain ⟨hv, hn⟩ := keep hu (by simp) (by simp)
      exact .same (stageOf_eq hv fun _ _ => rfl) (fr hn rfl rfl rfl rfl)
  | fault hb hp hu =>
      obtain ⟨hv, hn⟩ := keep hu (by simp) (by simp)
      exact .same (withVm_stageOf hv (mayTouch_touching hp)) (withVm_frame hn)
  | pager hb hu =>
      obtain ⟨hv, hn⟩ := keep hu (by simp) (by simp)
      cases VM.step_view hu with
      | pager hq => exact .same (withVm_stageOf hv (hpl _ _ _ _ hq)) (withVm_frame hn)
  | flashDone hu =>
      obtain ⟨hv, hn⟩ := keep hu (by simp) (by simp)
      exact .same (stageOf_eq hv fun _ _ => rfl) (fr hn rfl rfl rfl rfl)
  | ecall hq hpc => exact .same (quiet rfl rfl (by rw [hpc]; rfl)) (fr rfl rfl rfl rfl rfl)
  | trap hq hpc => exact .same (quiet rfl rfl (by rw [hpc]; rfl)) (fr rfl rfl rfl rfl rfl)
  | @dispatch q a hb hq hpc hg =>
      rcases supportGeneralExHandler_stage a (s.saved a) with hpl | ⟨rfl, asid, hne, hex⟩
      · exact .same (quiet rfl rfl (by rw [hpc, hpl]; rfl)) (fr rfl rfl rfl rfl rfl)
      · exact .start q asid hne hb (here hq hpc)
          (move (.sys6 (.init asid 0)) hq rfl (by rw [← hex]; rfl)) (fr rfl rfl rfl rfl rfl)
  | @doom q a hb hq hpc hg =>
      refine .same (stageOf_setPc_same (q := q) (g := .signal) (fun j => ?_) rfl ?_)
        (fr rfl rfl rfl rfl rfl)
      · show (Function.update s.vm.proc q (some ⟨a, .dying⟩) j).map Proc.asid = _
        rw [Function.update_apply]
        by_cases hj : j = q
        · rw [if_pos hj, hj, hq]; rfl
        · rw [if_neg hj]
      · rw [hpc]; rfl
  | sys4Acquire hb hq hpc =>
      exact .same (quiet rfl rfl (by rw [hpc, sys4Loop_plain]; rfl)) (fr rfl rfl rfl rfl rfl)
  | sys4Command hb hq hpc => exact .same (quiet rfl rfl (by rw [hpc]; rfl)) (fr rfl rfl rfl rfl rfl)
  | sys4Release hb hq hpc => exact .same (quiet rfl rfl (by rw [hpc]; rfl)) (fr rfl rfl rfl rfl rfl)
  | sys5Acquire hb hq hpc =>
      exact .same (quiet rfl rfl (by rw [hpc, sys5Loop_plain]; rfl)) (fr rfl rfl rfl rfl rfl)
  | sys5Command hb hq hpc => exact .same (quiet rfl rfl (by rw [hpc]; rfl)) (fr rfl rfl rfl rfl rfl)
  | sys5Release hb hq hpc => exact .same (quiet rfl rfl (by rw [hpc]; rfl)) (fr rfl rfl rfl rfl rfl)
  | sys6Init hb hq hpc => exact .same (quiet rfl rfl (by rw [hpc]; rfl)) (fr rfl rfl rfl rfl rfl)
  | sys6InitDone hb hq hpc => exact .same (quiet rfl rfl (by rw [hpc]; rfl)) (fr rfl rfl rfl rfl rfl)
  | @sys6Create q a asid hb hq hpc =>
      refine .child q a asid hb (here hq hpc) ?_ rfl rfl rfl rfl rfl
      have hne : q ≠ s.vm.nextPid := hx.ne_next hq
      have hq' : (s.createProc q asid).vm.proc q = some ⟨a, .run⟩ :=
        (Function.update_of_ne hne ..).trans hq
      rw [← stageOf_create (t := s.createProc q asid) rfl rfl]
      exact stageOf_setPc (s := s.createProc q asid) (g := .sys6 .wait) hq' (fun _ => rfl) rfl
  | @sys6Wait q a hb hq hpc =>
      exact .wait q a hb (here hq hpc) (move .ldst hq rfl rfl) rfl (fr rfl rfl rfl rfl rfl)
  | ldst hb hq hpc => exact .same (quiet rfl rfl (by rw [hpc]; rfl)) (fr rfl rfl rfl rfl rfl)
  | @signal q a hb hq hpc =>
      have hvm : (s.signal a).vm = s.vm ∧ (s.signal a).pc = s.pc := by
        unfold Support.signal; split <;> exact ⟨rfl, rfl⟩
      refine .signal q a hb (here hq hpc) (move .term hq ?_ ?_) ⟨rfl, rfl, rfl, rfl, rfl⟩
      · exact congrArg VM.proc hvm.1
      · exact congrArg (Function.update · q .term) hvm.2
  | @term q pr hb hq hpc => exact .term q pr.asid hb (here hq hpc) rfl
  | @noPcb q a asid hb hq hpc =>
      exact .childless q a asid hb (here hq hpc) (move (.sys6 .wait) hq rfl rfl)
        (fr rfl rfl rfl rfl rfl)
  | sys4Done hq hpc =>
      refine .same (quiet rfl rfl ?_) (fr rfl rfl rfl rfl rfl)
      rw [hpc]
      split
      · rfl
      · rw [sys4Loop_plain]; rfl
  | sys5Done hq hpc =>
      refine .same (quiet rfl rfl ?_) (fr rfl rfl rfl rfl rfl)
      rw [hpc]
      split <;> rfl

end Support

end PandOS
