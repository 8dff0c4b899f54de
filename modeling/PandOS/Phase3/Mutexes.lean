import PandOS.Phase3.Refine

/-!
# Phase 3 — no process terminates with a mutex

* `Support.holder_of_run`: a mutex of the Support Level that is taken has a live holder, between
  its `P` and its `V`, on every run on which the pager, entered from inside a terminal service, has
  no failing flash operation and no `EXC_MOD`.
* `Support.nested_failure_keeps_mutex`: the error exit of such a pager leaves the mutex of the
  terminal to nobody.

`swapPoolSem` and the flash mutexes need no condition (`VM.Excl`, `VM.FlashExcl`).  The two mutexes
of the terminal are one argument with the channel as a parameter.
-/

namespace PandOS

variable {n : ℕ}

/-! ### Failures of the pager -/

namespace VM

variable {s t : VM n} {e : VmEvent n} {q : Pid} {a : Asid} {p : PageNo} {pc : PagerPc}

/-- The pager is on its way to an error exit. -/
def PagerPc.failing : PagerPc → Prop
  | .write _ _ (.release status) | .read _ (.release status) => status ≠ flashReady
  | .abort => True
  | _ => False

theorem Call.not_failing {d b k rw here next} (c : Call a p d b k rw here next) :
    ¬ PagerPc.failing next ∧ ∀ pc, (∀ status, pc ≠ .release status) → ¬ PagerPc.failing (here pc) := by
  cases c with
  | write => exact ⟨id, fun pc hpc => by cases pc <;> first | exact id | exact absurd rfl (hpc _)⟩
  | read => exact ⟨id, fun pc hpc => by cases pc <;> first | exact id | exact absurd rfl (hpc _)⟩

theorem Call.failing {d b k rw here next} (c : Call a p d b k rw here next) {status : Word} :
    PagerPc.failing (here (.release status)) ↔ status ≠ flashReady := by
  cases c <;> exact Iff.rfl

/-- No statement of the pager makes its transfer fail; a device does. -/
theorem Stmt.failing {p' : PageNo} {pc' : PagerPc} (h : Stmt s q a p pc t)
    (hq : t.proc q = some ⟨a, .pager p' pc'⟩) (hf : PagerPc.failing pc') : PagerPc.failing pc := by
  obtain ⟨c, hp, -⟩ := h.proc
  have self : ∀ {p'' pc''}, t.proc q = some ⟨a, .pager p'' pc''⟩ → PagerPc.failing pc'' := by
    intro p'' pc'' h'
    rw [hq] at h'
    cases h'
    exact hf
  cases h with
  | enter => exact (self (Function.update_self ..)).elim
  | select => exact (self (Function.update_self ..)).elim
  | evict => exact (self (Function.update_self ..)).elim
  | vacant => exact (self (Function.update_self ..)).elim
  | flush => exact (self (Function.update_self ..)).elim
  | acquire c => exact absurd (self (Function.update_self ..)) (c.not_failing.2 _ (by simp))
  | data0 c => exact absurd (self (Function.update_self ..)) (c.not_failing.2 _ (by simp))
  | command c => exact absurd (self (Function.update_self ..)) (c.not_failing.2 _ (by simp))
  | @release d b k rw here next status c =>
      refine c.failing.mpr fun hs => c.not_failing.1 ?_
      have := self (Function.update_self ..)
      rwa [if_pos hs] at this
  | record => exact (self (Function.update_self ..)).elim
  | validate => exact (self (Function.update_self ..)).elim
  | update => exact (self (Function.update_self ..)).elim
  | leave => exact (self (Function.update_self ..)).elim
  | abort => trivial
  | ret =>
      rcases proc_update (q := q) rfl hq with ⟨hne, -⟩ | ⟨-, he⟩
      · exact absurd rfl hne
      · cases he

/-- A pager fails because it was failing, or because its flash operation has just failed. -/
theorem Step.failing (h : Step s e t) (hq : t.proc q = some ⟨a, .pager p pc⟩)
    (hf : PagerPc.failing pc) :
    (∃ p pc, s.proc q = some ⟨a, .pager p pc⟩ ∧ PagerPc.failing pc) ∨
      ∃ status junk, e = .flashDone q status junk ∧ status ≠ flashReady := by
  have upd : ∀ {i : Pid} {x : Option Proc}, t.proc = Function.update s.proc i x →
      (∀ p pc, x = some ⟨a, .pager p pc⟩ → ¬ PagerPc.failing pc) →
      ∃ p pc, s.proc q = some ⟨a, .pager p pc⟩ ∧ PagerPc.failing pc := by
    intro i x hp hne
    rcases proc_update hp hq with ⟨-, hold⟩ | ⟨-, hx⟩
    · exact ⟨p, pc, hold, hf⟩
    · exact absurd hf (hne p pc hx)
  cases h with
  | initPte | load | store | refill => exact .inl ⟨p, pc, hq, hf⟩
  | create => exact .inl (upd (i := s.nextPid) rfl (by rintro _ _ ⟨⟩))
  | faultMod => exact .inl (upd rfl (by rintro _ _ ⟨⟩))
  | fault => exact .inl (upd rfl (by rintro _ _ ⟨⟩; exact id))
  | @pager i b p' pc' t hi hb hst =>
      obtain ⟨c, hp, -⟩ := hst.proc
      rcases proc_update hp hq with ⟨-, hold⟩ | ⟨rfl, hx⟩
      · exact .inl ⟨p, pc, hold, hf⟩
      · cases hx
        exact .inl ⟨p', pc', hi, hst.failing hq hf⟩
  | @flashDone i b p' _ _ _ _ here _ status junk u c hi hu =>
      have hproc := flashPerform_goto (q := i) (a := b) (c := .pager p' (here (.release status))) hu
      rcases proc_update hproc hq with ⟨-, hold⟩ | ⟨rfl, hx⟩
      · exact .inl ⟨p, pc, hold, hf⟩
      · cases hx
        exact .inr ⟨status, junk, rfl, c.failing.mp hf⟩
  | die => exact .inl (upd rfl (by rintro _ _ ⟨⟩))
  | exit => exact .inl (upd rfl (by rintro _ _ ⟨⟩))

/-- A process begins to die in the pager at its error exit only. -/
theorem Stmt.dying (h : Stmt s q a p pc t) (hq : t.proc q = some ⟨a, .dying⟩) :
    PagerPc.failing pc := by
  have self : ∀ {c}, t.proc q = some ⟨a, c⟩ → c = .dying := by
    intro c h'
    rw [hq] at h'
    cases h'
    rfl
  cases h with
  | abort => trivial
  | _ => exact absurd (self (Function.update_self ..)) (by simp)

end VM

/-! ### The terminal -/

/-- The two channels of terminal 0. -/
inductive Channel where
  | tx | rx
  deriving DecidableEq

/-- Between the `P` and the `V` of the mutex of a channel, the wait for the `P` included. -/
def GenPc.holds : Channel → GenPc → Bool
  | .tx, .sys4 pc => pc ≠ .acquire
  | .rx, .sys5 pc => pc ≠ .acquire
  | _, _ => false

namespace Support

variable {s t : Support n} {e : SupportEvent n} {es : List (SupportEvent n)} {q : Pid} {a : Asid}
  {d : Channel}

/-- The mutex of a channel of terminal 0. -/
def termMutex (s : Support n) : Channel → Sem Pid
  | .tx => s.termMutexTX
  | .rx => s.termMutexRX

/-- A live process between the `P` and the `V` of the mutex of channel `d`. -/
def InTerm (s : Support n) (d : Channel) (q : Pid) : Prop :=
  (s.vm.proc q).isSome = true ∧ GenPc.holds d (s.pc q) = true

theorem holds_sys4Loop {sv : Saved} {i : ℕ} :
    GenPc.holds .tx (sys4Loop sv i) = true ∧ GenPc.holds .rx (sys4Loop sv i) = false := by
  unfold sys4Loop
  split <;> exact ⟨rfl, rfl⟩

theorem holds_sys5Loop {i : ℕ} {c : Option (BitVec 8)} :
    GenPc.holds .tx (sys5Loop i c) = false ∧ GenPc.holds .rx (sys5Loop i c) = true := by
  unfold sys5Loop
  split <;> exact ⟨rfl, rfl⟩

/-- A service starts outside both mutexes. -/
theorem holds_supportGeneralExHandler {sv : Saved} :
    GenPc.holds d (supportGeneralExHandler a sv).1 = false := by
  have h4 : GenPc.holds d (sys4_writeTerminal sv) = false := by
    unfold sys4_writeTerminal
    split <;> cases d <;> rfl
  have h5 : GenPc.holds d (sys5_readTerminal sv) = false := by
    unfold sys5_readTerminal
    split <;> cases d <;> rfl
  have h6 : GenPc.holds d (sys6_execute a sv).1 = false := by
    unfold sys6_execute
    split
    · cases d <;> rfl
    · split <;> cases d <;> rfl
  have h0 : GenPc.holds d .signal = false := by cases d <;> rfl
  unfold supportGeneralExHandler syscallHandler
  split
  · split
    · exact h0
    · split
      · exact h4
      · split
        · exact h5
        · split
          · exact h6
          · exact h0
  · exact h0

/-- A pager entered from inside a terminal service does not fail. -/
def NestedOk (s : Support n) : SupportEvent n → Prop
  | .mem (.fault q _ cause) => s.pc q = .user ∨ cause &&& causeExcCodeMask ≠ excMod
  | .mem (.flashDone q status _) => s.pc q = .user ∨ status = flashReady
  | _ => True

instance : Decidable (s.NestedOk e) := by
  unfold NestedOk
  split <;> infer_instance

/-- A pager on its way to an error exit was entered from user mode. -/
def Nested (s : Support n) : Prop :=
  ∀ q a p pc, s.vm.proc q = some ⟨a, .pager p pc⟩ → VM.PagerPc.failing pc → s.pc q = .user

/-- No step on the condition makes a pager fail inside a service. -/
theorem Nested.step (h : s.Nested) (hg : s.Good) (hs : Step s e t) (hc : s.NestedOk e) :
    t.Nested := by
  intro q a p pc hq hf
  by_cases hpc : t.pc q = s.pc q
  · rw [hpc]
    cases hg.under hs with
    | step f hv hf' =>
        rcases (VM.step_view hf').failing hq hf with ⟨p', pc', hold, hf⟩ | ⟨status, junk, rfl, hne⟩
        · exact h q a p' pc' hold hf
        · obtain rfl : e = .mem (.flashDone q status junk) := by simpa using vmEvent_some hv
          exact hc.resolve_right hne
    | exits l hv hr => exact h q a p pc ((exits_back hr).2.2 _ _ hq) hf
  · rcases hs.changed hq hpc with ⟨hc, -⟩ | ⟨hc, -⟩ <;> cases hc

/-! ### What a step does to a mutex of the terminal -/

/-- A step leaves the mutex of channel `d` alone, or is the `P` or the `V` of one process. -/
inductive TermMove (s t : Support n) (d : Channel) : Prop where
  | same (hm : t.termMutex d = s.termMutex d) (hi : ∀ j, s.InTerm d j ↔ t.InTerm d j)
  | acquire (q : Pid) (ho : ¬ s.InTerm d q) (hm : t.termMutex d = (s.termMutex d).P q)
      (hi : ∀ j, s.InTerm d j ∨ j = q ↔ t.InTerm d j)
  | release (q : Pid) (ho : s.InTerm d q) (hb : q ∉ (s.termMutex d).queue)
      (hm : t.termMutex d = (s.termMutex d).V) (hi : ∀ j, s.InTerm d j ∧ j ≠ q ↔ t.InTerm d j)

theorem TermMove.mutex (h : TermMove s t d) (hm : Mutex (s.termMutex d) (s.InTerm d)) :
    Mutex (t.termMutex d) (t.InTerm d) := by
  cases h with
  | same hs hi => rw [hs]; exact hm.congr hi
  | acquire q ho hs hi => rw [hs]; exact (hm.P ho).congr hi
  | release q ho hb hs hi => rw [hs]; exact (hm.V ho hb).congr hi

/-- After `q` moves to the statement `g`, the processes inside are those that were, and `q` if `g`
is inside. -/
theorem inTerm_update {g : GenPc} (hv : ∀ j, (t.vm.proc j).isSome = (s.vm.proc j).isSome)
    (hp : t.pc = Function.update s.pc q g) (hq : (s.vm.proc q).isSome = true) (j : Pid) :
    t.InTerm d j ↔ (j = q ∧ GenPc.holds d g = true) ∨ (j ≠ q ∧ s.InTerm d j) := by
  unfold InTerm
  rw [hv, hp, Function.update_apply]
  by_cases hj : j = q
  · simp [hj, hq]
  · simp [hj]

/-- `q` moves on the same side of the mutex. -/
theorem inTerm_keep {g x : GenPc} (hv : ∀ j, (t.vm.proc j).isSome = (s.vm.proc j).isSome)
    (hp : t.pc = Function.update s.pc q g) (hx : s.pc q = x)
    (hg : GenPc.holds d g = GenPc.holds d x) (j : Pid) : s.InTerm d j ↔ t.InTerm d j := by
  unfold InTerm
  rw [hv, hp, Function.update_apply]
  by_cases hj : j = q
  · rw [if_pos hj, hj, hx, hg]
  · rw [if_neg hj]

theorem TermMove.keep {g x : GenPc} (hv : ∀ j, (t.vm.proc j).isSome = (s.vm.proc j).isSome)
    (hp : t.pc = Function.update s.pc q g) (hx : s.pc q = x)
    (hg : GenPc.holds d g = GenPc.holds d x) (hm : t.termMutex d = s.termMutex d) :
    TermMove s t d :=
  .same hm (inTerm_keep hv hp hx hg)

/-- A process is created, in user mode. -/
theorem inTerm_create {i : Pid} (hx : s.vm.proc i = none)
    (hv : t.vm.proc = Function.update s.vm.proc i (some ⟨a, .run⟩))
    (hp : t.pc = Function.update s.pc i .user) (j : Pid) : s.InTerm d j ↔ t.InTerm d j := by
  unfold InTerm
  rw [hv, hp, Function.update_apply, Function.update_apply]
  by_cases hj : j = i
  · subst hj
    cases d <;> simp [hx, GenPc.holds]
  · rw [if_neg hj, if_neg hj]

theorem TermMove.P {g x : GenPc} (hv : ∀ j, (t.vm.proc j).isSome = (s.vm.proc j).isSome)
    (hp : t.pc = Function.update s.pc q g) (hq : (s.vm.proc q).isSome = true) (hx : s.pc q = x)
    (ho : GenPc.holds d x = false) (hg : GenPc.holds d g = true)
    (hm : t.termMutex d = (s.termMutex d).P q) : TermMove s t d := by
  refine .acquire q (fun hi => ?_) hm fun j => (Iff.trans ?_ (inTerm_update hv hp hq j).symm)
  · have := hi.2
    rw [hx, ho] at this
    cases this
  · by_cases hj : j = q
    · simp [hj, hg]
    · simp [hj]

theorem TermMove.V {g x : GenPc} (hv : ∀ j, (t.vm.proc j).isSome = (s.vm.proc j).isSome)
    (hp : t.pc = Function.update s.pc q g) (hq : (s.vm.proc q).isSome = true) (hx : s.pc q = x)
    (ho : GenPc.holds d x = true) (hg : GenPc.holds d g = false)
    (hb : q ∉ (s.termMutex d).queue) (hm : t.termMutex d = (s.termMutex d).V) :
    TermMove s t d := by
  refine .release q ⟨hq, hx ▸ ho⟩ hb hm fun j => (Iff.trans ?_ (inTerm_update hv hp hq j).symm)
  by_cases hj : j = q
  · simp [hj, hg]
  · simp [hj]

theorem foldl_remove_term (l : List Pid) (s : Support n) :
    (l.foldl remove s).termMutex d = l.foldl Sem.drop (s.termMutex d) := by
  induction l generalizing s with
  | nil => rfl
  | cons i l ih =>
      rw [List.foldl_cons, ih]
      cases d <;> rfl

/-- `TERMPROCESS` removes processes that are outside. -/
theorem TermMove.terminate (hm : Mutex (s.termMutex d) (s.InTerm d))
    (ht : ∀ j ∈ s.progeny q, ∃ b, s.stageOf j = some (b, .term)) : TermMove s (s.terminate q) d := by
  have hout : ∀ j ∈ s.progeny q, ¬ s.InTerm d j := by
    rintro j hj ⟨-, hin⟩
    obtain ⟨b, hb⟩ := ht j hj
    obtain ⟨pr, -, he⟩ := Option.map_eq_some_iff.mp hb
    rw [GenPc.eq_term (congrArg Prod.snd he)] at hin
    cases d <;> cases hin
  obtain ⟨hpc, -, -, -, -, -, hv⟩ := foldl_remove (s.progeny q) s
  refine .same ((foldl_remove_term _ s).trans
    (Sem.foldl_drop_of_not_mem fun j hj hmem => hout j hj (hm.sub j hmem))) fun j => ?_
  unfold InTerm Support.terminate
  rw [hv, hpc]
  by_cases hj : j ∈ s.progeny q
  · simpa [hj, InTerm] using hout j hj
  · rw [if_neg hj]

/-- **What a step does to the mutex of a channel**, if no pager fails inside a service. -/
theorem Step.termMove (h : Step s e t) (hg : s.Good) (hn : s.Nested) (hc : s.NestedOk e)
    (hm : Mutex (s.termMutex d) (s.InTerm d)) : TermMove s t d := by
  have keep : ∀ {i : Pid} {g x : GenPc} {u : Support n}, s.pc i = x → u.vm.proc = s.vm.proc →
      u.pc = Function.update s.pc i g → GenPc.holds d g = GenPc.holds d x →
      u.termMutex d = s.termMutex d → TermMove s u d :=
    fun hx hv hp hg hm => .keep (fun j => by rw [hv]) hp hx hg hm
  have isSome : ∀ {f : VmEvent n} {u : VM n}, s.vm.step f = some u → (∀ a, f ≠ .create a) →
      (∀ q, f ≠ .exit q) → ∀ j, (u.proc j).isSome = (s.vm.proc j).isSome := by
    intro f u hu hc hx j
    have := congrArg Option.isSome (((VM.step_view hu).asids hc hx).1 j)
    simpa using this
  -- a memory step that leaves the handler where it is
  have mem : ∀ {f : VmEvent n} {u : VM n}, s.vm.step f = some u → (∀ a, f ≠ .create a) →
      (∀ q, f ≠ .exit q) → TermMove s { s with vm := u } d := by
    intro f u hu hc hx
    refine .same (by cases d <;> rfl) fun j => ?_
    unfold InTerm
    rw [isSome hu hc hx]
  -- a memory step after which `i` may be on its way to `fatalFault`
  have vm : ∀ {f : VmEvent n} {i : Pid} {u : VM n}, s.vm.step f = some u → (∀ a, f ≠ .create a) →
      (∀ q, f ≠ .exit q) → (∀ a, u.proc i = some ⟨a, .dying⟩ → s.pc i = .user) →
      TermMove s (s.withVm i u) d := by
    intro f i u hu hc hx hd
    have hmut : (s.withVm i u).termMutex d = s.termMutex d := by
      unfold withVm
      split <;> cases d <;> rfl
    have hv : ∀ j, ((s.withVm i u).vm.proc j).isSome = (s.vm.proc j).isSome := by
      rw [withVm_vm]
      exact isSome hu hc hx
    rcases withVm_pc (s := s) (q := i) (u := u) with hp | ⟨hp, a, ha⟩
    · refine .same hmut fun j => ?_
      unfold InTerm
      rw [hv, hp]
    · exact .keep hv hp (hd a ha) (by cases d <;> rfl) hmut
  have fresh : s.vm.proc s.vm.nextPid = none := hg.iso.excl.fresh _ le_rfl
  cases h with
  | testInit | testInitDone | testWait => exact .same (by cases d <;> rfl) fun _ => Iff.rfl
  | testCreate => exact .same (by cases d <;> rfl) (inTerm_create (a := Asid.shell) fresh rfl rfl)
  | testTerm hpc hb =>
      have := TermMove.terminate (q := 0) hm fun j hj => hg.sync.victims_test hpc hb hj
      cases this with
      | same h₁ h₂ => exact .same (by cases d <;> exact h₁) h₂
      | acquire i h₀ h₁ h₂ => exact .acquire i h₀ (by cases d <;> exact h₁) h₂
      | release i h₀ hi h₁ h₂ => exact .release i h₀ hi (by cases d <;> exact h₁) h₂
  | load _ _ hu => exact mem hu (by simp) (by simp)
  | store _ _ hu => exact mem hu (by simp) (by simp)
  | refill _ hu => exact mem hu (by simp) (by simp)
  | flashDone hu => exact mem hu (by simp) (by simp)
  | @sys4Load i b p w v u k ch hb hpc hu =>
      exact .keep (isSome hu (by simp) (by simp)) (q := i) (g := .sys4 (.command k ch)) rfl hpc
        (by cases d <;> rfl) (by cases d <;> rfl)
  | @sys5Store i b p w v u k ch hb hpc hu =>
      refine .keep (isSome hu (by simp) (by simp)) (q := i) (g := sys5Loop (k + 1) (some ch)) rfl
        hpc ?_ (by cases d <;> rfl)
      cases d
      · exact holds_sys5Loop.1
      · exact holds_sys5Loop.2
  | @fault i hi cause u p hb hp hu =>
      refine vm hu (by simp) (by simp) fun a ha => ?_
      cases VM.step_view hu with
      | faultMod _ hmod => exact hc.resolve_right (not_not.mpr hmod)
      | fault =>
          have : Function.update s.vm.proc i _ i = some ⟨a, .dying⟩ := ha
          rw [Function.update_self] at this
          cases this
  | @pager i u hb hu =>
      refine vm hu (by simp) (by simp) fun a ha => ?_
      cases VM.step_view hu with
      | pager hi _ hst =>
          obtain ⟨c, hp, -⟩ := hst.proc
          rcases VM.proc_update hp ha with ⟨hne, -⟩ | ⟨-, he⟩
          · exact absurd rfl hne
          · cases he
            exact hn _ _ _ _ hi (hst.dying ha)
  | @ecall i _ _ _ _ _ hpc =>
      exact keep hpc rfl (i := i) (g := .handler) rfl (by cases d <;> rfl) (by cases d <;> rfl)
  | @trap i _ _ _ hpc =>
      exact keep hpc rfl (i := i) (g := .handler) rfl (by cases d <;> rfl) (by cases d <;> rfl)
  | @dispatch i b _ _ hpc =>
      exact keep hpc rfl (i := i) (g := (supportGeneralExHandler b (s.saved b)).1) rfl
        (holds_supportGeneralExHandler.trans (by cases d <;> rfl)) (by cases d <;> rfl)
  | @doom i b hb hi hpc =>
      refine .keep (fun j => ?_) (q := i) (g := .signal) rfl hpc (by cases d <;> rfl)
        (by cases d <;> rfl)
      show (Function.update s.vm.proc i (some ⟨b, .dying⟩) j).isSome = _
      rw [Function.update_apply]
      by_cases hj : j = i
      · rw [if_pos hj, hj, hi]; rfl
      · rw [if_neg hj]
  | @sys4Acquire i b hb hi hpc =>
      cases d with
      | tx => exact .P (fun _ => rfl) (q := i) rfl (by rw [hi]; rfl) hpc rfl holds_sys4Loop.1 rfl
      | rx => exact keep hpc rfl (i := i) (g := sys4Loop (s.saved b) 0) rfl holds_sys4Loop.2 rfl
  | @sys4Command i b k c hb hi hpc =>
      exact keep hpc rfl (i := i) (g := .sys4 (.busy k)) rfl (by cases d <;> rfl)
        (by cases d <;> rfl)
  | @sys4Release i b a0 hb hi hpc =>
      cases d with
      | tx =>
          exact .V (fun _ => rfl) (q := i) (g := .ldst) rfl (by rw [hi]; rfl) hpc rfl rfl
            (fun hq => hb (.inr (.inr (.inl hq)))) rfl
      | rx => exact keep hpc rfl (i := i) (g := .ldst) rfl rfl rfl
  | @sys5Acquire i b hb hi hpc =>
      cases d with
      | tx => exact keep hpc rfl (i := i) (g := sys5Loop 0 none) rfl holds_sys5Loop.1 rfl
      | rx => exact .P (fun _ => rfl) (q := i) rfl (by rw [hi]; rfl) hpc rfl holds_sys5Loop.2 rfl
  | @sys5Command i b k hb hi hpc =>
      exact keep hpc rfl (i := i) (g := .sys5 (.busy k)) rfl (by cases d <;> rfl)
        (by cases d <;> rfl)
  | @sys5Release i b a0 hb hi hpc =>
      cases d with
      | tx => exact keep hpc rfl (i := i) (g := .ldst) rfl rfl rfl
      | rx =>
          exact .V (fun _ => rfl) (q := i) (g := .ldst) rfl (by rw [hi]; rfl) hpc rfl rfl
            (fun hq => hb (.inr (.inr (.inr (.inl hq))))) rfl
  | @sys6Init i b asid k _ _ hpc =>
      exact keep hpc rfl (i := i) (g := .sys6 (.init asid (k + 1))) rfl (by cases d <;> rfl)
        (by cases d <;> rfl)
  | @sys6InitDone i b asid k _ _ hpc =>
      exact keep hpc rfl (i := i) (g := .sys6 (.create asid)) rfl (by cases d <;> rfl)
        (by cases d <;> rfl)
  | @sys6Create i b asid hb hi hpc =>
      have hne : i ≠ s.vm.nextPid := hg.iso.excl.ne_next hi
      have hpc' : (s.createProc i asid).pc i = .sys6 (.create asid) :=
        (Function.update_of_ne hne ..).trans hpc
      have hh : GenPc.holds d (.sys6 .wait) = GenPc.holds d (.sys6 (.create asid)) := by
        cases d <;> rfl
      have h₁ : ∀ j, s.InTerm d j ↔ (s.createProc i asid).InTerm d j :=
        inTerm_create fresh rfl rfl
      have h₂ : ∀ j, (s.createProc i asid).InTerm d j ↔
          ((s.createProc i asid).setPc i (.sys6 .wait)).InTerm d j :=
        inTerm_keep (fun _ => rfl) rfl hpc' hh
      exact .same (by cases d <;> rfl) fun j => (h₁ j).trans (h₂ j)
  | @sys6Wait i b hb hi hpc =>
      exact keep hpc rfl (i := i) (g := .ldst) rfl (by cases d <;> rfl) (by cases d <;> rfl)
  | @ldst i b hb hi hpc =>
      exact keep hpc rfl (i := i) (g := .user) rfl (by cases d <;> rfl) (by cases d <;> rfl)
  | @signal i b hb hi hpc =>
      obtain ⟨hv, hp⟩ := signal_setPc (s := s) (a := b) (q := i) (g := .term)
      refine keep hpc (congrArg VM.proc hv) hp (by cases d <;> rfl) ?_
      unfold Support.signal
      split <;> cases d <;> rfl
  | @term i pr hb hi hpc =>
      exact .terminate hm fun j hj => hg.sync.victims (by rw [stageOf_some hi, hpc]; rfl) hb hj
  | @noPcb i b asid hb hi hpc =>
      exact keep hpc rfl (i := i) (g := .sys6 .wait) rfl (by cases d <;> rfl) (by cases d <;> rfl)
  | @sys4Done i b k status hi hpc =>
      refine keep hpc rfl (i := i) rfl ?_ (by cases d <;> rfl)
      split
      · cases d <;> rfl
      · cases d
        · exact holds_sys4Loop.1
        · exact holds_sys4Loop.2
  | @sys5Done i b k status hi hpc =>
      refine keep hpc rfl (i := i) rfl ?_ (by cases d <;> rfl)
      split <;> cases d <;> rfl

/-! ### Runs -/

/-- A mutex that is taken is held by a live process, which has done its `P`. -/
def Held (s : Support n) (S : Sem Pid) (inside : Pid → Prop) : Prop :=
  S.value ≤ 0 → ∃ q, inside q ∧ q ∉ S.queue ∧ (s.vm.proc q).isSome = true

/-- **No process terminates with a mutex.**  On every run on which no pager entered from inside a
terminal service fails, each mutex that is taken has a live holder. -/
theorem holder_of_run (flash : PageId → Page) (frame : FrameNo → Page) (reg : Asid → FlashReg)
    (hr : Run step NestedOk (boot flash frame reg : Support n) es s) :
    s.Held s.vm.swapPoolSem s.vm.Inside ∧
    (∀ i, s.Held (s.vm.flashMutex i) (s.vm.InFlash i)) ∧
    (∀ d, s.Held (s.termMutex d) (s.InTerm d)) ∧
    ∀ q, s.pc q = .term → ¬ s.vm.Inside q ∧ (∀ i, ¬ s.vm.InFlash i q) ∧ ∀ d, ¬ s.InTerm d q := by
  have hrun : s.Good ∧ s.Nested ∧ ∀ d, Mutex (s.termMutex d) (s.InTerm d) := by
    refine hr.inv (I := fun u => u.Good ∧ u.Nested ∧ ∀ d, Mutex (u.termMutex d) (u.InTerm d))
      ⟨.boot .., by rintro _ _ _ _ ⟨⟩, fun d => ?_⟩ ?_
    · cases d <;> exact .free fun _ h => Bool.false_ne_true h.1
    · rintro u e v ⟨hg, hn, hm⟩ hc hs
      have hst := step_view hs
      exact ⟨hg.step hst, hn.step hg hst hc, fun d => (hst.termMove hg hn hc (hm d)).mutex (hm d)⟩
  obtain ⟨hg, -, hm⟩ := hrun
  refine ⟨fun hv => ?_, fun i hv => ?_, fun d hv => ?_, fun q hpc => ⟨?_, fun i => ?_, fun d => ?_⟩⟩
  · obtain ⟨q, hq, hb⟩ := hg.iso.excl.mutex.exists_holder hv
    obtain ⟨pr, hpr, hin⟩ := hq
    exact ⟨q, ⟨pr, hpr, hin⟩, hb, by rw [hpr]; rfl⟩
  · obtain ⟨q, hq, hb⟩ := (hg.flash i).exists_holder hv
    obtain ⟨a, p, pc, hpr, hdev⟩ := hq
    exact ⟨q, ⟨a, p, pc, hpr, hdev⟩, hb, by rw [hpr]; rfl⟩
  · obtain ⟨q, hq, hb⟩ := (hm d).exists_holder hv
    exact ⟨q, hq, hb, hq.1⟩
  · rintro ⟨⟨a, c⟩, hq, hin⟩
    cases hg.dying q _ hq hpc
    cases hin
  · rintro ⟨a, p, pc, hq, -⟩
    cases hg.dying q _ hq hpc
  · rintro ⟨-, hin⟩
    rw [hpc] at hin
    cases d <;> cases hin

/-- The shell writes a character of its page 0, which is not resident; the flash device answers
`status` to the nested pager. -/
def nestedFault (status : Word) : List (SupportEvent 16) :=
  launch ++ [.ecall 1 writeTerminal (BitVec.ofNat 32 kuseg) 1, .handler 1, .handler 1] ++
    pageFault 1 (.shell, page0) slot0 ++ .replicate 6 (.mem (.pager 1)) ++
    .mem (.flashDone 1 status fun _ => 0) :: .replicate 2 (.mem (.pager 1))

/-- The shell holds `termMutexTX` and `swapPoolSem` in the nested pager, the read done. -/
theorem holder_of_run_nested : ∃ s, Run step NestedOk blank (nestedFault flashReady) s ∧
    s.termMutexTX.value ≤ 0 ∧ s.Held s.termMutexTX (s.InTerm .tx) := by
  obtain ⟨s, hr, hv⟩ := exists_run step NestedOk (fun s => s.termMutexTX.value ≤ 0) blank
    (nestedFault flashReady) (by decide +kernel)
  exact ⟨s, hr, hv, (holder_of_run _ _ _ hr).2.2.1 .tx⟩

/-- **A mutex nobody holds.**  The read fails and the shell terminates; `termMutexTX` stays taken,
and no process lives. -/
theorem nested_failure_keeps_mutex : ∃ s, Run step anyStep blank
    (nestedFault 4 ++ [.handler 1, .handler 1]) s ∧ ¬ s.Held s.termMutexTX (s.InTerm .tx) := by
  obtain ⟨s, hr, hv, hn, h1⟩ := exists_run step anyStep
    (fun s => s.termMutexTX.value ≤ 0 ∧ s.vm.nextPid = 2 ∧ s.vm.proc 1 = none) blank
    (nestedFault 4 ++ [.handler 1, .handler 1]) (by decide +kernel)
  refine ⟨s, hr, fun hh => ?_⟩
  obtain ⟨q, -, -, hq⟩ := hh hv
  have hg : s.Good := (Good.boot ..).reach hr
  obtain ⟨pr, hpr⟩ := Option.isSome_iff_exists.mp hq
  obtain ⟨h0, hlt⟩ := hg.sync.live q _ (stageOf_some hpr)
  rw [hn] at hlt
  obtain rfl : q = 1 := Nat.le_antisymm (Nat.lt_succ_iff.mp hlt) h0
  rw [h1] at hpr
  cases hpr

end Support

end PandOS
