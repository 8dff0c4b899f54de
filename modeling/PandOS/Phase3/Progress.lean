import PandOS.Phase3.TerminalSteps

/-!
# Phase 3 — nobody waits in vain

Every semaphore of the Support Level is owed a `V` by somebody (`Support.Owes`): a mutex by the
process that has it, `shellSemaphore` by the program that was launched, `masterSemaphore` by the
shell.  Taken together the waits are ordered (`SemName.order`), and on the runs on which no nested
pager fails and every `CREATEPROCESS` finds a PCB, each semaphore in whose queue somebody waits has
one that owes the `V`.

* `Support.progress_of_run`: on such a run, whoever is in a queue waits, along a path of processes
  each of which is owed a `V` by the next, for a U-proc that is not blocked and can go on; so until
  `test` has terminated everything somebody can take a step.
-/

namespace PandOS

variable {n : ℕ}

/-- The order in which processes wait for one another: `test` for the shell, the shell for a program,
and any of them for the mutexes. -/
def SemName.order : SemName → Fin 5
  | .master => 0
  | .shell => 1
  | .term _ => 2
  | .swapPool => 3
  | .flash _ => 4

theorem SemName.order_lt {m m' : SemName} (hm : m.mutex = true) (hm' : m'.mutex = true)
    (h : m.rank < m'.rank) : m.order < m'.order := by
  cases m <;> cases m' <;> simp_all [SemName.mutex, SemName.rank, SemName.order]

theorem SemName.one_lt_order {m : SemName} (hm : m.mutex = true) : 1 < m.order := by
  cases m with
  | master | shell => cases hm
  | term => exact (by decide : (1 : Fin 5) < 2)
  | swapPool => exact (by decide : (1 : Fin 5) < 3)
  | flash => exact (by decide : (1 : Fin 5) < 4)

/-- Not a `CREATEPROCESS` that finds no PCB. -/
def SupportEvent.pcbFound : SupportEvent n → Bool
  | .noPcb _ => false
  | _ => true

namespace Support

variable {s t : Support n} {e : SupportEvent n} {es : List (SupportEvent n)} {q : Pid} {a : Asid}
  {m : SemName}

/-- `q` is to do the `V` on `m`. -/
def Owes (s : Support n) : SemName → Pid → Prop
  | .master, q => ∃ c, s.stageOf q = some (.shell, c) ∧ c ≠ .term
  | .shell, q => ∃ a c, s.stageOf q = some (a, c) ∧ a ≠ .shell ∧ c ≠ .term
  | m, q => s.Between m q ∧ q ∉ (s.sem m).queue

/-- `q` is in the queue of `m`. -/
def Queued (s : Support n) (m : SemName) (q : Pid) : Prop := q ∈ (s.sem m).queue

/-- No pager fails inside a service, and `CREATEPROCESS` finds a PCB. -/
def Smooth (s : Support n) (e : SupportEvent n) : Prop := s.NestedOk e ∧ e.pcbFound = true

instance : Decidable (s.Smooth e) := inferInstanceAs (Decidable (_ ∧ _))

theorem Smooth.ne_noPcb (h : s.Smooth e) (q : Pid) : e ≠ .noPcb q := by
  rintro rfl
  cases h.2

/-! ### The shell waits for a program only -/

/-- Where no program is to do its `V`, the shell does not wait, and if it is about to, its token is
there. -/
def Attended (s : Support n) : Prop :=
  s.NoOpen → s.shellSemaphore.queue = [] ∧
    ∀ q b, s.stageOf q = some (b, .wait) → s.shellSemaphore = ⟨1, []⟩

/-- Only `CREATEPROCESS` without a PCB takes the shell on to its `P` with no program. -/
theorem Step.not_childless {b a : Asid} (h : Step s e t) (hne : ∀ q, e ≠ .noPcb q)
    (hq : s.stageOf q = some (b, .exec a)) (hn : t.vm.nextPid = s.vm.nextPid) :
    t.stageOf q ≠ some (b, .wait) := by
  intro hq'
  obtain ⟨pr, -, hx⟩ := Option.map_eq_some_iff.mp hq
  obtain ⟨pr', -, hx'⟩ := Option.map_eq_some_iff.mp hq'
  have hs : (s.pc q).stage = .exec a := congrArg Prod.snd hx
  have ht : (t.pc q).stage = .wait := congrArg Prod.snd hx'
  have same : t.pc = s.pc → False := fun hp => by
    rw [hp, hs] at ht
    cases ht
  have move : ∀ {i : Pid} {g : GenPc}, t.pc = Function.update s.pc i g → g.stage ≠ .wait →
      False := by
    intro i g hp hg
    rw [hp, Function.update_apply] at ht
    by_cases hqi : q = i
    · rw [if_pos hqi] at ht
      exact hg ht
    · rw [if_neg hqi, hs] at ht
      cases ht
  have vm : ∀ {i : Pid} {u : VM n}, t = s.withVm i u → False := by
    rintro i u rfl
    rcases withVm_pc (s := s) (q := i) (u := u) with hp | ⟨hp, -⟩
    · exact same hp
    · exact move hp (by simp [GenPc.stage])
  cases h with
  | testInit | testInitDone | testWait | load | store | refill | flashDone => exact same rfl
  | testCreate => exact absurd hn (Nat.succ_ne_self _)
  | testTerm => exact same (foldl_remove _ s).1
  | sys4Load => exact move rfl (by simp [GenPc.stage])
  | sys5Store => exact move rfl (by rw [sys5Loop_plain]; simp)
  | fault => exact vm rfl
  | pager => exact vm rfl
  | ecall => exact move rfl (by simp [GenPc.stage])
  | trap => exact move rfl (by simp [GenPc.stage])
  | @dispatch i b =>
      refine move rfl ?_
      rcases supportGeneralExHandler_stage b (s.saved b) with hx | ⟨-, x, -, hx⟩ <;> rw [hx]
      · simp
      · simp [GenPc.stage]
  | doom => exact move rfl (by simp [GenPc.stage])
  | sys4Acquire => exact move rfl (by rw [sys4Loop_plain]; simp)
  | sys4Command => exact move rfl (by simp [GenPc.stage])
  | sys4Release => exact move rfl (by simp [GenPc.stage])
  | sys5Acquire => exact move rfl (by rw [sys5Loop_plain]; simp)
  | sys5Command => exact move rfl (by simp [GenPc.stage])
  | sys5Release => exact move rfl (by simp [GenPc.stage])
  | sys6Init => exact move rfl (by simp [GenPc.stage])
  | sys6InitDone => exact move rfl (by simp [GenPc.stage])
  | sys6Create => exact absurd hn (Nat.succ_ne_self _)
  | sys6Wait => exact move rfl (by simp [GenPc.stage])
  | ldst => exact move rfl (by simp [GenPc.stage])
  | signal => exact move signal_setPc.2 (by simp [GenPc.stage])
  | term => exact same (foldl_remove _ s).1
  | noPcb => exact hne _ rfl
  | sys4Done =>
      refine move rfl ?_
      split
      · simp [GenPc.stage]
      · rw [sys4Loop_plain]; simp
  | sys5Done => exact move rfl (by split <;> simp [GenPc.stage])

/-- No step but `CREATEPROCESS` without a PCB leaves the shell waiting for nobody. -/
theorem Attended.step (h : s.Attended) (hg : s.Good) (hs : Step s e t) (hne : ∀ q, e ≠ .noPcb q) :
    t.Attended := by
  have ht := (hg.step hs).sync
  have hk := hg.sync
  -- the same programs and the same semaphore
  have keep : (t.NoOpen → s.NoOpen) → t.shellSemaphore = s.shellSemaphore →
      (∀ q b, t.stageOf q = some (b, .wait) → s.stageOf q = some (b, .wait)) → t.Attended := by
    intro ho hsem hw hno
    obtain ⟨hq, hx⟩ := h (ho hno)
    exact ⟨by rw [hsem, hq], fun q b hqb => hsem.trans (hx q b (hw q b hqb))⟩
  -- nobody is left
  have gone : (∀ q, t.stageOf q = none) → t.Attended := by
    intro hno _
    cases ht.shell with
    | idle hsem => exact ⟨by rw [hsem], fun q b hq => by rw [hno] at hq; cases hq⟩
    | opened j _ hj | early j _ hj | asleep j _ hj => rw [hno] at hj; cases hj
  cases hs.syncMove hg.placed hg.iso.excl with
  | same hst hf => exact keep (fun hno => by rwa [NoOpen, hst] at hno) hf.shell fun q b hq => hst ▸ hq
  | early _ _ hst hf =>
      exact keep (fun hno => by rwa [NoOpen, hst] at hno) hf.shell fun q b hq => hst ▸ hq
  | testWait _ _ hst _ hf =>
      exact keep (fun hno => by rwa [NoOpen, hst] at hno) hf.shell fun q b hq => hst ▸ hq
  | launch _ hst _ _ _ _ hsem =>
      refine keep (fun hno j b c hj hb => hno j b c ?_ hb) hsem fun j b hj => ?_
      · rw [hst, Function.update_of_ne (hk.live j _ hj).2.ne, hj]
      · rw [hst] at hj
        rcases stage_update hj with ⟨-, hx⟩ | ⟨-, hj⟩
        · cases hx
        · exact hj
  | testTerm _ _ he =>
      subst he
      exact gone (terminate_all fun j x hj => hk.progeny_test hj)
  | start q a ha hb hq hst hf =>
      refine keep (fun hno j b c hj hb' => hno j b c ?_ hb') hf.shell fun j b hj => ?_
      · rw [hst, Function.update_of_ne, hj]
        rintro rfl
        rw [hq] at hj
        cases hj
        exact hb' rfl
      · rw [hst] at hj
        rcases stage_update hj with ⟨-, hx⟩ | ⟨-, hj⟩
        · cases hx
        · exact hj
  | child q b a hb hq hst =>
      intro hno
      have hlive := (hk.live q _ hq).2
      have hx := hno s.vm.nextPid a .plain
        (by rw [hst, Function.update_of_ne hlive.ne', Function.update_self]) (hk.exec _ _ _ hq).2
      cases hx
  | childless q b a hb hq hst hf =>
      exact absurd (by rw [hst, Function.update_self]) (hs.not_childless hne hq hf.next)
  | wait q b hb hq hst hsem hf =>
      have hbs := hk.wait _ _ hq
      subst hbs
      intro hno
      have hno' : s.NoOpen := by
        intro j b c hj hb'
        refine hno j b c ?_ hb'
        rw [hst, Function.update_of_ne, hj]
        rintro rfl
        rw [hq] at hj
        cases hj
        exact hb' rfl
      rw [hsem, (h hno').2 q _ hq]
      refine ⟨rfl, fun j b hj => ?_⟩
      rw [hst] at hj
      rcases stage_update hj with ⟨-, hx⟩ | ⟨hjq, hj⟩
      · cases hx
      · have hbs := hk.wait _ _ hj
        subst hbs
        exact absurd (hk.shell1 _ _ _ _ hj hq) hjq
  | signal q a hb hq hst hf =>
      have plain : ∀ j b, t.stageOf j = some (b, .wait) → s.stageOf j = some (b, .wait) := by
        intro j b hj
        rw [hst] at hj
        rcases stage_update hj with ⟨-, hx⟩ | ⟨-, hj⟩
        · cases hx
        · exact hj
      by_cases ha : a = .shell
      · subst ha
        refine keep (fun hno j b c hj hb' => hno j b c ?_ hb') hf.shell plain
        rw [hst, Function.update_of_ne, hj]
        rintro rfl
        rw [hq] at hj
        cases hj
        exact hb' rfl
      · have hsem : t.shellSemaphore = s.shellSemaphore.V := by
          rw [hf.shell, Support.signal, if_neg ha]
        intro _
        rw [hsem]
        cases hk.shell with
        | idle hx hno => cases hno _ _ _ hq ha
        | early _ _ _ hno => cases hno _ _ _ hq ha
        | opened j hx hj =>
            rw [hx]
            exact ⟨rfl, fun _ _ _ => rfl⟩
        | asleep j hx hj =>
            rw [hx]
            refine ⟨rfl, fun k b hk' => ?_⟩
            have hw := plain k b hk'
            have hbs := hk.wait _ _ hw
            subst hbs
            obtain rfl := hk.shell1 _ _ _ _ hw hj
            rw [hj] at hw
            cases hw
  | term q a hb hq he =>
      subst he
      by_cases ha : a = .shell
      · subst ha
        exact gone (terminate_all fun j x hj => hk.progeny_shell hq hj)
      · have hself : ∀ j ∈ s.progeny q, j = q := fun j hj => hk.progeny_child hq ha hj
        refine keep (fun hno j b c hj hb' => ?_) ?_ fun j b hj => ?_
        · by_cases hjq : j ∈ s.progeny q
          · obtain rfl := hself j hjq
            rw [hq] at hj
            cases hj
            rfl
          · exact hno j b c (by rw [stageOf_terminate, if_neg hjq, hj]) hb'
        · exact (terminate_sems (fun j hj hm => hb (.inl (hself j hj ▸ hm)))
            fun j hj hm => hb (.inr (.inl (hself j hj ▸ hm)))).2
        · rw [stageOf_terminate] at hj
          split at hj
          · cases hj
          · exact hj

/-! ### Who is not blocked goes on -/

/-- Dying are those past the last service, and no others. -/
def Doomed (s : Support n) : Prop :=
  ∀ q a c, s.vm.proc q = some ⟨a, c⟩ → (c = .dying ↔ s.pc q = .signal ∨ s.pc q = .term)

theorem sys4Loop_ne {sv : Saved} {i : ℕ} : sys4Loop sv i ≠ .signal ∧ sys4Loop sv i ≠ .term := by
  unfold sys4Loop
  split <;> simp

theorem sys5Loop_ne {i : ℕ} {c : Option (BitVec 8)} :
    sys5Loop i c ≠ .signal ∧ sys5Loop i c ≠ .term := by
  unfold sys5Loop
  split <;> simp

/-- A step leaves dying exactly those past the last service. -/
theorem Doomed.step (h : s.Doomed) (hs : Step s e t) : t.Doomed := by
  intro q a c hq
  have stay : s.vm.proc q = some ⟨a, c⟩ → t.pc q = s.pc q →
      (c = .dying ↔ t.pc q = .signal ∨ t.pc q = .term) := fun hv hp => by
    rw [hp]
    exact h q a c hv
  -- `i` moves in the handler
  have run : ∀ {i : Pid} {b : Asid} {g : GenPc}, s.vm.proc i = some ⟨b, .run⟩ →
      t.vm.proc = s.vm.proc → t.pc = Function.update s.pc i g → g ≠ .signal ∧ g ≠ .term →
      (c = .dying ↔ t.pc q = .signal ∨ t.pc q = .term) := by
    intro i b g hi hv hp hg
    rw [hv] at hq
    by_cases hqi : q = i
    · subst hqi
      rw [hi] at hq
      cases hq
      rw [hp, Function.update_self]
      exact ⟨nofun, fun hx => (hx.elim hg.1 hg.2).elim⟩
    · exact stay hq (by rw [hp, Function.update_of_ne hqi])
  -- `i` moves in the pager
  have vm : ∀ {i : Pid} {b : Asid} {d y : Ctl} {u : VM n}, s.vm.proc i = some ⟨b, d⟩ →
      d ≠ .dying → u.proc = Function.update s.vm.proc i (some ⟨b, y⟩) → t.vm = u →
      (y ≠ .dying → t.pc = s.pc) → (y = .dying → t.pc = Function.update s.pc i .signal) →
      (c = .dying ↔ t.pc q = .signal ∨ t.pc q = .term) := by
    intro i b d y u hi hc hu hv hpc hpd
    rw [hv] at hq
    by_cases hd : y = .dying
    · rcases VM.proc_update hu hq with ⟨hne, hold⟩ | ⟨rfl, hx⟩
      · exact stay hold (by rw [hpd hd, Function.update_of_ne hne])
      · cases hx
        rw [hpd hd, Function.update_self]
        simp [hd]
    · rcases VM.proc_update hu hq with ⟨-, hold⟩ | ⟨rfl, hx⟩
      · exact stay hold (by rw [hpc hd])
      · cases hx
        rw [hpc hd]
        exact ⟨fun hx => (hd hx).elim, fun hx => (hc ((h _ _ d hi).mpr hx)).elim⟩
  have withVm : ∀ {i : Pid} {b : Asid} {d y : Ctl} {u : VM n}, s.vm.proc i = some ⟨b, d⟩ →
      d ≠ .dying → u.proc = Function.update s.vm.proc i (some ⟨b, y⟩) → t = s.withVm i u →
      (c = .dying ↔ t.pc q = .signal ∨ t.pc q = .term) := by
    intro i b d y u hi hc hu ht
    have hself : u.proc i = some ⟨b, y⟩ := by rw [hu, Function.update_self]
    refine vm hi hc hu (ht ▸ withVm_vm) (fun hd => ?_) fun hd => ?_
    · rcases withVm_pc (s := s) (q := i) (u := u) with hp | ⟨-, x, hx⟩
      · rw [ht, hp]
      · rw [hself] at hx
        cases hx
        exact absurd rfl hd
    · rw [ht, Support.withVm, hself, hd]
  -- a process is created
  have create : ∀ {i : Pid} {b : Asid}, t.vm.proc = Function.update s.vm.proc i (some ⟨b, .run⟩) →
      (t.pc i ≠ .signal ∧ t.pc i ≠ .term) → (q ≠ i → s.vm.proc q = some ⟨a, c⟩ →
        (c = .dying ↔ t.pc q = .signal ∨ t.pc q = .term)) →
      (c = .dying ↔ t.pc q = .signal ∨ t.pc q = .term) := by
    intro i b hv hi hold
    rcases VM.proc_update hv hq with ⟨hne, hx⟩ | ⟨rfl, hx⟩
    · exact hold hne hx
    · cases hx
      exact ⟨nofun, fun hx => (hx.elim hi.1 hi.2).elim⟩
  have removed : ∀ {i : Pid} {tp : TestPc}, t = { s.terminate i with testPc := tp } →
      (c = .dying ↔ t.pc q = .signal ∨ t.pc q = .term) := by
    rintro i tp rfl
    obtain ⟨hpc, -, -, -, -, -, hv⟩ := foldl_remove (s.progeny i) s
    have hq' : (s.terminate i).vm.proc q = some ⟨a, c⟩ := hq
    rw [Support.terminate, hv] at hq'
    split at hq'
    · cases hq'
    · exact stay hq' (congrFun hpc q)
  cases hs with
  | testInit | testInitDone | testWait => exact stay hq rfl
  | testCreate =>
      have hpc : (s.createProc 0 .shell).pc s.vm.nextPid = .user := Function.update_self ..
      refine create (i := s.vm.nextPid) rfl ?_ fun hne hx => stay hx (Function.update_of_ne hne ..)
      show (s.createProc 0 .shell).pc s.vm.nextPid ≠ _ ∧ _
      rw [hpc]
      simp
  | testTerm => exact removed rfl
  | load _ _ hu => cases VM.step_view hu with | load => exact stay hq rfl
  | store _ _ hu => cases VM.step_view hu with | store => exact stay hq rfl
  | refill _ hu => cases VM.step_view hu with | refill => exact stay hq rfl
  | sys4Load _ _ hu =>
      cases VM.step_view hu with
      | load hi => exact run hi rfl rfl (by simp)
  | sys5Store _ _ hu =>
      cases VM.step_view hu with
      | store hi => exact run hi rfl rfl sys5Loop_ne
  | fault _ _ hu =>
      cases VM.step_view hu with
      | faultMod hi => exact withVm hi (by simp) rfl rfl
      | @fault _ _ _ _ p hi => exact withVm (y := .pager p .enter) hi (by simp) rfl rfl
  | pager _ hu =>
      cases VM.step_view hu with
      | pager hi _ hst =>
          obtain ⟨y, hp, -⟩ := hst.proc
          exact withVm hi (by simp) hp rfl
  | flashDone hu =>
      cases VM.step_view hu with
      | flashDone x hi hf =>
          exact vm hi (by simp) (by rw [VM.goto_proc, (VM.flashPerform_proc hf).1]) rfl
            (fun _ => rfl) (by simp)
  | ecall hi | trap hi => exact run hi rfl rfl (by simp)
  | @dispatch i b hb hi hpc hg =>
      refine run hi rfl rfl ⟨hg, fun hx => ?_⟩
      rcases supportGeneralExHandler_stage b (s.saved b) with hp | ⟨-, x, -, hp⟩
      · rw [hx] at hp
        cases hp
      · rw [hx] at hp
        cases hp
  | doom _ hi => exact vm hi (by simp) rfl rfl (by simp) fun _ => rfl
  | sys4Acquire _ hi => exact run hi rfl rfl sys4Loop_ne
  | sys5Acquire _ hi => exact run hi rfl rfl sys5Loop_ne
  | sys4Command _ hi | sys4Release _ hi | sys5Command _ hi | sys5Release _ hi | sys6Init _ hi
  | sys6InitDone _ hi | sys6Wait _ hi | ldst _ hi | noPcb _ hi => exact run hi rfl rfl (by simp)
  | @sys6Create i b asid hb hi =>
      have hpc : ∀ j, ((s.createProc i asid).setPc i (.sys6 .wait)).pc j =
          if j = i then .sys6 .wait else if j = s.vm.nextPid then .user else s.pc j := by
        intro j
        show Function.update (Function.update s.pc _ _) _ _ j = _
        rw [Function.update_apply, Function.update_apply]
      refine create (i := s.vm.nextPid) rfl ?_ fun hne hx => ?_
      · rw [hpc, if_pos rfl]
        split <;> simp
      · by_cases hqi : q = i
        · subst hqi
          rw [hi] at hx
          cases hx
          rw [hpc, if_pos rfl]
          simp
        · exact stay hx (by rw [hpc, if_neg hqi, if_neg hne])
  | @signal i b hb hi =>
      obtain ⟨hv, hp⟩ := signal_setPc (s := s) (a := b) (q := i) (g := .term)
      rw [hv] at hq
      by_cases hqi : q = i
      · subst hqi
        rw [hi] at hq
        cases hq
        rw [hp, Function.update_self]
        simp
      · exact stay hq (by rw [hp, Function.update_of_ne hqi])
  | term => exact removed rfl
  | sys4Done hi =>
      refine run hi rfl rfl ?_
      split
      · simp
      · exact sys4Loop_ne
  | sys5Done hi => exact run hi rfl rfl (by split <;> simp)

/-- `q` can take a step, or is about to touch memory outside its pages. -/
def Able (s : Support n) (q : Pid) : Prop :=
  (∃ pr addr, s.vm.proc q = some pr ∧ s.target q pr.asid = some addr ∧ userAddr addr = none) ∨
    ∃ e t, e.subject = some q ∧ s.step e = some t

/-- A memory access of the handler to a page that is not there faults. -/
theorem step_fault {addr : Word} {x : PageNo × Fin (pageSize / wordLen) × Fin wordLen}
    (hb : ¬ s.blocked q) (hq : s.vm.proc q = some ⟨a, .run⟩) (ha : s.target q a = some addr)
    (hx : userAddr addr = some x) :
    s.step (.mem (.fault q (entryHI (a, x.1)) 27)) =
      some (s.withVm q (s.vm.goto q a (.pager x.1 .enter))) := by
  have hp : s.targetPage q = some x.1 := by
    rw [targetPage, hq, Option.bind_some, ha, Option.bind_some, hx]
    rfl
  have hm : ∃ p ∈ pageOf (entryHI (a, x.1)), s.mayTouch q p :=
    ⟨x.1, pageOf_entryHI _, .inr hp⟩
  have hc : VM.faultCtl (entryHI (a, x.1)) 27 = some (.pager x.1 .enter) := by
    rw [VM.faultCtl, if_neg (by decide), pageOf_entryHI]
    rfl
  rw [Support.step, if_neg (by rintro ⟨_, ⟨⟩, h⟩; exact hb h), memStep, if_pos hm, VM.step, hq]
  show Option.map _ (Option.map _ _) = _
  rw [hc]
  rfl

/-- **Who lives and is not blocked goes on.** -/
theorem Sane.able (hs : s.Sane) (hd : s.Doomed) (hq : s.vm.proc q ≠ none) (hb : ¬ s.blocked q) :
    s.Able q := by
  obtain ⟨⟨a, c⟩, hq⟩ := Option.ne_none_iff_exists'.mp hq
  cases c with
  | pager p pc =>
      obtain ⟨e, t, he, -, hst⟩ := Loading.next (l := []) hs hq hb
      exact .inr ⟨e, t, he, hst⟩
  | dying =>
      rcases (hd q a _ hq).mp rfl with hpc | hpc
      · exact .inr ⟨_, _, rfl, step_signal hb hq hpc⟩
      · exact .inr ⟨_, _, rfl, step_term hb hq hpc⟩
  | run =>
      have alive : s.pc q ≠ .signal ∧ s.pc q ≠ .term := by
        constructor
        · intro hpc
          cases (hd q a _ hq).mpr (.inl hpc)
        · intro hpc
          cases (hd q a _ hq).mpr (.inr hpc)
      have handler : (∃ t, s.handlerStep q a (s.pc q) = some t) → s.Able q := by
        rintro ⟨t, ht⟩
        exact .inr ⟨.handler q, t, rfl, (step_handler hb hq alive.2).trans ht⟩
      by_cases hserv : Serving (s.pc q)
      · by_cases hm : ∀ addr, s.target q a = some addr → ∃ x, userAddr addr = some x ∧
            s.vm.accessStore (a, x.1) ≠ none
        · obtain ⟨e, t, he, -, hst, -⟩ := Free.goesOn (d := .tx) ⟨hq, hb, hm⟩ hserv 0
          exact .inr ⟨e, t, he, hst⟩
        -- the page is not there, or there is no such page
        · obtain ⟨addr, hm⟩ := not_forall.mp hm
          obtain ⟨ha, hm⟩ := Classical.not_imp.mp hm
          cases hx : userAddr addr with
          | none => exact .inl ⟨_, addr, hq, ha, hx⟩
          | some x => exact .inr ⟨_, _, rfl, step_fault hb hq ha hx⟩
      cases hpc : s.pc q with
      | user =>
          refine .inr ⟨.ecall q 0 0 0, (s.setSaved a ⟨ecallCause 0, 0, 0, 0⟩).setPc q .handler, rfl, ?_⟩
          rw [Support.step, hq, hpc]
      | handler =>
          by_cases hg : (supportGeneralExHandler a (s.saved a)).1 = .signal
          · exact .inr ⟨_, _, rfl, step_doom hb hq hpc hg⟩
          · exact .inr ⟨_, _, rfl, step_dispatch hb hq hpc hg⟩
      | sys6 pc =>
          refine handler ?_
          rw [hpc]
          cases pc with
          | init asid i =>
              rw [handlerStep, sys6Step]
              split
              · exact ⟨_, rfl⟩
              · exact ⟨_, rfl⟩
          | create asid => exact ⟨_, rfl⟩
          | wait => exact ⟨_, rfl⟩
      | sys4 pc => exact absurd (by rw [hpc]; trivial) hserv
      | sys5 pc => exact absurd (by rw [hpc]; trivial) hserv
      | ldst => exact absurd (by rw [hpc]; trivial) hserv
      | signal => exact absurd hpc alive.1
      | term => exact absurd hpc alive.2

/-! ### Runs -/

/-- What holds of every run on which no pager fails inside a service and every `CREATEPROCESS` finds
a PCB. -/
structure Unhindered (s : Support n) : Prop where
  sane : s.Sane
  nested : s.Nested
  term : ∀ d, Mutex (s.termMutex d) (s.InTerm d)
  attended : s.Attended
  doomed : s.Doomed

theorem Unhindered.step (h : s.Unhindered) (hs : Step s e t) (hc : s.Smooth e) : t.Unhindered where
  sane := h.sane.step hs
  nested := h.nested.step h.sane.good hs hc.1
  term d := (hs.termMove h.sane.good h.nested hc.1 (h.term d)).mutex (h.term d)
  attended := h.attended.step h.sane.good hs hc.ne_noPcb
  doomed := h.doomed.step hs

theorem Unhindered.boot (flash : PageId → Page) (frame : FrameNo → Page) (reg : Asid → FlashReg) :
    (Support.boot flash frame reg : Support n).Unhindered where
  sane := .boot flash frame reg
  nested := by rintro _ _ _ _ ⟨⟩
  term d := by cases d <;> exact .free fun _ h => Bool.false_ne_true h.1
  attended _ := ⟨rfl, by rintro _ _ ⟨⟩⟩
  doomed := by rintro _ _ _ ⟨⟩

/-- Who owes a `V` lives. -/
theorem Owes.live (h : s.Owes m q) : s.vm.proc q ≠ none := by
  have stage : ∀ {x}, s.stageOf q = some x → s.vm.proc q ≠ none := by
    intro x hx hq
    rw [stageOf, hq] at hx
    cases hx
  cases m with
  | master => obtain ⟨c, hx, -⟩ := h; exact stage hx
  | shell => obtain ⟨a, c, hx, -⟩ := h; exact stage hx
  | term d => exact Option.isSome_iff_ne_none.mp h.1.1
  | swapPool => obtain ⟨⟨pr, hq, -⟩, -⟩ := h; rw [hq]; simp
  | flash d => obtain ⟨⟨a, p, pc, hq, -⟩, -⟩ := h; rw [hq]; simp

/-- A process waits for a mutex, or at the end of `sys6_execute` for `shellSemaphore`. -/
theorem awaited_cases (hw : s.awaited q = some m) : m.mutex = true ∨
    m = .shell ∧ ∃ a, s.vm.proc q = some ⟨a, .run⟩ ∧ s.pc q = .ldst := by
  obtain ⟨⟨a, c⟩, hq⟩ := Option.ne_none_iff_exists'.mp (awaited_live hw)
  cases c with
  | dying =>
      rw [awaited, hq] at hw
      cases hw
  | pager p pc =>
      rw [awaited_pager hq] at hw
      left
      cases pc with
      | select => cases hw; rfl
      | write k old f => cases f <;> cases hw; rfl
      | read k f => cases f <;> cases hw; rfl
      | _ => cases hw
  | run =>
      rw [awaited_run hq] at hw
      cases hg : s.pc q with
      | ldst =>
          rw [hg] at hw
          cases hw
          exact .inr ⟨rfl, a, hq, rfl⟩
      | sys4 pc => rw [hg] at hw; cases pc <;> cases hw <;> exact .inl rfl
      | sys5 pc => rw [hg] at hw; cases pc <;> cases hw <;> exact .inl rfl
      | _ => rw [hg] at hw; cases hw

/-- Only the shell waits for `shellSemaphore`. -/
theorem Sync.queued_shell (h : s.Sync) (hw : q ∈ s.shellSemaphore.queue) :
    s.shellSemaphore = ⟨-1, [q]⟩ ∧ s.stageOf q = some (.shell, .plain) := by
  cases h.shell with
  | idle hx | opened _ hx | early _ hx => rw [hx] at hw; cases hw
  | asleep j hx hj =>
      rw [hx] at hw
      obtain rfl := List.mem_singleton.mp hw
      exact ⟨hx, hj⟩

/-- A process that waits for `shellSemaphore` has no mutex. -/
theorem ldst_between (hq : s.vm.proc q = some ⟨a, .run⟩) (hpc : s.pc q = .ldst) :
    ¬ s.Between m q := by
  intro hb
  cases m with
  | master | shell => exact hb
  | term d =>
      have hin := hb.2
      rw [hpc] at hin
      cases d <;> cases hin
  | swapPool =>
      obtain ⟨pr, hpr, hin⟩ := hb
      rw [hq] at hpr
      cases hpr
      cases hin
  | flash d =>
      obtain ⟨_, _, _, hpr, -⟩ := hb
      rw [hq] at hpr
      cases hpr

/-- Who owes a `V` waits, if it does, for something after it. -/
theorem Unhindered.order_lt (h : s.Unhindered) {m' : SemName} (ho : s.Owes m q)
    (hw : s.Queued m' q) : m.order < m'.order := by
  rcases h.sane.parked.place m' q hw with haw | ⟨-, rfl, -⟩
  · rcases awaited_cases haw with hm' | ⟨rfl, a, hq, hpc⟩
    · obtain ⟨-, -, hlow⟩ := awaited_between haw hm'
      have mutex : s.Between m q → q ∉ (s.sem m).queue → m.mutex = true → m.order < m'.order := by
        intro hb hq hm
        rcases hlow m hb with rfl | hlt
        · exact absurd hw hq
        · exact SemName.order_lt hm hm' hlt
      cases m with
      | master => exact (Fin.zero_le 1).trans_lt (SemName.one_lt_order hm')
      | shell => exact SemName.one_lt_order hm'
      | term d | swapPool | flash d => exact mutex ho.1 ho.2 rfl
    · obtain ⟨-, hst⟩ := h.sane.good.sync.queued_shell hw
      cases m with
      | master => exact (by decide : (0 : Fin 5) < 1)
      | shell =>
          obtain ⟨b, c, hst', hb, -⟩ := ho
          rw [hst] at hst'
          cases hst'
          exact absurd rfl hb
      | term d | swapPool | flash d => exact absurd ho.1 (ldst_between hq hpc)
  · exact absurd h.sane.parked.test ho.live

/-- Where somebody waits for a mutex, somebody has it. -/
theorem owed_of_mutex {S : Sem Pid} {I : Pid → Prop} (h : Mutex S I) (hq : q ∈ S.queue) :
    ∃ j, I j ∧ j ∉ S.queue := by
  rcases h.holder with ⟨-, hx, -⟩ | ⟨-, j, hj, hno, -⟩
  · rw [hx] at hq
    cases hq
  · exact ⟨j, hj, hno⟩

/-- Where somebody waits, somebody owes the `V`. -/
theorem Unhindered.owed (h : s.Unhindered) (hw : s.Queued m q) : ∃ j, s.Owes m j := by
  have hsync := h.sane.good.sync
  cases m with
  | master =>
      have hw : q ∈ s.masterSemaphore.queue := hw
      cases hsync.test with
      | early _ hx | ready _ _ _ hx | signalled _ hx | woken _ hx => rw [hx] at hw; cases hw
      | asleep j c _ _ hj hc => exact ⟨j, c, hj, hc⟩
      | done ht =>
          rcases h.sane.parked.place .master q hw with haw | ⟨-, -, htp⟩
          · rcases awaited_cases haw with hx | ⟨hx, -⟩ <;> cases hx
          · rw [ht] at htp
            cases htp
  | shell =>
      obtain ⟨hx, -⟩ := hsync.queued_shell hw
      by_contra hno
      refine absurd (h.attended fun j b c hj hb => ?_).1 (by rw [hx]; simp)
      by_contra hc
      exact hno ⟨j, b, c, hj, hb, hc⟩
  | term d => exact owed_of_mutex (h.term d) hw
  | swapPool => exact owed_of_mutex h.sane.good.iso.excl.mutex hw
  | flash d => exact owed_of_mutex (h.sane.good.flash d) hw

/-- **Nobody waits in vain.**  On every run on which no pager fails inside a service and every
`CREATEPROCESS` finds a PCB, whatever else fails, who is blocked waits, along a path of processes each
of which is owed a `V` by the next, for one that is alive, not blocked and able to go on; and as long
as `test` is not blocked, it goes on or has terminated everything. -/
theorem progress_of_run {flash : PageId → Page} {frame : FrameNo → Page} {reg : Asid → FlashReg}
    (hr : Run step Smooth (.boot flash frame reg) es s) :
    (∀ q, s.blocked q → ∃ j, Relation.TransGen (WaitFor s.Queued s.Owes) q j ∧
      ¬ s.blocked j ∧ s.vm.proc j ≠ none ∧ s.Able j) ∧
      (s.blocked 0 ∨ (∃ t, s.step .test = some t) ∨ s.testPc = .done ∧ ∀ q, s.vm.proc q = none) := by
  have h : s.Unhindered := hr.inv (.boot ..) fun u e v hu hc hs => hu.step (step_view hs) hc
  refine ⟨fun q hb => ?_, ?_⟩
  · obtain ⟨m, hm⟩ := blocked_iff.mp hb
    have hm : s.Queued m q := hm
    have hlt : ∀ m m' i, s.Owes m i → s.Queued m' i → m.order < m'.order :=
      fun _ _ _ ho hw => h.order_lt ho hw
    obtain ⟨j, hj, hno⟩ := WaitFor.exists_awake SemName.order hlt (fun _ _ hw => h.owed hw) hm
    have hbj : ¬ s.blocked j := fun hbj => by
      obtain ⟨m', hm'⟩ := blocked_iff.mp hbj
      exact hno m' hm'
    obtain ⟨i, hi⟩ := Relation.TransGen.tail'_iff.mp hj
    obtain ⟨-, m', -, ho⟩ := hi
    exact ⟨j, hj, hbj, ho.live, h.sane.able h.doomed ho.live hbj⟩
  · cases htp : s.testPc with
    | init i =>
        refine .inr (.inl ?_)
        rw [Support.step, testStep, htp]
        dsimp only
        split
        · exact ⟨_, rfl⟩
        · exact ⟨_, rfl⟩
    | create | wait => exact .inr (.inl ⟨_, by rw [Support.step, testStep, htp]⟩)
    | term =>
        by_cases hm : 0 ∈ s.masterSemaphore.queue
        · exact .inl (.inl hm)
        · exact .inr (.inl ⟨_, by rw [Support.step, testStep, htp]; exact if_neg hm⟩)
    | done =>
        refine .inr (.inr ⟨rfl, fun q => ?_⟩)
        cases h.sane.good.sync.test with
        | done _ hno => exact Option.map_eq_none_iff.mp (hno q)
        | early ht => rw [htp] at ht; exact ht.elim
        | ready _ _ ht | signalled ht | asleep _ _ ht | woken ht => rw [htp] at ht; cases ht

/-- `test` waits for the shell, and the shell for the program it has launched. -/
theorem progress_of_run_execute : ∃ s : Support 16, Run step Smooth blank (launch ++ execute 1 2) s ∧
    s.blocked 0 ∧ s.blocked 1 ∧ ∃ j, Relation.TransGen (WaitFor s.Queued s.Owes) 0 j ∧
      ¬ s.blocked j ∧ s.vm.proc j ≠ none ∧ s.Able j := by
  obtain ⟨s, hr, h0, h1⟩ := exists_run step Smooth (fun s => s.blocked 0 ∧ s.blocked 1) blank
    (launch ++ execute 1 2) (by decide +kernel)
  exact ⟨s, hr, h0, h1, (progress_of_run hr).1 0 h0⟩

end Support

end PandOS
