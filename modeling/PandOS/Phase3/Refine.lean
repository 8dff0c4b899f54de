import PandOS.Phase3.Isolation
import PandOS.Phase3.SyncInv

/-!
# Phase 3 — the Support Level runs on the pager machine

Every step of the Support Level is a step of the pager machine, or leaves it alone, or removes
processes that are dying (`Support.Good.vm`).  So what is proved of the pager machine step by
step holds along the runs of the Support Level (`Support.Good.lift`).

`Support.Good` collects what holds on every run from `Support.boot`, whatever the devices answer:
isolation, the flash mutexes, the synchronization of shell and children, and the places of the
handler that go with them.
-/

namespace PandOS

variable {n : ℕ}

namespace VM

variable {s t : VM n} {e : VmEvent n}

/-- A process in the pager was there before, or has just faulted. -/
theorem Step.pager_from {q : Pid} {a : Asid} {p : PageNo} {pc : PagerPc} (h : Step s e t)
    (hq : t.proc q = some ⟨a, .pager p pc⟩) :
    (∃ p pc, s.proc q = some ⟨a, .pager p pc⟩) ∨ ∃ hi cause, e = .fault q hi cause := by
  have upd : ∀ {i : Pid} {pr' : Option Proc}, t.proc = Function.update s.proc i pr' →
      (∀ p pc, pr' ≠ some ⟨a, .pager p pc⟩) → ∃ p pc, s.proc q = some ⟨a, .pager p pc⟩ := by
    intro i pr' hp hne
    rcases proc_update hp hq with ⟨-, hold⟩ | ⟨-, hpr⟩
    · exact ⟨p, pc, hold⟩
    · exact absurd hpr (hne p pc)
  cases h with
  | initPte | load | store | refill => exact .inl ⟨p, pc, hq⟩
  | create => exact .inl (upd (i := s.nextPid) rfl (by simp))
  | faultMod => exact .inl (upd rfl (by simp))
  | @fault i b hi cause p' hi' =>
      rcases proc_update (q := i) rfl hq with ⟨-, hold⟩ | ⟨rfl, -⟩
      · exact .inl ⟨p, pc, hold⟩
      · exact .inr ⟨_, _, rfl⟩
  | @pager i b p' pc' t hi hb hst =>
      obtain ⟨c, hp, -⟩ := hst.proc
      rcases proc_update hp hq with ⟨-, hold⟩ | ⟨rfl, hpr⟩
      · exact .inl ⟨p, pc, hold⟩
      · cases hpr
        exact .inl ⟨_, _, hi⟩
  | @flashDone i b p' _ _ _ _ here _ status _ u c hi hu =>
      have hproc := flashPerform_goto (q := i) (a := b) (c := .pager p' (here (.release status))) hu
      rcases proc_update hproc hq with ⟨-, hold⟩ | ⟨rfl, hpr⟩
      · exact .inl ⟨p, pc, hold⟩
      · cases hpr
        exact .inl ⟨_, _, hi⟩
  | die => exact .inl (upd rfl (by simp))
  | exit => exact .inl (upd rfl (by simp))

/-- A live process lived before, or has just been created. -/
theorem Step.live_from {q : Pid} {pr : Proc} (h : Step s e t) (hq : t.proc q = some pr) :
    (∃ c, s.proc q = some ⟨pr.asid, c⟩) ∨ (∃ a, e = .create a) ∧ q = s.nextPid := by
  by_cases hc : ∃ a, e = .create a
  · obtain ⟨a, rfl⟩ := hc
    cases h with
    | create =>
        rcases proc_update (q := s.nextPid) rfl hq with ⟨-, hold⟩ | ⟨rfl, -⟩
        · exact .inl ⟨pr.ctl, hold⟩
        · exact .inr ⟨⟨a, rfl⟩, rfl⟩
  · by_cases hx : ∃ i, e = .exit i
    · obtain ⟨i, rfl⟩ := hx
      cases h with
      | exit =>
          rcases proc_update (q := i) rfl hq with ⟨-, hold⟩ | ⟨-, hpr⟩
          · exact .inl ⟨pr.ctl, hold⟩
          · cases hpr
    · have ha := (h.asids (fun a ha => hc ⟨a, ha⟩) fun i hi => hx ⟨i, hi⟩).1 q
      rw [hq] at ha
      obtain ⟨pr', hpr', he⟩ := Option.map_eq_some_iff.mp ha.symm
      exact .inl ⟨pr'.ctl, by rw [hpr', ← he]⟩

end VM

namespace Support

variable {s t : Support n} {e : SupportEvent n} {q q' : Pid} {a a' : Asid}

/-! ### Statements of the handler -/

theorem GenPc.eq_term {g : GenPc} (h : g.stage = .term) : g = .term := by
  unfold GenPc.stage at h
  split at h <;> first | rfl | cases h

theorem signal_vm : (s.signal a).vm = s.vm ∧ (s.signal a).pc = s.pc := by
  unfold Support.signal
  split <;> exact ⟨rfl, rfl⟩

theorem signal_setPc {g : GenPc} : ((s.signal a).setPc q g).vm = s.vm ∧
    ((s.signal a).setPc q g).pc = Function.update s.pc q g :=
  ⟨signal_vm.1, congrArg (fun pc : Pid → GenPc => Function.update pc q g) signal_vm.2⟩

/-- A process whose handler statement changes is not in the pager, and is dying just when it is
past its last service. -/
theorem Step.changed {c : Ctl} (h : Step s e t) (hj : t.vm.proc q = some ⟨a, c⟩)
    (hne : t.pc q ≠ s.pc q) :
    (c = .run ∧ t.pc q ≠ .term) ∨ (c = .dying ∧ (t.pc q = .signal ∨ t.pc q = .term)) := by
  -- the process whose statement changes is the one that moves
  have at' : ∀ {i : Pid} {g : GenPc} {x : Proc}, s.vm.proc i = some x →
      t.vm.proc i = s.vm.proc i → t.pc = Function.update s.pc i g →
      t.pc q = g ∧ x = ⟨a, c⟩ := by
    intro i g x hi hv hp
    rw [hp, Function.update_apply] at hne
    by_cases hq : q = i
    · subst hq
      rw [hv, hi] at hj
      exact ⟨by rw [hp, Function.update_self], Option.some.inj hj⟩
    · rw [if_neg hq] at hne
      exact absurd rfl hne
  have run : ∀ {i : Pid} {g : GenPc} {b : Asid}, s.vm.proc i = some ⟨b, .run⟩ →
      t.vm.proc i = s.vm.proc i → t.pc = Function.update s.pc i g → g.stage ≠ .term →
      (c = .run ∧ t.pc q ≠ .term) ∨ (c = .dying ∧ (t.pc q = .signal ∨ t.pc q = .term)) := by
    intro i g b hi hv hp hg
    obtain ⟨hpc, he⟩ := at' hi hv hp
    cases he
    refine .inl ⟨rfl, fun ht => hg ?_⟩
    rw [← hpc, ht]
    rfl
  -- `withVm` moves a process only if it is to be terminated
  have vm : ∀ {i : Pid} {u : VM n}, t = s.withVm i u →
      (c = .run ∧ t.pc q ≠ .term) ∨ (c = .dying ∧ (t.pc q = .signal ∨ t.pc q = .term)) := by
    rintro i u rfl
    rcases withVm_pc (s := s) (q := i) (u := u) with hp | ⟨hp, b, hd⟩
    · rw [hp] at hne; exact absurd rfl hne
    · rw [hp, Function.update_apply] at hne
      by_cases hq : q = i
      · subst hq
        rw [withVm_vm, hd] at hj
        cases hj
        exact .inr ⟨rfl, .inl (by rw [hp, Function.update_self])⟩
      · rw [if_neg hq] at hne; exact absurd rfl hne
  have term : ∀ {i : Pid}, (s.terminate i).pc = s.pc := (foldl_remove _ s).1
  cases h with
  | testInit | testInitDone | testWait | load | store | refill | flashDone => exact absurd rfl hne
  | testCreate =>
      rcases VM.proc_update (s := s.vm) (q := s.vm.nextPid) (t := s.vm.createProc .shell) rfl hj with
        ⟨hne', -⟩ | ⟨rfl, hpr⟩
      · exact absurd (Function.update_of_ne hne' ..) hne
      · cases hpr
        have : (s.createProc 0 .shell).pc s.vm.nextPid = .user := Function.update_self ..
        exact .inl ⟨rfl, by rw [show _ = GenPc.user from this]; simp⟩
  | testTerm => exact absurd (congrFun term q) hne
  | @sys4Load i b p w v u k ch hb hpc hu =>
      cases VM.step_view hu with
      | load hi => exact run hi rfl rfl (by simp [GenPc.stage])
  | @sys5Store i b p w v u k ch hb hpc hu =>
      cases VM.step_view hu with
      | store hi => exact run hi rfl rfl (by rw [sys5Loop_plain]; simp)
  | fault => exact vm rfl
  | pager => exact vm rfl
  | ecall hi => exact run hi rfl rfl (by simp [GenPc.stage])
  | trap hi => exact run hi rfl rfl (by simp [GenPc.stage])
  | @dispatch i b hb hi hpc hg =>
      refine run hi rfl rfl ?_
      rcases supportGeneralExHandler_stage b (s.saved b) with hs | ⟨-, x, -, hs⟩ <;> rw [hs]
      · simp
      · simp [GenPc.stage]
  | @doom i b hb hi hpc hg =>
      by_cases hq : q = i
      · subst hq
        have hpc' : ({ s with vm := s.vm.goto q b .dying }.setPc q .signal).pc q = .signal :=
          Function.update_self ..
        have hv : ({ s with vm := s.vm.goto q b .dying }.setPc q .signal).vm.proc q =
            some ⟨b, .dying⟩ := Function.update_self ..
        rw [hv] at hj
        cases hj
        exact .inr ⟨rfl, .inl hpc'⟩
      · exact absurd (Function.update_of_ne hq ..) hne
  | sys4Acquire _ hi => exact run hi rfl rfl (by rw [sys4Loop_plain]; simp)
  | sys4Command _ hi => exact run hi rfl rfl (by simp [GenPc.stage])
  | sys4Release _ hi => exact run hi rfl rfl (by simp [GenPc.stage])
  | sys5Acquire _ hi => exact run hi rfl rfl (by rw [sys5Loop_plain]; simp)
  | sys5Command _ hi => exact run hi rfl rfl (by simp [GenPc.stage])
  | sys5Release _ hi => exact run hi rfl rfl (by simp [GenPc.stage])
  | sys6Init _ hi => exact run hi rfl rfl (by simp [GenPc.stage])
  | sys6InitDone _ hi => exact run hi rfl rfl (by simp [GenPc.stage])
  | @sys6Create i b asid hb hi hpc =>
      have hpc' : ((s.createProc i asid).setPc i (.sys6 .wait)).pc q =
          if q = i then .sys6 .wait else if q = s.vm.nextPid then .user else s.pc q := by
        show Function.update (Function.update s.pc _ _) _ _ q = _
        rw [Function.update_apply, Function.update_apply]
      have hv : s.vm.proc q = some ⟨a, c⟩ ∧ q ≠ s.vm.nextPid ∨
          q = s.vm.nextPid ∧ c = .run := by
        rcases VM.proc_update (s := s.vm) (q := s.vm.nextPid) (t := s.vm.createProc asid) rfl hj with
          ⟨hne', hold⟩ | ⟨rfl, hpr⟩
        · exact .inl ⟨hold, hne'⟩
        · cases hpr; exact .inr ⟨rfl, rfl⟩
      rw [hpc'] at hne ⊢
      refine .inl ?_
      by_cases hq : q = i
      · rw [if_pos hq]
        rcases hv with ⟨hv, -⟩ | ⟨-, rfl⟩
        · rw [hq, hi] at hv; cases hv; exact ⟨rfl, by simp⟩
        · exact ⟨rfl, by simp⟩
      · rw [if_neg hq] at hne ⊢
        rcases hv with ⟨-, hqn⟩ | ⟨hqn, rfl⟩
        · rw [if_neg hqn] at hne; exact absurd rfl hne
        · rw [if_pos hqn]; exact ⟨rfl, by simp⟩
  | sys6Wait _ hi => exact run hi rfl rfl (by simp [GenPc.stage])
  | ldst _ hi => exact run hi rfl rfl (by simp [GenPc.stage])
  | @signal i b hb hi hpc =>
      obtain ⟨hv, hp⟩ := signal_setPc (s := s) (a := b) (q := i) (g := .term)
      obtain ⟨hpc', he⟩ := at' hi (congrFun (congrArg VM.proc hv) i) hp
      cases he
      exact .inr ⟨rfl, .inr hpc'⟩
  | term => exact absurd (congrFun term q) hne
  | noPcb _ hi => exact run hi rfl rfl (by simp [GenPc.stage])
  | sys4Done hi hpc =>
      refine run hi rfl rfl ?_
      split
      · simp [GenPc.stage]
      · rw [sys4Loop_plain]; simp
  | sys5Done hi hpc =>
      refine run hi rfl rfl ?_
      split <;> simp [GenPc.stage]

/-- The page table a process in `sys6_execute` is building, and how many entries it has. -/
def GenPc.built : GenPc → Option (Asid × ℕ)
  | .sys6 (.init a i) => some (a, i)
  | .sys6 (.create a) => some (a, maxPages)
  | _ => none

theorem GenPc.built_stage {g : GenPc} {i : ℕ} (h : GenPc.built g = some (a, i)) : g.stage = .exec a := by
  unfold GenPc.built at h
  split at h
  · cases h; rfl
  · cases h; rfl
  · cases h

/-- The page table of the shell, built by `test`. -/
def TestPc.built : TestPc → Option ℕ
  | .init i => some i
  | .create => some maxPages
  | _ => none

/-- A page table is built from its first entry. -/
theorem supportGeneralExHandler_built {sv : Saved} {i : ℕ}
    (h : GenPc.built (supportGeneralExHandler a sv).1 = some (a', i)) : i = 0 := by
  rcases supportGeneralExHandler_stage a sv with hp | ⟨-, asid, -, hx⟩
  · unfold GenPc.built at h
    split at h
    · rename_i hg; rw [hg] at hp; cases hp
    · rename_i hg; rw [hg] at hp; cases hp
    · cases h
  · rw [hx] at h
    cases h
    rfl

/-- The entries of a page table under construction name its pages. -/
structure Built (s : Support n) : Prop where
  exec : ∀ q a i, GenPc.built (s.pc q) = some (a, i) → ∀ p : PageNo, p.val < i →
    (s.vm.pgTbl (a, p)).entryHI = entryHI (a, p)
  test : ∀ i, TestPc.built s.testPc = some i → ∀ p : PageNo, p.val < i →
    (s.vm.pgTbl (.shell, p)).entryHI = entryHI (.shell, p)

/-- What holds on every run. -/
structure Good (s : Support n) : Prop where
  iso : s.vm.Iso
  flash : s.vm.FlashExcl
  sync : s.Sync
  placed : s.Placed
  dying : ∀ q pr, s.vm.proc q = some pr → s.pc q = .term → pr.ctl = .dying
  built : s.Built

/-! ### The pager machine's share of a step -/

/-- `exit` events only. -/
def Exits (_ : VM n) (f : VmEvent n) : Prop := ∃ q, f = .exit q

/-- A step of the Support Level on the pager machine. -/
inductive Under (s : Support n) (e : SupportEvent n) (t : Support n) : Prop where
  | step (f : VmEvent n) (hf : s.vmEvent e = some f) (hs : s.vm.step f = some t.vm)
  | exits (l : List Pid) (hf : s.vmEvent e = none)
      (hr : Run VM.step Exits s.vm (l.map .exit) t.vm)

theorem exits_back {u v : VM n} {fs : List (VmEvent n)} (h : Run VM.step Exits u fs v) :
    v.pgTbl = u.pgTbl ∧ v.tlb = u.tlb ∧ ∀ q pr, v.proc q = some pr → u.proc q = some pr := by
  refine h.inv (I := fun v => v.pgTbl = u.pgTbl ∧ v.tlb = u.tlb ∧
    ∀ q pr, v.proc q = some pr → u.proc q = some pr) ⟨rfl, rfl, fun _ _ => id⟩ ?_
  rintro v _ w ⟨hp, ht, hq⟩ ⟨i, rfl⟩ hs
  cases VM.step_view hs with
  | exit hi =>
      refine ⟨hp, ht, fun q pr hpr => hq q pr ?_⟩
      rcases VM.proc_update (q := i) rfl hpr with ⟨-, hold⟩ | ⟨-, hno⟩
      · exact hold
      · cases hno

/-- A dying process is in no queue of the pager's. -/
theorem not_blocked_of_dying {u : VM n} (hx : u.Excl) (hfl : u.FlashExcl)
    (hq : u.proc q = some ⟨a, .dying⟩) : ¬ u.blocked q := by
  rintro (hm | ⟨d, hm⟩)
  · obtain ⟨b, p, hb⟩ := hx.waiting q hm
    rw [hq] at hb
    cases hb
  · obtain ⟨b, p, pc, hb, -⟩ := (hfl d).sub q hm
    rw [hq] at hb
    cases hb

theorem remove_vm (hb : ¬ s.vm.blocked q) : (s.remove q).vm = s.vm.setProc q none := by
  have h₁ : s.vm.swapPoolSem.drop q = s.vm.swapPoolSem :=
    Sem.drop_of_not_mem fun hm => hb (.inl hm)
  have h₂ : (fun d => (s.vm.flashMutex d).drop q) = s.vm.flashMutex :=
    funext fun d => Sem.drop_of_not_mem fun hm => hb (.inr ⟨d, hm⟩)
  show ({ s.vm with proc := _, swapPoolSem := _, flashMutex := _ } : VM n) = _
  rw [h₁, h₂]
  rfl

/-- Processes that are dying leave one by one. -/
theorem remove_run (l : List Pid) (hl : l.Nodup) (hb : ∀ q ∈ l, ¬ s.vm.blocked q)
    (hd : ∀ q ∈ l, ∃ a, s.vm.proc q = some ⟨a, .dying⟩) :
    Run VM.step Exits s.vm (l.map .exit) (l.foldl remove s).vm := by
  induction l generalizing s with
  | nil => exact .nil _
  | cons i l ih =>
      obtain ⟨hil, hl⟩ := List.nodup_cons.mp hl
      have hv := remove_vm (hb i (by simp))
      obtain ⟨b, hi⟩ := hd i (by simp)
      refine .cons (u := (s.remove i).vm) ⟨i, rfl⟩ ?_ (ih hl (fun q hq => ?_) fun q hq => ?_)
      · rw [hv, VM.step, hi]
      · rw [hv]
        exact hb q (by simp [hq])
      · obtain ⟨a, ha⟩ := hd q (by simp [hq])
        refine ⟨a, ?_⟩
        rw [hv, VM.setProc_proc, Function.update_of_ne (by rintro rfl; exact hil hq), ha]

/-- `TERMPROCESS` removes processes that are dying. -/
theorem Good.terminate (h : s.Good)
    (ht : ∀ j ∈ s.progeny q, ∃ b, s.stageOf j = some (b, .term)) :
    Run VM.step Exits s.vm ((s.progeny q).map .exit) (s.terminate q).vm := by
  have hd : ∀ j ∈ s.progeny q, ∃ b, s.vm.proc j = some ⟨b, .dying⟩ := by
    intro j hj
    obtain ⟨b, hb⟩ := ht j hj
    obtain ⟨pr, hpr, he⟩ := Option.map_eq_some_iff.mp hb
    have hctl := h.dying j pr hpr (GenPc.eq_term (congrArg Prod.snd he))
    exact ⟨pr.asid, by rw [hpr, ← hctl]⟩
  refine remove_run _ (List.nodup_range.filter _) (fun j hj => ?_) hd
  obtain ⟨b, hb⟩ := hd j hj
  exact not_blocked_of_dying h.iso.excl h.flash hb

/-- A program may be created: its page table is built, and no process of its ASID is left but
past its `V`. -/
theorem Good.launchable (h : s.Good) (hq : s.stageOf q = some (a', .exec a)) (hb : ¬ s.blocked q)
    (hpc : GenPc.built (s.pc q) = some (a, maxPages)) : s.vm.Launchable a := by
  obtain ⟨rfl, ha⟩ := h.sync.exec _ _ _ hq
  obtain ⟨-, hno, -⟩ := h.sync.idle hq hb (by simp)
  refine ⟨fun p => h.built.exec q a maxPages hpc p p.isLt, fun j _ pr hj he => ?_⟩
  have hst := hno j pr.asid _ (stageOf_some hj) (he ▸ ha)
  exact h.dying j pr hj (GenPc.eq_term hst)

/-- The shell can be launched when `test` comes to its `CREATEPROCESS`. -/
theorem Good.launchable_shell (h : s.Good) (hpc : s.testPc = .create) :
    s.vm.Launchable .shell := by
  refine ⟨fun p => h.built.test maxPages (by rw [hpc]; rfl) p p.isLt, fun j _ pr hj _ => ?_⟩
  cases h.sync.test with
  | early _ _ hno =>
      have hj' := stageOf_some hj
      rw [hno j] at hj'
      cases hj'
  | ready _ _ h₁ => rw [hpc] at h₁; cases h₁
  | signalled h₁ => rw [hpc] at h₁; cases h₁
  | asleep _ _ h₁ => rw [hpc] at h₁; cases h₁
  | woken h₁ => rw [hpc] at h₁; cases h₁
  | done h₁ => rw [hpc] at h₁; cases h₁

/-- **Every step is one of the pager machine**, or removes processes that are dying, or leaves
the pager machine alone. -/
theorem Good.under (h : s.Good) (hs : Step s e t) : Under s e t := by
  -- a step that is no step of the pager machine
  have same : s.vmEvent e = none → t.vm = s.vm → Under s e t := fun hf hv =>
    .exits [] hf (by rw [hv]; exact .nil _)
  cases hs with
  | @testInit i hpc hi => exact .step (.initPte (.shell, ⟨i, hi⟩)) (by simp [vmEvent, hpc, hi]) rfl
  | testInitDone hpc hi => exact same (by simp [vmEvent, hpc, hi]) rfl
  | testCreate hpc =>
      refine .step (.create .shell) (by simp [vmEvent, hpc]) ?_
      rw [VM.step, if_pos (h.launchable_shell hpc)]
      rfl
  | testWait hpc => exact same (by simp [vmEvent, hpc]) rfl
  | testTerm hpc hb =>
      refine .exits (s.progeny 0) (by simp [vmEvent, hpc]) (h.terminate fun j hj => ?_)
      exact h.sync.victims_test hpc hb hj
  | load _ _ hu => exact .step _ rfl hu
  | store _ _ hu => exact .step _ rfl hu
  | sys4Load _ _ hu => exact .step _ rfl hu
  | sys5Store _ _ hu => exact .step _ rfl hu
  | refill _ hu => exact .step _ rfl hu
  | fault _ _ hu => exact .step _ rfl (hu.trans (congrArg some withVm_vm.symm))
  | pager _ hu => exact .step _ rfl (hu.trans (congrArg some withVm_vm.symm))
  | flashDone hu => exact .step _ rfl hu
  | ecall => exact same rfl rfl
  | trap => exact same rfl rfl
  | dispatch hb hq hpc hg => exact same (by simp [vmEvent, hq, hpc, hg]) rfl
  | @doom q a hb hq hpc hg =>
      refine .step (.die q) (by simp [vmEvent, hq, hpc, hg]) ?_
      rw [VM.step, hq]
      rfl
  | sys4Acquire _ hq hpc => exact same (by simp [vmEvent, hq, hpc]) rfl
  | sys4Command _ hq hpc => exact same (by simp [vmEvent, hq, hpc]) rfl
  | sys4Release _ hq hpc => exact same (by simp [vmEvent, hq, hpc]) rfl
  | sys5Acquire _ hq hpc => exact same (by simp [vmEvent, hq, hpc]) rfl
  | sys5Command _ hq hpc => exact same (by simp [vmEvent, hq, hpc]) rfl
  | sys5Release _ hq hpc => exact same (by simp [vmEvent, hq, hpc]) rfl
  | @sys6Init _ _ asid i _ hq hpc hi =>
      exact .step (.initPte (asid, ⟨i, hi⟩)) (by simp [vmEvent, hq, hpc, hi]) rfl
  | sys6InitDone _ hq hpc hi => exact same (by simp [vmEvent, hq, hpc, hi]) rfl
  | @sys6Create q a asid hb hq hpc =>
      refine .step (.create asid) (by simp [vmEvent, hq, hpc]) ?_
      have hst : s.stageOf q = some (a, .exec asid) := by rw [stageOf_some hq, hpc]; rfl
      rw [VM.step, if_pos (h.launchable hst hb (by rw [hpc]; rfl))]
      rfl
  | sys6Wait _ hq hpc => exact same (by simp [vmEvent, hq, hpc]) rfl
  | ldst _ hq hpc => exact same (by simp [vmEvent, hq, hpc]) rfl
  | signal _ hq hpc => exact same (by simp [vmEvent, hq, hpc]) signal_vm.1
  | @term q pr hb hq hpc =>
      have hctl := h.dying q pr hq hpc
      refine .exits (s.progeny q) (by obtain ⟨a, c⟩ := pr; cases hctl; simp [vmEvent, hq, hpc])
        (h.terminate fun j hj => ?_)
      exact h.sync.victims (by rw [stageOf_some hq, hpc]; rfl) hb hj
  | noPcb => exact same rfl rfl
  | sys4Done => exact same rfl rfl
  | sys5Done => exact same rfl rfl

/-- **Lifting**: what the steps of the pager machine preserve under the condition `C`, which
every `exit` meets, the steps of the Support Level preserve. -/
theorem Under.lift {J : VM n → Prop} {C : VM n → VmEvent n → Prop} (h : Under s e t)
    (hJ : ∀ u f v, J u → C u f → VM.Step u f v → J v) (hx : ∀ u q, C u (.exit q))
    (hj : J s.vm) (hc : ∀ f ∈ s.vmEvent e, C s.vm f) : J t.vm := by
  cases h with
  | step f hf hs => exact hJ _ _ _ hj (hc f hf) (VM.step_view hs)
  | exits l hf hr =>
      refine hr.inv hj ?_
      rintro u _ v hu ⟨q, rfl⟩ hs
      exact hJ _ _ _ hu (hx u q) (VM.step_view hs)

/-! ### The step lemma -/

/-- A process that lives after a step lived before it, unless it has just been created. -/
theorem Under.live_from {pr : Proc} (h : Under s e t) (hq : t.vm.proc q = some pr) :
    (∃ c, s.vm.proc q = some ⟨pr.asid, c⟩) ∨
      (∃ a, s.vmEvent e = some (.create a)) ∧ q = s.vm.nextPid := by
  cases h with
  | step f hf hs =>
      refine ((VM.step_view hs).live_from hq).imp_right fun ⟨⟨a, ha⟩, hn⟩ => ⟨⟨a, ?_⟩, hn⟩
      rw [hf, ha]
  | exits l hf hr => exact .inl ⟨pr.ctl, (exits_back hr).2.2 q pr hq⟩

/-- A process is created by `test` or by `sys6_execute`, once its page table is complete. -/
theorem Step.create_cases (h : Step s e t) (hc : s.vmEvent e = some (.create a)) :
    (s.testPc = .create ∧ a = .shell ∧ t = { s.createProc 0 .shell with testPc := .wait }) ∨
    ∃ q b, s.vm.proc q = some ⟨b, .run⟩ ∧ s.pc q = .sys6 (.create a) ∧
      t = (s.createProc q a).setPc q (.sys6 .wait) := by
  cases h with
  | testInit hpc hi => simp [vmEvent, hpc, hi] at hc
  | testInitDone hpc hi => simp [vmEvent, hpc, hi] at hc
  | testCreate hpc =>
      simp only [vmEvent, hpc, Option.some.injEq, VmEvent.create.injEq] at hc
      exact .inl ⟨hpc, hc.symm, rfl⟩
  | testWait hpc => simp [vmEvent, hpc] at hc
  | testTerm hpc => simp [vmEvent, hpc] at hc
  | dispatch _ hq hpc hg => simp [vmEvent, hq, hpc, hg] at hc
  | doom _ hq hpc hg => simp [vmEvent, hq, hpc, hg] at hc
  | sys6Init _ hq hpc hi => simp [vmEvent, hq, hpc, hi] at hc
  | sys6InitDone _ hq hpc hi => simp [vmEvent, hq, hpc, hi] at hc
  | @sys6Create q b asid _ hq hpc =>
      simp only [vmEvent, hq, hpc, Option.some.injEq, VmEvent.create.injEq] at hc
      subst hc
      exact .inr ⟨q, b, hq, hpc, rfl⟩
  | signal _ hq hpc => simp [vmEvent, hq, hpc] at hc
  | @term _ pr _ hq hpc =>
      obtain ⟨b, c⟩ := pr
      cases c <;> simp [vmEvent, hq, hpc] at hc
  | _ => first | cases hc | (rename_i _ hq hpc; simp [vmEvent, hq, hpc] at hc)

/-- The handler statement of a process just created is the first one of user mode. -/
theorem Step.created (h : Step s e t) (hx : s.vm.Excl) (hc : s.vmEvent e = some (.create a)) :
    t.pc s.vm.nextPid = .user := by
  rcases h.create_cases hc with ⟨-, -, rfl⟩ | ⟨i, b, hq, -, rfl⟩
  · exact Function.update_self ..
  · have hi : s.vm.nextPid ≠ i := (hx.ne_next hq).symm
    exact (Function.update_of_ne hi ..).trans (Function.update_self ..)

theorem Good.placed_step (h : s.Good) (hs : Step s e t) : t.Placed := by
  intro q a p pc hq
  by_cases hpc : t.pc q = s.pc q
  · rw [hpc]
    cases h.under hs with
    | step f hf hf' =>
        rcases (VM.step_view hf').pager_from hq with ⟨p, pc, hq⟩ | ⟨hi, cause, rfl⟩
        · exact h.placed _ _ _ _ hq
        · obtain rfl : e = .mem (.fault q hi cause) := by simpa using vmEvent_some hf
          cases hs with
          | fault _ hp => exact mayTouch_touching hp
    | exits l hf hr => exact h.placed _ _ _ _ ((exits_back hr).2.2 _ _ hq)
  · rcases hs.changed hq hpc with ⟨hc, -⟩ | ⟨hc, -⟩ <;> cases hc

theorem Good.dying_step (h : s.Good) (hs : Step s e t) :
    ∀ q pr, t.vm.proc q = some pr → t.pc q = .term → pr.ctl = .dying := by
  intro q pr hq hpc
  by_cases hpq : t.pc q = s.pc q
  · have hu := h.under hs
    rcases hu.live_from hq with ⟨c, hold⟩ | ⟨⟨a, ha⟩, rfl⟩
    · have hctl : c = .dying := h.dying q _ hold (hpq ▸ hpc)
      subst hctl
      cases hu with
      | step f hf hf' => exact (VM.step_view hf').dying h.iso.excl hold hq
      | exits l hf hr =>
          have hq' := (exits_back hr).2.2 _ _ hq
          rw [hold] at hq'
          exact congrArg Proc.ctl (Option.some.inj hq').symm
    · rw [hs.created h.iso.excl ha] at hpc
      cases hpc
  · rcases hs.changed hq hpq with ⟨-, hne⟩ | ⟨hc, -⟩
    · exact absurd hpc hne
    · exact hc

/-- The `EntryHi` of a page-table entry, once right, stays right. -/
theorem Under.hi {r : PageId} (h : Under s e t) (hr : (s.vm.pgTbl r).entryHI = entryHI r) :
    (t.vm.pgTbl r).entryHI = entryHI r := by
  cases h with
  | step f hf hs => exact (VM.step_view hs).hi hr
  | exits l hf hr' => rw [(exits_back hr').1, hr]

/-- How a page table is built. -/
theorem Step.built_from {i : ℕ} (h : Step s e t) (hq : GenPc.built (t.pc q) = some (a, i)) :
    (∃ j, GenPc.built (s.pc q) = some (a, j) ∧ (i ≤ j ∨ maxPages ≤ j)) ∨
      (∃ j, ∃ hj : j < maxPages, GenPc.built (s.pc q) = some (a, j) ∧ i = j + 1 ∧
        s.vmEvent e = some (.initPte (a, ⟨j, hj⟩)) ∧ t.vm = s.vm.initPte (a, ⟨j, hj⟩)) ∨ i = 0 := by
  -- a step of `k` to a statement that builds nothing
  have other : ∀ {k : Pid} {g : GenPc}, t.pc = Function.update s.pc k g →
      GenPc.built g = none → ∃ j, GenPc.built (s.pc q) = some (a, j) ∧ (i ≤ j ∨ maxPages ≤ j) := by
    intro k g hp hg
    rw [hp, Function.update_apply] at hq
    by_cases hqk : q = k
    · rw [if_pos hqk, hg] at hq; cases hq
    · rw [if_neg hqk] at hq; exact ⟨i, hq, .inl le_rfl⟩
  have same : t.pc = s.pc → ∃ j, GenPc.built (s.pc q) = some (a, j) ∧ (i ≤ j ∨ maxPages ≤ j) :=
    fun hp => ⟨i, by rw [← hp]; exact hq, .inl le_rfl⟩
  have loop4 : ∀ {sv : Saved} {j : ℕ}, GenPc.built (sys4Loop sv j) = none := by
    intro sv j; unfold sys4Loop; split <;> rfl
  have loop5 : ∀ {j : ℕ} {c : Option (BitVec 8)}, GenPc.built (sys5Loop j c) = none := by
    intro j c; unfold sys5Loop; split <;> rfl
  have vm : ∀ {k : Pid} {u : VM n}, t = s.withVm k u →
      ∃ j, GenPc.built (s.pc q) = some (a, j) ∧ (i ≤ j ∨ maxPages ≤ j) := by
    rintro k u rfl
    rcases withVm_pc (s := s) (q := k) (u := u) with hp | ⟨hp, -⟩
    · exact same hp
    · exact other hp rfl
  cases h with
  | testInit | testInitDone | testWait | load | store | refill | flashDone => exact .inl (same rfl)
  | testCreate => exact .inl (other (k := s.vm.nextPid) (g := .user) rfl rfl)
  | testTerm => exact .inl (same (foldl_remove _ s).1)
  | @sys4Load k _ _ _ _ _ j c => exact .inl (other (k := k) (g := .sys4 (.command j c)) rfl rfl)
  | @sys5Store k _ _ _ _ _ j c =>
      exact .inl (other (k := k) (g := sys5Loop (j + 1) (some c)) rfl loop5)
  | fault | pager => exact .inl (vm rfl)
  | @ecall k => exact .inl (other (k := k) (g := .handler) rfl rfl)
  | @trap k => exact .inl (other (k := k) (g := .handler) rfl rfl)
  | @dispatch k b =>
      have hp : ((s.setA0 b (supportGeneralExHandler b (s.saved b)).2).setPc k
          (supportGeneralExHandler b (s.saved b)).1).pc =
          Function.update s.pc k (supportGeneralExHandler b (s.saved b)).1 := rfl
      rw [hp, Function.update_apply] at hq
      by_cases hqk : q = k
      · rw [if_pos hqk] at hq
        exact .inr (.inr (supportGeneralExHandler_built hq))
      · rw [if_neg hqk] at hq
        exact .inl ⟨i, hq, .inl le_rfl⟩
  | @doom k => exact .inl (other (k := k) (g := .signal) rfl rfl)
  | @sys4Acquire k b => exact .inl (other (k := k) (g := sys4Loop (s.saved b) 0) rfl loop4)
  | @sys4Command k b j => exact .inl (other (k := k) (g := .sys4 (.busy j)) rfl rfl)
  | @sys4Release k => exact .inl (other (k := k) (g := .ldst) rfl rfl)
  | @sys5Acquire k => exact .inl (other (k := k) (g := sys5Loop 0 none) rfl loop5)
  | @sys5Command k b j => exact .inl (other (k := k) (g := .sys5 (.busy j)) rfl rfl)
  | @sys5Release k => exact .inl (other (k := k) (g := .ldst) rfl rfl)
  | @sys6Init k b asid j _ hk hpc hj =>
      have hp : ({ s with vm := s.vm.initPte (asid, ⟨j, hj⟩) }.setPc k
          (.sys6 (.init asid (j + 1)))).pc =
          Function.update s.pc k (.sys6 (.init asid (j + 1))) := rfl
      rw [hp, Function.update_apply] at hq
      by_cases hqk : q = k
      · subst hqk
        rw [if_pos rfl] at hq
        cases hq
        exact .inr (.inl ⟨j, hj, by rw [hpc]; rfl, rfl, by simp [vmEvent, hk, hpc, hj], rfl⟩)
      · rw [if_neg hqk] at hq
        exact .inl ⟨i, hq, .inl le_rfl⟩
  | @sys6InitDone k b asid j _ _ hpc hj =>
      have hp : (s.setPc k (.sys6 (.create asid))).pc =
          Function.update s.pc k (.sys6 (.create asid)) := rfl
      rw [hp, Function.update_apply] at hq
      by_cases hqk : q = k
      · subst hqk
        rw [if_pos rfl] at hq
        cases hq
        exact .inl ⟨j, by rw [hpc]; rfl, .inr hj⟩
      · rw [if_neg hqk] at hq
        exact .inl ⟨i, hq, .inl le_rfl⟩
  | @sys6Create k b asid =>
      have hp : ((s.createProc k asid).setPc k (.sys6 .wait)).pc =
          Function.update (Function.update s.pc s.vm.nextPid .user) k (.sys6 .wait) := rfl
      rw [hp, Function.update_apply, Function.update_apply] at hq
      split at hq
      · cases hq
      · split at hq
        · cases hq
        · exact .inl ⟨i, hq, .inl le_rfl⟩
  | @sys6Wait k => exact .inl (other (k := k) (g := .ldst) rfl rfl)
  | @ldst k => exact .inl (other (k := k) (g := .user) rfl rfl)
  | @signal k b =>
      exact .inl (other (signal_setPc (a := b)).2 rfl)
  | term => exact .inl (same (foldl_remove _ s).1)
  | @noPcb k => exact .inl (other (k := k) (g := .sys6 .wait) rfl rfl)
  | @sys4Done k b j status =>
      refine .inl (other (k := k) rfl ?_)
      split
      · rfl
      · exact loop4
  | @sys5Done k b j status => exact .inl (other (k := k) rfl (by split <;> rfl))

/-- How `test` builds the shell's page table. -/
theorem Step.builtTest_from {i : ℕ} (h : Step s e t) (hi : TestPc.built t.testPc = some i) :
    (∃ j, TestPc.built s.testPc = some j ∧ (i ≤ j ∨ maxPages ≤ j)) ∨
      ∃ j, ∃ hj : j < maxPages, TestPc.built s.testPc = some j ∧ i = j + 1 ∧
        s.vmEvent e = some (.initPte (.shell, ⟨j, hj⟩)) ∧
        t.vm = s.vm.initPte (.shell, ⟨j, hj⟩) := by
  have same : t.testPc = s.testPc → ∃ j, TestPc.built s.testPc = some j ∧ (i ≤ j ∨ maxPages ≤ j) :=
    fun hp => ⟨i, by rw [← hp]; exact hi, .inl le_rfl⟩
  cases h with
  | @testInit j hpc hj =>
      cases hi
      exact .inr ⟨j, hj, by rw [hpc]; rfl, rfl, by simp [vmEvent, hpc, hj], rfl⟩
  | @testInitDone j hpc hj => cases hi; exact .inl ⟨j, by rw [hpc]; rfl, .inr hj⟩
  | testCreate | testWait | testTerm => cases hi
  | @fault k _ _ u =>
      refine .inl (same ?_)
      unfold withVm
      split <;> rfl
  | @pager k u =>
      refine .inl (same ?_)
      unfold withVm
      split <;> rfl
  | @signal k b =>
      refine .inl (same ?_)
      unfold Support.signal
      by_cases hb : b = .shell <;> simp [hb, setPc]
  | term => exact .inl (same (foldl_remove _ s).2.2.1)
  | _ => exact .inl (same rfl)

/-- A step keeps the entries of a page table under construction naming its pages. -/
theorem Good.built_step (h : s.Good) (hs : Step s e t) : t.Built := by
  have hu := h.under hs
  have enough : ∀ {i j : ℕ} {p : PageNo}, i ≤ j ∨ maxPages ≤ j → p.val < i → p.val < j :=
    fun hij hp => hij.elim (Nat.lt_of_lt_of_le hp) (Nat.lt_of_lt_of_le (Fin.isLt _))
  have last : ∀ {a j} {hj : j < maxPages} {p : PageNo}, t.vm = s.vm.initPte (a, ⟨j, hj⟩) →
      p.val < j + 1 → (p.val < j → (s.vm.pgTbl (a, p)).entryHI = entryHI (a, p)) →
      (t.vm.pgTbl (a, p)).entryHI = entryHI (a, p) := by
    intro a j hj p hv hp hold
    by_cases hpj : p.val < j
    · exact hu.hi (hold hpj)
    · obtain rfl : p = ⟨j, hj⟩ := Fin.ext (le_antisymm (Nat.lt_succ_iff.mp hp) (not_lt.mp hpj))
      have hself : (s.vm.initPte (a, ⟨j, hj⟩)).pgTbl (a, ⟨j, hj⟩) = ⟨entryHI (a, ⟨j, hj⟩), dirtyOn⟩ :=
        Function.update_self ..
      rw [hv, hself]
  refine ⟨fun q a i hq p hp => ?_, fun i hi p hp => ?_⟩
  · rcases hs.built_from hq with ⟨j, hj, hij⟩ | ⟨j, hj, hb, rfl, -, hv⟩ | rfl
    · exact hu.hi (h.built.exec q a j hj p (enough hij hp))
    · exact last hv hp fun hpj => h.built.exec q a j hb p hpj
    · exact absurd hp (Nat.not_lt_zero _)
  · rcases hs.builtTest_from hi with ⟨j, hj, hij⟩ | ⟨j, hj, hb, rfl, -, hv⟩
    · exact hu.hi (h.built.test j hj p (enough hij hp))
    · exact last hv hp fun hpj => h.built.test j hb p hpj

/-- **The step lemma.** -/
theorem Good.step (h : s.Good) (hs : Step s e t) : t.Good := by
  have hvm : t.vm.Iso ∧ t.vm.FlashExcl :=
    (h.under hs).lift (J := fun u => u.Iso ∧ u.FlashExcl) (C := anyStep)
      (fun _ _ _ hu _ hf => ⟨hu.1.step hf, hu.2.step hu.1.excl hf⟩) (fun _ _ => trivial)
      ⟨h.iso, h.flash⟩ (fun _ _ => trivial)
  exact ⟨hvm.1, hvm.2, h.sync.move (hs.syncMove h.placed h.iso.excl), h.placed_step hs,
    h.dying_step hs, h.built_step hs⟩

/-! ### Runs -/

/-- **What holds of the first state.** -/
theorem Good.boot (flash : PageId → Page) (frame : FrameNo → Page) (reg : Asid → FlashReg) :
    (Support.boot flash frame reg : Support n).Good where
  iso := .boot flash frame reg
  flash _ := .free (by rintro q ⟨_, _, _, h, _⟩; cases h)
  sync :=
    { pos := Nat.one_pos
      live := by rintro q x ⟨⟩
      root := rfl
      shell1 := by rintro _ _ _ _ ⟨⟩
      up := by rintro _ _ _ ⟨⟩
      exec := by rintro _ _ _ ⟨⟩
      wait := by rintro _ _ ⟨⟩
      one := by rintro _ _ _ _ _ _ ⟨⟩
      shell := .none rfl fun _ => rfl
      test := .early trivial rfl fun _ => rfl }
  placed := by rintro _ _ _ _ ⟨⟩
  dying := by rintro _ _ ⟨⟩
  built := ⟨by rintro _ _ _ ⟨⟩, by rintro i ⟨⟩ p hp; exact absurd hp (Nat.not_lt_zero _)⟩

/-- **The invariant rule** of the Support Level: what is proved of the steps of the pager machine
under `C` holds along the runs whose pager steps meet `C`. -/
theorem Good.run {J : VM n → Prop} {C : VM n → VmEvent n → Prop} {es : List (SupportEvent n)}
    (h : s.Good) (hr : Run Support.step (fun u e => ∀ f ∈ u.vmEvent e, C u.vm f) s es t)
    (hJ : ∀ u f v, J u → C u f → VM.Step u f v → J v) (hx : ∀ u q, C u (.exit q))
    (hj : J s.vm) : t.Good ∧ J t.vm := by
  refine hr.inv (I := fun u => u.Good ∧ J u.vm) ⟨h, hj⟩ ?_
  rintro u e v ⟨hu, hj⟩ hc hs
  have hst := step_view hs
  exact ⟨hu.step hst, (hu.under hst).lift hJ hx hj hc⟩

theorem Good.reach {C : Support n → SupportEvent n → Prop} {es : List (SupportEvent n)}
    (h : s.Good) (hr : Run Support.step C s es t) : t.Good :=
  hr.inv h fun _ _ _ hu _ hs => hu.step (step_view hs)

/-! ### Some runs -/

/-- The first program the shell can execute. -/
def prog : Asid := ⟨2, by decide⟩

/-- The first page of a U-proc. -/
def page0 : PageNo := ⟨0, by decide⟩

/-- The first frame of the swap pool. -/
def frame0 : FrameNo := ⟨0, poolSize_pos⟩

/-- The first word of a page. -/
def word0 : Fin (pageSize / wordLen) := ⟨0, by decide⟩

/-- `test` launches the shell and waits for it. -/
def launch : List (SupportEvent n) := .replicate 35 .test

/-- The shell `q` executes the program of `asid`, and waits for it. -/
def execute (q : Pid) (asid : Word) : List (SupportEvent n) :=
  .ecall q PandOS.execute asid 0 :: .replicate 36 (.handler q)

/-- The first slot of the TLB. -/
def slot0 : Fin 16 := 0

/-- A refill loads the entry of `r`, which is invalid, and the access faults. -/
def pageFault (q : Pid) (r : PageId) (slot : Fin n) : List (SupportEvent n) :=
  [.mem (.refill q (entryHI r) slot), .mem (.fault q (entryHI r) 27)]

/-- The pager brings a page in, into a free frame. -/
def pageIn (q : Pid) : List (SupportEvent n) :=
  .replicate 6 (.mem (.pager q)) ++ .mem (.flashDone q flashReady fun _ => 0) ::
    .replicate 6 (.mem (.pager q))

/-- `q` calls `TERMINATE`; the last step is `TERMPROCESS`. -/
def exit (q : Pid) : List (SupportEvent n) :=
  .ecall q PandOS.terminate 0 0 :: .replicate 3 (.handler q)

/-- A machine with 16 TLB slots whose memory and devices hold zeros. -/
def blank : Support 16 := .boot (fun _ _ => 0) (fun _ _ => 0) fun _ => ⟨0, 0⟩

/-- A program is executed and brings its first page in. -/
def firstRun : List (SupportEvent 16) :=
  launch ++ execute 1 2 ++ pageFault 2 (prog, page0) slot0 ++ pageIn 2

/-- It terminates, and is executed again. -/
def relaunch : List (SupportEvent 16) := firstRun ++ exit 2 ++ .handler 1 :: execute 1 2

end Support

end PandOS
