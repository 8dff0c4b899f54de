import PandOS.Phase2.Interrupt
import PandOS.Phase3.Script

/-!
# Phase 3 — the exceptions of a U-proc

An exception of a U-proc goes through the nucleus, which passes it up to the pager or to the general
handler, and through the handler it is passed up to.  `Support.enter` is where the two models meet:
from what the nucleus left in the support structure and loaded with `LDCXT`, the Support Level goes
on.

`Support.duty` is what an exception is to lead to, by its cause and, for the causes that come with
an address, by the page at that address; `Support.Classified` says that it does lead there, and
`classified_of_run` when.  The nucleus looks at `BADVADDR` and not at the cause, and the pager refuses
no cause but one: so an exception that comes without an address is taken for a page fault when an
old user address is in `BADVADDR`, and so is any exception at a user address that is resident or has
no page.
-/

namespace PandOS

variable {n : ℕ}

deriving instance DecidableEq for Context

/-- The entry points of the two handlers. -/
structure Entries where
  pager : Word
  supportGeneralExHandler : Word
  ne : pager ≠ supportGeneralExHandler

/-- `initSupportContexts`, with the tops of the two stacks. -/
def initSupportContexts (E : Entries) (stackTLB stackGen : Word) : Fin 2 → Context :=
  let handlerStatus := mstatusMpieMask ||| mstatusMppM ||| mstatusMieMask
  fun i => if i = pgFaultExcept then ⟨stackTLB, handlerStatus, E.pager⟩
    else ⟨stackGen, handlerStatus, E.supportGeneralExHandler⟩

namespace Kernel

/-- The running process is a U-proc with the support structure at `sup`. -/
structure Runs (K : Kernel) (E : Entries) (sup : Word) : Prop where
  current : ∀ cur ∈ K.currentProcess, (K.pcbFree_table cur).p_supportStruct = sup
  ne : sup ≠ 0
  contexts : ∃ stackTLB stackGen,
    (K.support sup).sup_exceptContext = initSupportContexts E stackTLB stackGen

/-- The "pass up" of `passUpOrDie`, and nothing else. -/
def passUp (K : Kernel) (sup : Word) (exceptionType : Fin 2) (st : State) : Kernel :=
  { K with
    support := Function.update K.support sup { K.support sup with
      sup_exceptState := Function.update (K.support sup).sup_exceptState exceptionType st }
    cpu := .ldcxt ((K.support sup).sup_exceptContext exceptionType) }

end Kernel

/-- What `syscallHandler` does for the services it knows. -/
def sysRoutine (a : Asid) (sv : Saved) : Option (GenPc × Word) :=
  if sv.reg_a0 = terminate then some (.signal, sv.reg_a0)
  else if sv.reg_a0 = writeTerminal then some (sys4_writeTerminal sv, sv.reg_a0)
  else if sv.reg_a0 = readTerminal then some (sys5_readTerminal sv, sv.reg_a0)
  else if sv.reg_a0 = execute then some (sys6_execute a sv)
  else none

/-- The registers a handler of the Support Level reads of a saved state. -/
def State.saved (st : State) : Saved := ⟨st.cause, st.reg_a0, st.reg_a1, st.reg_a2⟩

/-- What an exception of a U-proc is to lead to. -/
inductive Duty where
  | service (r : GenPc × Word)
  | pageFault (p : PageNo)
  | fatal

namespace Support

/-- The Support Level goes on with `q`, of ASID `a`, where the nucleus left it: at the entry of a
handler of the support structure at `sup`.  None where the pager would leave the page table. -/
def enter (s : Support n) (E : Entries) (K : Kernel) (sup : Word) (q : Pid) (a : Asid) :
    Option (Support n) :=
  match K.cpu with
  | .ldcxt c =>
      if c.pc = E.pager then
        let st := (K.support sup).sup_exceptState pgFaultExcept
        (s.vm.step (.fault q st.entry_hi st.cause)).map (s.withVm q)
      else if c.pc = E.supportGeneralExHandler then
        some ((s.setSaved a ((K.support sup).sup_exceptState generalExcept).saved).setPc q .handler)
      else none
  | _ => none

/-- The page of ASID `a` at a user address, if its entry has V = 0. -/
def absentPage (s : Support n) (a : Asid) (addr : Word) : Option PageNo :=
  (userAddr addr).bind fun x =>
    if (s.vm.pgTbl (a, x.1)).entryLO &&& validOn = 0 then some x.1 else none

/-- What an exception of a U-proc of ASID `a` is to lead to; `addressCode` are the causes with which
the hardware writes `BADVADDR`. -/
def duty (addressCode : Word → Bool) (s : Support n) (a : Asid) (x : State) (badVaddr : Word) :
    Duty :=
  let excCode := x.cause &&& causeExcCodeMask
  if isEcall x.cause then ((sysRoutine a x.saved).map Duty.service).getD .fatal
  else if addressCode excCode ∧ excCode ≠ excMod then
    ((s.absentPage a badVaddr).map Duty.pageFault).getD .fatal
  else .fatal

/-- The duty is met, from the entry of the handler on. -/
def Meets (s₁ : Support n) (q : Pid) (a : Asid) : Duty → Prop
  | .service r => s₁.Served q a r
  | .pageFault p => s₁.Loads q a p
  | .fatal => s₁.Dies q a

/-- The exception `x` took the nucleus from `K` to `K'`: it was passed up and nothing else was done,
and from there on it leads where it is to lead. -/
def Classified (addressCode : Word → Bool) (E : Entries) (K K' : Kernel) (sup : Word)
    (s : Support n) (q : Pid) (a : Asid) (x : State) (badVaddr : Word) : Prop :=
  (∃ i st, K' = K.passUp sup i st) ∧ ∃ s₁, s.enter E K' sup q a = some s₁ ∧
    s₁.Meets q a (s.duty addressCode a x badVaddr)

/-- A system call, an address outside user space, a write to a protected page, or a fault at an
absent page that `EntryHi` names. -/
def Regular (addressCode : Word → Bool) (s : Support n) (a : Asid) (x : State) (badVaddr : Word) :
    Prop :=
  let excCode := x.cause &&& causeExcCodeMask
  isEcall x.cause ∨ badVaddr.toNat < kuseg ∨ excCode = excMod ∨
    addressCode excCode ∧ ∃ p, s.absentPage a badVaddr = some p ∧ pageOf x.entry_hi = some p

end Support

/-! ### Through the nucleus -/

namespace Kernel

variable {L : Layout} {K K' : Kernel} {E : Entries} {sup : Word} {x : State} {i : Inputs}
  {cur : PcbId} {st : State}

@[simp] theorem passUp_cpu {j : Fin 2} :
    (K.passUp sup j st).cpu = .ldcxt ((K.support sup).sup_exceptContext j) := rfl

@[simp] theorem passUp_state {j : Fin 2} :
    ((K.passUp sup j st).support sup).sup_exceptState j = st := by
  simp [passUp]

theorem passUpOrDie_eq (h : (K.pcbFree_table cur).p_supportStruct = sup) (hs : sup ≠ 0) (j : Fin 2)
    (tod : ℕ → Word) : K.passUpOrDie L cur j st tod = K.passUp sup j st := by
  subst h
  exact if_neg hs

/-- **What the nucleus does with an exception of a U-proc.** -/
theorem Runs.passUp (h : K.Runs E sup) (hst : K.step L (.exception x i) = some K')
    (hint : ¬ causeIsInt x.cause) (hu : x.status &&& mstatusMppMask = mstatusMppU) :
    (isEcall x.cause ∧ 1 ≤ x.reg_a0.toInt ∧ K' = K.passUp sup generalExcept { x with
      pc_epc := x.pc_epc + BitVec.ofNat 32 wordLen, cause := 11 }) ∨
    (isEcall x.cause ∧ ¬ 1 ≤ x.reg_a0.toInt ∧ K' = K.passUp sup generalExcept { x with
      pc_epc := x.pc_epc + BitVec.ofNat 32 wordLen
      cause := 11 &&& ~~~getExecCode ||| privInstr <<< causeShift }) ∨
    (¬ isEcall x.cause ∧ kuseg ≤ i.badVaddr.toNat ∧ K' = K.passUp sup pgFaultExcept x) ∨
    (¬ isEcall x.cause ∧ i.badVaddr.toNat < kuseg ∧ K' = K.passUp sup generalExcept x) := by
  obtain ⟨cur, hc, rfl⟩ := step_trap hst hint
  have hsup := h.current cur hc
  unfold trapHandler
  by_cases hx : isEcall x.cause
  · have hx' : x.cause &&& causeExcCodeMask = 8 ∨ x.cause &&& causeExcCodeMask = 11 := hx
    simp only [if_pos hx', systemCallHandler]
    by_cases h1 : 1 ≤ x.reg_a0.toInt
    · refine .inl ⟨hx, h1, ?_⟩
      rw [if_pos h1]
      exact passUpOrDie_eq hsup h.ne ..
    · refine .inr (.inl ⟨hx, h1, ?_⟩)
      rw [if_neg h1, if_pos hu]
      exact passUpOrDie_eq hsup h.ne ..
  · have hx' : ¬ (x.cause &&& causeExcCodeMask = 8 ∨ x.cause &&& causeExcCodeMask = 11) := hx
    simp only [if_neg hx']
    by_cases hk : kuseg ≤ i.badVaddr.toNat
    · refine .inr (.inr (.inl ⟨hx, hk, ?_⟩))
      rw [if_pos hk]
      exact passUpOrDie_eq hsup h.ne ..
    · refine .inr (.inr (.inr ⟨hx, not_le.mp hk, ?_⟩))
      rw [if_neg hk]
      exact passUpOrDie_eq hsup h.ne ..

end Kernel

/-! ### Into the handlers -/

theorem syscallHandler_eq (a : Asid) (sv : Saved) :
    syscallHandler a sv = (sysRoutine a sv).getD (.signal, sv.reg_a0) := by
  unfold syscallHandler sysRoutine
  split_ifs <;> rfl

/-- The services are above 0. -/
theorem sysRoutine_none {a : Asid} {sv : Saved} (h : ¬ 1 ≤ sv.reg_a0.toInt) :
    sysRoutine a sv = none := by
  have ne : ∀ {w : Word}, 1 ≤ w.toInt → sv.reg_a0 ≠ w := by
    rintro w hw he
    exact h (he ▸ hw)
  rw [sysRoutine, if_neg (ne (by decide)), if_neg (ne (by decide)), if_neg (ne (by decide)),
    if_neg (ne (by decide))]

/-- The pages of a U-proc are in user space. -/
theorem userAddr_kuseg {addr : Word} {y} (h : userAddr addr = some y) : kuseg ≤ addr.toNat := by
  obtain ⟨p, hp, -⟩ := Option.map_eq_some_iff.mp h
  have hv : vpn p = addr.toNat / pageSize := by simpa using List.find?_some hp
  have hlow : 0x80000 ≤ vpn p := by
    unfold vpn
    split <;> omega
  rw [hv] at hlow
  unfold pageSize at hlow
  unfold kuseg
  omega

namespace Support

variable {L : Layout} {K K' : Kernel} {E : Entries} {sup : Word} {x : State} {i : Inputs}
  {st : State} {s s₁ : Support n} {es : List (SupportEvent n)} {q : Pid} {a : Asid} {p : PageNo}
  {pc : PagerPc} {addressCode : Word → Bool}

theorem absentPage_kuseg {addr : Word} (h : s.absentPage a addr = some p) :
    kuseg ≤ addr.toNat := by
  obtain ⟨y, hy, -⟩ := Option.bind_eq_some_iff.mp h
  exact userAddr_kuseg hy

theorem enter_general (h : K.Runs E sup) :
    s.enter E (K.passUp sup generalExcept st) sup q a =
      some ((s.setSaved a st.saved).setPc q .handler) := by
  obtain ⟨_, _, hc⟩ := h.contexts
  have hpc : ((K.support sup).sup_exceptContext generalExcept).pc = E.supportGeneralExHandler := by
    rw [hc]
    rfl
  simp only [enter, Kernel.passUp_cpu, hpc, if_neg E.ne.symm, if_true, Kernel.passUp_state]

theorem enter_pager (h : K.Runs E sup) :
    s.enter E (K.passUp sup pgFaultExcept st) sup q a =
      (s.vm.step (.fault q st.entry_hi st.cause)).map (s.withVm q) := by
  obtain ⟨_, _, hc⟩ := h.contexts
  have hpc : ((K.support sup).sup_exceptContext pgFaultExcept).pc = E.pager := by
    rw [hc]
    rfl
  simp only [enter, Kernel.passUp_cpu, hpc, if_true, Kernel.passUp_state]

/-- At the entry of the general handler. -/
theorem Sane.atHandler (h : s.Sane) (hq : s.vm.proc q = some ⟨a, .run⟩) (hpc : s.pc q = .user)
    (sv : Saved) : ((s.setSaved a sv).setPc q .handler).Sane := by
  have hst : Step (s.setSaved a sv) (.trap q sv.cause) _ := .trap (a := a) hq hpc
  have he : ((s.setSaved a sv).setSaved a { (s.setSaved a sv).saved a with cause := sv.cause }) =
      s.setSaved a sv := by
    have hsv : (s.setSaved a sv).saved a = sv := Function.update_self ..
    rw [hsv]
    show ({ s with saved := _ } : Support n) = { s with saved := _ }
    congr 1
    exact Function.update_idem ..
  rw [he] at hst
  exact (h.setSaved sv).step hst

theorem saved_atHandler (sv : Saved) : ((s.setSaved a sv).setPc q .handler).saved a = sv :=
  Function.update_self ..

/-- A program trap kills. -/
theorem Sane.program_trap (h : s.Sane) (hq : s.vm.proc q = some ⟨a, .run⟩) (hpc : s.pc q = .user)
    {sv : Saved} (hg : (supportGeneralExHandler a sv).1 = .signal) :
    ((s.setSaved a sv).setPc q .handler).Dies q a :=
  Leaving.dies (.handler hq (Function.update_self ..) (by rw [saved_atHandler]; exact hg) rfl)
    (h.atHandler hq hpc sv)

/-- A service is served. -/
theorem Sane.served (h : s.Sane) (hq : s.vm.proc q = some ⟨a, .run⟩) (hpc : s.pc q = .user)
    (sv : Saved) :
    ((s.setSaved a sv).setPc q .handler).Served q a (supportGeneralExHandler a sv) := by
  have := Served.handler (a := a) (q := q) (h.atHandler hq hpc sv) hq (Function.update_self ..)
  rwa [saved_atHandler] at this

/-- At the entry of the pager. -/
theorem Sane.atPager (h : s.Sane) (hpc : s.pc q = .user) {entryHi cause : Word} {u : VM n}
    (hb : ¬ s.blocked q) (hu : s.vm.step (.fault q entryHi cause) = some u) :
    (s.withVm q u).Sane :=
  h.step (.fault (p := ⟨0, by decide⟩) hb (.inl hpc) hu)

/-- Who is in the pager is not on its way out. -/
theorem Dies.not_pager (h : s₁.Dies q a) (hq : s₁.vm.proc q = some ⟨a, .pager p pc⟩)
    (hpc : s₁.pc q = .user) : False := by
  obtain ⟨-, hrun⟩ := h [] s₁ [] (.nil _)
  obtain ⟨k, u, hr, hu⟩ := hrun (by rw [hq]; simp)
  cases k with
  | zero =>
      cases hr.det (Run.nil (C := anyStep) _)
  | succ k =>
      have hx := hr.exec
      rw [List.replicate_succ, exec_cons] at hx
      obtain ⟨y, hy, -⟩ := Option.bind_eq_some_iff.mp hx
      cases (step_view (record_eq_some hy).1).mover rfl with
      | run hi => rw [hq] at hi; cases hi
      | pager _ he => cases he
      | device _ _ he => obtain ⟨_, he⟩ := he; cases he
      | signal hi => rw [hq] at hi; cases hi
      | term _ _ ht => rw [hpc] at ht; cases ht

/-- The pager loads the page it was entered for. -/
theorem Loads.page {p' : PageNo} (h : s₁.Loads q a p) (hq : s₁.vm.proc q = some ⟨a, .pager p' pc⟩) :
    p' = p := by
  rcases h [] s₁ [] (.nil _) with ⟨k, old, hl⟩ | ⟨-, ⟨pc, hpc⟩, -⟩
  · cases List.prefix_nil.mp hl
  · rw [hq] at hpc
    cases hpc
    rfl

/-! ### The classification -/

/-- A system call of a U-proc is served, or it is its end. -/
theorem Sane.system_call (h : s.Sane) (hq : s.vm.proc q = some ⟨a, .run⟩) (hpc : s.pc q = .user)
    {sv : Saved} (hc : isEcall sv.cause) : ((s.setSaved a sv).setPc q .handler).Meets q a
      (((sysRoutine a sv).map Duty.service).getD .fatal) := by
  have hx : supportGeneralExHandler a sv = (sysRoutine a sv).getD (.signal, sv.reg_a0) := by
    rw [supportGeneralExHandler, if_pos hc, syscallHandler_eq]
  cases hr : sysRoutine a sv with
  | none => exact h.program_trap hq hpc (by rw [hx, hr]; rfl)
  | some r =>
      rw [hr] at hx
      have := h.served hq hpc sv
      rwa [hx] at this

/-- Anything else that comes to the general handler is the end of the U-proc. -/
theorem Sane.general_trap (h : s.Sane) (hq : s.vm.proc q = some ⟨a, .run⟩) (hpc : s.pc q = .user)
    {sv : Saved} (hc : ¬ isEcall sv.cause) : ((s.setSaved a sv).setPc q .handler).Dies q a :=
  h.program_trap hq hpc (by rw [supportGeneralExHandler, if_neg hc])

/-- The pager does what it is to do for an absent page, and for a write to a protected one, and for
nothing else. -/
theorem Sane.page_fault (h : s.Sane) (hq : s.vm.proc q = some ⟨a, .run⟩) (hpc : s.pc q = .user)
    (hc : ¬ isEcall x.cause) {badVaddr : Word} (hk : kuseg ≤ badVaddr.toNat) :
    (∃ s₁, (s.vm.step (.fault q x.entry_hi x.cause)).map (s.withVm q) = some s₁ ∧
      s₁.Meets q a (s.duty addressCode a x badVaddr)) ↔ s.Regular addressCode a x badVaddr := by
  have hb : ¬ s.blocked q := h.parked.free (by rw [hq]; simp) (by rw [awaited_run hq, hpc]; rfl)
  have hstep : s.vm.step (.fault q x.entry_hi x.cause) =
      (VM.faultCtl x.entry_hi x.cause).map (s.vm.goto q a) := by
    rw [VM.step, hq]
  by_cases hm : x.cause &&& causeExcCodeMask = excMod
  · -- `fatalFault`
    have hf : VM.faultCtl x.entry_hi x.cause = some .dying := if_pos hm
    have hs₁ := h.atPager hpc hb (hstep.trans (congrArg _ hf))
    have hpc₁ : (s.withVm q (s.vm.goto q a .dying)).pc q = .signal := by
      unfold withVm
      rw [show (s.vm.goto q a .dying).proc q = some ⟨a, .dying⟩ from Function.update_self ..]
      exact Function.update_self ..
    have hd : s.duty addressCode a x badVaddr = .fatal := by
      rw [duty, if_neg hc, if_neg fun hx => hx.2 hm]
    rw [hstep, hf, hd]
    refine iff_of_true ⟨_, rfl, Leaving.dies (.signal ?_ hpc₁ rfl) hs₁⟩ (.inr (.inr (.inl hm)))
    rw [withVm_vm]
    exact Function.update_self ..
  have hf : VM.faultCtl x.entry_hi x.cause = (pageOf x.entry_hi).map fun p => .pager p .enter :=
    if_neg hm
  have hreg : s.Regular addressCode a x badVaddr ↔ addressCode (x.cause &&& causeExcCodeMask) ∧
      ∃ p, s.absentPage a badVaddr = some p ∧ pageOf x.entry_hi = some p := by
    refine ⟨?_, fun hr => .inr (.inr (.inr hr))⟩
    rintro (hr | hr | hr | hr)
    · exact absurd hr hc
    · exact absurd hr (not_lt.mpr hk)
    · exact absurd hr hm
    · exact hr
  rw [hreg, hstep, hf]
  cases hp : pageOf x.entry_hi with
  | none =>
      -- the index is outside the page table
      constructor
      · rintro ⟨_, ⟨⟩, _⟩
      · rintro ⟨-, _, -, ⟨⟩⟩
  | some p =>
      have hs₁ := h.atPager hpc hb (hstep.trans (congrArg _ (hf.trans (congrArg _ hp))))
      have hq₁ : (s.withVm q (s.vm.goto q a (.pager p .enter))).vm.proc q =
          some ⟨a, .pager p .enter⟩ := by
        rw [withVm_vm]
        exact Function.update_self ..
      have hpc₁ : (s.withVm q (s.vm.goto q a (.pager p .enter))).pc q = .user := by
        rcases withVm_pc (s := s) (q := q) (u := s.vm.goto q a (.pager p .enter)) with he | ⟨-, b, he⟩
        · rw [he]
          exact hpc
        · rw [withVm_vm, he] at hq₁
          cases hq₁
      constructor
      · rintro ⟨s₁, ⟨⟩, hmeets⟩
        rw [duty, if_neg hc] at hmeets
        split at hmeets
        case isTrue hx =>
          cases hab : s.absentPage a badVaddr with
          | none =>
              rw [hab] at hmeets
              exact (Dies.not_pager hmeets hq₁ hpc₁).elim
          | some r =>
              rw [hab] at hmeets
              exact ⟨hx.1, r, rfl, congrArg some (Loads.page hmeets hq₁)⟩
        case isFalse => exact (Dies.not_pager hmeets hq₁ hpc₁).elim
      · rintro ⟨hx, r, hab, ⟨⟩⟩
        refine ⟨_, rfl, ?_⟩
        rw [duty, if_neg hc, if_pos ⟨hx, hm⟩, hab]
        exact Loads.enter hs₁ hq₁

theorem classified_of_sane (h : s.Sane) (hq : s.vm.proc q = some ⟨a, .run⟩) (hpc : s.pc q = .user)
    (hK : K.Runs E sup) (hst : K.step L (.exception x i) = some K')
    (hint : ¬ Kernel.causeIsInt x.cause) (hu : x.status &&& mstatusMppMask = mstatusMppU) :
    Classified addressCode E K K' sup s q a x i.badVaddr ↔
      s.Regular addressCode a x i.badVaddr := by
  unfold Classified
  rcases hK.passUp hst hint hu with ⟨hc, h1, rfl⟩ | ⟨hc, h1, rfl⟩ | ⟨hc, hk, rfl⟩ | ⟨hc, hk, rfl⟩
  · have hx : isEcall (11 : Word) := by decide
    rw [enter_general hK, duty, if_pos hc]
    exact iff_of_true ⟨⟨_, _, rfl⟩, _, rfl, h.system_call hq hpc hx⟩ (.inl hc)
  · have hx : ¬ isEcall (11 &&& ~~~getExecCode ||| privInstr <<< causeShift) := by decide
    rw [enter_general hK, duty, if_pos hc, sysRoutine_none h1]
    exact iff_of_true ⟨⟨_, _, rfl⟩, _, rfl, h.general_trap hq hpc hx⟩ (.inl hc)
  · rw [enter_pager hK]
    rw [← h.page_fault hq hpc hc hk]
    exact and_iff_right ⟨_, _, rfl⟩
  · have hd : s.duty addressCode a x i.badVaddr = .fatal := by
      rw [duty, if_neg hc]
      split
      · cases hab : s.absentPage a i.badVaddr with
        | none => rfl
        | some p => exact absurd (absentPage_kuseg hab) (not_le.mpr hk)
      · rfl
    rw [enter_general hK, hd]
    exact iff_of_true ⟨⟨_, _, rfl⟩, _, rfl, h.general_trap hq hpc hc⟩ (.inr (.inl hk))

/-- **The exceptions of a U-proc.**  In every reachable state, an exception of a U-proc in user mode
is passed up and leads where it is to lead if and only if it is regular. -/
theorem classified_of_run (flash : PageId → Page) (frame : FrameNo → Page) (reg : Asid → FlashReg)
    (hr : Run step anyStep (boot flash frame reg : Support n) es s)
    (hq : s.vm.proc q = some ⟨a, .run⟩) (hpc : s.pc q = .user) (hK : K.Runs E sup)
    (hst : K.step L (.exception x i) = some K') (hint : ¬ Kernel.causeIsInt x.cause)
    (hu : x.status &&& mstatusMppMask = mstatusMppU) :
    Classified addressCode E K K' sup s q a x i.badVaddr ↔
      s.Regular addressCode a x i.badVaddr :=
  classified_of_sane ((Sane.boot flash frame reg).reach hr) hq hpc hK hst hint hu

/-! ### Some exceptions -/

/-- The causes of misaligned and forbidden accesses and of the TLB. -/
def addressCode₀ (excCode : Word) : Bool :=
  excCode ∈ [0, 1, 4, 5, 6, 7, 24, 25, 26, 27, 28]

/-- Entry points of the two handlers. -/
def entries₀ : Entries := ⟨0x20003000, 0x20004000, by decide⟩

/-- The address of a support structure. -/
def sup₀ : Word := 0x20002000

/-- The nucleus booted with the contexts of the handlers in place. -/
def bootUser : Kernel :=
  Kernel.initKernel Kernel.layout₀ (fun _ => 0)
    (fun _ => ⟨fun _ => .zero, initSupportContexts entries₀ 0x20005000 0x20006000⟩) 0 0 0

/-- The first process creates a U-proc and yields. -/
def startUser : List KernelEvent :=
  [.exception (Kernel.callState (-1) 0 0 sup₀) { Kernel.inputs₀ with newState := .zero },
    Kernel.call (-10) 0 0 0]

/-- An exception in user mode, with the address of the last page fault in `BADVADDR` and
`EntryHi`. -/
def userTrap (cause a0 : Word) : State :=
  { State.zero with cause := cause, reg_a0 := a0, entry_hi := entryHI (prog, page0) }

/-- `BADVADDR` holds the address of page 0. -/
def staleInputs : Inputs := { Kernel.inputs₀ with badVaddr := BitVec.ofNat 32 kuseg }

/-- The U-proc runs, and an exception comes. -/
theorem user_exception (cause a0 : Word) (hint : ¬ Kernel.causeIsInt cause) : ∃ K K',
    Run (Kernel.step Kernel.layout₀) anyStep bootUser startUser K ∧ K.Runs entries₀ sup₀ ∧
      K.step Kernel.layout₀ (.exception (userTrap cause a0) staleInputs) = some K' := by
  obtain ⟨K, hr, hrun, hcur, hsup, hctx⟩ := exists_run (Kernel.step Kernel.layout₀) anyStep
    (fun K => K.running ∧ K.currentProcess.isSome ∧
      (∀ cur ∈ K.currentProcess, (K.pcbFree_table cur).p_supportStruct = sup₀) ∧
      ∀ j, (K.support sup₀).sup_exceptContext j =
        initSupportContexts entries₀ 0x20005000 0x20006000 j)
    bootUser startUser (by decide +kernel)
  obtain ⟨cur, hc⟩ := Option.isSome_iff_exists.mp hcur
  have hwf : Kernel.wellFormed (userTrap cause a0) := by
    have hu : (0 : Word) &&& mstatusMppMask = mstatusMppU := by decide
    intro h
    rw [service, if_neg fun hx => hx.2.2 hu] at h
    rcases h with ⟨⟨⟩⟩ | ⟨⟨⟩⟩
  refine ⟨K, K.trapHandler Kernel.layout₀ cur (userTrap cause a0) staleInputs, hr,
    ⟨hsup, by decide, _, _, funext hctx⟩, ?_⟩
  have hint' : ¬ Kernel.causeIsInt (userTrap cause a0).cause := hint
  rw [Kernel.step, if_neg hint', if_pos ⟨hrun, hwf⟩, hc]
  rfl

/-- The first page of a program is brought in. -/
theorem classified_of_run_fault : ∃ (s : Support 16) (K K' : Kernel),
    Run step anyStep blank (launch ++ execute 1 2) s ∧
      K.step Kernel.layout₀ (.exception (userTrap 27 0) staleInputs) = some K' ∧
      s.duty addressCode₀ prog (userTrap 27 0) staleInputs.badVaddr = .pageFault page0 ∧
      Classified addressCode₀ entries₀ K K' sup₀ s 2 prog (userTrap 27 0)
        staleInputs.badVaddr := by
  obtain ⟨s, hr, hq, hpc, hab⟩ := exists_run step anyStep
    (fun s : Support 16 => s.vm.proc 2 = some ⟨prog, .run⟩ ∧ s.pc 2 = .user ∧
      s.absentPage prog staleInputs.badVaddr = some page0) blank (launch ++ execute 1 2)
    (by decide +kernel)
  obtain ⟨K, K', -, hK, hst⟩ := user_exception 27 0 (by decide)
  refine ⟨s, K, K', hr, hst, ?_, ?_⟩
  · rw [duty, if_neg (by decide), if_pos (by decide), hab]
    rfl
  · exact (classified_of_run _ _ _ hr hq hpc hK hst (by decide) (by decide)).mpr
      (.inr (.inr (.inr ⟨by decide, page0, hab, pageOf_entryHI _⟩)))

/-- **An illegal instruction taken for a page fault.**  A program whose first page is resident
executes an illegal instruction; the address of its last page fault is still in `BADVADDR`, and the
pager is entered for that page. -/
theorem illegal_instruction_paged : ∃ (s s₁ : Support 16) (K K' : Kernel),
    Run step anyStep blank firstRun s ∧ s.vm.proc 2 = some ⟨prog, .run⟩ ∧ s.pc 2 = .user ∧
      (s.vm.pgTbl (prog, page0)).entryLO &&& validOn ≠ 0 ∧
      Run (Kernel.step Kernel.layout₀) anyStep bootUser startUser K ∧ K.Runs entries₀ sup₀ ∧
      K.step Kernel.layout₀ (.exception (userTrap 2 0) staleInputs) = some K' ∧
      s.duty addressCode₀ prog (userTrap 2 0) staleInputs.badVaddr = .fatal ∧
      s.enter entries₀ K' sup₀ 2 prog = some s₁ ∧
      s₁.vm.proc 2 = some ⟨prog, .pager page0 .enter⟩ ∧
      ¬ Classified addressCode₀ entries₀ K K' sup₀ s 2 prog (userTrap 2 0)
        staleInputs.badVaddr := by
  obtain ⟨s, hr, hq, hpc, hv⟩ := exists_run step anyStep
    (fun s : Support 16 => s.vm.proc 2 = some ⟨prog, .run⟩ ∧ s.pc 2 = .user ∧
      (s.vm.pgTbl (prog, page0)).entryLO &&& validOn ≠ 0) blank firstRun (by decide +kernel)
  obtain ⟨K, K', hrK, hK, hst⟩ := user_exception 2 0 (by decide)
  have hpass : K' = K.passUp sup₀ pgFaultExcept (userTrap 2 0) := by
    rcases hK.passUp hst (by decide) (by decide) with ⟨hc, -⟩ | ⟨hc, -⟩ | ⟨-, -, hp⟩ | ⟨-, hk, -⟩
    · exact absurd hc (by decide)
    · exact absurd hc (by decide)
    · exact hp
    · exact absurd hk (by decide)
  have henter : s.enter entries₀ K' sup₀ 2 prog =
      some (s.withVm 2 (s.vm.goto 2 prog (.pager page0 .enter))) := by
    rw [hpass, enter_pager hK, VM.step, hq]
    have hf : VM.faultCtl (userTrap 2 0).entry_hi (userTrap 2 0).cause =
        some (.pager page0 .enter) := by decide
    show (Option.map _ _).map _ = _
    rw [hf]
    rfl
  refine ⟨s, _, K, K', hr, hq, hpc, hv, hrK, hK, hst, ?_, henter, ?_, ?_⟩
  · rw [duty, if_neg (by decide), if_neg (by decide)]
  · rw [withVm_vm, VM.goto_proc, Function.update_self]
  · rw [classified_of_sane ((Sane.boot _ _ _).reach hr) hq hpc hK hst (by decide) (by decide)]
    rintro (h | h | h | ⟨h, -⟩)
    · exact absurd h (by decide)
    · exact absurd h (by decide)
    · exact absurd h (by decide)
    · exact absurd h (by decide)

end Support

end PandOS
