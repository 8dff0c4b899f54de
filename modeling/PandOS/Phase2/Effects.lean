import PandOS.Phase2.Accounts

/-!
# Phase 2 — what an exception does with the process that runs

`Kernel.effect` says, from the state and the exception, with which reading of the clock the process
that runs is charged, what is saved for it, and how the nucleus ends; `Effected` what the state after
it is.  `effected_step`: every exception has its effect; the laws about times and about processor
states are proved from this.
-/

namespace PandOS

/-- How the nucleus ends. -/
inductive Ending where
  /-- The process that ran goes on. -/
  | ldst (st : State)
  /-- It goes on in a handler of the Support Level. -/
  | ldcxt
  /-- The scheduler is called; `tod` is its reading if it dispatches a process. -/
  | scheduler (tod : Word)

/-- What an exception does with the process that runs. -/
structure Effect where
  /-- The last reading it is charged with. -/
  reading : Option Word
  /-- What is copied to its `p_s`. -/
  saved : Option State
  ending : Ending

/-- The state of the caller of a system call, as the handler changes it. -/
def ecallState (saved : State) : State :=
  { saved with pc_epc := saved.pc_epc + BitVec.ofNat 32 wordLen, cause := 11 }

/-- The accounts after the effect, on the process that runs. -/
def Accounts.after (A : Accounts) (x : Effect) : Option PcbId → Accounts
  | none => A
  | some cur =>
      let A := match x.reading with
        | some tod => A.charge cur tod
        | none => A
      match x.saved with
      | some st => A.save cur st
      | none => A

namespace Kernel

variable {L : Layout} {s t u : Kernel} {lossy : Prop} {p q cur target : PcbId} {a : Word}
  {j : Fin semDevLen} {e : KernelEvent}

/-- The effect of a service on its caller, whose state the handler has changed to `state`. -/
def serviceEffect (s : Kernel) (cur : PcbId) (state : State) (i : Inputs) : SysCall → Effect
  | SysCall.createProcess =>
      let state := { state with reg_a0 := if s.pcbFree_h = [] then -1 else s.next_pid }
      ⟨none, some state, .ldst state⟩
  | SysCall.termProcess =>
      match s.termTarget cur state.reg_a1 with
      | none => ⟨some (i.tod 0), none, .ldst state⟩
      | some target =>
          if target = cur ∨ cur ∈ s.doomed target then ⟨some (i.tod 0), none, .scheduler (i.tod 1)⟩
          else ⟨some (i.tod 0), some state, .ldst state⟩
  | SysCall.passeren =>
      if (s.mem state.reg_a1 - 1).toInt < 0 then ⟨some (i.tod 1), some state, .scheduler (i.tod 2)⟩
      else ⟨some (i.tod 0), some state, .ldst state⟩
  | SysCall.verhogen => ⟨some (i.tod 0), some state, .ldst state⟩
  | SysCall.doIO =>
      match semIndex state.reg_a1 with
      | none => ⟨none, none, .ldst { state with reg_a0 := -1 }⟩
      | some _ => ⟨some (i.tod 1), some state, .scheduler (i.tod 2)⟩
  | SysCall.getTime => ⟨some (i.tod 0), none, .ldst { state with
      reg_a0 := (s.pcbFree_table cur).p_time + (i.tod 0 - s.start_time_current_quantum) }⟩
  | SysCall.clockWait => ⟨some (i.tod 1), some state, .scheduler (i.tod 2)⟩
  | SysCall.getSupportPtr => ⟨none, none, .ldst { state with
      reg_a0 := (s.pcbFree_table cur).p_supportStruct }⟩
  | SysCall.getProcessId => ⟨none, none, .ldst { state with
      reg_a0 :=
        if state.reg_a1 = 0 then (s.pcbFree_table cur).p_pid
        else match (s.pcbFree_table cur).p_parent with
          | some prnt => (s.pcbFree_table prnt).p_pid
          | none => 0 }⟩
  | SysCall.yield => ⟨some (i.tod 0), some state, .scheduler (i.tod 1)⟩

/-- The effect of an exception that is no interrupt. -/
def trapEffect (s : Kernel) (cur : PcbId) (saved : State) (i : Inputs) : Effect :=
  match service saved with
  | some c => s.serviceEffect cur (ecallState saved) i c
  | none =>
      if (s.pcbFree_table cur).p_supportStruct = 0 then
        ⟨some (i.tod 0), none, .scheduler (i.tod 1)⟩
      else ⟨none, none, .ldcxt⟩

/-- The effect of an interrupt. -/
def interruptEffect (s : Kernel) (saved : State) (i : Inputs) : Effect :=
  match s.currentProcess with
  | none => ⟨none, none, .scheduler (i.tod 1)⟩
  | some _ =>
      if saved.cause &&& causeExcCodeMask = 7 then
        ⟨some (i.tod 0), some { saved with status := saved.status ||| mstatusMieMask },
          .scheduler (i.tod 1)⟩
      else ⟨some (i.tod 0), none, .ldst saved⟩

/-- The effect of an exception. -/
def effect (s : Kernel) (saved : State) (i : Inputs) : Effect :=
  if causeIsInt saved.cause then s.interruptEffect saved i
  else
    match s.currentProcess with
    | none => ⟨none, none, .ldcxt⟩
    | some cur => s.trapEffect cur saved i

/-- The status with which an act wakes `p`. -/
def Act.answer (L : Layout) (s t : Kernel) (p : PcbId) : Act → Option Word
  | .wake l => statusOf L l s t p
  | .tick => if p ∈ s.queue (L.sem pseudoClock) then some 0 else none
  | _ => none

/-- What runs at the end, and the mark. -/
def Ends (s t : Kernel) (mark : Word) : Ending → Prop
  | .ldst st => t.currentProcess = s.currentProcess ∧ t.cpu = .ldst st ∧ t.accounts.mark = mark
  | .ldcxt => t.currentProcess = s.currentProcess ∧ (∃ c, t.cpu = .ldcxt c) ∧
      t.accounts.mark = mark
  | .scheduler tod => ∀ p, t.currentProcess = some p →
      t.accounts.mark = tod ∧ t.cpu = .ldst (t.accounts.saved p)

/-- What an exception does to the processes there are. -/
structure Effected (s t : Kernel) (x : Effect) (ans : PcbId → Option Word) : Prop where
  time : ∀ p, s.Live p → t.accounts.time p = (s.accounts.after x s.currentProcess).time p
  saved : ∀ p, s.Live p → t.accounts.saved p = match ans p with
    | some v => { (s.accounts.after x s.currentProcess).saved p with reg_a0 := v }
    | none => (s.accounts.after x s.currentProcess).saved p
  ending : Ends s t (s.accounts.after x s.currentProcess).mark x.ending

/-- Nobody is answered, and the accounts are as the effect says. -/
theorem effected_of_eq {x : Effect} (hc : s.currentProcess = some cur)
    (htime : t.accounts.time = (s.accounts.after x (some cur)).time)
    (hsaved : t.accounts.saved = (s.accounts.after x (some cur)).saved)
    (hend : Ends s t (s.accounts.after x (some cur)).mark x.ending) :
    Effected s t x fun _ => none := by
  refine ⟨fun p _ => ?_, fun p _ => ?_, ?_⟩
  · rw [hc, htime]
  · rw [hc, hsaved]
  · rw [hc]
    exact hend

/-- The scheduler leaves states and times alone. -/
theorem accounts_scheduler (s : Kernel) (tod : Word) :
    (s.scheduler tod).accounts.time = s.accounts.time ∧
    (s.scheduler tod).accounts.saved = s.accounts.saved := by
  unfold Kernel.scheduler
  split
  · exact ⟨rfl, rfl⟩
  · split_ifs <;> exact ⟨rfl, rfl⟩

/-- What `scheduler` ends in. -/
theorem ends_scheduler (hc : u.currentProcess = none) (m tod : Word) :
    Ends s (u.scheduler tod) m (.scheduler tod) := by
  intro p hp
  unfold Kernel.scheduler at hp ⊢
  split
  · rename_i q rest hr
    simp only [hr] at hp
    obtain rfl : q = p := Option.some.inj hp
    exact ⟨rfl, rfl⟩
  · rename_i hr
    simp only [hr] at hp
    have hnone : u.currentProcess = some p := by
      split_ifs at hp <;> exact hp
    rw [hc] at hnone
    cases hnone

/-- The process that ran leaves the processor. -/
theorem effected_scheduler {x : Effect} {tod : Word} (hc : s.currentProcess = some cur)
    (hu : u.currentProcess = none) (hacc : u.accounts = s.accounts.after x (some cur))
    (hx : x.ending = .scheduler tod) : Effected s (u.scheduler tod) x fun _ => none := by
  obtain ⟨htime, hsaved⟩ := accounts_scheduler u tod
  refine effected_of_eq hc ?_ ?_ ?_
  · rw [htime, hacc]
  · rw [hsaved, hacc]
  · rw [hx]
    exact ends_scheduler hu _ tod

/-- The process that ran goes on. -/
theorem effected_ldst {x : Effect} {st : State} (hc : s.currentProcess = some cur)
    (hu : u.currentProcess = some cur) (hacc : u.accounts = s.accounts.after x (some cur))
    (hx : x.ending = .ldst st) : Effected s (u.ldst st) x fun _ => none := by
  refine effected_of_eq hc (congrArg Accounts.time hacc) (congrArg Accounts.saved hacc) ?_
  rw [hx]
  exact ⟨hu.trans hc.symm, rfl, congrArg Accounts.mark hacc⟩

/-- `blockCurrentProcess`, after the services that block have saved the state. -/
theorem effected_block {state : State} {tod₀ tod₁ tod₂ : Word} (hc : s.currentProcess = some cur)
    (hacc : u.accounts = (s.accounts.charge cur tod₀).save cur state) (sem : Word) :
    Effected s (u.blockCurrentProcess L cur sem tod₁ tod₂)
      ⟨some tod₁, some state, .scheduler tod₂⟩ fun _ => none := by
  rw [blockCurrentProcess_eq]
  refine effected_scheduler hc rfl ?_ rfl
  rw [accounts_blocked, hacc, Accounts.save_charge, Accounts.charge_charge]
  rfl

/-! ### Every service has its effect -/

/-- Who is killed does not run, and the process that runs runs unless it is killed. -/
theorem current_terminate (h : Sound lossy s) (hc : s.currentProcess = some cur)
    (hl : s.Live target) : (recursiveTerminateProcess L maxProc s target).currentProcess =
      if cur ∈ s.doomed target then none else some cur := by
  have hP : Kills L (fun _ => True) fun u => u.currentProcess = some cur ∨ ¬ u.Live cur := {
    mark := fun _ _ h _ _ _ => h
    detach := fun u p c rest h _ _ hch => h.imp id fun hn hx => hn ((detach_live hch).mp hx)
    bury := fun u p h _ _ _ _ => by
      rcases h with h | h
      · by_cases hp : cur = p
        · exact .inr fun hx => (bury_live.mp hx).1 hp
        · left
          rw [bury_current, h, if_neg fun he => hp (Option.some.inj he)]
      · exact .inr fun hx => h (bury_live.mp hx).2 }
  obtain ⟨hrun, -, -⟩ := terminate_rule hP (h.tree.called (.inl hc)) (fun _ => hl)
    fun _ _ => trivial
  have hlt : s.Named target → s.Live target := fun _ => hl
  obtain ⟨hsv, -, -, hcur⟩ := h.terminate (L := L) hlt
  have hlive := live_terminate (L := L) (h.tree.called (P := fun _ => True) trivial) (fun _ => hl) cur
  have hcl : s.Live cur := (h.links.current hc).1
  split
  · rename_i hd
    refine hcur.resolve_right fun he => ?_
    rw [hc] at he
    exact (hlive.mp (hsv.links.current he).1).2 hd
  · rename_i hd
    exact hrun.resolve_right fun hn => hn (hlive.mpr ⟨hcl, hd⟩)

/-- The PCB of a new process is filled in. -/
theorem accounts_adopt {newPcb : PcbId} {v : Pcbs} (ha : s.toPcbs.allocPcb = some (newPcb, v))
    (cur : PcbId) (f : Pcb → Pcb) : ((s.withPcbs v).adopt cur newPcb f).accounts =
      ⟨Function.update s.accounts.saved newPcb (f { Pcb.zero with p_pid := s.next_pid }).p_s,
        Function.update s.accounts.time newPcb (f { Pcb.zero with p_pid := s.next_pid }).p_time,
        s.accounts.mark⟩ := by
  obtain ⟨-, hold, hnew, -⟩ := Pcbs.allocPcb_some ha
  have hchild : ((s.withPcbs v).adopt cur newPcb f).accounts =
      ((s.withPcbs v).modify newPcb f).accounts := accounts_table rfl fun q => by
    show ((((s.withPcbs v).modify newPcb f).toPcbs.insertChild cur newPcb).pcbFree_table q).p_s = _ ∧
      ((((s.withPcbs v).modify newPcb f).toPcbs.insertChild cur newPcb).pcbFree_table q).p_time = _
    rw [Pcbs.insertChild_table]
    exact ⟨rfl, rfl⟩
  have hnew' : (s.withPcbs v).pcbFree_table newPcb = { Pcb.zero with p_pid := s.next_pid } := hnew
  rw [hchild, accounts_modify, hnew']
  -- the PCBs of the others are as before the allocation
  have hsame : ∀ {β : Type} (T T' : PcbId → β) (x : β), (∀ q, q ≠ newPcb → T q = T' q) →
      Function.update T newPcb x = Function.update T' newPcb x := fun T T' x h => by
    funext q
    by_cases hq : q = newPcb
    · rw [hq, Function.update_self, Function.update_self]
    · rw [Function.update_of_ne hq, Function.update_of_ne hq, h q hq]
  exact accounts_ext (hsame _ _ _ fun q hq => congrArg Pcb.p_s (hold q hq))
    (hsame _ _ _ fun q hq => congrArg Pcb.p_time (hold q hq)) rfl

/-- What most services do first. -/
theorem accounts_save (s : Kernel) (cur : PcbId) (tod : Word) (st : State) :
    ((s.updateCPUTime cur tod).copyState cur st).accounts = (s.accounts.charge cur tod).save cur st := by
  rw [accounts_copyState, accounts_updateCPUTime]

/-- `CREATEPROCESS` that finds a PCB. -/
theorem createProcess_accounts {newPcb : PcbId} {v : Pcbs} (hc : s.currentProcess = some cur)
    (hl : s.Live cur) (ha : s.toPcbs.allocPcb = some (newPcb, v)) (state : State) (i : Inputs) :
    (s.createProcess cur state i).accounts =
      ⟨Function.update (Function.update s.accounts.saved newPcb i.newState) cur
        { state with reg_a0 := s.next_pid }, Function.update s.accounts.time newPcb 0,
        s.accounts.mark⟩ ∧
    (s.createProcess cur state i).currentProcess = some cur ∧
    (s.createProcess cur state i).cpu = .ldst { state with reg_a0 := s.next_pid } := by
  let f : Pcb → Pcb := fun pcb => { pcb with
    p_s := i.newState
    p_supportStruct := state.reg_a3
    p_prio := state.reg_a2.toInt
    p_time := 0
    p_semAdd := 0 }
  have hpid := (adopt_spec (f := f) ha hl fun x => ⟨rfl, rfl, rfl, rfl⟩).pid newPcb
  rw [if_pos rfl] at hpid
  have hacc := accounts_adopt ha cur f
  have heq : s.createProcess cur state i =
      (((s.withPcbs v).adopt cur newPcb f).copyState cur { state with
        reg_a0 := (((s.withPcbs v).adopt cur newPcb f).pcbFree_table newPcb).p_pid }).ldst
          { state with
            reg_a0 := (((s.withPcbs v).adopt cur newPcb f).pcbFree_table newPcb).p_pid } := by
    unfold createProcess
    rw [ha]
    rfl
  rw [heq, hpid]
  have hcu : ((s.withPcbs v).adopt cur newPcb f).currentProcess = some cur := hc
  generalize (s.withPcbs v).adopt cur newPcb f = u at hacc hcu ⊢
  have hsave := accounts_copyState u cur { state with reg_a0 := s.next_pid }
  rw [hacc] at hsave
  exact ⟨hsave, hcu, rfl⟩

section
variable (hs : Sound lossy s) (hc : s.currentProcess = some cur) (state : State) (i : Inputs)
include hs hc

/-- `createProcess` has its effect on the accounts. -/
theorem effected_createProcess :
    Effected s (s.createProcess cur state i) (s.serviceEffect cur state i .createProcess)
      fun _ => none := by
  unfold serviceEffect
  cases ha : s.toPcbs.allocPcb with
  | none =>
      have heq : s.createProcess cur state i = (s.copyState cur { state with reg_a0 := -1 }).ldst
          { state with reg_a0 := -1 } := by
        unfold createProcess
        rw [ha]
      rw [if_pos (Pcbs.allocPcb_none ha), heq]
      exact effected_ldst hc hc (accounts_copyState s cur _) rfl
  | some r =>
      obtain ⟨newPcb, v⟩ := r
      have hfree := (Pcbs.allocPcb_some ha).1
      have hne : s.pcbFree_h ≠ [] := by
        rw [hfree]
        exact List.cons_ne_nil _ _
      have hlive : ∀ p, s.Live p → p ≠ newPcb := by
        intro p hp he
        exact hp (by rw [hfree, he]; exact List.mem_cons_self)
      obtain ⟨hacc, hcu, hcpu⟩ := createProcess_accounts hc (hs.links.current hc).1 ha state i
      have hmark := congrArg Accounts.mark hacc
      rw [if_neg hne]
      -- only the new process differs from the old ones
      refine ⟨fun p hp => ?_, fun p hp => ?_, ?_⟩
      · rw [hacc, hc]
        exact Function.update_of_ne (hlive p hp) ..
      · rw [hacc, hc]
        show Function.update (Function.update s.accounts.saved newPcb _) cur _ p =
          Function.update s.accounts.saved cur _ p
        by_cases hpc : p = cur
        · rw [hpc, Function.update_self, Function.update_self]
        · rw [Function.update_of_ne hpc, Function.update_of_ne hpc,
            Function.update_of_ne (hlive p hp)]
      · rw [hc]
        exact ⟨hcu.trans hc.symm, hcpu, hmark⟩

/-- `terminateProcess` has its effect on the accounts. -/
theorem effected_terminateProcess
    (hl : ∀ target, s.termTarget cur state.reg_a1 = some target → s.Live target) :
    Effected s (s.terminateProcess L cur state i) (s.serviceEffect cur state i .termProcess)
      fun _ => none := by
  have hq := quiet_updateCPUTime s cur (i.tod 0)
  unfold serviceEffect terminateProcess
  dsimp only
  rw [updateCPUTime_target]
  cases ht : s.termTarget cur state.reg_a1 with
  | none => exact effected_ldst hc hc (accounts_updateCPUTime s cur _) rfl
  | some target =>
      have hlt := hl target ht
      have hsu := hs.quiet hq
      have hcu : (s.updateCPUTime cur (i.tod 0)).currentProcess = some cur := hc
      have hcur := current_terminate (L := L) hsu hcu (hq.tree.live.mpr hlt)
      rw [hq.tree.doomed] at hcur
      have hacc := accounts_terminate (L := L) hsu (hq.tree.live.mpr hlt)
      rw [accounts_updateCPUTime] at hacc
      dsimp only
      generalize recursiveTerminateProcess L maxProc (s.updateCPUTime cur (i.tod 0)) target = v
        at hcur hacc
      have hiff : (target = cur ∨ v.currentProcess = none) ↔
          (target = cur ∨ cur ∈ s.doomed target) := by
        rw [hcur]
        by_cases hd : cur ∈ s.doomed target <;> simp [hd]
      simp only [hiff]
      split
      · exact effected_scheduler hc rfl hacc rfl
      · rename_i hor
        refine effected_ldst hc ?_ ?_ rfl
        · show v.currentProcess = _
          rw [hcur, if_neg fun hd => hor (.inr hd)]
        · rw [accounts_copyState, hacc]
          rfl

/-- `verhogen` has its effect on the accounts. -/
theorem effected_verhogen :
    Effected s (s.verhogen cur state i) (s.serviceEffect cur state i .verhogen)
      fun _ => none := by
  have hacc := accounts_save s cur (i.tod 0) state
  have hq := quiet_save s cur (i.tod 0) state
  unfold serviceEffect verhogen
  dsimp only
  generalize (s.updateCPUTime cur (i.tod 0)).copyState cur state = u at hacc hq ⊢
  have hacc' : (u.setMem state.reg_a1 (u.mem state.reg_a1 + 1)).accounts =
      (s.accounts.charge cur (i.tod 0)).save cur state := hacc
  have hcu : (u.setMem state.reg_a1 (u.mem state.reg_a1 + 1)).currentProcess = some cur :=
    hq.current.trans hc
  have hok : (u.setMem state.reg_a1 (u.mem state.reg_a1 + 1)).toAsl.Ok := by
    show u.toAsl.Ok
    rw [hq.asl]
    exact hs.links.asl
  generalize u.setMem state.reg_a1 (u.mem state.reg_a1 + 1) = v at hacc' hcu hok ⊢
  split
  · have hr := accounts_release hok state.reg_a1 id
    have hsame : (v.release state.reg_a1 id).2.accounts = v.accounts := by
      rw [hr]
      split
      · rfl
      · exact accounts_ext (Function.update_eq_self _ _) rfl rfl
    refine effected_ldst hc ?_ (hsame.trans hacc') rfl
    rw [← hcu]
    unfold Kernel.release
    split <;> rfl
  · exact effected_ldst hc hcu hacc' rfl

end

section
variable (hc : s.currentProcess = some cur) (state : State) (i : Inputs)
include hc

/-- `passeren` has its effect on the accounts. -/
theorem effected_passeren :
    Effected s (s.passeren L cur state i) (s.serviceEffect cur state i .passeren)
      fun _ => none := by
  have hacc := accounts_save s cur (i.tod 0) state
  have hm : ((s.updateCPUTime cur (i.tod 0)).copyState cur state).mem = s.mem := rfl
  have hcu : ((s.updateCPUTime cur (i.tod 0)).copyState cur state).currentProcess = some cur := hc
  unfold serviceEffect passeren
  dsimp only
  rw [mem_setMem, hm]
  generalize (s.updateCPUTime cur (i.tod 0)).copyState cur state = u at hacc hcu ⊢
  have hacc' : (u.setMem state.reg_a1 (s.mem state.reg_a1 - 1)).accounts =
      (s.accounts.charge cur (i.tod 0)).save cur state := hacc
  split
  · exact effected_block hc hacc' _
  · exact effected_ldst hc hcu hacc' rfl

/-- `doIO` has its effect on the accounts. -/
theorem effected_doIO :
    Effected s (s.serve L cur state i SysCall.doIO) (s.serviceEffect cur state i SysCall.doIO)
      fun _ => none := by
  have hacc := accounts_save s cur (i.tod 0) state
  unfold serve serviceEffect doIO
  cases semIndex state.reg_a1 with
  | none => exact effected_ldst hc hc rfl rfl
  | some j =>
      dsimp only
      generalize (s.updateCPUTime cur (i.tod 0)).copyState cur state = u at hacc ⊢
      have hacc' : ((u.setMem (L.sem j) (u.mem (L.sem j) - 1)).output
          (.store state.reg_a1 state.reg_a2)).accounts =
          (s.accounts.charge cur (i.tod 0)).save cur state := hacc
      exact effected_block hc hacc' _

theorem effected_getCPUTime :
    Effected s (s.getCPUTime cur state i) (s.serviceEffect cur state i .getTime)
      fun _ => none := by
  have hacc := accounts_updateCPUTime s cur (i.tod 0)
  have htime : ((s.updateCPUTime cur (i.tod 0)).pcbFree_table cur).p_time =
      (s.pcbFree_table cur).p_time + (i.tod 0 - s.start_time_current_quantum) :=
    (congrFun (congrArg Accounts.time hacc) cur).trans (Function.update_self ..)
  unfold serviceEffect getCPUTime
  dsimp only
  rw [htime]
  exact effected_ldst hc hc hacc rfl

theorem effected_waitForClock :
    Effected s (s.waitForClock L cur state i) (s.serviceEffect cur state i .clockWait)
      fun _ => none := by
  have hacc := accounts_save s cur (i.tod 0) state
  unfold serviceEffect waitForClock
  dsimp only
  generalize (s.updateCPUTime cur (i.tod 0)).copyState cur state = u at hacc ⊢
  have hacc' : (u.setMem (L.sem pseudoClock) (u.mem (L.sem pseudoClock) - 1)).accounts =
      (s.accounts.charge cur (i.tod 0)).save cur state := hacc
  exact effected_block hc hacc' _

theorem effected_yield :
    Effected s (s.yield cur state i) (s.serviceEffect cur state i .yield) fun _ => none := by
  have hacc := accounts_save s cur (i.tod 0) state
  unfold serviceEffect yield
  dsimp only
  generalize (s.updateCPUTime cur (i.tod 0)).copyState cur state = u at hacc ⊢
  have hacc' : ({ u.ready cur with currentProcess := none } : Kernel).accounts =
      (s.accounts.charge cur (i.tod 0)).save cur state := hacc
  exact effected_scheduler hc rfl hacc' rfl

end

/-! ### Every exception has its effect -/

/-- Each service has its effect on the accounts. -/
theorem effected_serve (hs : Sound lossy s) (hc : s.currentProcess = some cur) (state : State)
    (i : Inputs) (c : SysCall)
    (hl : c = .termProcess → ∀ target, s.termTarget cur state.reg_a1 = some target → s.Live target) :
    Effected s (s.serve L cur state i c) (s.serviceEffect cur state i c) fun _ => none := by
  cases c with
  | createProcess => exact effected_createProcess hs hc state i
  | termProcess => exact effected_terminateProcess hs hc state i (hl rfl)
  | passeren => exact effected_passeren hc state i
  | verhogen => exact effected_verhogen hs hc state i
  | doIO => exact effected_doIO hc state i
  | getTime => exact effected_getCPUTime hc state i
  | clockWait => exact effected_waitForClock hc state i
  | getSupportPtr => exact effected_ldst hc hc rfl rfl
  | getProcessId => exact effected_ldst hc hc rfl rfl
  | yield => exact effected_yield hc state i

/-- `passUpOrDie` has its effect on the accounts. -/
theorem effected_passUpOrDie (hs : Sound lossy s) (hc : s.currentProcess = some cur) (ty : Fin 2)
    (st : State) (i : Inputs) : Effected s (s.passUpOrDie L cur ty st i.tod)
      (if (s.pcbFree_table cur).p_supportStruct = 0 then
        ⟨some (i.tod 0), none, .scheduler (i.tod 1)⟩ else ⟨none, none, .ldcxt⟩) fun _ => none := by
  have hq := quiet_updateCPUTime s cur (i.tod 0)
  unfold passUpOrDie
  dsimp only
  split
  · have hacc := accounts_terminate (L := L) (hs.quiet hq)
      (hq.tree.live.mpr (hs.links.current hc).1)
    rw [accounts_updateCPUTime] at hacc
    generalize recursiveTerminateProcess L maxProc (s.updateCPUTime cur (i.tod 0)) cur = v at hacc
    exact effected_scheduler hc rfl hacc rfl
  · exact effected_of_eq hc rfl rfl ⟨rfl, ⟨_, rfl⟩, rfl⟩

/-- `trapHandler` has its effect on the accounts. -/
theorem effected_trapHandler (hs : Sound lossy s) (hc : s.currentProcess = some cur)
    (saved : State) (i : Inputs) (hl : service saved = some .termProcess →
      ∀ target, s.termTarget cur saved.reg_a1 = some target → s.Live target) :
    Effected s (s.trapHandler L cur saved i) (s.trapEffect cur saved i) fun _ => none := by
  unfold trapHandler trapEffect
  dsimp only
  by_cases hecall : saved.cause &&& causeExcCodeMask = 8 ∨ saved.cause &&& causeExcCodeMask = 11
  · rw [if_pos hecall]
    unfold service at hl ⊢
    unfold systemCallHandler
    dsimp only
    by_cases h₁ : 1 ≤ saved.reg_a0.toInt
    · rw [if_pos h₁, if_neg fun h => h.2.1 h₁]
      exact effected_passUpOrDie hs hc _ _ i
    · rw [if_neg h₁]
      by_cases h₂ : saved.status &&& mstatusMppMask = mstatusMppU
      · rw [if_pos h₂, if_neg fun h => h.2.2 h₂]
        exact effected_passUpOrDie hs hc _ _ i
      · rw [if_neg h₂, if_pos ⟨hecall, h₁, h₂⟩]
        rw [if_pos ⟨hecall, h₁, h₂⟩] at hl
        cases hcall : sysCall saved.reg_a0.toInt with
        | none => exact effected_passUpOrDie hs hc _ _ i
        | some c => exact effected_serve hs hc _ i c fun he => hl (hcall.trans (congrArg some he))
  · have hnone : service saved = none := if_neg fun h => hecall h.1
    rw [if_neg hecall, hnone]
    exact effected_passUpOrDie hs hc _ _ i

/-- `chargeTime`, while no process runs and while one does. -/
theorem accounts_chargeTime_none (hc : s.currentProcess = none) (tod : Word) :
    (s.chargeTime tod).accounts = { s.accounts with mark := tod } := by
  unfold chargeTime
  rw [hc]
  rfl

theorem accounts_chargeTime_some (hc : s.currentProcess = some cur) (tod : Word) :
    (s.chargeTime tod).accounts = s.accounts.charge cur tod := by
  unfold chargeTime
  rw [hc]
  exact accounts_updateCPUTime s cur tod

/-- No process ran, and the scheduler is called. -/
theorem effected_idle {ans : PcbId → Option Word} {tod₀ tod₁ : Word} (hc : s.currentProcess = none)
    (hu : u.currentProcess = none) (hans : Answered (s.chargeTime tod₀) u ans) :
    Effected s (u.scheduler tod₁) ⟨none, none, .scheduler tod₁⟩ ans := by
  have hacc := accounts_chargeTime_none hc tod₀
  obtain ⟨htime, hsaved⟩ := accounts_scheduler u tod₁
  refine ⟨fun p _ => ?_, fun p _ => ?_, ends_scheduler hu _ _⟩
  · rw [htime, hans.time, hacc, hc]
    rfl
  · rw [hsaved, hans.saved, hacc, hc]
    rfl

/-- The end of an interrupt that is not the end of a time slice. -/
theorem effected_resume {ans : PcbId → Option Word} {saved : State} {i : Inputs}
    (hans : Answered (s.chargeTime (i.tod 0)) u ans) (hcu : u.currentProcess = s.currentProcess)
    (h7 : saved.cause &&& causeExcCodeMask ≠ 7) :
    Effected s (u.resume saved (i.tod 1)) (s.interruptEffect saved i) ans := by
  unfold interruptEffect resume
  rw [hcu]
  cases hc : s.currentProcess with
  | none => exact effected_idle hc (hcu.trans hc) hans
  | some cur =>
      have hacc := accounts_chargeTime_some hc (i.tod 0)
      dsimp only
      rw [if_neg h7]
      refine ⟨fun p _ => ?_, fun p _ => ?_, ?_⟩
      · rw [hc]
        show u.accounts.time p = _
        rw [hans.time, hacc]
        rfl
      · rw [hc]
        show u.accounts.saved p = _
        rw [hans.saved, hacc]
        rfl
      · refine ⟨hcu, rfl, ?_⟩
        show u.accounts.mark = _
        rw [hans.mark, hacc, hc]
        rfl

/-- The end of a time slice has its effect on the accounts. -/
theorem effected_timeSliceEnd {saved : State} {i : Inputs}
    (h7 : saved.cause &&& causeExcCodeMask = 7) :
    Effected s ((s.chargeTime (i.tod 0)).timeSliceEnd saved (i.tod 1)) (s.interruptEffect saved i)
      fun _ => none := by
  have hq := (quiet_chargeTime s (i.tod 0)).current
  unfold interruptEffect timeSliceEnd
  dsimp only
  have hacc : ((s.chargeTime (i.tod 0)).output (.setTimer never)).accounts =
    (s.chargeTime (i.tod 0)).accounts := rfl
  have hcu : ((s.chargeTime (i.tod 0)).output (.setTimer never)).currentProcess =
    s.currentProcess := hq
  generalize (s.chargeTime (i.tod 0)).output (.setTimer never) = u at hacc hcu ⊢
  rw [hcu]
  cases hc : s.currentProcess with
  | none =>
      have hans : Answered (s.chargeTime (i.tod 0)) u fun _ => none :=
        ⟨by rw [hacc], by rw [hacc], fun p => by rw [hacc]⟩
      exact effected_idle hc (hcu.trans hc) hans
  | some cur =>
      dsimp only
      rw [if_pos h7]
      have hsave := accounts_copyState u cur { saved with status := saved.status ||| mstatusMieMask }
      rw [hacc, accounts_chargeTime_some hc] at hsave
      generalize u.copyState cur { saved with status := saved.status ||| mstatusMieMask } = v at hsave
      have hv : ({ v.ready cur with currentProcess := none } : Kernel).accounts =
        (s.accounts.charge cur (i.tod 0)).save cur
          { saved with status := saved.status ||| mstatusMieMask } := hsave
      exact effected_scheduler hc rfl hv rfl

theorem current_release (s : Kernel) (a : Word) (f : State → State) :
    (s.release a f).2.currentProcess = s.currentProcess := by
  unfold Kernel.release
  split <;> rfl

/-- The `V`s leave the process that runs alone. -/
theorem current_wake (L : Layout) (s : Kernel) (j : Fin semDevLen) (v : Word) :
    (s.wake L j v).currentProcess = s.currentProcess := by
  have hr := current_release (s.setMem (L.sem j) (s.mem (L.sem j) + 1)) (L.sem j)
    fun st => { st with reg_a0 := v }
  unfold Kernel.wake
  split
  · split
    · rename_i he
      rw [he] at hr
      exact hr
    · rename_i he
      rw [he] at hr
      exact hr
  · rfl

theorem current_vs {l : List (Fin semDevLen × Word)} (h : Vs L l s t) :
    t.currentProcess = s.currentProcess := by
  induction l generalizing s with
  | nil =>
      obtain ⟨o, rfl⟩ := h
      rfl
  | cons x l ih =>
      obtain ⟨o, h⟩ := h
      exact (ih h).trans (current_wake L _ x.1 x.2)

theorem current_wakeClock (L : Layout) (s : Kernel) (k : ℕ) :
    (s.wakeClock L k).currentProcess = s.currentProcess := by
  refine wakeClock_rule (P := fun u => u.currentProcess = s.currentProcess) (fun u hu => ?_)
    (fun u k hu => hu) rfl k
  exact (current_release u _ _).trans hu

/-- The queues after an interrupt that is none of the timers'. -/
theorem statusOf_resume {l : List (Fin semDevLen × Word)} (hq : Quiet s u) (saved : State)
    (tod : Word) (v : Kernel) : statusOf L l u v = statusOf L l s (v.resume saved tod) := by
  have hv : (v.resume saved tod).toAsl = v.toAsl :=
    (sameSems_resumes (resumes_resume v saved tod)).asl
  have hiff : ∀ a p, Released u v a p ↔ Released s (v.resume saved tod) a p := by
    intro a p
    unfold Released
    rw [hq.asl, hv]
  funext p
  unfold statusOf
  simp only [hiff]

/-- `interruptHandler` has its effect on the accounts. -/
theorem effected_interruptHandler (hs : Sound lossy s) (saved : State) (i : Inputs) :
    Effected s (s.interruptHandler L saved i) (s.interruptEffect saved i) fun p =>
      (s.interruptAct saved i.reg).answer L s (s.interruptHandler L saved i) p := by
  have hq := quiet_chargeTime s (i.tod 0)
  have hsc := hs.quiet hq
  by_cases h7 : saved.cause &&& causeExcCodeMask = 7
  -- the end of a time slice wakes nobody
  · have hans : ∀ t p, (s.interruptAct saved i.reg).answer L s t p = none := by
      intro t p
      unfold interruptAct
      dsimp only
      rw [if_pos h7]
      split <;> rfl
    simp only [hans]
    unfold interruptHandler
    dsimp only
    rw [if_pos h7]
    exact effected_timeSliceEnd h7
  · unfold interruptAct interruptHandler
    dsimp only
    rw [if_neg h7, if_neg h7]
    by_cases h3 : saved.cause &&& causeExcCodeMask = 3
    · rw [if_pos h3, if_pos h3]
      -- the interval timer
      have hsu := hsc.quiet (quiet_output (s.chargeTime (i.tod 0)) (.ldit pSecond))
      have hqueue : ((s.chargeTime (i.tod 0)).output (.ldit pSecond)).queue (L.sem pseudoClock) =
          s.queue (L.sem pseudoClock) := by
        show (s.chargeTime (i.tod 0)).queue (L.sem pseudoClock) = _
        rw [hq.asl]
      have hw := answered_wakeClock hsu
        (Nat.lt_succ_of_le (hsu.links.queue_short (L.sem pseudoClock)))
      simp only [hqueue] at hw
      have hcur := current_wakeClock L ((s.chargeTime (i.tod 0)).output (.ldit pSecond)) (maxProc + 1)
      unfold intervalTimer
      generalize ((s.chargeTime (i.tod 0)).output (.ldit pSecond)).wakeClock L (maxProc + 1) = u
        at hw hcur
      refine effected_resume (u := u.setMem (L.sem pseudoClock) 0) ⟨hw.time, hw.mark, hw.saved⟩ ?_ h7
      exact hcur.trans hq.current
    · rw [if_neg h3, if_neg h3]
      by_cases h17 : (17 : Word) ≤ saved.cause &&& causeExcCodeMask ∧
          saved.cause &&& causeExcCodeMask ≤ 21
      · rw [if_pos h17, if_pos h17]
        -- the devices: their `V`s are on different semaphores
        have hv := vs_deviceInterrupt (L := L) (s := s.chargeTime (i.tod 0))
          ((saved.cause &&& causeExcCodeMask).toNat - 14) i.reg
        have hnodup : ((deviceWakes ((saved.cause &&& causeExcCodeMask).toNat - 14)
            i.reg).map Prod.fst).Nodup := by
          have hact : s.interruptAct saved i.reg = .wake (deviceWakes
              ((saved.cause &&& causeExcCodeMask).toNat - 14) i.reg) := by
            unfold interruptAct
            dsimp only
            rw [if_neg h7, if_neg h3, if_pos h17]
          exact interruptAct_nodup hact
        have hans := answered_vs hsc hv hnodup
        have hcur := (current_vs hv).trans hq.current
        generalize (s.chargeTime (i.tod 0)).deviceInterrupt L _ i.reg = u at hans hcur
        rw [statusOf_resume hq saved (i.tod 1) u] at hans
        exact effected_resume hans hcur h7
      · rw [if_neg h17, if_neg h17]
        exact effected_resume (.refl _) hq.current h7

/-- Only interrupts wake with a status. -/
theorem trap_answer {saved : State} {i : Inputs} (hint : ¬ causeIsInt saved.cause) (p : PcbId) :
    (s.act (.exception saved i)).answer L s t p = none := by
  have hserve : ∀ cur c, (s.serviceAct cur saved c).answer L s t p = none := by
    intro cur c
    cases c <;> unfold serviceAct <;> dsimp only <;> (try split) <;> rfl
  have hfrom := act_from s (.exception saved i)
  generalize s.act (.exception saved i) = x at hfrom
  cases hfrom with
  | interrupt _ hi => exact absurd hi hint
  | nobody => rfl
  | service => exact hserve _ _
  | passUp => split <;> rfl

/-- **Every exception has its effect**, and those an interrupt wakes have their status. -/
theorem effected_step (hs : Sound lossy s) {saved : State} {i : Inputs}
    (hst : s.step L (.exception saved i) = some t) :
    Effected s t (s.effect saved i) fun p => (s.act (.exception saved i)).answer L s t p := by
  by_cases hint : causeIsInt saved.cause
  · obtain rfl := step_interrupt hst hint
    unfold effect act
    dsimp only
    rw [if_pos hint, if_pos hint]
    exact effected_interruptHandler hs saved i
  · obtain ⟨cur, hc, rfl⟩ := step_trap hst hint
    have hkill := fun p hp => hs.kill_live (p := p) (e := .exception saved i) hp
    simp only [trap_answer hint]
    unfold effect
    unfold act at hkill
    dsimp only at hkill
    rw [if_neg hint, hc] at hkill
    rw [if_neg hint, hc]
    refine effected_trapHandler hs hc saved i fun hterm target ht => hkill target ?_
    rw [hterm]
    dsimp only [serviceAct]
    rw [ht]

/-! ### New processes -/

/-- A service that is requested is served. -/
theorem trapHandler_service {saved : State} {c : SysCall} (h : service saved = some c)
    (cur : PcbId) (i : Inputs) :
    s.trapHandler L cur saved i = s.serve L cur (ecallState saved) i c := by
  unfold service at h
  split at h
  · rename_i hcall
    obtain ⟨hecall, h₁, h₂⟩ := hcall
    unfold trapHandler systemCallHandler
    dsimp only
    rw [if_pos hecall, if_neg h₁, if_neg h₂, h]
    rfl
  · cases h

/-- Only `createProcess` creates. -/
theorem act_create {saved : State} {i : Inputs} (h : s.act (.exception saved i) = .create) :
    ¬ causeIsInt saved.cause ∧ service saved = some .createProcess := by
  have hserve : ∀ cur c, s.serviceAct cur saved c = .create → c = .createProcess := by
    intro cur c hc
    cases c <;> unfold serviceAct at hc <;> dsimp only at hc <;> (try split at hc) <;>
      first | rfl | cases hc
  have hfrom := act_from s (.exception saved i)
  generalize s.act (.exception saved i) = x at hfrom h
  cases hfrom with
  | interrupt =>
      rcases s.interruptAct_cases saved i.reg with hi | hi | ⟨l, hi⟩ <;> rw [hi] at h <;> cases h
  | nobody => cases h
  | @service _ cur c _ hint hc hs => exact ⟨hint, by rw [hs, hserve cur c h]⟩
  | passUp => split at h <;> cases h

/-- A new process starts in the state its creator gave, and has not run. -/
theorem born_step (hs : Sound lossy s) {saved : State} {i : Inputs}
    (hst : s.step L (.exception saved i) = some t) (hl : t.Live p) (hn : ¬ s.Live p) :
    s.currentProcess ≠ some p ∧ t.currentProcess = s.currentProcess ∧
      t.accounts.time p = 0 ∧ t.accounts.saved p = i.newState := by
  have htree := hs.treeStep (did_step hst)
  generalize hact : s.act (.exception saved i) = x at htree
  cases htree with
  | same _ _ _ h => exact absurd (h.live.mp hl) hn
  | kill u target hq h =>
      have hkl := hs.kill_live hact
      have hcul := ((hs.quiet hq).terminate (L := L) fun _ => hq.tree.live.mpr hkl).2.1
      exact absurd (hq.tree.live.mp (hcul.live p (h.live.mp hl))) hn
  | create u cur' newPcb hc h ht =>
      obtain ⟨hint, hserv⟩ := act_create hact
      obtain ⟨cur, hc, rfl⟩ := step_trap hst hint
      have hlc := (hs.links.current hc).1
      -- only the new PCB has left the free list
      have hpn : p = newPcb := by
        by_contra hne
        refine hn fun hp => hl ?_
        rw [ht.free]
        rw [h.free] at hp
        exact (List.mem_cons.mp hp).resolve_left hne
      have hpc : p ≠ cur := fun he => hn (he ▸ hlc)
      rw [trapHandler_service hserv] at hl ⊢
      show s.currentProcess ≠ some p ∧ (s.createProcess cur (ecallState saved) i).currentProcess =
        s.currentProcess ∧ (s.createProcess cur (ecallState saved) i).accounts.time p = 0 ∧
        (s.createProcess cur (ecallState saved) i).accounts.saved p = i.newState
      cases ha : s.toPcbs.allocPcb with
      | none =>
          have hnil := Pcbs.allocPcb_none ha
          rw [h.free] at hnil
          cases hnil
      | some r =>
          obtain ⟨newPcb', v⟩ := r
          obtain rfl : newPcb' = newPcb := by
            have hfree := (Pcbs.allocPcb_some ha).1
            rw [h.free] at hfree
            exact (List.cons.inj hfree).1.symm
          obtain ⟨hacc, hcu, -⟩ := createProcess_accounts hc hlc ha (ecallState saved) i
          refine ⟨fun he => hpc (Option.some.inj (he.symm.trans hc)), hcu.trans hc.symm, ?_, ?_⟩
          · rw [hacc, hpn]
            exact Function.update_self ..
          · rw [hacc]
            show Function.update (Function.update s.accounts.saved newPcb' _) cur _ p = _
            rw [Function.update_of_ne hpc, hpn, Function.update_self]

end Kernel

end PandOS
