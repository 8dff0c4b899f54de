import PandOS.Phase2.Kernel

/-!
# Phase 2 — exceptions and system calls

`exception.c` without the TLB refill: the dispatch of an exception and the ten services.  `saved`
is the state at `BIOSDATAPAGE`, and `Inputs` is what the nucleus reads from outside while it
handles the exception: clock readings, the `state_t` at `reg_a1` for `CREATEPROCESS`, `BADVADDR`,
and device registers as the handler finds them.
-/

namespace PandOS

/-- What the nucleus reads while it handles one exception. -/
structure Inputs where
  tod : ℕ → Word
  newState : State
  badVaddr : Word
  reg : Word → Word

/-- The services of the nucleus, -1 to -10. -/
inductive SysCall where
  | createProcess | termProcess | passeren | verhogen | doIO
  | getTime | clockWait | getSupportPtr | getProcessId | yield
  deriving DecidableEq

/-- The service of a code that is not positive. -/
def sysCall (service_code : ℤ) : Option SysCall :=
  if service_code = -1 then some SysCall.createProcess
  else if service_code = -2 then some SysCall.termProcess
  else if service_code = -3 then some SysCall.passeren
  else if service_code = -4 then some SysCall.verhogen
  else if service_code = -5 then some SysCall.doIO
  else if service_code = -6 then some SysCall.getTime
  else if service_code = -7 then some SysCall.clockWait
  else if service_code = -8 then some SysCall.getSupportPtr
  else if service_code = -9 then some SysCall.getProcessId
  else if service_code = -10 then some SysCall.yield
  else none

/-- The service that is requested, if it is requested in kernel mode. -/
def service (saved : State) : Option SysCall :=
  if (saved.cause &&& causeExcCodeMask = 8 ∨ saved.cause &&& causeExcCodeMask = 11) ∧
      ¬ 1 ≤ saved.reg_a0.toInt ∧ ¬ saved.status &&& mstatusMppMask = mstatusMppU then
    sysCall saved.reg_a0.toInt
  else none

/-- A word that can be used as a semaphore: not at NULL, and aligned. -/
def validSem (semAdd : Word) : Prop := semAdd ≠ 0 ∧ semAdd.toNat % wordLen = 0

instance (semAdd : Word) : Decidable (validSem semAdd) := inferInstanceAs (Decidable (_ ∧ _))

/-- The index `doIO` computes for a command address; none outside the device registers. -/
def semIndex (commandAddr : Word) : Option (Fin semDevLen) :=
  if h : startDevReg ≤ commandAddr.toNat ∧ commandAddr.toNat ≤ 0x100002D4 then
    let offset := commandAddr.toNat - startDevReg
    let line := offset / 0x80 + 3
    let dev := offset % 0x80 / 0x10
    some ⟨if line = 7 then (if offset % 0x10 ≥ 8 then 40 + dev else 32 + dev)
      else (line - 3) * 8 + dev, by
        have hs : startDevReg = 0x10000054 := rfl
        have hl : semDevLen = 49 := rfl
        split_ifs <;> omega⟩
  else none

/-- `&deviceSemaphores[48]`, the pseudo-clock. -/
def pseudoClock : Fin semDevLen := ⟨48, by decide⟩

namespace Kernel

variable (L : Layout) (s : Kernel) (cur : PcbId) (state : State) (i : Inputs)

/-! ### The services, of the process `cur` -/

/-- SYS1 -/
def createProcess : Kernel :=
  match s.toPcbs.allocPcb with
  | none =>
      let state := { state with reg_a0 := -1 }
      (s.copyState cur state).ldst state
  | some (newPcb, t) =>
      let s := (s.withPcbs t).modify newPcb fun pcb => { pcb with
        p_s := i.newState
        p_supportStruct := state.reg_a3
        p_prio := state.reg_a2.toInt
        p_time := 0
        p_semAdd := 0 }
      let s := s.withPcbs (s.toPcbs.insertChild cur newPcb)
      let s := { s.ready newPcb with processCount := s.processCount + 1 }
      let state := { state with reg_a0 := (s.pcbFree_table newPcb).p_pid }
      (s.copyState cur state).ldst state

/-- SYS2 -/
def terminateProcess : Kernel :=
  let s := s.updateCPUTime cur (i.tod 0)
  let target := if state.reg_a1 = 0 then some cur
    else s.findInTree maxProc s.rootProcess state.reg_a1
  match target with
  | none => s.ldst state
  | some target =>
      let s := recursiveTerminateProcess L maxProc s target
      if target = cur ∨ s.currentProcess = none then
        { s with currentProcess := none }.scheduler (i.tod 1)
      else (s.copyState cur state).ldst state

/-- SYS3 -/
def passeren : Kernel :=
  let semAdd := state.reg_a1
  let s := (s.updateCPUTime cur (i.tod 0)).copyState cur state
  let s := s.setMem semAdd (s.mem semAdd - 1)
  if (s.mem semAdd).toInt < 0 then s.blockCurrentProcess L cur semAdd (i.tod 1) (i.tod 2)
  else s.ldst state

/-- A process is released from the queue of `semAdd` and becomes ready. -/
def release (semAdd : Word) (f : State → State) : Option PcbId × Kernel :=
  match s.toPhase1.removeBlocked semAdd with
  | (none, t) => (none, { s with toPhase1 := t })
  | (some p, t) =>
      (some p, ({ s with toPhase1 := t }.modify p fun pcb =>
        { pcb with p_semAdd := 0, p_s := f pcb.p_s }).ready p)

/-- SYS4 -/
def verhogen : Kernel :=
  let semAdd := state.reg_a1
  let s := (s.updateCPUTime cur (i.tod 0)).copyState cur state
  let s := s.setMem semAdd (s.mem semAdd + 1)
  let s := if (s.mem semAdd).toInt ≤ 0 then (s.release semAdd id).2 else s
  s.ldst state

/-- SYS5 -/
def doIO : Kernel :=
  match semIndex state.reg_a1 with
  | none => s.ldst { state with reg_a0 := -1 }
  | some j =>
      let s := (s.updateCPUTime cur (i.tod 0)).copyState cur state
      let s := s.setMem (L.sem j) (s.mem (L.sem j) - 1)
      let s := s.output (.store state.reg_a1 state.reg_a2)
      s.blockCurrentProcess L cur (L.sem j) (i.tod 1) (i.tod 2)

/-- SYS6 -/
def getCPUTime : Kernel :=
  let s := s.updateCPUTime cur (i.tod 0)
  s.ldst { state with reg_a0 := (s.pcbFree_table cur).p_time }

/-- SYS7 -/
def waitForClock : Kernel :=
  let s := (s.updateCPUTime cur (i.tod 0)).copyState cur state
  let s := s.setMem (L.sem pseudoClock) (s.mem (L.sem pseudoClock) - 1)
  s.blockCurrentProcess L cur (L.sem pseudoClock) (i.tod 1) (i.tod 2)

/-- SYS8 -/
def getSupportData : Kernel :=
  s.ldst { state with reg_a0 := (s.pcbFree_table cur).p_supportStruct }

/-- SYS9 -/
def getProcessID : Kernel :=
  s.ldst { state with
    reg_a0 :=
      if state.reg_a1 = 0 then (s.pcbFree_table cur).p_pid
      else match (s.pcbFree_table cur).p_parent with
        | some prnt => (s.pcbFree_table prnt).p_pid
        | none => 0 }

/-- SYS10 -/
def yield : Kernel :=
  let s := (s.updateCPUTime cur (i.tod 0)).copyState cur state
  { s.ready cur with currentProcess := none }.scheduler (i.tod 1)

/-! ### Dispatch -/

/-- The `switch` of `systemCallHandler`. -/
def serve : SysCall → Kernel
  | SysCall.createProcess => s.createProcess cur state i
  | SysCall.termProcess => s.terminateProcess L cur state i
  | SysCall.passeren => s.passeren L cur state i
  | SysCall.verhogen => s.verhogen cur state i
  | SysCall.doIO => doIO L s cur state i
  | SysCall.getTime => s.getCPUTime cur state i
  | SysCall.clockWait => s.waitForClock L cur state i
  | SysCall.getSupportPtr => s.getSupportData cur state
  | SysCall.getProcessId => s.getProcessID cur state
  | SysCall.yield => s.yield cur state i

/-- `systemCallHandler`. -/
def systemCallHandler : Kernel :=
  let service_code := state.reg_a0.toInt
  if 1 ≤ service_code then s.passUpOrDie L cur generalExcept state i.tod
  else if state.status &&& mstatusMppMask = mstatusMppU then
    s.passUpOrDie L cur generalExcept
      { state with cause := state.cause &&& ~~~getExecCode ||| privInstr <<< causeShift } i.tod
  else
    match sysCall service_code with
    | some c => s.serve L cur state i c
    | none => s.passUpOrDie L cur generalExcept state i.tod

/-- `exceptionHandler`, for an exception that is no interrupt. -/
def trapHandler : Kernel :=
  let excCode := state.cause &&& causeExcCodeMask
  if excCode = 8 ∨ excCode = 11 then
    s.systemCallHandler L cur { state with
      pc_epc := state.pc_epc + BitVec.ofNat 32 wordLen
      cause := 11 } i
  else
    s.passUpOrDie L cur (if kuseg ≤ i.badVaddr.toNat then pgFaultExcept else generalExcept) state
      i.tod

end Kernel

end PandOS
