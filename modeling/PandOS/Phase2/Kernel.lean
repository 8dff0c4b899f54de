import Mathlib.Algebra.Group.Nat.Defs
import PandOS.Phase1.Asl

/-!
# Phase 2 — the state of the nucleus, its utilities and the scheduler

The global variables of `initial.c` over the data of Phase 1, with `functions.c`, `scheduler.c`
and `initKernel`.  `mem` holds the words processes use as semaphores, `deviceSemaphores` among
them at the address the `Layout` gives; `support` the support structures; `out` what the nucleus
has written to device registers and timers, in order.

The nucleus runs with interrupts off and never returns: it ends in `LDST`, `LDCXT`, `WAIT`, `HALT`
or `PANIC`, and `cpu` says in which.  `tod k` is the `k`-th reading of the TOD clock while one
exception is handled.  The two recursions over the process tree take the depth they may go down
to, which `MAXPROC` bounds.
-/

namespace PandOS

/-- `context_t`. -/
structure Context where
  stackPtr : Word
  status : Word
  pc : Word

/-- The fields of `support_t` the nucleus uses, indexed by `PGFAULTEXCEPT` and `GENERALEXCEPT`. -/
structure SupportT where
  sup_exceptState : Fin 2 → State
  sup_exceptContext : Fin 2 → Context

/-- `PGFAULTEXCEPT`. -/
def pgFaultExcept : Fin 2 := 0
/-- `GENERALEXCEPT`. -/
def generalExcept : Fin 2 := 1

/-- What the processor does once the nucleus has handled an exception. -/
inductive Cpu where
  | ldst (st : State)
  | ldcxt (c : Context)
  | wait
  | halt
  | panic
  /-- `scheduler` falls through its tests. -/
  | ret

/-- A word written to a device register, or a timer set. -/
inductive Output where
  | store (addr value : Word)
  | setTimer (t : Word)
  | ldit (t : Word)
  deriving DecidableEq

/-- The address of `deviceSemaphores`. -/
structure Layout where
  deviceSemaphores : Word
  pos : 0 < deviceSemaphores.toNat
  fits : deviceSemaphores.toNat + wordLen * semDevLen ≤ 2 ^ 32
  aligned : deviceSemaphores.toNat % wordLen = 0

/-- `&deviceSemaphores[i]`. -/
def Layout.sem (L : Layout) (i : Fin semDevLen) : Word :=
  L.deviceSemaphores + BitVec.ofNat 32 (wordLen * i.val)

/-- The nucleus. -/
structure Kernel extends Phase1 where
  processCount : ℤ
  softBlockCount : ℤ
  readyQueue : List PcbId
  currentProcess : Option PcbId
  start_time_current_quantum : Word
  rootProcess : PcbId
  mem : Word → Word
  support : Word → SupportT
  out : List Output
  cpu : Cpu

/-- `isSoftBlockSemaphore`. -/
def isSoftBlockSemaphore (L : Layout) (semAdd : Word) : Prop :=
  L.deviceSemaphores.toNat ≤ semAdd.toNat ∧
    semAdd.toNat < L.deviceSemaphores.toNat + wordLen * semDevLen

instance (L : Layout) (semAdd : Word) : Decidable (isSoftBlockSemaphore L semAdd) :=
  inferInstanceAs (Decidable (_ ∧ _))

namespace Kernel

/-! ### Access -/

/-- The PCBs are replaced. -/
def withPcbs (s : Kernel) (t : Pcbs) : Kernel :=
  { s with toPhase1 := { s.toPhase1 with toPcbs := t } }

/-- The PCB `p` is rewritten. -/
def modify (s : Kernel) (p : PcbId) (f : Pcb → Pcb) : Kernel :=
  s.withPcbs (s.toPcbs.modify p f)

theorem modify_self (s : Kernel) (p : PcbId) (f : Pcb → Pcb) :
    (s.modify p f).pcbFree_table p = f (s.pcbFree_table p) := Function.update_self ..

theorem modify_of_ne {q p : PcbId} (h : q ≠ p) (s : Kernel) (f : Pcb → Pcb) :
    (s.modify p f).pcbFree_table q = s.pcbFree_table q := Function.update_of_ne h ..

/-- The word at `a` is written. -/
def setMem (s : Kernel) (a v : Word) : Kernel := { s with mem := Function.update s.mem a v }

/-- A device register or a timer is written. -/
def output (s : Kernel) (o : Output) : Kernel := { s with out := s.out ++ [o] }

/-- `copyState(&p->p_s, st)`. -/
def copyState (s : Kernel) (p : PcbId) (st : State) : Kernel :=
  s.modify p fun pcb => { pcb with p_s := st }

/-- `insertProcQ(&readyQueue, p)`. -/
def ready (s : Kernel) (p : PcbId) : Kernel :=
  { s with readyQueue := s.insertProcQ s.readyQueue p }

/-- `LDST(st)`. -/
def ldst (s : Kernel) (st : State) : Kernel := { s with cpu := .ldst st }

/-! ### The scheduler -/

/-- `scheduler`. -/
def scheduler (s : Kernel) (tod : Word) : Kernel :=
  match s.readyQueue with
  | p :: rest =>
      ({ s with
        readyQueue := rest
        currentProcess := some p
        start_time_current_quantum := tod }.output (.setTimer timeSlice)).ldst
          (s.pcbFree_table p).p_s
  | [] =>
      if s.processCount = 0 then { s with cpu := .halt }
      else if 0 < s.processCount ∧ 0 < s.softBlockCount then { s with cpu := .wait }
      else if 0 < s.processCount ∧ s.softBlockCount = 0 then { s with cpu := .panic }
      else { s with cpu := .ret }

/-! ### Utilities -/

/-- `updateCPUTime`. -/
def updateCPUTime (s : Kernel) (p : PcbId) (tod : Word) : Kernel :=
  { s.modify p fun pcb =>
      { pcb with p_time := pcb.p_time + (tod - s.start_time_current_quantum) } with
    start_time_current_quantum := tod }

/-- `blockCurrentProcess`, of the process `cur`; `insertBlocked`'s result is not looked at. -/
def blockCurrentProcess (L : Layout) (s : Kernel) (cur : PcbId) (sem : Word) (tod₁ tod₂ : Word) :
    Kernel :=
  let s := (s.updateCPUTime cur tod₁).modify cur fun pcb => { pcb with p_semAdd := sem }
  let s := if isSoftBlockSemaphore L sem then { s with softBlockCount := s.softBlockCount + 1 } else s
  let s := { s with toPhase1 := (s.toPhase1.insertBlocked sem cur).2 }
  { s with currentProcess := none }.scheduler tod₂

/-- `findInTree`, to depth `f`. -/
def findInTree (s : Kernel) : ℕ → PcbId → Word → Option PcbId
  | 0, _, _ => none
  | f + 1, node, pid =>
      if (s.pcbFree_table node).p_pid.toInt < 0 then none
      else if (s.pcbFree_table node).p_pid = pid then some node
      else (s.pcbFree_table node).p_child.findSome? fun child => s.findInTree f child pid

/-- `recursiveTerminateProcess`: the semaphore `target` is blocked on. -/
def leaveSemaphore (L : Layout) (s : Kernel) (target : PcbId) : Kernel :=
  let semAdd := (s.pcbFree_table target).p_semAdd
  if semAdd = 0 then s
  else
    match s.toPhase1.outBlocked target with
    | (none, t) => { s with toPhase1 := t }
    | (some _, t) =>
        if isSoftBlockSemaphore L semAdd then
          { s with toPhase1 := t, softBlockCount := s.softBlockCount - 1 }
        else { s with toPhase1 := t }.setMem semAdd (s.mem semAdd + 1)

/-- `recursiveTerminateProcess`: what follows the semaphore. -/
def discard (s : Kernel) (target : PcbId) : Kernel :=
  { s.withPcbs ((s.toPcbs.outChild target).freePcb target) with
    readyQueue := (Pcbs.outProcQ s.readyQueue target).2
    currentProcess := if s.currentProcess = some target then none else s.currentProcess
    processCount := s.processCount - 1 }

/-- `while ((child = removeChild(target)) != NULL) kill(child)`, `k` times at most. -/
def killChildren (kill : Kernel → PcbId → Kernel) (target : PcbId) : ℕ → Kernel → Kernel
  | 0, s => s
  | k + 1, s =>
      match s.toPcbs.removeChild target with
      | (none, _) => s
      | (some child, t) => killChildren kill target k (kill (s.withPcbs t) child)

/-- `recursiveTerminateProcess`, to depth `f`. -/
def recursiveTerminateProcess (L : Layout) : ℕ → Kernel → PcbId → Kernel
  | 0, s, _ => s
  | f + 1, s, target =>
      if (s.pcbFree_table target).p_pid.toInt < 0 then s
      else
        let s := s.modify target fun pcb => { pcb with p_pid := -1 }
        let s := killChildren (recursiveTerminateProcess L f) target maxProc s
        (s.leaveSemaphore L target).discard target

/-- `passUpOrDie`, of the process `cur`. -/
def passUpOrDie (L : Layout) (s : Kernel) (cur : PcbId) (exceptionType : Fin 2) (st : State)
    (tod : ℕ → Word) : Kernel :=
  let sup := (s.pcbFree_table cur).p_supportStruct
  if sup = 0 then
    { recursiveTerminateProcess L maxProc (s.updateCPUTime cur (tod 0)) cur with
      currentProcess := none }.scheduler (tod 1)
  else
    { s with
      support := Function.update s.support sup { s.support sup with
        sup_exceptState := Function.update (s.support sup).sup_exceptState exceptionType st }
      cpu := .ldcxt ((s.support sup).sup_exceptContext exceptionType) }

/-! ### The first state -/

/-- The first process: `test`, in kernel mode. -/
def initState (test ramtop : Word) : State :=
  { State.zero with
    mie := mieAll
    status := mstatusMpieMask ||| mstatusMppM ||| mstatusMieMask
    pc_epc := test
    reg_sp := ramtop }

/-- `initKernel` before the first process. -/
def initGlobals (mem : Word → Word) (support : Word → SupportT) : Kernel where
  toPcbs := initPcbs
  toAsl := initASL
  processCount := 0
  softBlockCount := 0
  readyQueue := []
  currentProcess := none
  start_time_current_quantum := 0
  rootProcess := ⟨0, by decide⟩
  mem := mem
  support := support
  out := [.ldit pSecond]
  cpu := .ret

/-- `initKernel`; memory beyond the globals is arbitrary. -/
def initKernel (L : Layout) (mem : Word → Word) (support : Word → SupportT) (test ramtop : Word)
    (tod : Word) : Kernel :=
  let mem a := if isSoftBlockSemaphore L a then 0 else mem a
  let s := initGlobals mem support
  match s.toPcbs.allocPcb with
  | none => s
  | some (initProcess, t) =>
      let s := { s.withPcbs t with rootProcess := initProcess }.copyState initProcess
        (initState test ramtop)
      { s.ready initProcess with processCount := s.processCount + 1 }.scheduler tod

end Kernel

end PandOS
