import PandOS.Phase3.Pager

/-!
# Phase 3 — the Support Level

The whole Support Level over the pager machine: `test`, the general exception handler with its
four services, and the semaphores of `initProc.c`.  A U-proc stands at one statement of
`supportGeneralExHandler` or of the service it called (`GenPc`); while it touches user memory
from there it may enter the pager, so its place in the handler and its place in the pager are
kept side by side.

`Support.step` is one step of one process, of `test`, or of a device.  A statement is what lies
between two system calls; processes are interleaved at will between statements, as the timer
may, and a process in a semaphore's queue takes no step.  `Support.boot` is the state in which
`test` calls `launchUproc(1)`.
-/

namespace PandOS

/-! ### Words and bytes of user memory -/

/-- The page, word and byte a user address names; none where no page-table entry has its VPN. -/
def userAddr (addr : Word) : Option (PageNo × Fin (pageSize / wordLen) × Fin wordLen) :=
  ((List.finRange maxPages).find? fun p => vpn p = addr.toNat / pageSize).map fun p =>
    (p, ⟨addr.toNat % pageSize / wordLen, by unfold pageSize wordLen; omega⟩,
      ⟨addr.toNat % wordLen, Nat.mod_lt _ (by decide)⟩)

/-- Byte `b` of a word, the lowest first. -/
def byteOf (w : Word) (b : Fin wordLen) : BitVec 8 := (w >>> (8 * b.val)).setWidth 8

/-- A word with byte `b` replaced. -/
def withByte (w : Word) (b : Fin wordLen) (c : BitVec 8) : Word :=
  w &&& ~~~((0xFF : Word) <<< (8 * b.val)) ||| c.setWidth 32 <<< (8 * b.val)

/-! ### Places in the handler -/

/-- `sys4_writeTerminal`, from its `P` on: `i` characters are written, `a0` is the value to
return. -/
inductive Sys4Pc where
  | acquire
  | load (i : ℕ)
  | command (i : ℕ) (c : BitVec 8)
  | busy (i : ℕ)
  | release (a0 : Word)
  deriving DecidableEq

/-- `sys5_readTerminal`, from its `P` on: `i` characters are in the buffer. -/
inductive Sys5Pc where
  | acquire
  | command (i : ℕ)
  | busy (i : ℕ)
  | store (i : ℕ) (c : BitVec 8)
  | release (a0 : Word)
  deriving DecidableEq

/-- `sys6_execute`, from `initSupportStruct` on. -/
inductive Sys6Pc where
  | init (asid : Asid) (i : ℕ)
  | create (asid : Asid)
  | wait
  deriving DecidableEq

/-- The statement of the general exception handler a U-proc is at. -/
inductive GenPc where
  /-- In user mode. -/
  | user
  /-- `supportGeneralExHandler`, up to the service. -/
  | handler
  | sys4 (pc : Sys4Pc)
  | sys5 (pc : Sys5Pc)
  | sys6 (pc : Sys6Pc)
  /-- `LDST(saved)`. -/
  | ldst
  /-- `V(masterSemaphore)` or `V(shellSemaphore)` of `programTrapHandler`, `sys2_terminate` or
  `fatalFault`. -/
  | signal
  /-- `TERMPROCESS`. -/
  | term
  deriving DecidableEq

/-- The statement of `test`. -/
inductive TestPc where
  | init (i : ℕ)
  | create
  | wait
  | term
  | done
  deriving DecidableEq

/-- The registers the handler uses of `sup_exceptState[GENERALEXCEPT]`. -/
structure Saved where
  cause : Word
  reg_a0 : Word
  reg_a1 : Word
  reg_a2 : Word
  deriving DecidableEq

/-- `EXC_ECU`, an `ecall` in user mode. -/
def excEcu : Word := 8
/-- `EXC_ECM`, an `ecall` in machine mode. -/
def excEcm : Word := 11
/-- `TERMINATE`, the number of SYS2. -/
def terminate : Word := 2
/-- `WRITETERMINAL`, the number of SYS4. -/
def writeTerminal : Word := 4
/-- `READTERMINAL`, the number of SYS5. -/
def readTerminal : Word := 5
/-- `EXECUTE`, the number of SYS6. -/
def execute : Word := 6

/-- The cause `systemCallHandler` passes up with an `ecall` made in user mode: a service below 1
is a privileged instruction. -/
def ecallCause (a0 : Word) : Word :=
  if 1 ≤ a0.toInt then excEcm else excEcm &&& ~~~getExecCode ||| privInstr <<< causeShift

/-- The cause of an `ecall`. -/
def isEcall (cause : Word) : Prop :=
  cause &&& causeExcCodeMask = excEcu ∨ cause &&& causeExcCodeMask = excEcm

instance (cause : Word) : Decidable (isEcall cause) := inferInstanceAs (Decidable (_ ∨ _))

/-- An ASID in `2..UPROCMAX`. -/
def childAsid (x : ℤ) : Option Asid :=
  if h : 2 ≤ x ∧ x ≤ uprocMax then some ⟨x.toNat, by omega⟩ else none

/-- `sys4_writeTerminal` up to its `P`. -/
def sys4_writeTerminal (sv : Saved) : GenPc :=
  if sv.reg_a2.toInt < 0 ∨ maxStringLen < sv.reg_a2.toInt ∨ sv.reg_a1.toNat < kuseg then .signal
  else .sys4 .acquire

/-- `sys5_readTerminal` up to its `P`. -/
def sys5_readTerminal (sv : Saved) : GenPc :=
  if sv.reg_a1.toNat < kuseg then .signal else .sys5 .acquire

/-- `sys6_execute` up to `initSupportStruct`, with the new `reg_a0`. -/
def sys6_execute (a : Asid) (sv : Saved) : GenPc × Word :=
  if a ≠ .shell then (.signal, sv.reg_a0)
  else match childAsid sv.reg_a1.toInt with
    | some asid => (.sys6 (.init asid 0), sv.reg_a0)
    | none => (.ldst, -1)

/-- `syscallHandler`. -/
def syscallHandler (a : Asid) (sv : Saved) : GenPc × Word :=
  if sv.reg_a0 = terminate then (.signal, sv.reg_a0)
  else if sv.reg_a0 = writeTerminal then (sys4_writeTerminal sv, sv.reg_a0)
  else if sv.reg_a0 = readTerminal then (sys5_readTerminal sv, sv.reg_a0)
  else if sv.reg_a0 = execute then sys6_execute a sv
  else (.signal, sv.reg_a0)

/-- `supportGeneralExHandler`. -/
def supportGeneralExHandler (a : Asid) (sv : Saved) : GenPc × Word :=
  if isEcall sv.cause then syscallHandler a sv
  else (.signal, sv.reg_a0)

/-- The loop head of `sys4_writeTerminal`. -/
def sys4Loop (sv : Saved) (i : ℕ) : GenPc :=
  if (i : ℤ) < sv.reg_a2.toInt then .sys4 (.load i) else .sys4 (.release (BitVec.ofNat 32 i))

/-- The loop head of `sys5_readTerminal`, after `c` if a character was read. -/
def sys5Loop (i : ℕ) (c : Option (BitVec 8)) : GenPc :=
  if c = some 10 ∨ maxStringLen ≤ i then .sys5 (.release (BitVec.ofNat 32 i))
  else .sys5 (.command i)

/-! ### The state -/

/-- The Support Level: the memory half, where each process is in the general handler and who created
it, the saved registers of each support structure, `test`, and terminal 0 with its mutexes. -/
structure Support (n : ℕ) where
  vm : VM n
  pc : Pid → GenPc
  parent : Pid → Pid
  saved : Asid → Saved
  testPc : TestPc
  masterSemaphore : Sem Pid
  shellSemaphore : Sem Pid
  termMutexTX : Sem Pid
  termMutexRX : Sem Pid
  /-- `transm_command` and `recv_command` of terminal 0. -/
  transmCommand : Word
  recvCommand : Word

/-- What can happen next. -/
inductive SupportEvent (n : ℕ) where
  /-- The next statement of `test`. -/
  | test
  /-- A memory access, a TLB refill, a page fault, a statement of the pager, a flash device. -/
  | mem (e : VmEvent n)
  /-- `q` executes `ecall` with these registers. -/
  | ecall (q : Pid) (a0 a1 a2 : Word)
  /-- Another exception of `q`, passed up to the general handler. -/
  | trap (q : Pid) (cause : Word)
  /-- The next statement of the general handler of `q`. -/
  | handler (q : Pid)
  /-- `CREATEPROCESS` by `q` finds no free PCB. -/
  | noPcb (q : Pid)
  /-- The terminal operation `q` waits for completes with `status`. -/
  | termDone (q : Pid) (status : Word)

namespace Support

variable {n : ℕ}

/-- Process `q` goes on at `g`. -/
def setPc (s : Support n) (q : Pid) (g : GenPc) : Support n :=
  { s with pc := Function.update s.pc q g }

/-- The registers in the support structure of `a` are written. -/
def setSaved (s : Support n) (a : Asid) (sv : Saved) : Support n :=
  { s with saved := Function.update s.saved a sv }

/-- The saved `reg_a0` of `a` is written. -/
def setA0 (s : Support n) (a : Asid) (a0 : Word) : Support n :=
  s.setSaved a { s.saved a with reg_a0 := a0 }

/-- In a semaphore's queue. -/
def blocked (s : Support n) (q : Pid) : Prop :=
  q ∈ s.masterSemaphore.queue ∨ q ∈ s.shellSemaphore.queue ∨ q ∈ s.termMutexTX.queue ∨
    q ∈ s.termMutexRX.queue ∨ s.vm.blocked q

instance (s : Support n) (q : Pid) : Decidable (s.blocked q) :=
  inferInstanceAs (Decidable (_ ∨ _))

/-! ### Memory -/

/-- The user address the handler of `q`, of ASID `a`, touches next. -/
def target (s : Support n) (q : Pid) (a : Asid) : Option Word :=
  match s.pc q with
  | .sys4 (.load i) => some ((s.saved a).reg_a1 + BitVec.ofNat 32 i)
  | .sys5 (.store i _) => some ((s.saved a).reg_a1 + BitVec.ofNat 32 i)
  | _ => none

/-- The page of that address. -/
def targetPage (s : Support n) (q : Pid) : Option PageNo :=
  (s.vm.proc q).bind fun pr => (s.target q pr.asid).bind fun addr => (userAddr addr).map Prod.fst

/-- The next access of `q` may be to page `p`. -/
def mayTouch (s : Support n) (q : Pid) (p : PageNo) : Prop :=
  s.pc q = .user ∨ s.targetPage q = some p

instance (s : Support n) (q : Pid) (p : PageNo) : Decidable (s.mayTouch q p) :=
  inferInstanceAs (Decidable (_ ∨ _))

/-- A process that dies in the pager goes on with `fatalFault`. -/
def withVm (s : Support n) (q : Pid) (t : VM n) : Support n :=
  match t.proc q with
  | some ⟨_, .dying⟩ => { s with vm := t, pc := Function.update s.pc q .signal }
  | _ => { s with vm := t }

/-- A memory step. -/
def memStep (s : Support n) : VmEvent n → Option (Support n)
  | .load q a p w v =>
      (s.vm.step (.load q a p w v)).bind fun t =>
        match s.pc q with
        | .user => some { s with vm := t }
        | .sys4 (.load i) => (s.target q a).bind fun addr => (userAddr addr).bind fun x =>
            if x.1 = p ∧ x.2.1 = w then
              some ({ s with vm := t }.setPc q (.sys4 (.command i (byteOf v x.2.2))))
            else none
        | _ => none
  | .store q a p w v =>
      (s.vm.step (.store q a p w v)).bind fun t =>
        match s.pc q with
        | .user => some { s with vm := t }
        | .sys5 (.store i c) => (s.target q a).bind fun addr => (userAddr addr).bind fun x =>
            if x.1 = p ∧ x.2.1 = w ∧
                (s.vm.accessStore (a, p)).map (fun k => withByte (s.vm.frame k w) x.2.2 c) = some v
            then some ({ s with vm := t }.setPc q (sys5Loop (i + 1) (some c)))
            else none
        | _ => none
  | .refill q entryHi slot =>
      if ∃ p ∈ pageOf entryHi, s.mayTouch q p then
        (s.vm.step (.refill q entryHi slot)).map fun t => { s with vm := t }
      else none
  | .fault q entryHi cause =>
      if ∃ p ∈ pageOf entryHi, s.mayTouch q p then
        (s.vm.step (.fault q entryHi cause)).map (s.withVm q)
      else none
  | .pager q => (s.vm.step (.pager q)).map (s.withVm q)
  | .flashDone q status junk =>
      (s.vm.step (.flashDone q status junk)).map fun t => { s with vm := t }
  | _ => none

/-! ### Processes -/

/-- `CREATEPROCESS` by `q` of a U-proc with the support structure of `a`. -/
def createProc (s : Support n) (q : Pid) (a : Asid) : Support n :=
  { s with
    vm := s.vm.createProc a
    pc := Function.update s.pc s.vm.nextPid .user
    parent := Function.update s.parent s.vm.nextPid q }

/-- `q'` is `q` or descends from it. -/
def descends (s : Support n) (q q' : Pid) : Prop := ∃ i < s.vm.nextPid + 1, s.parent^[i] q' = q

instance (s : Support n) (q q' : Pid) : Decidable (s.descends q q') :=
  inferInstanceAs (Decidable (∃ _ < _, _))

/-- `q` and its progeny, alive. -/
def progeny (s : Support n) (q : Pid) : List Pid :=
  (List.range s.vm.nextPid).filter fun q' => (s.vm.proc q').isSome ∧ s.descends q q'

/-- `TERMPROCESS` removes one process; if it is blocked, its semaphore gets the token back. -/
def remove (s : Support n) (q : Pid) : Support n :=
  { s with
    vm := { s.vm with
      proc := Function.update s.vm.proc q none
      swapPoolSem := s.vm.swapPoolSem.drop q
      flashMutex := fun d => (s.vm.flashMutex d).drop q }
    masterSemaphore := s.masterSemaphore.drop q
    shellSemaphore := s.shellSemaphore.drop q
    termMutexTX := s.termMutexTX.drop q
    termMutexRX := s.termMutexRX.drop q }

/-- `TERMPROCESS` of `q`. -/
def terminate (s : Support n) (q : Pid) : Support n := (s.progeny q).foldl remove s

/-! ### The handler -/

/-- A statement of `sys4_writeTerminal`. -/
def sys4Step (s : Support n) (q : Pid) (a : Asid) : Sys4Pc → Option (Support n)
  | .acquire => some ({ s with termMutexTX := s.termMutexTX.P q }.setPc q (sys4Loop (s.saved a) 0))
  | .command i c => some ({ s with transmCommand := c.setWidth 32 <<< 8 ||| transmitChar }.setPc q
      (.sys4 (.busy i)))
  | .release a0 =>
      some (({ s with termMutexTX := s.termMutexTX.V }.setA0 a a0).setPc q .ldst)
  | _ => none

/-- A statement of `sys5_readTerminal`. -/
def sys5Step (s : Support n) (q : Pid) (a : Asid) : Sys5Pc → Option (Support n)
  | .acquire => some ({ s with termMutexRX := s.termMutexRX.P q }.setPc q (sys5Loop 0 none))
  | .command i => some ({ s with recvCommand := receiveChar }.setPc q (.sys5 (.busy i)))
  | .release a0 =>
      some (({ s with termMutexRX := s.termMutexRX.V }.setA0 a a0).setPc q .ldst)
  | _ => none

/-- A statement of `sys6_execute`. -/
def sys6Step (s : Support n) (q : Pid) : Sys6Pc → Option (Support n)
  | .init asid i =>
      if h : i < maxPages then
        some ({ s with vm := s.vm.initPte (asid, ⟨i, h⟩) }.setPc q (.sys6 (.init asid (i + 1))))
      else some (s.setPc q (.sys6 (.create asid)))
  | .create asid => some ((s.createProc q asid).setPc q (.sys6 .wait))
  | .wait => some ({ s with shellSemaphore := s.shellSemaphore.P q }.setPc q .ldst)

/-- The `V` before `TERMPROCESS`: of `test`'s semaphore by the shell, else of the shell's. -/
def signal (s : Support n) (a : Asid) : Support n :=
  if a = .shell then { s with masterSemaphore := s.masterSemaphore.V }
  else { s with shellSemaphore := s.shellSemaphore.V }

/-- The next statement of the general handler of `q`, of ASID `a`. -/
def handlerStep (s : Support n) (q : Pid) (a : Asid) : GenPc → Option (Support n)
  | .handler =>
      match supportGeneralExHandler a (s.saved a) with
      | (.signal, _) => some ({ s with vm := s.vm.goto q a .dying }.setPc q .signal)
      | (g, a0) => some ((s.setA0 a a0).setPc q g)
  | .sys4 pc => s.sys4Step q a pc
  | .sys5 pc => s.sys5Step q a pc
  | .sys6 pc => s.sys6Step q pc
  | .ldst => some (s.setPc q .user)
  | _ => none

/-- A terminal operation completes. -/
def termDone (s : Support n) (q : Pid) (a : Asid) (status : Word) : Option (Support n) :=
  match s.pc q with
  | .sys4 (.busy i) =>
      some (s.setPc q (if status &&& 0xFF ≠ okCharTrans then .sys4 (.release (-status))
        else sys4Loop (s.saved a) (i + 1)))
  | .sys5 (.busy i) =>
      some (s.setPc q (if status &&& 0xFF ≠ recvd then .sys5 (.release (-status))
        else .sys5 (.store i ((status >>> 8).setWidth 8))))
  | _ => none

/-! ### `test` -/

/-- The next statement of `test`. -/
def testStep (s : Support n) : Option (Support n) :=
  match s.testPc with
  | .init i =>
      if h : i < maxPages then
        some { s with vm := s.vm.initPte (.shell, ⟨i, h⟩), testPc := .init (i + 1) }
      else some { s with testPc := .create }
  | .create => some { s.createProc 0 .shell with testPc := .wait }
  | .wait => some { s with masterSemaphore := s.masterSemaphore.P 0, testPc := .term }
  | .term => if 0 ∈ s.masterSemaphore.queue then none else some { s.terminate 0 with testPc := .done }
  | .done => none

/-! ### The machine -/

/-- The process whose statement a memory event is; a device's completion is nobody's. -/
def actor : VmEvent n → Option Pid
  | .load q _ _ _ _ | .store q _ _ _ _ | .refill q _ _ | .fault q _ _ | .pager q => some q
  | _ => none

/-- One step. -/
def step (s : Support n) : SupportEvent n → Option (Support n)
  | .test => s.testStep
  | .mem e => if ∃ q ∈ actor e, s.blocked q then none else s.memStep e
  | .ecall q a0 a1 a2 =>
      match s.vm.proc q, s.pc q with
      | some ⟨a, .run⟩, .user =>
          some ((s.setSaved a ⟨ecallCause a0, a0, a1, a2⟩).setPc q .handler)
      | _, _ => none
  | .trap q cause =>
      match s.vm.proc q, s.pc q with
      | some ⟨a, .run⟩, .user =>
          if isEcall cause then none
          else some ((s.setSaved a { s.saved a with cause := cause }).setPc q .handler)
      | _, _ => none
  | .handler q =>
      if s.blocked q then none
      else match s.vm.proc q, s.pc q with
        | some ⟨a, .dying⟩, .signal => some ((s.signal a).setPc q .term)
        | some _, .term => some (s.terminate q)
        | some ⟨a, .run⟩, g => s.handlerStep q a g
        | _, _ => none
  | .noPcb q =>
      if s.blocked q then none
      else match s.vm.proc q, s.pc q with
        | some ⟨_, .run⟩, .sys6 (.create _) => some (s.setPc q (.sys6 .wait))
        | _, _ => none
  | .termDone q status =>
      match s.vm.proc q with
      | some ⟨a, .run⟩ => s.termDone q a status
      | _ => none

/-! ### The first state -/

/-- The state in which `test` calls `launchUproc(1)`: nothing is resident, nothing is cached, and
all that memory and devices hold is arbitrary. -/
def boot (flash : PageId → Page) (frame : FrameNo → Page) (reg : Asid → FlashReg) :
    Support n where
  vm := .boot flash frame reg
  pc _ := .user
  parent _ := 0
  saved _ := ⟨0, 0, 0, 0⟩
  testPc := .init 0
  masterSemaphore := ⟨0, []⟩
  shellSemaphore := ⟨0, []⟩
  termMutexTX := ⟨1, []⟩
  termMutexRX := ⟨1, []⟩
  transmCommand := 0
  recvCommand := 0

end Support

end PandOS
