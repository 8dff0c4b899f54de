import PandOS.Phase2.Exception

/-!
# Phase 2 — interrupts, and the machine

`interrupt.c`, and the nucleus as a machine: `Kernel.step` handles one exception or interrupt, or
lets the running process store to a semaphore word of its own.  A `P` or `V` on a pointer that is
NULL or not aligned is no step: there the nucleus itself would fault.  The registers of the devices are
inputs, as the handler finds them; what it writes goes to `out`.
-/

namespace PandOS

/-- `INT_BITMAP(line)`. -/
def intBitmap (line : ℕ) : Word := BitVec.ofNat 32 (intBitmapBase + (line - 3) * 0x4)

/-- `DEV_REG_BASE(line, dev)`. -/
def devRegBase (line dev : ℕ) : Word := BitVec.ofNat 32 (startDevReg + (line - 3) * 0x80 + dev * 0x10)

/-- `getHighestPriorityDevice`. -/
def getHighestPriorityDevice (bitmap : Word) : Option (Fin devPerInt) :=
  (List.finRange devPerInt).find? fun i => bitmap &&& 1 <<< i.val ≠ 0

/-- The two channels of a terminal. -/
inductive TermChannel where
  | tx | rx
  deriving DecidableEq

namespace TermChannel

/-- `TERM_TX_SEM(dev)` and `TERM_RX_SEM(dev)`. -/
def sem : TermChannel → Fin devPerInt → Fin semDevLen
  | .tx, dev => ⟨40 + dev.val, by have := dev.isLt; unfold devPerInt at this; unfold semDevLen; omega⟩
  | .rx, dev => ⟨32 + dev.val, by have := dev.isLt; unfold devPerInt at this; unfold semDevLen; omega⟩

/-- `TERM_TRANSM_STATUS` and `TERM_RECV_STATUS`. -/
def status (dev : Fin devPerInt) : TermChannel → Word
  | .tx => devRegBase 7 dev + 8
  | .rx => devRegBase 7 dev

/-- `TERM_TRANSM_COMMAND` and `TERM_RECV_COMMAND`. -/
def command (dev : Fin devPerInt) : TermChannel → Word
  | .tx => devRegBase 7 dev + 12
  | .rx => devRegBase 7 dev + 4

end TermChannel

/-- `DEV_SEM_BASE(line, dev)`, for the lines 3 to 6. -/
def devSemBase (line : Fin 4) (dev : Fin devPerInt) : Fin semDevLen :=
  ⟨line.val * 8 + dev.val, by
    have := dev.isLt; have := line.isLt; unfold devPerInt at *; unfold semDevLen; omega⟩

namespace Kernel

variable (L : Layout) (s : Kernel)

/-- The `V` of a device: a waiter, if the word says there is one, gets the status in `reg_a0`. -/
def wake (j : Fin semDevLen) (savedStatus : Word) : Kernel :=
  if (s.mem (L.sem j)).toInt < 0 then
    match (s.setMem (L.sem j) (s.mem (L.sem j) + 1)).release (L.sem j)
        fun st => { st with reg_a0 := savedStatus } with
    | (none, t) => t
    | (some _, t) => { t with softBlockCount := t.softBlockCount - 1 }
  else s

/-- The interval timer releases every waiter of the pseudo-clock, `k` at most. -/
def wakeClock : ℕ → Kernel → Kernel
  | 0, s => s
  | k + 1, s =>
      match s.release (L.sem pseudoClock) fun st => { st with reg_a0 := 0 } with
      | (none, t) => t
      | (some _, t) => wakeClock k { t with softBlockCount := t.softBlockCount - 1 }

/-- One channel of a terminal: if its status byte is not 0, the acknowledgement and the `V`. -/
def termChannel (dev : Fin devPerInt) (reg : Word → Word) (c : TermChannel) : Kernel :=
  if reg (c.status dev) &&& 0xFF ≠ 0 then
    (s.output (.store (c.command dev) ack)).wake L (c.sem dev) (reg (c.status dev))
  else s

/-- A device of the lines 3 to 6. -/
def device (line : Fin 4) (dev : Fin devPerInt) (reg : Word → Word) : Kernel :=
  (s.output (.store (devRegBase (line.val + 3) dev + 4) ack)).wake L (devSemBase line dev)
    (reg (devRegBase (line.val + 3) dev))

/-- After an interrupt the process that ran goes on. -/
def resume (saved : State) (tod : Word) : Kernel :=
  match s.currentProcess with
  | some _ => s.ldst saved
  | none => s.scheduler tod

theorem line_lt {line : ℕ} (h : 3 ≤ line ∧ line ≤ 6) : line - 3 < 4 := by omega

/-- The device interrupts, `excCode` 17 to 21: the device of highest priority on the line. -/
def deviceInterrupt (line : ℕ) (reg : Word → Word) : Kernel :=
  match getHighestPriorityDevice (reg (intBitmap line)) with
  | none => s
  | some dev =>
      if h : 3 ≤ line ∧ line ≤ 6 then s.device L ⟨line - 3, line_lt h⟩ dev reg
      else (s.termChannel L dev reg .tx).termChannel L dev reg .rx

/-- The time of the process that ran, if one did, is charged to it. -/
def chargeTime (now : Word) : Kernel :=
  match s.currentProcess with
  | some cur => s.updateCPUTime cur now
  | none => { s with start_time_current_quantum := now }

/-- The end of a time slice, `excCode` 7. -/
def timeSliceEnd (saved : State) (tod : Word) : Kernel :=
  let s := s.output (.setTimer never)
  match s.currentProcess with
  | some cur =>
      let s := s.copyState cur { saved with status := saved.status ||| mstatusMieMask }
      { s.ready cur with currentProcess := none }.scheduler tod
  | none => s.scheduler tod

/-- The interval timer, `excCode` 3. -/
def intervalTimer : Kernel :=
  ((s.output (.ldit pSecond)).wakeClock L (maxProc + 1)).setMem (L.sem pseudoClock) 0

/-- `interruptHandler`. -/
def interruptHandler (saved : State) (i : Inputs) : Kernel :=
  let excCode := saved.cause &&& causeExcCodeMask
  let s := s.chargeTime (i.tod 0)
  if excCode = 7 then s.timeSliceEnd saved (i.tod 1)
  else if excCode = 3 then (s.intervalTimer L).resume saved (i.tod 1)
  else if 17 ≤ excCode ∧ excCode ≤ 21 then
    (s.deviceInterrupt L (excCode.toNat - 14) i.reg).resume saved (i.tod 1)
  else s.resume saved (i.tod 1)

end Kernel

/-- What can happen next. -/
inductive KernelEvent where
  /-- An exception or an interrupt, with the state saved at `BIOSDATAPAGE`. -/
  | exception (saved : State) (i : Inputs)
  /-- The running process stores to a word it uses as a semaphore. -/
  | store (a v : Word)

namespace Kernel

/-- A process runs. -/
def running (s : Kernel) : Prop :=
  match s.cpu with
  | .ldst _ | .ldcxt _ => True
  | _ => False

/-- The processor waits for an interrupt. -/
def waiting (s : Kernel) : Prop :=
  match s.cpu with
  | .wait => True
  | _ => False

instance (s : Kernel) : Decidable s.running := by unfold running; split <;> infer_instance

instance (s : Kernel) : Decidable s.waiting := by unfold waiting; split <;> infer_instance

/-- `CAUSE_IS_INT(cause)`. -/
def causeIsInt (cause : Word) : Prop := cause &&& causeIntMask ≠ 0

instance (cause : Word) : Decidable (causeIsInt cause) := inferInstanceAs (Decidable (_ ≠ _))

/-- The call is not a `P` or `V` on a word that is none: there the access itself would fault. -/
def wellFormed (saved : State) : Prop :=
  service saved = some .passeren ∨ service saved = some .verhogen → validSem saved.reg_a1

instance (saved : State) : Decidable (wellFormed saved) := inferInstanceAs (Decidable (_ → _))

/-- One step of the nucleus. -/
def step (L : Layout) (s : Kernel) : KernelEvent → Option Kernel
  | .exception saved i =>
      if causeIsInt saved.cause then
        if s.running ∨ s.waiting then some (s.interruptHandler L saved i) else none
      else if s.running ∧ wellFormed saved then
        s.currentProcess.map fun cur => s.trapHandler L cur saved i
      else none
  | .store a v =>
      if s.running ∧ validSem a ∧ ¬ isSoftBlockSemaphore L a then some (s.setMem a v) else none

/-- The three ways a step goes. -/
theorem step_cases {L : Layout} {s t : Kernel} {e : KernelEvent} (h : s.step L e = some t) :
    (∃ a v, e = .store a v ∧ s.running ∧ ¬ isSoftBlockSemaphore L a ∧ t = s.setMem a v) ∨
    ∃ saved i, e = .exception saved i ∧
      ((causeIsInt saved.cause ∧ (s.running ∨ s.waiting) ∧ t = s.interruptHandler L saved i) ∨
        ¬ causeIsInt saved.cause ∧ s.running ∧ wellFormed saved ∧
          ∃ cur, s.currentProcess = some cur ∧ t = s.trapHandler L cur saved i) := by
  cases e with
  | store a v =>
      simp only [step] at h
      split at h
      case isTrue hr => exact .inl ⟨a, v, rfl, hr.1, hr.2.2, (Option.some.inj h).symm⟩
      case isFalse => cases h
  | exception saved i =>
      right
      refine ⟨saved, i, rfl, ?_⟩
      simp only [step] at h
      split at h
      case isTrue hint =>
        split at h
        case isTrue hr => exact .inl ⟨hint, hr, (Option.some.inj h).symm⟩
        case isFalse => cases h
      case isFalse hint =>
        split at h
        case isTrue hr =>
          obtain ⟨cur, hc, ht⟩ := Option.map_eq_some_iff.mp h
          exact .inr ⟨hint, hr.1, hr.2, cur, hc, ht.symm⟩
        case isFalse => cases h

theorem step_interrupt {L : Layout} {s t : Kernel} {saved : State} {i : Inputs}
    (h : s.step L (.exception saved i) = some t) (hint : causeIsInt saved.cause) :
    t = s.interruptHandler L saved i := by
  rcases step_cases h with ⟨a, v, he, -⟩ | ⟨saved', i', he, ⟨-, -, ht⟩ | ⟨hno, -⟩⟩
  · cases he
  · cases he
    exact ht
  · cases he
    exact absurd hint hno

theorem step_trap {L : Layout} {s t : Kernel} {saved : State} {i : Inputs}
    (h : s.step L (.exception saved i) = some t) (hint : ¬ causeIsInt saved.cause) :
    ∃ cur, s.currentProcess = some cur ∧ t = s.trapHandler L cur saved i := by
  rcases step_cases h with ⟨a, v, he, -⟩ | ⟨saved', i', he, ⟨hi, -⟩ | ⟨-, -, -, ht⟩⟩
  · cases he
  · cases he
    exact absurd hi hint
  · cases he
    exact ht

theorem step_wellFormed {L : Layout} {s t : Kernel} {saved : State} {i : Inputs}
    (h : s.step L (.exception saved i) = some t) (hint : ¬ causeIsInt saved.cause) :
    wellFormed saved := by
  rcases step_cases h with ⟨a, v, he, -⟩ | ⟨saved', i', he, ⟨hi, -⟩ | ⟨-, -, hwf, -⟩⟩
  · cases he
  · cases he
    exact absurd hi hint
  · cases he
    exact hwf

/-! ### Concrete runs -/

/-- `deviceSemaphores` at a concrete address. -/
def layout₀ : Layout := ⟨0x20001000, by decide, by decide, by decide⟩

/-- The nucleus booted on memory that is all 0. -/
def boot₀ : Kernel :=
  initKernel layout₀ (fun _ => 0) (fun _ => ⟨fun _ => .zero, fun _ => ⟨0, 0, 0⟩⟩) 0 0 0

/-- The clock stands still, a new process starts in kernel mode, device registers are 0. -/
def inputs₀ : Inputs := ⟨fun _ => 0, { State.zero with status := mstatusMppM }, 0, fun _ => 0⟩

/-- The state saved at a system call in kernel mode. -/
def callState (service_code : ℤ) (a1 a2 a3 : Word) : State :=
  { State.zero with
    status := mstatusMppM
    cause := 11
    reg_a0 := BitVec.ofInt 32 service_code
    reg_a1 := a1
    reg_a2 := a2
    reg_a3 := a3 }

/-- A system call in kernel mode. -/
def call (service_code : ℤ) (a1 a2 a3 : Word) : KernelEvent :=
  .exception (callState service_code a1 a2 a3) inputs₀

/-- An interrupt, with the device registers as they are then. -/
def interrupt (excCode : Word) (reg : Word → Word) : KernelEvent :=
  .exception { State.zero with cause := causeIntMask ||| excCode } { inputs₀ with reg := reg }

end Kernel

end PandOS
