import Mathlib.Data.Fintype.Basic
import Mathlib.Order.Interval.Finset.Nat
import PandOS.Lib.Run
import PandOS.Lib.Semaphore
import PandOS.Lib.Tlb
import PandOS.Phase3.Memory

/-!
# Phase 3 — the pager machine

The memory half of the Support Level: page tables, TLB, swap pool, flash devices, and the
processes as far as the pager sees them.  It runs any number of U-procs in any interleaving.
A U-proc outside the pager is `run` (user mode, or a SYS handler that touches user memory);
inside, it stands at one statement of `pager` (`PagerPc`) or of `flashIO` (`FlashPc`); `dying`
is a U-proc on its way to `TERMPROCESS`.

`VM.step` is one step: a load or store through the TLB, a TLB refill, an entry into the pager,
the next statement of the pager, the completion of a flash command, and what the rest of the
Support Level does to this state: `initPageTable` rewriting one entry, a process created,
beginning to die, removed.  The statements of the pager between two system calls that touch one
shared object are one step each; everything else may come in between.  A process in a
semaphore's queue takes no step.

`VM.Step` lists what a step can do, one constructor for each kind, and `VM.step_view` says that
`VM.step` does nothing else.
-/

namespace PandOS

/-- A process, by the order of its creation; 0 is `test`. -/
abbrev Pid := ℕ

instance : Fintype Asid := Fintype.subtype (Finset.Icc 1 uprocMax) fun _ => Finset.mem_Icc

/-- `swap_t` of an occupied frame; a free one (`sw_asid = -1`) has no descriptor. -/
structure Swap where
  sw_asid : Asid
  sw_pageNo : PageNo
  sw_pte : PageId
  deriving DecidableEq

/-- The page a descriptor records. -/
def Swap.page (d : Swap) : PageId := (d.sw_asid, d.sw_pageNo)

/-- The statement of `flashIO` a process is at.  `busy` is blocked in `DOIO`, `release` has the
status the device returned. -/
inductive FlashPc where
  | acquire | data0 | command | busy
  | release (status : Word)
  deriving DecidableEq

/-- The statement of `pager` a process is at, with the locals it needs from there on: the frame
`frameIndex` and, while it is evicted, the descriptor `old` of that frame. -/
inductive PagerPc where
  /-- `P(swapPoolSem)`. -/
  | enter
  /-- `frameIndex = swapFrameClock`, and the clock advances. -/
  | select
  /-- The test of `sw_asid` and `oldPte->pte_entryLO &= ~VALIDON`. -/
  | evict (k : FrameNo)
  /-- `updateTLBEntry(oldPte)`. -/
  | flush (k : FrameNo) (old : Swap)
  /-- `flashIO(oldAsid, oldPageNo, framePhysAddr, FLASHWRITE)`. -/
  | write (k : FrameNo) (old : Swap) (pc : FlashPc)
  /-- `flashIO(currentAsid, pageIndex, framePhysAddr, FLASHREAD)`. -/
  | read (k : FrameNo) (pc : FlashPc)
  /-- The three assignments to `swapPool[frameIndex]`. -/
  | record (k : FrameNo)
  /-- `currentPte->pte_entryLO = framePhysAddr | DIRTYON | VALIDON`. -/
  | validate (k : FrameNo)
  /-- `updateTLBEntry(currentPte)`. -/
  | update (k : FrameNo)
  /-- `V(swapPoolSem)`. -/
  | leave
  /-- `V(swapPoolSem)` on the two error exits, before `fatalFault`. -/
  | abort
  /-- `LDST(&sup->sup_exceptState[PGFAULTEXCEPT])`. -/
  | ret
  deriving DecidableEq

/-- Between `P(swapPoolSem)` and `V(swapPoolSem)`, the wait for the `P` included. -/
def PagerPc.inside : PagerPc → Bool
  | .enter | .ret => false
  | _ => true

/-- Where a process is. -/
inductive Ctl where
  | run
  | pager (p : PageNo) (pc : PagerPc)
  | dying
  deriving DecidableEq

/-- A U-proc: its ASID and where it is. -/
structure Proc where
  asid : Asid
  ctl : Ctl
  deriving DecidableEq

/-- Between the `P` and the `V` of `swapPoolSem`, the wait for the `P` included. -/
def Proc.inside : Proc → Bool
  | ⟨_, .pager _ pc⟩ => pc.inside
  | _ => false

/-- The memory half of the Support Level. -/
structure VM (n : ℕ) where
  pgTbl : PageId → PteEntry
  tlb : Tlb n Word Word
  swapPool : FrameNo → Option Swap
  swapFrameClock : FrameNo
  swapPoolSem : Sem Pid
  flashMutex : Asid → Sem Pid
  flashReg : Asid → FlashReg
  flash : PageId → Page
  frame : FrameNo → Page
  nextPid : Pid
  proc : Pid → Option Proc

/-- What can happen next. -/
inductive VmEvent (n : ℕ) where
  /-- `initPageTable` writes one entry. -/
  | initPte (r : PageId)
  /-- `CREATEPROCESS` with the support structure of `a`. -/
  | create (a : Asid)
  /-- A load of word `w` of page `p`, which returns `v`. -/
  | load (q : Pid) (a : Asid) (p : PageNo) (w : Fin (pageSize / wordLen)) (v : Word)
  /-- A store of `v` to word `w` of page `p`. -/
  | store (q : Pid) (a : Asid) (p : PageNo) (w : Fin (pageSize / wordLen)) (v : Word)
  /-- `uTLB_RefillHandler` with the saved `EntryHi`; `TLBWR` picks the slot. -/
  | refill (q : Pid) (entryHi : Word) (slot : Fin n)
  /-- A TLB exception passed up to `pager`, with the saved `EntryHi` and cause. -/
  | fault (q : Pid) (entryHi cause : Word)
  /-- The next statement of the pager. -/
  | pager (q : Pid)
  /-- The flash command `q` waits for completes with `status`; after a failed read the frame
  holds `junk`. -/
  | flashDone (q : Pid) (status : Word) (junk : Page)
  /-- The process begins to terminate outside the pager. -/
  | die (q : Pid)
  /-- `TERMPROCESS` removes a process that is terminating. -/
  | exit (q : Pid)

namespace VM

variable {n : ℕ}

/-! ### The operations -/

/-- In a semaphore's queue. -/
def blocked (s : VM n) (q : Pid) : Prop :=
  q ∈ s.swapPoolSem.queue ∨ ∃ a, q ∈ (s.flashMutex a).queue

instance (s : VM n) (q : Pid) : Decidable (s.blocked q) :=
  inferInstanceAs (Decidable (_ ∨ ∃ _, _))

/-- What is known of process `q` is written. -/
def setProc (s : VM n) (q : Pid) (pr : Option Proc) : VM n :=
  { s with proc := Function.update s.proc q pr }

/-- Process `q`, of ASID `a`, goes on at `c`. -/
def goto (s : VM n) (q : Pid) (a : Asid) (c : Ctl) : VM n := s.setProc q (some ⟨a, c⟩)

/-- The page-table entry of `r` is written. -/
def setPte (s : VM n) (r : PageId) (e : PteEntry) : VM n :=
  { s with pgTbl := Function.update s.pgTbl r e }

/-- The mutex of flash device `d` is written. -/
def setFlashMutex (s : VM n) (d : Asid) (S : Sem Pid) : VM n :=
  { s with flashMutex := Function.update s.flashMutex d S }

/-- The registers of flash device `d` are written. -/
def setFlashReg (s : VM n) (d : Asid) (r : FlashReg) : VM n :=
  { s with flashReg := Function.update s.flashReg d r }

/-- The words of frame `k` are written. -/
def setFrame (s : VM n) (k : FrameNo) (c : Page) : VM n :=
  { s with frame := Function.update s.frame k c }

/-- The block of page `r` on its flash device is written. -/
def setBlock (s : VM n) (r : PageId) (c : Page) : VM n :=
  { s with flash := Function.update s.flash r c }

/-- `initPageTable`, one entry. -/
def initPte (s : VM n) (r : PageId) : VM n := s.setPte r ⟨entryHI r, dirtyOn⟩

/-- `oldPte->pte_entryLO &= ~VALIDON`. -/
def invalidate (s : VM n) (r : PageId) : VM n :=
  s.setPte r { s.pgTbl r with entryLO := (s.pgTbl r).entryLO &&& ~~~validOn }

/-- `updateTLBEntry`: interrupts are off, so the probe and the write are one step. -/
def updateTLBEntry (s : VM n) (r : PageId) : VM n :=
  { s with tlb := s.tlb.refresh (s.pgTbl r).entryHI (s.pgTbl r).entryLO }

/-- The frame a U-proc's access to the page `r` reaches through the TLB. -/
def access (s : VM n) (r : PageId) : Option FrameNo :=
  (s.tlb.lookup (entryHI r)).bind translate

/-- The store side of `access`: the D bit must be on. -/
def accessStore (s : VM n) (r : PageId) : Option FrameNo :=
  (s.tlb.lookup (entryHI r)).bind fun lo => if lo &&& dirtyOn = 0 then none else translate lo

/-- The word `v` is written to word `w` of frame `k`. -/
def poke (s : VM n) (k : FrameNo) (w : Fin (pageSize / wordLen)) (v : Word) : VM n :=
  s.setFrame k (Function.update (s.frame k) w v)

/-- The next victim: `(swapFrameClock + 1) % POOLSIZE`. -/
def nextFrame (k : FrameNo) : FrameNo := ⟨(k.val + 1) % poolSize, Nat.mod_lt _ (by decide)⟩

/-- The flash device of `d` performs the command in its registers. -/
def flashPerform (s : VM n) (d : Asid) (status : Word) (junk : Page) : Option (VM n) :=
  (frameOf (s.flashReg d).data0).bind fun k =>
  (flashBlock (s.flashReg d).command).bind fun b =>
  if (s.flashReg d).command &&& 0xFF = flashRead then
    some (s.setFrame k (if status = flashReady then s.flash (d, b) else junk))
  else if (s.flashReg d).command &&& 0xFF = flashWrite then
    some (if status = flashReady then s.setBlock (d, b) (s.frame k) else s)
  else none

/-- The statements of `flashIO(d, b, framePhysAddr, rw)`.  `here` is the pager at a statement of
this call, `next` the pager after a call that returned `FLASHREADY`. -/
def flashIO (s : VM n) (q : Pid) (a : Asid) (p : PageNo) (d : Asid) (b : PageNo) (k : FrameNo)
    (rw : Word) (here : FlashPc → PagerPc) (next : PagerPc) : FlashPc → Option (VM n)
  | .acquire =>
      some ((s.setFlashMutex d ((s.flashMutex d).P q)).goto q a (.pager p (here .data0)))
  | .data0 =>
      some ((s.setFlashReg d { s.flashReg d with data0 := framePhysAddr k }).goto q a
        (.pager p (here .command)))
  | .command =>
      some ((s.setFlashReg d { s.flashReg d with command := flashCommand b rw }).goto q a
        (.pager p (here .busy)))
  | .busy => none
  | .release status =>
      some ((s.setFlashMutex d (s.flashMutex d).V).goto q a
        (.pager p (if status = flashReady then next else .abort)))

/-- The next statement of `pager`, run by the process `q` of ASID `a` for the page `p`. -/
def pagerStep (s : VM n) (q : Pid) (a : Asid) (p : PageNo) : PagerPc → Option (VM n)
  | .enter =>
      some ({ s with swapPoolSem := s.swapPoolSem.P q }.goto q a (.pager p .select))
  | .select =>
      some ({ s with swapFrameClock := nextFrame s.swapFrameClock }.goto q a
        (.pager p (.evict s.swapFrameClock)))
  | .evict k =>
      match s.swapPool k with
      | some old => some ((s.invalidate old.sw_pte).goto q a (.pager p (.flush k old)))
      | none => some (s.goto q a (.pager p (.read k .acquire)))
  | .flush k old =>
      some ((s.updateTLBEntry old.sw_pte).goto q a (.pager p (.write k old .acquire)))
  | .write k old pc =>
      s.flashIO q a p old.sw_asid old.sw_pageNo k flashWrite (.write k old) (.read k .acquire) pc
  | .read k pc => s.flashIO q a p a p k flashRead (.read k) (.record k) pc
  | .record k =>
      some ({ s with swapPool := Function.update s.swapPool k (some ⟨a, p, (a, p)⟩) }.goto q a
        (.pager p (.validate k)))
  | .validate k =>
      some ((s.setPte (a, p) { s.pgTbl (a, p) with entryLO := mapped k }).goto q a
        (.pager p (.update k)))
  | .update _ => some ((s.updateTLBEntry (a, p)).goto q a (.pager p .leave))
  | .leave => some ({ s with swapPoolSem := s.swapPoolSem.V }.goto q a (.pager p .ret))
  | .abort => some ({ s with swapPoolSem := s.swapPoolSem.V }.goto q a .dying)
  | .ret => some (s.goto q a .run)

/-- The device `q` waits for, with its frame and the pager's continuation. -/
def flashWait : Proc → Option (Asid × (FlashPc → PagerPc) × PageNo)
  | ⟨_, .pager p (.write k old .busy)⟩ => some (old.sw_asid, .write k old, p)
  | ⟨a, .pager p (.read k .busy)⟩ => some (a, .read k, p)
  | _ => none

/-- Where a TLB exception takes a process of ASID `a`: `fatalFault` on `EXC_MOD`, else the
pager, for the page of the saved `EntryHi`. -/
def faultCtl (entryHi cause : Word) : Option Ctl :=
  if cause &&& causeExcCodeMask = excMod then some .dying
  else (pageOf entryHi).map fun p => .pager p .enter

/-- The entry `uTLB_RefillHandler` loads for a process of ASID `a`. -/
def refillPte (s : VM n) (a : Asid) (entryHi : Word) : Option PteEntry :=
  (pageOf entryHi).map fun p => s.pgTbl (a, p)

/-- `CREATEPROCESS` of a U-proc with the support structure of `a`. -/
def createProc (s : VM n) (a : Asid) : VM n :=
  { s.goto s.nextPid a .run with nextPid := s.nextPid + 1 }

/-- The page table of `a` is built, and no process of ASID `a` will run again. -/
def Launchable (s : VM n) (a : Asid) : Prop :=
  (∀ p, (s.pgTbl (a, p)).entryHI = entryHI (a, p)) ∧
    ∀ q < s.nextPid, ∀ pr ∈ s.proc q, pr.asid = a → pr.ctl = .dying

instance (s : VM n) (a : Asid) : Decidable (s.Launchable a) :=
  inferInstanceAs (Decidable (_ ∧ _))

instance (t : Tlb n Word Word) (k : Word) : Decidable (t.Miss k) :=
  decidable_of_iff (t.probe k = none)
    ⟨Tlb.probe_none, fun h => by
      cases hp : t.probe k with
      | none => rfl
      | some i => obtain ⟨d, hd⟩ := Tlb.probe_some hp; exact absurd hd (h i d)⟩

/-- The state `initSwapStructs` leaves: nothing is resident, nothing is cached, and all that
frames and devices hold is arbitrary. -/
def boot (flash : PageId → Page) (frame : FrameNo → Page) (reg : Asid → FlashReg) : VM n where
  pgTbl _ := ⟨0, 0⟩
  tlb _ := none
  swapPool _ := none
  swapFrameClock := ⟨0, poolSize_pos⟩
  swapPoolSem := ⟨1, []⟩
  flashMutex _ := ⟨1, []⟩
  flashReg := reg
  flash := flash
  frame := frame
  nextPid := 1
  proc _ := none

/-- One step. -/
def step (s : VM n) : VmEvent n → Option (VM n)
  | .initPte r => some (s.initPte r)
  | .create a => if s.Launchable a then some (s.createProc a) else none
  | .load q a p w v =>
      if s.proc q = some ⟨a, .run⟩ ∧ (s.access (a, p)).map (s.frame · w) = some v then some s
      else none
  | .store q a p w v =>
      if s.proc q = some ⟨a, .run⟩ then (s.accessStore (a, p)).map fun k => s.poke k w v else none
  | .refill q entryHi slot =>
      match s.proc q with
      | some ⟨a, .run⟩ => (s.refillPte a entryHi).bind fun e =>
          if s.tlb.Miss e.entryHI then
            some { s with tlb := s.tlb.write slot (e.entryHI, e.entryLO) } else none
      | _ => none
  | .fault q entryHi cause =>
      match s.proc q with
      | some ⟨a, .run⟩ => (faultCtl entryHi cause).map (s.goto q a)
      | _ => none
  | .pager q =>
      match s.proc q with
      | some ⟨a, .pager p pc⟩ => if s.blocked q then none else s.pagerStep q a p pc
      | _ => none
  | .flashDone q status junk =>
      (s.proc q).bind fun pr => (flashWait pr).bind fun ⟨d, here, p⟩ =>
        (s.flashPerform d status junk).map fun t => t.goto q pr.asid (.pager p (here (.release status)))
  | .die q =>
      match s.proc q with
      | some ⟨a, .run⟩ => some (s.goto q a .dying)
      | _ => none
  | .exit q =>
      match s.proc q with
      | some ⟨_, .dying⟩ => some (s.setProc q none)
      | _ => none

end VM

end PandOS
