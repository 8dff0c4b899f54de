import PandOS.Lib.Calls
import PandOS.Phase1.PcbLinks
import PandOS.Phase2.Terminals

/-!
# Phase 2 — the nucleus over the pointers of `pcb.c`

The nucleus is modelled over lists of PCBs; in memory they are links, which only the functions of
`pcb.c` change.  `Kernel.talk` lists the calls of `pcb.c` that one step of the nucleus makes, in
order, each with the reply the nucleus goes by; it is put together from the calls each function of
the nucleus makes (`schedulerCalls` those of `scheduler`, and so on).

`Kernel.PcbFollows s xs t`: made on the lists of `s`, the calls `xs` keep to the obligations of
`pcb.c`, get their replies, and leave the lists of `t`.  `Kernel.pcbs_of_run`: on every run, the
same calls made on the pointers get the same replies and leave pointers that make the lists of the
nucleus.
-/

namespace PandOS

variable {κ : Type} [DecidableEq κ]

/-! ### Calls that are answered -/

/-- A call is made on the lists. -/
def PcbLists.ask : PcbLists κ → Talk (PcbCall κ) PcbValue → Option (PcbLists κ) :=
  PandOS.ask fun b e => some (b.call e)

theorem PcbLists.setQueue_same {b : PcbLists κ} {head : κ} {xs : List PcbId} :
    (b.setQueue head xs).queue head = some xs := Function.update_self ..

theorem PcbLists.setQueue_of_ne {b : PcbLists κ} {head head' : κ} {xs : List PcbId}
    (h : head' ≠ head) : (b.setQueue head xs).queue head' = b.queue head' :=
  Function.update_of_ne h ..

/-- The caller keeps to its obligations. -/
def PcbLists.Allows (b : PcbLists κ) (x : Talk (PcbCall κ) PcbValue) : Prop := b.Proper x.1

namespace PcbLinks

/-- A call is made on the pointers. -/
def ask : PcbLinks κ → Talk (PcbCall κ) PcbValue → Option (PcbLinks κ) := PandOS.ask call

/-- Calls that are answered on the lists are answered on the pointers. -/
theorem Makes.asks {m : PcbLinks κ} {b c : PcbLists κ} {l : PcbId → Option (List PcbId)}
    {xs : List (Talk (PcbCall κ) PcbValue)} (h : Makes m b l)
    (hr : Run PcbLists.ask PcbLists.Allows b xs c) :
    ∃ t l', Run PcbLinks.ask anyStep m xs t ∧ Makes t c l' := by
  obtain ⟨t, ht, l', hm⟩ := Run.asks (I := fun b m => ∃ l, Makes m b l)
    (fun b m e r c ⟨l, h⟩ hp hc => by
      obtain ⟨t, l', ht, hm⟩ := h.call hp
      rw [Option.some.inj hc] at ht hm
      exact ⟨t, ht, l', hm⟩) ⟨l, h⟩ hr
  exact ⟨t, l', ht, hm⟩

end PcbLinks

/-! ### The calls of the nucleus -/

/-- The process queues of the nucleus. -/
inductive QueueHead where
  | readyQueue
  | s_procq (d : SemdId)
  deriving DecidableEq

/-- A call of `pcb.c`, with the reply the nucleus goes by, if it looks at it. -/
abbrev PcbTalk := Talk (PcbCall QueueHead) PcbValue

namespace Asl

variable (s : Asl) (semAdd : Word)

/-- `insertBlocked`. -/
def insertBlockedCalls (p : PcbId) : List PcbTalk :=
  match s.find semAdd with
  | some d => [(.insertProcQ (.s_procq d) p, none)]
  | none =>
      match s.semdFree_h with
      | [] => []
      | d :: _ => [(.mkEmptyProcQ (.s_procq d), none), (.insertProcQ (.s_procq d) p, none)]

/-- `removeBlocked`. -/
def removeBlockedCalls : List PcbTalk :=
  match s.find semAdd with
  | none => []
  | some d =>
      let p := (s.semd_table d).s_procq.head?
      [(.headProcQ (.s_procq d), some (.pcb p)), (.outProcQ (.s_procq d) p, some (.pcb p)),
        (.emptyProcQ (.s_procq d), some (.bool ((s.semd_table d).s_procq.tail = [])))]

/-- `removeBlocked`, and the process it returns becomes ready. -/
def releaseCalls : List PcbTalk :=
  s.removeBlockedCalls semAdd ++
    match (s.queue semAdd).head? with
    | none => []
    | some p => [(.insertProcQ .readyQueue p, none)]

end Asl

/-- `outBlocked`. -/
def Phase1.outBlockedCalls (s : Phase1) (p : PcbId) : List PcbTalk :=
  match s.find (s.pcbFree_table p).p_semAdd with
  | none => []
  | some d => [(.outProcQ (.s_procq d) (some p),
      some (.pcb (Pcbs.outProcQ (s.semd_table d).s_procq p).1))]

namespace Kernel

/-! ### The scheduler and the utilities -/

/-- `scheduler`: with nobody ready it may look at the queue a second time. -/
def schedulerCalls (s : Kernel) : List PcbTalk :=
  match s.readyQueue with
  | p :: _ => [(.emptyProcQ .readyQueue, some (.bool false)),
      (.removeProcQ .readyQueue, some (.pcb (some p)))]
  | [] => (.emptyProcQ .readyQueue, some (.bool true)) ::
      if 0 < s.processCount ∧ s.softBlockCount = 0 then
        [(.emptyProcQ .readyQueue, some (.bool true))] else []

/-- `blockCurrentProcess`. -/
def blockCalls (L : Layout) (s : Kernel) (cur : PcbId) (sem tod : Word) : List PcbTalk :=
  s.insertBlockedCalls sem cur ++ (s.blocked L cur sem tod).schedulerCalls

/-- The end of `recursiveTerminateProcess`. -/
def buryCalls (s : Kernel) (target : PcbId) : List PcbTalk :=
  (if (s.pcbFree_table target).p_semAdd = 0 then [] else s.outBlockedCalls target) ++
    [(.outProcQ .readyQueue (some target), none), (.outChild (some target), none),
      (.freePcb target, none)]

/-- The loop of `recursiveTerminateProcess`. -/
def killChildrenCalls (kill : Kernel → PcbId → Kernel) (calls : Kernel → PcbId → List PcbTalk)
    (target : PcbId) : ℕ → Kernel → List PcbTalk
  | 0, _ => []
  | k + 1, s =>
      match s.toPcbs.removeChild target with
      | (none, _) => [(.removeChild target, some (.pcb none))]
      | (some child, t) => (.removeChild target, some (.pcb (some child))) ::
          (calls (s.withPcbs t) child ++
            killChildrenCalls kill calls target k (kill (s.withPcbs t) child))

/-- `recursiveTerminateProcess`. -/
def terminateCalls (L : Layout) : ℕ → Kernel → PcbId → List PcbTalk
  | 0, _, _ => []
  | f + 1, s, target =>
      if (s.pcbFree_table target).p_pid.toInt < 0 then []
      else
        killChildrenCalls (recursiveTerminateProcess L f) (terminateCalls L f) target maxProc
            (s.mark target) ++
          (killChildren (recursiveTerminateProcess L f) target maxProc
            (s.mark target)).buryCalls target

/-- `passUpOrDie`. -/
def dieCalls (L : Layout) (s : Kernel) (cur : PcbId) (tod : ℕ → Word) : List PcbTalk :=
  if (s.pcbFree_table cur).p_supportStruct = 0 then
    terminateCalls L maxProc (s.updateCPUTime cur (tod 0)) cur ++
      (recursiveTerminateProcess L maxProc (s.updateCPUTime cur (tod 0)) cur).schedulerCalls
  else []

/-! ### The services -/

section
variable (L : Layout) (s : Kernel) (cur : PcbId) (state : State) (i : Inputs)

/-- `createProcess`. -/
def createProcessCalls : List PcbTalk :=
  match s.toPcbs.allocPcb with
  | none => [(.allocPcb, some (.pcb none))]
  | some (newPcb, _) => [(.allocPcb, some (.pcb (some newPcb))),
      (.setPrio newPcb state.reg_a2.toInt, none), (.insertChild cur newPcb, none),
      (.insertProcQ .readyQueue newPcb, none)]

/-- `terminateProcess`. -/
def terminateProcessCalls : List PcbTalk :=
  let s := s.updateCPUTime cur (i.tod 0)
  let target := if state.reg_a1 = 0 then some cur
    else s.findInTree maxProc s.rootProcess state.reg_a1
  match target with
  | none => []
  | some target =>
      terminateCalls L maxProc s target ++
        let s := recursiveTerminateProcess L maxProc s target
        if target = cur ∨ s.currentProcess = none then s.schedulerCalls else []

/-- `passeren`. -/
def passerenCalls : List PcbTalk :=
  let semAdd := state.reg_a1
  let s := (s.updateCPUTime cur (i.tod 0)).copyState cur state
  let s := s.setMem semAdd (s.mem semAdd - 1)
  if (s.mem semAdd).toInt < 0 then s.blockCalls L cur semAdd (i.tod 1) else []

/-- `verhogen`. -/
def verhogenCalls : List PcbTalk :=
  if (s.mem state.reg_a1 + 1).toInt ≤ 0 then s.releaseCalls state.reg_a1 else []

/-- `doIO`. -/
def doIOCalls : List PcbTalk :=
  match semIndex state.reg_a1 with
  | none => []
  | some j =>
      let s := (s.updateCPUTime cur (i.tod 0)).copyState cur state
      let s := s.setMem (L.sem j) (s.mem (L.sem j) - 1)
      (s.output (.store state.reg_a1 state.reg_a2)).blockCalls L cur (L.sem j) (i.tod 1)

/-- `waitForClock`. -/
def waitForClockCalls : List PcbTalk :=
  let s := (s.updateCPUTime cur (i.tod 0)).copyState cur state
  let s := s.setMem (L.sem pseudoClock) (s.mem (L.sem pseudoClock) - 1)
  s.blockCalls L cur (L.sem pseudoClock) (i.tod 1)

/-- The process that runs gives way. -/
def yieldCalls : List PcbTalk :=
  (.insertProcQ .readyQueue cur, none) :: (s.ready cur).schedulerCalls

/-- The service `systemCallHandler` chooses. -/
def serveCalls : SysCall → List PcbTalk
  | SysCall.createProcess => s.createProcessCalls cur state
  | SysCall.termProcess => s.terminateProcessCalls L cur state i
  | SysCall.passeren => s.passerenCalls L cur state i
  | SysCall.verhogen => s.verhogenCalls state
  | SysCall.doIO => doIOCalls L s cur state i
  | SysCall.clockWait => s.waitForClockCalls L cur state i
  | SysCall.yield => yieldCalls ((s.updateCPUTime cur (i.tod 0)).copyState cur state) cur
  | SysCall.getTime | SysCall.getSupportPtr | SysCall.getProcessId => []

/-- `systemCallHandler`. -/
def systemCallCalls : List PcbTalk :=
  if 1 ≤ state.reg_a0.toInt then s.dieCalls L cur i.tod
  else if state.status &&& mstatusMppMask = mstatusMppU then s.dieCalls L cur i.tod
  else
    match sysCall state.reg_a0.toInt with
    | some c => s.serveCalls L cur state i c
    | none => s.dieCalls L cur i.tod

/-- `exceptionHandler`, for an exception that is no interrupt. -/
def trapCalls : List PcbTalk :=
  let excCode := state.cause &&& causeExcCodeMask
  if excCode = 8 ∨ excCode = 11 then
    s.systemCallCalls L cur { state with
      pc_epc := state.pc_epc + BitVec.ofNat 32 wordLen
      cause := 11 } i
  else s.dieCalls L cur i.tod

end

/-! ### Interrupts -/

section
variable (L : Layout) (s : Kernel)

/-- The `V` of a device. -/
def wakeCalls (j : Fin semDevLen) : List PcbTalk :=
  if (s.mem (L.sem j)).toInt < 0 then s.releaseCalls (L.sem j) else []

/-- The loop of the interval timer. -/
def wakeClockCalls : ℕ → Kernel → List PcbTalk
  | 0, _ => []
  | k + 1, s => s.releaseCalls (L.sem pseudoClock) ++
      match s.release (L.sem pseudoClock) fun st => { st with reg_a0 := 0 } with
      | (none, _) => []
      | (some _, t) => wakeClockCalls k { t with softBlockCount := t.softBlockCount - 1 }

/-- One channel of a terminal. -/
def termChannelCalls (dev : Fin devPerInt) (reg : Word → Word) (c : TermChannel) : List PcbTalk :=
  if reg (c.status dev) &&& 0xFF ≠ 0 then s.wakeCalls L (c.sem dev) else []

/-- The interrupt of a device on `line`. -/
def deviceInterruptCalls (line : ℕ) (reg : Word → Word) : List PcbTalk :=
  match getHighestPriorityDevice (reg (intBitmap line)) with
  | none => []
  | some dev =>
      if h : 3 ≤ line ∧ line ≤ 6 then s.wakeCalls L (devSemBase ⟨line - 3, line_lt h⟩ dev)
      else s.termChannelCalls L dev reg .tx ++
        (s.termChannel L dev reg .tx).termChannelCalls L dev reg .rx

/-- After an interrupt. -/
def resumeCalls : List PcbTalk :=
  match s.currentProcess with
  | some _ => []
  | none => s.schedulerCalls

/-- The end of a time slice. -/
def timeSliceEndCalls (saved : State) : List PcbTalk :=
  let s := s.output (.setTimer never)
  match s.currentProcess with
  | some cur =>
      (s.copyState cur { saved with status := saved.status ||| mstatusMieMask }).yieldCalls cur
  | none => s.schedulerCalls

/-- `interruptHandler`. -/
def interruptCalls (saved : State) (i : Inputs) : List PcbTalk :=
  let excCode := saved.cause &&& causeExcCodeMask
  let s := s.chargeTime (i.tod 0)
  if excCode = 7 then s.timeSliceEndCalls saved
  else if excCode = 3 then
    wakeClockCalls L (maxProc + 1) (s.output (.ldit pSecond)) ++ (s.intervalTimer L).resumeCalls
  else if 17 ≤ excCode ∧ excCode ≤ 21 then
    s.deviceInterruptCalls L (excCode.toNat - 14) i.reg ++
      (s.deviceInterrupt L (excCode.toNat - 14) i.reg).resumeCalls
  else s.resumeCalls

end

/-- The calls of one step. -/
def stepCalls (L : Layout) (s : Kernel) : KernelEvent → List PcbTalk
  | .store _ _ => []
  | .exception saved i =>
      if causeIsInt saved.cause then s.interruptCalls L saved i
      else
        match s.currentProcess with
        | none => []
        | some cur => s.trapCalls L cur saved i

/-- The calls along a run. -/
def talk (L : Layout) (s : Kernel) (e : KernelEvent) (_ : Kernel) (xs : List PcbTalk) : List PcbTalk :=
  xs ++ s.stepCalls L e

/-- The calls of `initKernel`, after `initPcbs`. -/
def initCalls : List PcbTalk :=
  [(.mkEmptyProcQ .readyQueue, none), (.allocPcb, some (.pcb (some first))),
    (.setPrio first 0, none), (.insertProcQ .readyQueue first, none),
    (.emptyProcQ .readyQueue, some (.bool false)), (.removeProcQ .readyQueue, some (.pcb (some first)))]

/-! ### The lists of the nucleus -/

variable {L : Layout} {s t u : Kernel} {b c : PcbLists QueueHead} {lossy : Prop} {p q cur target : PcbId}
  {d : SemdId} {xs ys : List PcbTalk} {e : PcbCall QueueHead} {o : Option PcbValue}

/-- The lists of `b` are those of the nucleus. -/
structure Shadow (b : PcbLists QueueHead) (s : Kernel) : Prop where
  free : b.pcbFree_h = s.pcbFree_h
  ready : b.queue .readyQueue = some s.readyQueue
  active : ∀ d ∈ s.semd_h, b.queue (.s_procq d) = some (s.semd_table d).s_procq
  idle : ∀ d, d ∉ s.semd_h → b.queueOf (.s_procq d) = []
  child : ∀ p, (b.pcbFree_table p).p_child = s.child p
  parent : ∀ p, (b.pcbFree_table p).p_parent = s.parent p
  prio : ∀ p, (b.pcbFree_table p).p_prio = (s.pcbFree_table p).p_prio

/-- Nothing is different that the lists are made of. -/
structure SameLists (s t : Kernel) : Prop where
  free : t.pcbFree_h = s.pcbFree_h
  ready : t.readyQueue = s.readyQueue
  asl : t.toAsl = s.toAsl
  pcb : ∀ p, t.child p = s.child p ∧ t.parent p = s.parent p ∧
    (t.pcbFree_table p).p_prio = (s.pcbFree_table p).p_prio

theorem SameLists.refl (s : Kernel) : SameLists s s := ⟨rfl, rfl, rfl, fun _ => ⟨rfl, rfl, rfl⟩⟩

theorem SameLists.of_eq (h : t.toPhase1 = s.toPhase1) (hr : t.readyQueue = s.readyQueue) :
    SameLists s t := by
  refine ⟨by rw [h], hr, by rw [h], fun p => ?_⟩
  unfold child parent
  rw [h]
  exact ⟨rfl, rfl, rfl⟩

theorem SameLists.trans (h₁ : SameLists s t) (h₂ : SameLists t u) : SameLists s u where
  free := h₂.free.trans h₁.free
  ready := h₂.ready.trans h₁.ready
  asl := h₂.asl.trans h₁.asl
  pcb p := ⟨(h₂.pcb p).1.trans (h₁.pcb p).1, (h₂.pcb p).2.1.trans (h₁.pcb p).2.1,
    (h₂.pcb p).2.2.trans (h₁.pcb p).2.2⟩

theorem Quiet.sameLists (h : Quiet s t) : SameLists s t :=
  ⟨h.free, h.ready, h.asl, fun p => ⟨h.field (fun _ _ _ => rfl) p, h.field (fun _ _ _ => rfl) p,
    h.field (fun _ _ _ => rfl) p⟩⟩

/-- A PCB is rewritten, but for its links and its priority. -/
theorem sameLists_modify {f : Pcb → Pcb} (hf : ∀ x, (f x).p_child = x.p_child ∧
    (f x).p_parent = x.p_parent ∧ (f x).p_prio = x.p_prio) (s : Kernel) (p : PcbId) :
    SameLists s (s.modify p f) := by
  refine ⟨rfl, rfl, rfl, fun q => ?_⟩
  by_cases h : q = p
  · unfold child parent
    rw [h, modify_self]
    exact hf _
  · unfold child parent
    rw [modify_of_ne h]
    exact ⟨rfl, rfl, rfl⟩

/-- What most services do first. -/
theorem sameLists_save (s : Kernel) (p : PcbId) (tod : Word) (st : State) (a v : Word) :
    SameLists s (((s.updateCPUTime p tod).copyState p st).setMem a v) :=
  (quiet_save s p tod st).sameLists.trans (.of_eq rfl rfl)

theorem Shadow.same (h : Shadow b s) (hs : SameLists s t) : Shadow b t where
  free := h.free.trans hs.free.symm
  ready := by rw [hs.ready]; exact h.ready
  active d hd := by
    rw [hs.asl] at hd ⊢
    exact h.active d hd
  idle d hd := by
    rw [hs.asl] at hd
    exact h.idle d hd
  child p := (h.child p).trans (hs.pcb p).1.symm
  parent p := (h.parent p).trans (hs.pcb p).2.1.symm
  prio p := (h.prio p).trans (hs.pcb p).2.2.symm

theorem Shadow.live (h : Shadow b s) : b.Live p ↔ s.Live p := by
  rw [PcbLists.Live, h.free]
  rfl

theorem Shadow.ready_ne (h : Shadow b s) : b.queue .readyQueue ≠ none := by
  rw [h.ready]
  exact Option.some_ne_none _

theorem Shadow.queueOf_ready (h : Shadow b s) : b.queueOf .readyQueue = s.readyQueue := by
  rw [PcbLists.queueOf, h.ready]
  rfl

theorem Shadow.active_ne (h : Shadow b s) (hd : d ∈ s.semd_h) : b.queue (.s_procq d) ≠ none := by
  rw [h.active d hd]
  exact Option.some_ne_none _

theorem Shadow.queueOf_active (h : Shadow b s) (hd : d ∈ s.semd_h) :
    b.queueOf (.s_procq d) = (s.semd_table d).s_procq := by
  rw [PcbLists.queueOf, h.active d hd]
  rfl

/-- What is in no queue of the nucleus is in none of the lists. -/
theorem Shadow.unqueued (h : Shadow b s) (hr : p ∉ s.readyQueue)
    (hq : ∀ d, p ∉ (s.semd_table d).s_procq) : b.Unqueued p := by
  intro k
  cases k with
  | readyQueue =>
      rw [h.queueOf_ready]
      exact hr
  | s_procq d =>
      by_cases hd : d ∈ s.semd_h
      · rw [h.queueOf_active hd]
        exact hq d
      · rw [h.idle d hd]
        exact List.not_mem_nil

theorem Shadow.insertProcQ (h : Shadow b s) (l : List PcbId) (p : PcbId) :
    b.toPcbs.insertProcQ l p = s.insertProcQ l p := by
  unfold Pcbs.insertProcQ
  simp only [h.prio]

/-! ### Calls that lead from one state to another -/

/-- Made on the lists of `s`, the calls keep to the obligations of `pcb.c`, get their replies, and
leave the lists of `t`. -/
def PcbFollows (s : Kernel) (xs : List PcbTalk) (t : Kernel) : Prop :=
  Follows (fun b e => some (PcbLists.call b e)) PcbLists.Proper Shadow s xs t

theorem PcbFollows.same (h : SameLists s t) : PcbFollows s [] t := Follows.same fun _ hb => hb.same h

theorem PcbFollows.trans (h₁ : PcbFollows s xs u) (h₂ : PcbFollows u ys t) :
    PcbFollows s (xs ++ ys) t := Follows.trans h₁ h₂

theorem PcbFollows.before (hs : SameLists s u) (h : PcbFollows u xs t) : PcbFollows s xs t :=
  Follows.before (fun _ hb => hb.same hs) h

theorem PcbFollows.after (h : PcbFollows s xs u) (hs : SameLists u t) : PcbFollows s xs t :=
  Follows.after h fun _ hb => hb.same hs

/-- One call. -/
theorem PcbFollows.one (h : ∀ b, Shadow b s → b.Proper e ∧ (∀ v ∈ o, (b.call e).1 = v) ∧
    Shadow (b.call e).2 t) : PcbFollows s [(e, o)] t :=
  Follows.one fun b hb => ⟨(h b hb).1, _, _, rfl, (h b hb).2⟩

theorem PcbFollows.cons (h₁ : PcbFollows s [(e, o)] u) (h₂ : PcbFollows u xs t) :
    PcbFollows s ((e, o) :: xs) t := Follows.cons h₁ h₂

/-! ### The ready queue -/

theorem follows_ready (hl : s.Live p) (hr : p ∉ s.readyQueue)
    (hq : ∀ d, p ∉ (s.semd_table d).s_procq) :
    PcbFollows s [(.insertProcQ .readyQueue p, none)] (s.ready p) := by
  refine .one fun b hb => ⟨⟨hb.ready_ne, hb.live.mpr hl, hb.unqueued hr hq⟩, by simp, ?_⟩
  refine ⟨hb.free, ?_, hb.active, hb.idle, hb.child, hb.parent, hb.prio⟩
  rw [PcbLists.call, PcbLists.setQueue_same, hb.queueOf_ready, hb.insertProcQ]
  rfl

theorem follows_emptyProcQ {v : Bool} (hv : decide (s.readyQueue = []) = v) :
    PcbFollows s [(.emptyProcQ .readyQueue, some (.bool v))] s := by
  refine .one fun b hb => ⟨hb.ready_ne, fun w hw => ?_, hb⟩
  cases hw
  rw [← hv, ← hb.queueOf_ready]
  rfl

/-- `scheduler` makes its calls. -/
theorem follows_scheduler (s : Kernel) (tod : Word) :
    PcbFollows s s.schedulerCalls (s.scheduler tod) := by
  unfold schedulerCalls Kernel.scheduler
  cases hr : s.readyQueue with
  | cons p rest =>
      refine (follows_emptyProcQ (by simp [hr])).cons (.one fun b hb => ?_)
      have hq : b.queueOf .readyQueue = p :: rest := hb.queueOf_ready.trans hr
      refine ⟨hb.ready_ne, fun w hw => ?_, hb.free, ?_, hb.active, hb.idle, hb.child, hb.parent,
        hb.prio⟩
      · cases hw
        exact congrArg (fun l => PcbValue.pcb (List.head? l)) hq
      · rw [PcbLists.call, PcbLists.setQueue_same, hq]
        rfl
  | nil =>
      have he : PcbFollows s [(.emptyProcQ .readyQueue, some (.bool true))] s :=
        follows_emptyProcQ (by simp [hr])
      have hs : ∀ y : Cpu, SameLists s { s with readyQueue := [], cpu := y } := fun _ =>
        ⟨rfl, hr.symm, rfl, fun _ => ⟨rfl, rfl, rfl⟩⟩
      dsimp only
      by_cases h₁ : s.processCount = 0
      · rw [if_pos h₁, if_neg fun h => h.1.ne' h₁]
        exact he.after (hs .halt)
      · rw [if_neg h₁]
        by_cases h₂ : 0 < s.processCount ∧ 0 < s.softBlockCount
        · rw [if_pos h₂, if_neg fun h => h₂.2.ne' h.2]
          exact he.after (hs .wait)
        · rw [if_neg h₂]
          split
          · exact he.cons (he.after (hs .panic))
          · exact he.after (hs .ret)

/-- The process that runs, if any, is dropped, and the scheduler is called. -/
theorem follows_drop (s : Kernel) (tod : Word) :
    PcbFollows s s.schedulerCalls ({ s with currentProcess := none }.scheduler tod) := by
  have hs : SameLists s { s with currentProcess := none } := .of_eq rfl rfl
  exact (follows_scheduler { s with currentProcess := none } tod).before hs

/-- The process that runs becomes ready, and the scheduler is called. -/
theorem follows_yield (h : Linked lossy s none) (hc : s.currentProcess = some cur) (tod : Word) :
    PcbFollows s (s.yieldCalls cur) ({ s.ready cur with currentProcess := none }.scheduler tod) := by
  obtain ⟨hl, hr, hq⟩ := h.current hc
  exact (follows_ready hl hr hq).cons (follows_drop (s.ready cur) tod)

/-! ### The queues of semaphores -/

theorem sameLists_phase1 {x : Phase1} (hp : x.toPcbs = s.toPcbs) (ha : x.toAsl = s.toAsl) :
    SameLists s { s with toPhase1 := x } :=
  ⟨congrArg Pcbs.pcbFree_h hp, rfl, ha, fun p => by
    have ht : x.pcbFree_table p = s.pcbFree_table p := congrFun (congrArg Pcbs.pcbFree_table hp) p
    unfold child parent
    rw [ht]
    exact ⟨rfl, rfl, rfl⟩⟩

/-- The queue of an active descriptor is replaced. -/
theorem Shadow.setProcq (h : Shadow b s) (hd : d ∈ s.semd_h) (l : List PcbId) :
    Shadow (b.setQueue (.s_procq d) l) { s with toAsl := s.toAsl.setProcq d l } where
  free := h.free
  ready := by
    rw [PcbLists.setQueue_of_ne (by simp)]
    exact h.ready
  active c hc := by
    by_cases hcd : c = d
    · rw [hcd, PcbLists.setQueue_same]
      exact congrArg (fun x => some (Semd.s_procq x)) Asl.setProcq_self.symm
    · rw [PcbLists.setQueue_of_ne (by simpa using hcd)]
      exact (h.active c hc).trans (congrArg (fun x => some (Semd.s_procq x))
        (Asl.setProcq_of_ne hcd).symm)
  idle c hc := by
    have hcd : c ≠ d := by
      rintro rfl
      exact hc hd
    rw [PcbLists.queueOf, PcbLists.setQueue_of_ne (by simpa using hcd)]
    exact h.idle c hc
  child := h.child
  parent := h.parent
  prio := h.prio

theorem follows_enqueue (hd : d ∈ s.semd_h) (hl : s.Live p) (hr : p ∉ s.readyQueue)
    (hq : ∀ d, p ∉ (s.semd_table d).s_procq) (semAdd : Word) :
    PcbFollows s [(.insertProcQ (.s_procq d) p, none)]
      { s with toPhase1 := s.toPhase1.enqueue d semAdd p } := by
  refine .one fun b hb =>
    ⟨⟨hb.active_ne hd, hb.live.mpr hl, hb.unqueued hr hq⟩, by simp, ?_⟩
  rw [PcbLists.call, hb.queueOf_active hd, hb.insertProcQ]
  exact (hb.setProcq hd _).same (sameLists_modify (f := fun pcb => { pcb with p_semAdd := semAdd })
    (fun _ => ⟨rfl, rfl, rfl⟩) { s with toAsl := s.toAsl.setProcq d _ } p)

/-- A free descriptor is taken. -/
theorem follows_takeSemd (hok : s.toAsl.Ok) {rest : List SemdId} (hl : s.semdFree_h = d :: rest)
    (semAdd : Word) : PcbFollows s [(.mkEmptyProcQ (.s_procq d), none)]
      { s with toAsl := s.toAsl.take semAdd d rest } := by
  have hfree := hok.first_notMem hl
  have hmem : ∀ {c}, c ∈ (s.toAsl.take semAdd d rest).semd_h ↔ c = d ∨ c ∈ s.semd_h :=
    fun {c} => (Asl.link_perm s.toAsl semAdd d).mem_iff.trans List.mem_cons
  refine .one fun b hb => ⟨trivial, by simp, hb.free, ?_, fun c hc => ?_, fun c hc => ?_, hb.child,
    hb.parent, hb.prio⟩
  · rw [PcbLists.call, PcbLists.setQueue_of_ne (by simp)]
    exact hb.ready
  · rcases hmem.mp hc with hcd | hact
    · rw [hcd, PcbLists.call, PcbLists.setQueue_same]
      exact congrArg (fun x => some (Semd.s_procq x)) Asl.take_self.symm
    · have hcd : c ≠ d := by
        rintro rfl
        exact hfree hact
      rw [PcbLists.call, PcbLists.setQueue_of_ne (by simpa using hcd)]
      exact (hb.active c hact).trans (congrArg (fun x => some (Semd.s_procq x))
        (Asl.take_of_ne hcd).symm)
  · obtain ⟨hcd, hc⟩ := not_or.mp (mt hmem.mpr hc)
    rw [PcbLists.call, PcbLists.queueOf, PcbLists.setQueue_of_ne (by simpa using hcd)]
    exact hb.idle c hc

/-- `insertBlocked` makes its calls. -/
theorem follows_insertBlocked (hok : s.toAsl.Ok) (hl : s.Live p) (hr : p ∉ s.readyQueue)
    (hq : ∀ d, p ∉ (s.semd_table d).s_procq) (semAdd : Word) :
    PcbFollows s (s.insertBlockedCalls semAdd p)
      { s with toPhase1 := (s.toPhase1.insertBlocked semAdd p).2 } := by
  unfold Asl.insertBlockedCalls Phase1.insertBlocked
  cases hf : s.find semAdd with
  | some d => exact follows_enqueue (Asl.find_some hf).1 hl hr hq semAdd
  | none =>
      cases hs : s.semdFree_h with
      | nil => exact .same (sameLists_phase1 rfl rfl)
      | cons d rest =>
          have hd : d ∈ (s.toAsl.take semAdd d rest).semd_h :=
            (Asl.link_perm s.toAsl semAdd d).mem_iff.mpr List.mem_cons_self
          have hq' : ∀ c, p ∉ ((s.toAsl.take semAdd d rest).semd_table c).s_procq := by
            intro c hc
            by_cases hcd : c = d
            · rw [hcd, Asl.take_self] at hc
              cases hc
            · rw [Asl.take_of_ne hcd] at hc
              exact hq c hc
          exact (follows_takeSemd hok hs semAdd).cons (follows_enqueue
            (s := { s with toAsl := s.toAsl.take semAdd d rest }) hd hl hr hq' semAdd)

/-- An active descriptor with an empty queue is given back. -/
theorem Shadow.giveBack (h : Shadow b s) (hd : d ∈ s.semd_h)
    (hq : (s.semd_table d).s_procq = []) : Shadow b { s with toAsl := s.toAsl.giveBack d } where
  free := h.free
  ready := h.ready
  active c hc := h.active c (List.mem_of_mem_erase hc)
  idle c hc := by
    by_cases hcd : c = d
    · rw [hcd, h.queueOf_active hd, hq]
    · exact h.idle c fun hm => hc ((List.mem_erase_of_ne hcd).mpr hm)
  child := h.child
  parent := h.parent
  prio := h.prio

/-- `removeBlocked` makes its calls. -/
theorem follows_removeBlocked (s : Kernel) (semAdd : Word) :
    PcbFollows s (s.removeBlockedCalls semAdd)
      { s with toPhase1 := (s.toPhase1.removeBlocked semAdd).2 } := by
  unfold Asl.removeBlockedCalls Phase1.removeBlocked
  cases hf : s.find semAdd with
  | none => exact .same (sameLists_phase1 rfl rfl)
  | some d =>
      obtain ⟨hd, -⟩ := Asl.find_some hf
      have hhead : PcbFollows s [(.headProcQ (.s_procq d), some (.pcb (s.semd_table d).s_procq.head?))]
          s := by
        refine .one fun b hb => ⟨hb.active_ne hd, fun v hv => ?_, hb⟩
        cases hv
        rw [← hb.queueOf_active hd]
        rfl
      have hout : PcbFollows s [(.outProcQ (.s_procq d) (s.semd_table d).s_procq.head?,
          some (.pcb (s.semd_table d).s_procq.head?))]
          { s with toAsl := s.toAsl.setProcq d (s.semd_table d).s_procq.tail } := by
        refine .one fun b hb => ⟨hb.active_ne hd, fun v hv => ?_, ?_⟩
        · cases hv
          cases hq : (s.semd_table d).s_procq with
          | nil => rfl
          | cons p rest =>
              rw [List.head?_cons, PcbLists.call, hb.queueOf_active hd, hq]
              exact congrArg (fun x : Option PcbId × List PcbId => PcbValue.pcb x.1)
                (if_pos List.mem_cons_self)
        · have hset := hb.setProcq hd (s.semd_table d).s_procq.tail
          cases hq : (s.semd_table d).s_procq with
          | nil =>
              rw [hq, List.tail_nil, Asl.setProcq_eq hq] at hset
              rw [List.tail_nil, Asl.setProcq_eq hq]
              exact hb
          | cons p rest =>
              rw [List.head?_cons, PcbLists.call, Pcbs.outProcQ_snd, hb.queueOf_active hd, hq,
                List.erase_cons_head]
              rw [hq] at hset
              exact hset
      have hempty : PcbFollows { s with toAsl := s.toAsl.setProcq d (s.semd_table d).s_procq.tail }
          [(.emptyProcQ (.s_procq d), some (.bool ((s.semd_table d).s_procq.tail = [])))]
          { s with toAsl := s.toAsl.setProcq d (s.semd_table d).s_procq.tail } := by
        refine .one fun b hb => ⟨hb.active_ne hd, fun v hv => ?_, hb⟩
        cases hv
        rw [PcbLists.call, hb.queueOf_active hd, Asl.setProcq_self]
      refine hhead.cons (hout.cons ?_)
      dsimp only
      by_cases ht : (s.semd_table d).s_procq.tail = []
      · rw [if_pos ht]
        intro b hb
        obtain ⟨c, hc, hs⟩ := hempty b hb
        exact ⟨c, hc, hs.giveBack hd (by rw [Asl.setProcq_self, ht])⟩
      · rw [if_neg ht]
        exact hempty

/-! ### Blocking and releasing -/

/-- `blockCurrentProcess` makes its calls. -/
theorem follows_block (h : Linked lossy s none) (hc : s.currentProcess = some cur) (sem : Word)
    (tod₁ tod₂ : Word) : PcbFollows s (s.blockCalls L cur sem tod₁)
      (s.blockCurrentProcess L cur sem tod₁ tod₂) := by
  rw [blockCurrentProcess_eq]
  refine PcbFollows.trans ?_ (follows_scheduler _ tod₂)
  obtain ⟨hl, hr, hq⟩ := h.current hc
  have hs : SameLists s ((s.updateCPUTime cur tod₁).modify cur fun pcb =>
      { pcb with p_semAdd := sem }) :=
    (quiet_updateCPUTime s cur tod₁).sameLists.trans (sameLists_modify
      (f := fun pcb => { pcb with p_semAdd := sem }) (fun _ => ⟨rfl, rfl, rfl⟩) _ cur)
  have insert : ∀ v, SameLists s v → PcbFollows s (s.insertBlockedCalls sem cur)
      { v with toPhase1 := (v.toPhase1.insertBlocked sem cur).2, currentProcess := none } := by
    intro v hv
    have hi := follows_insertBlocked (s := v) (by rw [hv.asl]; exact h.asl)
      (by rw [Live, hv.free]; exact hl) (by rw [hv.ready]; exact hr)
      (fun d => by rw [hv.asl]; exact hq d) sem
    rw [hv.asl] at hi
    exact (hi.before hv).after (.of_eq rfl rfl)
  unfold blocked
  dsimp only
  split
  · exact insert _ (hs.trans (.of_eq rfl rfl))
  · exact insert _ hs

/-- `release` makes its calls. -/
theorem follows_release (h : Linked lossy s none) (semAdd : Word) (f : State → State) :
    PcbFollows s (s.releaseCalls semAdd) (s.release semAdd f).2 := by
  have hhand := h.removeBlocked semAdd
  have hrem := follows_removeBlocked s semAdd
  unfold Asl.releaseCalls Kernel.release
  rw [← (Phase1.removeBlocked_queue h.asl semAdd semAdd).1]
  generalize s.toPhase1.removeBlocked semAdd = r at hhand hrem ⊢
  obtain ⟨x, t⟩ := r
  cases x with
  | none => exact hrem.trans (.same (.refl _))
  | some p =>
      obtain ⟨hl, hr, hq, -⟩ := hhand.hand
      have hs := sameLists_modify (f := fun pcb => { pcb with p_semAdd := 0, p_s := f pcb.p_s })
        (fun _ => ⟨rfl, rfl, rfl⟩) { s with toPhase1 := t } p
      have hready : PcbFollows _ _ (({ s with toPhase1 := t }.modify p fun pcb =>
          { pcb with p_semAdd := 0, p_s := f pcb.p_s }).ready p) := follows_ready hl hr hq
      exact hrem.trans (hready.before hs)

/-- The `V` of a device makes its calls. -/
theorem follows_wake (h : Linked lossy s none) (j : Fin semDevLen) (status : Word) :
    PcbFollows s (s.wakeCalls L j) (s.wake L j status) := by
  have hs : SameLists s (s.setMem (L.sem j) (s.mem (L.sem j) + 1)) := .of_eq rfl rfl
  have hr := (follows_release (s := s.setMem (L.sem j) (s.mem (L.sem j) + 1))
    (h.same ⟨rfl, rfl, rfl, rfl, fun _ => rfl⟩) (L.sem j)
    fun st => { st with reg_a0 := status }).before hs
  unfold wakeCalls Kernel.wake
  split
  · split
    · rename_i t he
      rw [he] at hr
      exact hr
    · rename_i t he
      rw [he] at hr
      exact hr.after (.of_eq rfl rfl)
  · exact .same (.refl s)

/-- The loop of the interval timer makes its calls. -/
theorem follows_wakeClock (h : Linked lossy s none) (k : ℕ) :
    PcbFollows s (wakeClockCalls L k s) (s.wakeClock L k) := by
  induction k generalizing s with
  | zero => exact .same (.refl s)
  | succ k ih =>
      have hr := follows_release h (L.sem pseudoClock) fun st => { st with reg_a0 := 0 }
      have hl := h.release (L.sem pseudoClock) fun st => { st with reg_a0 := 0 }
      unfold wakeClockCalls Kernel.wakeClock
      refine hr.trans ?_
      generalize s.release (L.sem pseudoClock) (fun st => { st with reg_a0 := 0 }) = r at hl ⊢
      obtain ⟨x, t⟩ := r
      cases x with
      | none => exact .same (.refl t)
      | some p =>
          have hs : SameLists t { t with softBlockCount := t.softBlockCount - 1 } := .of_eq rfl rfl
          exact (ih (s := { t with softBlockCount := t.softBlockCount - 1 })
            (hl.same ⟨rfl, rfl, rfl, rfl, fun _ => rfl⟩)).before hs

/-! ### Termination -/

/-- `outProcQ` on the queue of an active descriptor. -/
theorem follows_outProcQ (hd : d ∈ s.semd_h) (p : PcbId) :
    PcbFollows s [(.outProcQ (.s_procq d) (some p),
        some (.pcb (Pcbs.outProcQ (s.semd_table d).s_procq p).1))]
      { s with toAsl := s.toAsl.setProcq d ((s.semd_table d).s_procq.erase p) } := by
  refine .one fun b hb => ⟨hb.active_ne hd, fun v hv => ?_, ?_⟩
  · cases hv
    rw [← hb.queueOf_active hd]
    rfl
  · rw [PcbLists.call, Pcbs.outProcQ_snd, hb.queueOf_active hd]
    exact hb.setProcq hd _

/-- The process leaves the queue it is in. -/
theorem follows_leaveSemaphore (h : Linked lossy s none) (p : PcbId) :
    PcbFollows s (if (s.pcbFree_table p).p_semAdd = 0 then [] else s.outBlockedCalls p)
      (s.leaveSemaphore L p) := by
  rcases h.leave_cases L p with ⟨hp, he⟩ | ⟨d, hd, hp, hk, he⟩
  · rw [he]
    split
    · exact .same (.refl s)
    · unfold Phase1.outBlockedCalls
      cases hf : s.find (s.pcbFree_table p).p_semAdd with
      | none => exact .same (.refl s)
      | some d =>
          have hout := follows_outProcQ (Asl.find_some hf).1 p
          rw [List.erase_of_not_mem (hp d), Asl.setProcq_eq rfl] at hout
          exact hout
  · rw [he, if_neg (hk ▸ (h.queued d p hp).2), Phase1.outBlockedCalls, hk, h.asl.find_key hd]
    exact (follows_outProcQ hd p).after ⟨rfl, rfl, rfl, fun _ => ⟨rfl, rfl, rfl⟩⟩

/-- The process is taken from the ready queue and from the tree, and freed. -/
theorem follows_discard (hl : s.Live p) (hn : s.readyQueue.Nodup)
    (hq : ∀ d, p ∉ (s.semd_table d).s_procq) (hnil : s.child p = []) :
    PcbFollows s [(.outProcQ .readyQueue (some p), none), (.outChild (some p), none),
      (.freePcb p, none)] (s.discard p) := by
  have hout : PcbFollows s [(.outProcQ .readyQueue (some p), none)]
      { s with readyQueue := (Pcbs.outProcQ s.readyQueue p).2 } := by
    refine .one fun b hb => ⟨hb.ready_ne, by simp, hb.free, ?_, hb.active, hb.idle, hb.child,
      hb.parent, hb.prio⟩
    rw [PcbLists.call, PcbLists.setQueue_same, hb.queueOf_ready]
  have htree : ∀ u : Kernel, PcbFollows u [(.outChild (some p), none)]
      (u.withPcbs (u.toPcbs.outChild p)) := by
    refine fun u => .one fun b hb => ⟨trivial, by simp, ?_, hb.ready, hb.active, hb.idle,
      fun q => ?_, fun q => ?_, fun q => ?_⟩
    · exact (Pcbs.outChild_free _ p).trans (hb.free.trans (Pcbs.outChild_free _ p).symm)
    · show ((b.toPcbs.outChild p).pcbFree_table q).p_child =
        ((u.toPcbs.outChild p).pcbFree_table q).p_child
      rw [Pcbs.outChild_table, Pcbs.outChild_table]
      dsimp only
      rw [hb.child, hb.parent]
      rfl
    · show ((b.toPcbs.outChild p).pcbFree_table q).p_parent =
        ((u.toPcbs.outChild p).pcbFree_table q).p_parent
      rw [Pcbs.outChild_table, Pcbs.outChild_table]
      dsimp only
      rw [hb.parent]
      rfl
    · show ((b.toPcbs.outChild p).pcbFree_table q).p_prio =
        ((u.toPcbs.outChild p).pcbFree_table q).p_prio
      rw [Pcbs.outChild_table, Pcbs.outChild_table]
      exact hb.prio q
  have hfree : ∀ u : Kernel, u.Live p → p ∉ u.readyQueue →
      (∀ d, p ∉ (u.semd_table d).s_procq) → u.parent p = none → u.child p = [] →
      PcbFollows u [(.freePcb p, none)] (u.withPcbs (u.toPcbs.freePcb p)) := by
    intro u hl hr hq hp hc
    refine .one fun b hb => ⟨⟨hb.live.mpr hl, hb.unqueued hr hq, (hb.parent p).trans hp,
      (hb.child p).trans hc⟩, by simp, ?_, hb.ready, hb.active, hb.idle, hb.child, hb.parent,
      hb.prio⟩
    exact congrArg (p :: ·) hb.free
  have hlast := hfree ({ s with readyQueue := (Pcbs.outProcQ s.readyQueue p).2 }.withPcbs
    (s.toPcbs.outChild p)) ?_ ?_ hq ?_ ?_
  · exact hout.cons ((htree _).cons (hlast.after ⟨rfl, rfl, rfl, fun _ => ⟨rfl, rfl, rfl⟩⟩))
  · show p ∉ (s.toPcbs.outChild p).pcbFree_h
    rw [Pcbs.outChild_free]
    exact hl
  · show p ∉ (Pcbs.outProcQ s.readyQueue p).2
    rw [Pcbs.outProcQ_snd]
    exact hn.not_mem_erase
  · show ((s.toPcbs.outChild p).pcbFree_table p).p_parent = none
    rw [Pcbs.outChild_table]
    exact if_pos rfl
  · show ((s.toPcbs.outChild p).pcbFree_table p).p_child = []
    rw [Pcbs.outChild_table]
    have hc : (s.pcbFree_table p).p_child = [] := hnil
    dsimp only
    rw [hc]
    split <;> rfl

/-- The end of `recursiveTerminateProcess` makes its calls. -/
theorem follows_bury (h : Linked lossy s none) (hl : s.Live p) (hnil : s.child p = []) :
    PcbFollows s (s.buryCalls p) (s.bury L p) := by
  refine (follows_leaveSemaphore (L := L) h p).trans ?_
  obtain ⟨asl, n, m, he⟩ := leaveSemaphore_frame L s p
  have hb := h.bury (L := L) hl
  -- once it is freed it is in no queue, so it has left the one it was in
  have hq : ∀ d, p ∉ ((s.leaveSemaphore L p).semd_table d).s_procq := fun d hd =>
    (hb.in_queue (d := d) hd).1 (by rw [bury_free]; exact List.mem_cons_self)
  refine follows_discard ?_ ?_ hq ?_
  · rw [he]
    exact hl
  · rw [he]
    exact h.nodup_ready
  · rw [he]
    exact hnil

/-- The first child is taken from the list. -/
theorem follows_removeChild {c : PcbId} {rest : List PcbId} (hl : s.Live p)
    (hc : s.child p = c :: rest) : PcbFollows s [(.removeChild p, some (.pcb (some c)))]
      (s.withPcbs (s.toPcbs.removeChild p).2) := by
  obtain ⟨-, hf, -, ht⟩ := Pcbs.removeChild_cons hc
  refine .one fun b hb => ?_
  obtain ⟨hv, hf', -, ht'⟩ := Pcbs.removeChild_cons (s := b.toPcbs) ((hb.child p).trans hc)
  refine ⟨hb.live.mpr hl, fun v h => ?_, ?_, hb.ready, hb.active, hb.idle, fun q => ?_, fun q => ?_,
    fun q => ?_⟩
  · cases h
    exact congrArg PcbValue.pcb hv
  · exact hf'.trans (hb.free.trans hf.symm)
  · show ((b.toPcbs.removeChild p).2.pcbFree_table q).p_child =
      ((s.toPcbs.removeChild p).2.pcbFree_table q).p_child
    rw [ht, ht']
    dsimp only
    rw [hb.child]
    rfl
  · show ((b.toPcbs.removeChild p).2.pcbFree_table q).p_parent =
      ((s.toPcbs.removeChild p).2.pcbFree_table q).p_parent
    rw [ht, ht']
    dsimp only
    rw [hb.parent]
    rfl
  · show ((b.toPcbs.removeChild p).2.pcbFree_table q).p_prio =
      ((s.toPcbs.removeChild p).2.pcbFree_table q).p_prio
    rw [ht, ht']
    exact hb.prio q

theorem follows_noChild (hl : s.Live p) (hc : s.child p = []) :
    PcbFollows s [(.removeChild p, some (.pcb none))] s := by
  refine .one fun b hb => ?_
  have hr : b.toPcbs.removeChild p = (none, b.toPcbs) :=
    Pcbs.removeChild_nil ((hb.child p).trans hc)
  refine ⟨hb.live.mpr hl, fun v hv => ?_, ?_⟩
  · cases hv
    rw [PcbLists.call, hr]
  · rw [PcbLists.call, hr]
    exact hb

section
variable {f k : ℕ}

/-- The loop over the children, if the calls on them are followed. -/
theorem follows_killChildren
    (ih : ∀ s target, Called (Sound lossy) f s → (s.Named target → s.Live target) →
      PcbFollows s (terminateCalls L f s target) (recursiveTerminateProcess L f s target))
    (h : Called (Sound lossy) f s) (hl : s.Live p) (hn : ¬ s.Named p) :
    PcbFollows s (killChildrenCalls (recursiveTerminateProcess L f) (terminateCalls L f) p k s)
      (killChildren (recursiveTerminateProcess L f) p k s) := by
  induction k generalizing s with
  | zero => exact .same (.refl s)
  | succ k ihk =>
      unfold killChildrenCalls killChildren
      cases hc : s.child p with
      | nil =>
          have hr : s.toPcbs.removeChild p = (none, s.toPcbs) := Pcbs.removeChild_nil hc
          rw [hr]
          exact follows_noChild hl hc
      | cons c rest =>
          rw [removeChild_first hc]
          have hP := Sound.kills L lossy fun _ => True
          have hu := h.detach hP trivial hl hc
          obtain ⟨hv, hcv, -⟩ := terminate_rule hP hu (h.detach_tracked hc) fun _ _ => trivial
          have hv' : Called (Sound lossy) f _ := ⟨hv, hu.tracked.culls hcv, hu.short.culls hcv,
            (unmarked_le hcv.named).trans hu.depth⟩
          have hnu : ¬ (s.withPcbs (s.toPcbs.removeChild p).2).Named p :=
            fun hx => hn ((detach_named hc).mp hx)
          exact (follows_removeChild hl hc).cons ((ih _ c hu (h.detach_tracked hc)).trans
            (ihk hv' (hcv.kept p ((detach_live hc).mpr hl) (.inr hnu))
              fun hx => hnu (hcv.named p hx)))

/-- `recursiveTerminateProcess`. -/
theorem follows_terminate (h : Called (Sound lossy) f s) (hl : s.Named target → s.Live target) :
    PcbFollows s (terminateCalls L f s target) (recursiveTerminateProcess L f s target) := by
  induction f generalizing s target with
  | zero => exact .same (.refl s)
  | succ f ih =>
      unfold terminateCalls recursiveTerminateProcess
      by_cases hn : s.Named target
      · have hP := Sound.kills L lossy fun _ => True
        have hneg : ¬ (s.pcbFree_table target).p_pid.toInt < 0 := not_lt.mpr hn
        have hu := h.mark hP trivial (hl hn) hn
        have hnm : ¬ (s.mark target).Named target := fun hx => (mark_named.mp hx).1 rfl
        obtain ⟨hv, hcv, hnil⟩ := killChildren_rule (k := maxProc) hP
          (fun s target hs hls _ => terminate_rule hP hs hls fun _ _ => trivial) hu (hl hn) hnm
          trivial (hu.short target) fun _ _ _ _ => trivial
        have hloop := follows_killChildren (k := maxProc) (fun s target => ih) hu (hl hn) hnm
        rw [if_neg hneg, if_neg hneg]
        exact (hloop.trans (follows_bury hv.links (hcv.kept target (hl hn) (.inr hnm)) hnil)).before
          (sameLists_modify (f := fun pcb => { pcb with p_pid := -1 }) (fun _ => ⟨rfl, rfl, rfl⟩)
            s target)
      · have hneg : (s.pcbFree_table target).p_pid.toInt < 0 := not_le.mp hn
        rw [if_pos hneg, if_pos hneg]
        exact .same (.refl s)

end

/-! ### Creation -/

/-- `allocPcb` is one call. -/
theorem follows_allocPcb {v : Pcbs} (ha : s.toPcbs.allocPcb = some (p, v)) :
    PcbFollows s [(.allocPcb, some (.pcb (some p)))] (s.withPcbs v) := by
  obtain ⟨hf, hold, hnew, -⟩ := Pcbs.allocPcb_some ha
  refine .one fun b hb => ?_
  cases hb' : b.toPcbs.allocPcb with
  | none =>
      have hn := Pcbs.allocPcb_none hb'
      rw [hb.free, hf] at hn
      cases hn
  | some r =>
      obtain ⟨p', v'⟩ := r
      obtain ⟨hf', hold', hnew', -⟩ := Pcbs.allocPcb_some hb'
      obtain ⟨rfl, hrest⟩ : p' = p ∧ v'.pcbFree_h = v.pcbFree_h :=
        List.cons.inj (hf'.symm.trans (hb.free.trans hf))
      refine ⟨trivial, fun x hx => ?_, ?_⟩
      · cases hx
        rw [PcbLists.call, hb']
      · rw [PcbLists.call, hb']
        refine ⟨hrest, hb.ready, hb.active, hb.idle, fun q => ?_, fun q => ?_, fun q => ?_⟩
        all_goals
          show _ = _
          by_cases hq : q = p'
        · show (v'.pcbFree_table q).p_child = (v.pcbFree_table q).p_child
          rw [hq, hnew, hnew']
        · show (v'.pcbFree_table q).p_child = (v.pcbFree_table q).p_child
          rw [hold q hq, hold' q hq]
          exact hb.child q
        · show (v'.pcbFree_table q).p_parent = (v.pcbFree_table q).p_parent
          rw [hq, hnew, hnew']
        · show (v'.pcbFree_table q).p_parent = (v.pcbFree_table q).p_parent
          rw [hold q hq, hold' q hq]
          exact hb.parent q
        · show (v'.pcbFree_table q).p_prio = (v.pcbFree_table q).p_prio
          rw [hq, hnew, hnew']
        · show (v'.pcbFree_table q).p_prio = (v.pcbFree_table q).p_prio
          rw [hold q hq, hold' q hq]
          exact hb.prio q

/-- A PCB is rewritten, its priority among the rest. -/
theorem follows_setPrio {f : Pcb → Pcb} {v : ℤ} (hf : ∀ x, (f x).p_child = x.p_child ∧
    (f x).p_parent = x.p_parent ∧ (f x).p_prio = v) (s : Kernel) (p : PcbId) :
    PcbFollows s [(.setPrio p v, none)] (s.modify p f) := by
  refine .one fun b hb => ⟨trivial, by simp, hb.free, hb.ready, hb.active, hb.idle, fun q => ?_,
    fun q => ?_, fun q => ?_⟩
  all_goals
    rw [PcbLists.call]
    by_cases hq : q = p
  · rw [hq, child, Pcbs.modify_self, modify_self, (hf _).1]
    exact hb.child p
  · rw [child, Pcbs.modify_of_ne hq, modify_of_ne hq]
    exact hb.child q
  · rw [hq, parent, Pcbs.modify_self, modify_self, (hf _).2.1]
    exact hb.parent p
  · rw [parent, Pcbs.modify_of_ne hq, modify_of_ne hq]
    exact hb.parent q
  · rw [hq, Pcbs.modify_self, modify_self, (hf _).2.2]
  · rw [Pcbs.modify_of_ne hq, modify_of_ne hq]
    exact hb.prio q

/-- `insertChild` is one call. -/
theorem follows_insertChild (hp : s.Live p) (hq : s.Live q) (hn : s.parent q = none) :
    PcbFollows s [(.insertChild p q, none)] (s.withPcbs (s.toPcbs.insertChild p q)) := by
  refine .one fun b hb => ⟨⟨hb.live.mpr hp, hb.live.mpr hq, (hb.parent q).trans hn⟩, by simp,
    hb.free, hb.ready, hb.active, hb.idle, fun x => ?_, fun x => ?_, fun x => ?_⟩
  · show ((b.toPcbs.insertChild p q).pcbFree_table x).p_child =
      ((s.toPcbs.insertChild p q).pcbFree_table x).p_child
    rw [Pcbs.insertChild_table, Pcbs.insertChild_table]
    dsimp only
    rw [hb.child]
    rfl
  · show ((b.toPcbs.insertChild p q).pcbFree_table x).p_parent =
      ((s.toPcbs.insertChild p q).pcbFree_table x).p_parent
    rw [Pcbs.insertChild_table, Pcbs.insertChild_table]
    dsimp only
    rw [hb.parent]
    rfl
  · show ((b.toPcbs.insertChild p q).pcbFree_table x).p_prio =
      ((s.toPcbs.insertChild p q).pcbFree_table x).p_prio
    rw [Pcbs.insertChild_table, Pcbs.insertChild_table]
    exact hb.prio x

/-- The PCB in hand becomes a ready child of `cur`. -/
theorem follows_adopt (h : Linked lossy s (some p)) (hcur : s.Live cur) (hn : s.parent p = none)
    {f : Pcb → Pcb} {v : ℤ} (hf : ∀ x, (f x).p_child = x.p_child ∧ (f x).p_parent = x.p_parent ∧
      (f x).p_prio = v) : PcbFollows s [(.setPrio p v, none), (.insertChild cur p, none),
        (.insertProcQ .readyQueue p, none)] (s.adopt cur p f) := by
  obtain ⟨hl, hr, hq, -⟩ := h.hand
  have hpar : (s.modify p f).parent p = none := by
    rw [parent, modify_self, (hf _).2.1]
    exact hn
  have hchild := follows_insertChild (s := s.modify p f) (p := cur) (q := p) hcur hl hpar
  have hready := follows_ready (s := (s.modify p f).withPcbs
    ((s.modify p f).toPcbs.insertChild cur p)) (p := p) hl hr hq
  exact (follows_setPrio hf s p).cons (hchild.cons (hready.after (.of_eq rfl rfl)))

/-! ### The services -/

section
variable (h : Sound lossy s) (hc : s.currentProcess = some cur) (state : State) (i : Inputs)
include h hc

/-- `createProcess` makes its calls. -/
theorem follows_createProcess :
    PcbFollows s (s.createProcessCalls cur state) (s.createProcess cur state i) := by
  have hcur := h.links.current hc
  have hhand := fun p v => h.links.alloc (p := p) (u := v)
  unfold createProcessCalls createProcess
  cases ha : s.toPcbs.allocPcb with
  | none =>
      have hnone : PcbFollows s [(.allocPcb, some (.pcb none))] s := by
        refine .one fun b hb => ?_
        have hb' : b.toPcbs.allocPcb = none := by
          unfold Pcbs.allocPcb
          rw [hb.free, Pcbs.allocPcb_none ha]
        refine ⟨trivial, fun v hv => ?_, ?_⟩
        · cases hv
          rw [PcbLists.call, hb']
        · rw [PcbLists.call, hb']
          exact hb
      exact hnone.after ((quiet_copyState s cur _).trans (quiet_ldst _ _)).sameLists
  | some r =>
      obtain ⟨newPcb, v⟩ := r
      obtain ⟨hf, -, hnew, -⟩ := Pcbs.allocPcb_some ha
      have hlive : cur ∉ v.pcbFree_h := fun hm =>
        hcur.1 (by rw [hf]; exact List.mem_cons_of_mem _ hm)
      have hadopt := follows_adopt (hhand newPcb v ha) hlive (congrArg Pcb.p_parent hnew)
        (f := fun pcb => { pcb with
          p_s := i.newState
          p_supportStruct := state.reg_a3
          p_prio := state.reg_a2.toInt
          p_time := 0
          p_semAdd := 0 }) fun _ => ⟨rfl, rfl, rfl⟩
      exact (follows_allocPcb ha).cons (hadopt.after
        ((quiet_copyState _ cur _).trans (quiet_ldst _ _)).sameLists)

/-- `terminateProcess` makes its calls. -/
theorem follows_terminateProcess :
    PcbFollows s (s.terminateProcessCalls L cur state i) (s.terminateProcess L cur state i) := by
  have hq := quiet_updateCPUTime s cur (i.tod 0)
  have hu := h.quiet hq
  have hlive : ∀ p, (if state.reg_a1 = 0 then some cur else
      (s.updateCPUTime cur (i.tod 0)).findInTree maxProc (s.updateCPUTime cur (i.tod 0)).rootProcess
        state.reg_a1) = some p → (s.updateCPUTime cur (i.tod 0)).Live p := by
    intro p hp
    split at hp
    · cases hp
      exact (h.links.current hc).1
    · obtain ⟨-, hn, rfl | ⟨q, hq⟩⟩ := findInTree_some hp
      · exact hu.tree.root hn
      · exact hu.tree.tracked q p hq hn
  unfold terminateProcessCalls terminateProcess
  dsimp only
  refine PcbFollows.before hq.sameLists ?_
  generalize s.updateCPUTime cur (i.tod 0) = u at hu hlive ⊢
  cases ht : (if state.reg_a1 = 0 then some cur else
      u.findInTree maxProc u.rootProcess state.reg_a1) with
  | none => exact .same (quiet_ldst u state).sameLists
  | some target =>
      have hkill := follows_terminate (L := L) (hu.tree.called hu) fun _ => hlive target ht
      refine hkill.trans ?_
      dsimp only
      split
      · exact follows_drop _ (i.tod 1)
      · exact .same ((quiet_copyState _ cur _).trans (quiet_ldst _ _)).sameLists

/-- `passUpOrDie`. -/
theorem follows_die (ty : Fin 2) (st : State) (tod : ℕ → Word) :
    PcbFollows s (s.dieCalls L cur tod) (s.passUpOrDie L cur ty st tod) := by
  unfold dieCalls passUpOrDie
  dsimp only
  split
  · have hq := quiet_updateCPUTime s cur (tod 0)
    have hu := h.quiet hq
    have hlive : (s.updateCPUTime cur (tod 0)).Named cur → (s.updateCPUTime cur (tod 0)).Live cur :=
      fun _ => (h.links.current hc).1
    have hkill := follows_terminate (L := L) (hu.tree.called hu) hlive
    exact (hkill.trans (follows_drop _ (tod 1))).before hq.sameLists
  · exact .same (.of_eq rfl rfl)

theorem follows_passeren :
    PcbFollows s (s.passerenCalls L cur state i) (s.passeren L cur state i) := by
  have hs := sameLists_save s cur (i.tod 0) state state.reg_a1 (s.mem state.reg_a1 - 1)
  have hu := (h.quiet (quiet_save s cur (i.tod 0) state)).setMem state.reg_a1
    (s.mem state.reg_a1 - 1)
  unfold passerenCalls passeren
  dsimp only
  split
  · exact (follows_block hu.links hc _ _ _).before hs
  · exact .same (hs.trans (quiet_ldst _ state).sameLists)

omit hc in
theorem follows_verhogen :
    PcbFollows s (s.verhogenCalls state) (s.verhogen cur state i) := by
  have hq := quiet_save s cur (i.tod 0) state
  have hs := sameLists_save s cur (i.tod 0) state state.reg_a1 (s.mem state.reg_a1 + 1)
  have hm : ((s.updateCPUTime cur (i.tod 0)).copyState cur state).mem = s.mem := rfl
  unfold verhogenCalls verhogen
  dsimp only
  rw [mem_setMem, hm]
  split
  · exact ((follows_release ((h.quiet hq).setMem _ _).links state.reg_a1 id).before hs).after
      (quiet_ldst _ _).sameLists
  · exact .same (hs.trans (quiet_ldst _ _).sameLists)

theorem follows_doIO : PcbFollows s (doIOCalls L s cur state i) <| doIO L s cur state i := by
  unfold doIOCalls doIO
  cases semIndex state.reg_a1 with
  | none => exact .same (quiet_ldst _ _).sameLists
  | some j =>
      have hs := sameLists_save s cur (i.tod 0) state (L.sem j) (s.mem (L.sem j) - 1)
      have ho := quiet_output (((s.updateCPUTime cur (i.tod 0)).copyState cur state).setMem
        (L.sem j) (s.mem (L.sem j) - 1)) (.store state.reg_a1 state.reg_a2)
      have hu := ((h.quiet (quiet_save s cur (i.tod 0) state)).setMem (L.sem j)
        (s.mem (L.sem j) - 1)).quiet ho
      exact (follows_block hu.links hc _ _ _).before (hs.trans ho.sameLists)

/-- Each service makes its calls. -/
theorem follows_serve (c : SysCall) :
    PcbFollows s (s.serveCalls L cur state i c) (s.serve L cur state i c) := by
  have hq := quiet_save s cur (i.tod 0) state
  cases c with
  | createProcess => exact follows_createProcess h hc state i
  | termProcess => exact follows_terminateProcess h hc state i
  | passeren => exact follows_passeren h hc state i
  | verhogen => exact follows_verhogen h state i
  | doIO => exact follows_doIO h hc state i
  | clockWait =>
      have hu := (h.quiet hq).setMem (L.sem pseudoClock) (s.mem (L.sem pseudoClock) - 1)
      exact (follows_block hu.links hc _ _ _).before (sameLists_save s cur _ state _ _)
  | yield => exact (follows_yield (h.quiet hq).links hc _).before hq.sameLists
  | getTime =>
      exact .same ((quiet_updateCPUTime s cur (i.tod 0)).trans (quiet_ldst _ _)).sameLists
  | getSupportPtr => exact .same (quiet_ldst _ _).sameLists
  | getProcessId => exact .same (quiet_ldst _ _).sameLists

theorem follows_systemCall :
    PcbFollows s (s.systemCallCalls L cur state i) (s.systemCallHandler L cur state i) := by
  unfold systemCallCalls systemCallHandler
  dsimp only
  split
  · exact follows_die h hc _ _ _
  · split
    · exact follows_die h hc _ _ _
    · cases sysCall state.reg_a0.toInt with
      | none => exact follows_die h hc _ _ _
      | some c => exact follows_serve h hc state i c

theorem follows_trap : PcbFollows s (s.trapCalls L cur state i) (s.trapHandler L cur state i) := by
  unfold trapCalls trapHandler
  dsimp only
  split
  · exact follows_systemCall h hc _ i
  · exact follows_die h hc _ _ _

end

/-! ### Interrupts -/

theorem follows_resume (s : Kernel) (saved : State) (tod : Word) :
    PcbFollows s s.resumeCalls (s.resume saved tod) := by
  unfold resumeCalls resume
  cases s.currentProcess with
  | none => exact follows_scheduler s tod
  | some cur => exact .same (quiet_ldst s saved).sameLists

/-- The end of a time slice makes its calls. -/
theorem follows_timeSliceEnd (h : Sound lossy s) (saved : State) (tod : Word) :
    PcbFollows s (s.timeSliceEndCalls saved) (s.timeSliceEnd saved tod) := by
  have hq := quiet_output s (.setTimer never)
  have hu := h.quiet hq
  unfold timeSliceEndCalls timeSliceEnd
  dsimp only
  refine PcbFollows.before hq.sameLists ?_
  generalize s.output (.setTimer never) = u at hu ⊢
  cases hc : u.currentProcess with
  | none => exact follows_scheduler u tod
  | some cur =>
      have hq' := quiet_copyState u cur { saved with status := saved.status ||| mstatusMieMask }
      exact (follows_yield (hu.quiet hq').links (hq'.current.trans hc) tod).before hq'.sameLists

variable {dev : Fin devPerInt} {reg : Word → Word}

theorem follows_termChannel (h : Sound lossy s) (c : TermChannel) :
    PcbFollows s (s.termChannelCalls L dev reg c) (s.termChannel L dev reg c) := by
  unfold termChannelCalls Kernel.termChannel
  split
  · have ho := quiet_output s (.store (c.command dev) ack)
    exact (follows_wake (h.quiet ho).links _ _).before ho.sameLists
  · exact .same (.refl s)

theorem follows_deviceInterrupt (h : Sound lossy s) (line : ℕ) :
    PcbFollows s (s.deviceInterruptCalls L line reg) (s.deviceInterrupt L line reg) := by
  unfold deviceInterruptCalls deviceInterrupt
  cases getHighestPriorityDevice (reg (intBitmap line)) with
  | none => exact .same (.refl s)
  | some dev =>
      dsimp only
      split
      · have ho := quiet_output s (.store (devRegBase (line - 3 + 3) dev + 4) ack)
        exact (follows_wake (h.quiet ho).links _ _).before ho.sameLists
      · exact (follows_termChannel h .tx).trans (follows_termChannel (h.termChannel dev reg .tx) .rx)

/-- `interruptHandler` makes its calls. -/
theorem follows_interrupt (h : Sound lossy s) (saved : State) (i : Inputs) :
    PcbFollows s (s.interruptCalls L saved i) (s.interruptHandler L saved i) := by
  have hq := quiet_chargeTime s (i.tod 0)
  have hu := h.quiet hq
  unfold interruptCalls interruptHandler
  dsimp only
  refine PcbFollows.before hq.sameLists ?_
  generalize s.chargeTime (i.tod 0) = u at hu ⊢
  split
  · exact follows_timeSliceEnd hu saved _
  · split
    · have ho := quiet_output u (.ldit pSecond)
      have hclock := follows_wakeClock (L := L) (hu.quiet ho).links (maxProc + 1)
      have htimer : SameLists ((u.output (.ldit pSecond)).wakeClock L (maxProc + 1))
          (u.intervalTimer L) := .of_eq rfl rfl
      exact ((hclock.before ho.sameLists).after htimer).trans (follows_resume _ _ _)
    · split
      · exact (follows_deviceInterrupt hu _).trans (follows_resume _ _ _)
      · exact follows_resume _ _ _

/-! ### Steps and runs -/

/-- **A step makes its calls.** -/
theorem follows_step {e : KernelEvent} (h : Sound lossy s) (hs : s.step L e = some t) :
    PcbFollows s (s.stepCalls L e) t := by
  unfold stepCalls
  rcases step_cases hs with ⟨a, v, rfl, -, -, rfl⟩ | ⟨saved, i, rfl,
    ⟨hint, -, rfl⟩ | ⟨hint, -, -, cur, hc, rfl⟩⟩
  · exact .same (.of_eq rfl rfl)
  · dsimp only
    rw [if_pos hint]
    exact follows_interrupt h saved i
  · dsimp only
    rw [if_neg hint, hc]
    exact follows_trap h hc saved i

/-- The links of `m` make the lists of the nucleus. -/
structure Held (m : PcbLinks QueueHead) (s : Kernel) : Prop where
  free : m.p_list.elems .pcbFree_h = some s.pcbFree_h
  ready : m.p_list.elems (.procQ .readyQueue) = some s.readyQueue
  active : ∀ d ∈ s.semd_h,
    m.p_list.elems (.procQ (.s_procq d)) = some (s.semd_table d).s_procq
  child : ∀ p, s.Live p → m.p_sib.elems p = some (s.child p)
  parent : ∀ p, (m.pcbFree_table p).p_parent = s.parent p
  prio : ∀ p, (m.pcbFree_table p).p_prio = (s.pcbFree_table p).p_prio

/-- Links that show the lists of a shadow show those of the nucleus. -/
theorem Shadow.held (h : Shadow b s) {m : PcbLinks QueueHead} (hm : PcbLinks.Shows m b) :
    Held m s where
  free := by
    rw [← h.free]
    exact hm.free
  ready := hm.queue _ _ h.ready
  active d hd := hm.queue _ _ (h.active d hd)
  child p hp := by
    rw [← h.child p]
    exact hm.child p (h.live.mpr hp)
  parent p := by
    rw [hm.record]
    exact h.parent p
  prio p := by
    rw [hm.record]
    exact h.prio p

section
variable (L : Layout) (mem : Word → Word) (support : Word → SupportT) (test ramtop tod : Word)

/-- `initKernel`, once the ready queue is set up. -/
theorem follows_init : PcbFollows
    (initGlobals (fun a => if isSoftBlockSemaphore L a then 0 else mem a) support) initCalls.tail
    (initKernel L mem support test ramtop tod) := by
  generalize hm : (fun a => if isSoftBlockSemaphore L a then 0 else mem a) = mem'
  let v : Pcbs :=
    { pcbFree_table := Function.update (fun _ => .zero) first { Pcb.zero with p_pid := 1 }
      pcbFree_h := (List.finRange maxProc).reverse.tail
      next_pid := 2 }
  have ha : (initGlobals mem' support).toPcbs.allocPcb = some (first, v) := rfl
  have hk : initKernel L mem support test ramtop tod =
      { ({ (initGlobals mem' support).withPcbs v with rootProcess := first }.copyState first
        (initState test ramtop)).ready first with processCount := 1 }.scheduler tod := by
    rw [← hm]
    rfl
  rw [hk]
  generalize hu : { (initGlobals mem' support).withPcbs v with rootProcess := first }.copyState first
    (initState test ramtop) = u
  -- the priority that is written is the one `allocPcb` left
  have hset : SameLists (((initGlobals mem' support).withPcbs v).modify first fun pcb =>
      { pcb with p_prio := 0 }) u := by
    rw [← hu]
    refine ⟨rfl, rfl, rfl, fun q => ?_⟩
    by_cases hq : q = first
    · subst hq
      exact ⟨rfl, rfl, rfl⟩
    · unfold child parent
      rw [modify_of_ne hq, copyState, modify_of_ne hq]
      exact ⟨rfl, rfl, rfl⟩
  have hprio := (follows_setPrio (f := fun pcb => { pcb with p_prio := 0 })
    (fun _ => ⟨rfl, rfl, rfl⟩) ((initGlobals mem' support).withPcbs v) first).after hset
  have hready : PcbFollows u [(.insertProcQ .readyQueue first, none)] (u.ready first) := by
    rw [← hu]
    refine follows_ready ?_ List.not_mem_nil fun d => List.not_mem_nil
    have hl : first ∉ (List.finRange maxProc).reverse.tail := by decide
    exact hl
  have hcount : SameLists (u.ready first) { u.ready first with processCount := 1 } :=
    .of_eq rfl rfl
  have hsched := follows_scheduler { u.ready first with processCount := 1 } tod
  have hqueue : { u.ready first with processCount := 1 }.readyQueue = [first] := by
    rw [← hu]
    rfl
  have hcalls : schedulerCalls { u.ready first with processCount := 1 } =
      [(.emptyProcQ .readyQueue, some (.bool false)),
        (.removeProcQ .readyQueue, some (.pcb (some first)))] := by
    unfold schedulerCalls
    rw [hqueue]
  rw [hcalls] at hsched
  exact (follows_allocPcb ha).cons (hprio.cons ((hready.after hcount).cons hsched))

theorem shadow_init : ∃ c, Run PcbLists.ask PcbLists.Allows .init initCalls c ∧
    Shadow c (initKernel L mem support test ramtop tod) := by
  have h₀ : Shadow ((PcbLists.init : PcbLists QueueHead).setQueue .readyQueue [])
      (initGlobals (fun a => if isSoftBlockSemaphore L a then 0 else mem a) support) :=
    ⟨rfl, PcbLists.setQueue_same, nofun, fun _ _ => rfl, fun _ => rfl, fun _ => rfl, fun _ => rfl⟩
  obtain ⟨c, hc, hs⟩ := follows_init L mem support test ramtop tod _ h₀
  exact ⟨c, .cons trivial (ask_eq_some.mpr ⟨_, rfl, by simp⟩) hc, hs⟩

end

/-- **The nucleus over the pointers of `pcb.c`.**  On every run, whatever the links held before
`initPcbs`, the calls of the nucleus keep to the obligations of `pcb.c`; made on the pointers they
get the replies the nucleus goes by, and the links make its lists. -/
theorem pcbs_of_run {m₀ : PcbLinks QueueHead} {mem : Word → Word} {support : Word → SupportT}
    {test ramtop tod : Word} {es : List KernelEvent}
    (hm : m₀.pcbFree_table = fun _ => Pcb.zero.record) (hn : m₀.next_pid = 1)
    (hr : Run (record (step L) (talk L)) anyStep (initKernel L mem support test ramtop tod,
      initCalls) es (s, xs)) :
    (∃ b, Run PcbLists.ask PcbLists.Allows .init xs b) ∧
      ∃ m, Run PcbLinks.ask anyStep m₀.initPcbs xs m ∧ Held m s := by
  obtain ⟨-, b, hb, hs⟩ := hr.inv (I := fun x => Sound True x.1 ∧
    ∃ b, Run PcbLists.ask PcbLists.Allows .init x.2 b ∧ Shadow b x.1)
    ⟨.init L mem support test ramtop tod True, shadow_init L mem support test ramtop tod⟩
    fun x e y ⟨h, b, hb, hsh⟩ _ hst => by
      obtain ⟨hstep, hnote⟩ := record_eq_some hst
      obtain ⟨c, hc, hs⟩ := follows_step h hstep b hsh
      refine ⟨h.step hstep (fun _ _ => .inl trivial) fun _ _ => .inl trivial, c, ?_, hs⟩
      rw [hnote]
      exact hb.append hc
  obtain ⟨m, l, hrun, hmk⟩ := (PcbLinks.Makes.initPcbs hm hn).asks hb
  exact ⟨⟨b, hb⟩, m, hrun, hs.held hmk.shows⟩

/-- The links before the nucleus is booted. -/
def links₀ : PcbLinks QueueHead := ⟨⟨id, id⟩, ⟨id, id⟩, fun _ => Pcb.zero.record, 1⟩

/-- The first process creates a child and waits; the child wakes it and kills it, and so itself. -/
def waits : List KernelEvent :=
  [call (-1) 0 0 0, call (-3) 0x20002000 0 0, call (-4) 0x20002000 0 0, call (-2) 1 0 0]

theorem pcbs_of_run_waits : ∃ s xs m, Run (record (step layout₀) (talk layout₀)) anyStep
    (boot₀, initCalls) waits (s, xs) ∧
    Run PcbLinks.ask anyStep links₀.initPcbs xs m ∧
    m.p_list.elems (.procQ .readyQueue) = some [] ∧ s.pcbFree_h.length = maxProc := by
  obtain ⟨⟨s, xs⟩, hr, hq, hl⟩ := exists_run (record (step layout₀) (talk layout₀)) anyStep
    (fun x => x.1.readyQueue = [] ∧ x.1.pcbFree_h.length = maxProc) (boot₀, initCalls) waits
    (by decide +kernel)
  have hrec : links₀.pcbFree_table = fun _ => Pcb.zero.record := rfl
  obtain ⟨-, m, hm, hh⟩ := pcbs_of_run hrec rfl hr
  exact ⟨s, xs, m, hr, hm, hq ▸ hh.ready, hl⟩

end Kernel

end PandOS
