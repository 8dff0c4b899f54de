import PandOS.Phase2.Interrupt

/-!
# Phase 2 — what one step of the nucleus does

`Kernel.act L s e` says, from the state and the event, what the step does with processes and
semaphore words; `Did L s a t` what the state after it is.  Processor states, times, outputs and
support structures are left open (`Quiet`).  `did_step`: every step of the nucleus does its act;
the laws about links, the tree, counters and semaphores are proved from this.
-/

namespace PandOS

namespace Kernel

variable {L : Layout} {s t u : Kernel} {p q : PcbId}

/-! ### Quiet changes -/

/-- Only processor states, times, outputs, support structures and `cpu` are different. -/
structure Quiet (s t : Kernel) : Prop where
  asl : t.toAsl = s.toAsl
  free : t.pcbFree_h = s.pcbFree_h
  next : t.next_pid = s.next_pid
  pcb : ∀ p, ∃ st time, t.pcbFree_table p = { s.pcbFree_table p with p_s := st, p_time := time }
  ready : t.readyQueue = s.readyQueue
  current : t.currentProcess = s.currentProcess
  processes : t.processCount = s.processCount
  soft : t.softBlockCount = s.softBlockCount
  root : t.rootProcess = s.rootProcess
  mem : t.mem = s.mem

theorem Quiet.refl (s : Kernel) : Quiet s s :=
  ⟨rfl, rfl, rfl, fun _ => ⟨_, _, rfl⟩, rfl, rfl, rfl, rfl, rfl, rfl⟩

theorem Quiet.trans (h₁ : Quiet s t) (h₂ : Quiet t u) : Quiet s u where
  asl := h₂.asl.trans h₁.asl
  free := h₂.free.trans h₁.free
  next := h₂.next.trans h₁.next
  pcb p := by
    obtain ⟨st₁, time₁, e₁⟩ := h₁.pcb p
    obtain ⟨st₂, time₂, e₂⟩ := h₂.pcb p
    exact ⟨st₂, time₂, by rw [e₂, e₁]⟩
  ready := h₂.ready.trans h₁.ready
  current := h₂.current.trans h₁.current
  processes := h₂.processes.trans h₁.processes
  soft := h₂.soft.trans h₁.soft
  root := h₂.root.trans h₁.root
  mem := h₂.mem.trans h₁.mem

/-- A field of a PCB that is neither its processor state nor its time. -/
theorem Quiet.field {α : Type*} {g : Pcb → α} (h : Quiet s t)
    (hg : ∀ x st time, g { x with p_s := st, p_time := time } = g x) (p : PcbId) :
    g (t.pcbFree_table p) = g (s.pcbFree_table p) := by
  obtain ⟨st, time, e⟩ := h.pcb p
  rw [e, hg]

theorem quiet_modify {f : Pcb → Pcb}
    (hf : ∀ x, ∃ st time, f x = { x with p_s := st, p_time := time }) (s : Kernel) (p : PcbId) :
    Quiet s (s.modify p f) := by
  refine ⟨rfl, rfl, rfl, fun q => ?_, rfl, rfl, rfl, rfl, rfl, rfl⟩
  by_cases h : q = p
  · obtain ⟨st, time, e⟩ := hf (s.pcbFree_table p)
    refine ⟨st, time, ?_⟩
    rw [h, ← e]
    exact Function.update_self ..
  · exact ⟨_, _, Function.update_of_ne h ..⟩

theorem quiet_copyState (s : Kernel) (p : PcbId) (st : State) : Quiet s (s.copyState p st) :=
  quiet_modify (fun x => ⟨st, x.p_time, rfl⟩) s p

theorem quiet_updateCPUTime (s : Kernel) (p : PcbId) (tod : Word) :
    Quiet s (s.updateCPUTime p tod) := by
  have h := quiet_modify (f := fun pcb =>
    { pcb with p_time := pcb.p_time + (tod - s.start_time_current_quantum) })
    (fun x => ⟨x.p_s, _, rfl⟩) s p
  exact ⟨h.asl, h.free, h.next, h.pcb, h.ready, h.current, h.processes, h.soft, h.root, h.mem⟩

/-- What most services do first. -/
theorem quiet_save (s : Kernel) (p : PcbId) (tod : Word) (st : State) :
    Quiet s ((s.updateCPUTime p tod).copyState p st) :=
  (quiet_updateCPUTime s p tod).trans (quiet_copyState _ p st)

theorem quiet_ldst (s : Kernel) (st : State) : Quiet s (s.ldst st) :=
  ⟨rfl, rfl, rfl, fun _ => ⟨_, _, rfl⟩, rfl, rfl, rfl, rfl, rfl, rfl⟩

theorem quiet_output (s : Kernel) (o : Output) : Quiet s (s.output o) :=
  ⟨rfl, rfl, rfl, fun _ => ⟨_, _, rfl⟩, rfl, rfl, rfl, rfl, rfl, rfl⟩

theorem quiet_chargeTime (s : Kernel) (now : Word) : Quiet s (s.chargeTime now) := by
  unfold chargeTime
  split
  · exact quiet_updateCPUTime s _ now
  · exact ⟨rfl, rfl, rfl, fun _ => ⟨_, _, rfl⟩, rfl, rfl, rfl, rfl, rfl, rfl⟩

theorem Quiet.setMem (h : Quiet s t) (a v : Word) : Quiet (s.setMem a v) (t.setMem a v) :=
  ⟨h.asl, h.free, h.next, h.pcb, h.ready, h.current, h.processes, h.soft, h.root, by
    show Function.update t.mem a v = Function.update s.mem a v
    rw [h.mem]⟩

/-! ### The acts -/

/-- What a step does with processes and semaphore words. -/
inductive Act where
  | quiet
  | store (a v : Word)
  | create
  | kill (target : PcbId)
  /-- `PASSEREN` lets its caller go on. -/
  | pass (semAdd : Word)
  /-- `PASSEREN` blocks its caller. -/
  | block (semAdd : Word)
  | io (j : Fin semDevLen)
  | clockWait
  | signal (semAdd : Word)
  | requeue
  /-- The `V`s of an interrupt, each with the status it delivers. -/
  | wake (l : List (Fin semDevLen × Word))
  | tick
  deriving DecidableEq

/-- The process `TERMPROCESS` is for. -/
def termTarget (s : Kernel) (cur : PcbId) (pid : Word) : Option PcbId :=
  if pid = 0 then some cur else s.findInTree maxProc s.rootProcess pid

/-- The channels of a terminal whose status byte is not 0. -/
def termWakes (dev : Fin devPerInt) (reg : Word → Word) : List (Fin semDevLen × Word) :=
  [TermChannel.tx, TermChannel.rx].filterMap fun c =>
    if reg (c.status dev) &&& 0xFF ≠ 0 then some (c.sem dev, reg (c.status dev)) else none

/-- The `V`s of a device interrupt. -/
def deviceWakes (line : ℕ) (reg : Word → Word) : List (Fin semDevLen × Word) :=
  match getHighestPriorityDevice (reg (intBitmap line)) with
  | none => []
  | some dev =>
      if h : 3 ≤ line ∧ line ≤ 6 then
        [(devSemBase ⟨line - 3, line_lt h⟩ dev, reg (devRegBase (line - 3 + 3) dev))]
      else termWakes dev reg

/-- The act of a service. -/
def serviceAct (s : Kernel) (cur : PcbId) (saved : State) : SysCall → Act
  | SysCall.createProcess => if s.pcbFree_h = [] then .quiet else .create
  | SysCall.termProcess =>
      match s.termTarget cur saved.reg_a1 with
      | none => .quiet
      | some target => .kill target
  | SysCall.passeren =>
      if (s.mem saved.reg_a1 - 1).toInt < 0 then .block saved.reg_a1 else .pass saved.reg_a1
  | SysCall.verhogen => .signal saved.reg_a1
  | SysCall.doIO =>
      match semIndex saved.reg_a1 with
      | none => .quiet
      | some j => .io j
  | SysCall.clockWait => .clockWait
  | SysCall.yield => .requeue
  | SysCall.getTime | SysCall.getSupportPtr | SysCall.getProcessId => .quiet

/-- The act of an interrupt. -/
def interruptAct (s : Kernel) (saved : State) (reg : Word → Word) : Act :=
  let excCode := saved.cause &&& causeExcCodeMask
  if excCode = 7 then if s.currentProcess = none then .wake [] else .requeue
  else if excCode = 3 then .tick
  else if 17 ≤ excCode ∧ excCode ≤ 21 then .wake (deviceWakes (excCode.toNat - 14) reg)
  else .wake []

/-- The act of a step. -/
def act (s : Kernel) : KernelEvent → Act
  | .store a v => .store a v
  | .exception saved i =>
      if causeIsInt saved.cause then s.interruptAct saved i.reg
      else
        match s.currentProcess with
        | none => .quiet
        | some cur =>
            match service saved with
            | some c => s.serviceAct cur saved c
            | none => if (s.pcbFree_table cur).p_supportStruct = 0 then .kill cur else .quiet

/-- Where the act of a step comes from. -/
inductive ActFrom (s : Kernel) : KernelEvent → Act → Prop where
  | store (a v : Word) : ActFrom s (.store a v) (.store a v)
  | interrupt {saved : State} (i : Inputs) (hint : causeIsInt saved.cause) :
      ActFrom s (.exception saved i) (s.interruptAct saved i.reg)
  | nobody {saved : State} (i : Inputs) (hint : ¬ causeIsInt saved.cause)
      (hc : s.currentProcess = none) : ActFrom s (.exception saved i) .quiet
  | service {saved : State} {cur : PcbId} {c : SysCall} (i : Inputs)
      (hint : ¬ causeIsInt saved.cause) (hc : s.currentProcess = some cur)
      (hs : service saved = some c) : ActFrom s (.exception saved i) (s.serviceAct cur saved c)
  | passUp {saved : State} {cur : PcbId} (i : Inputs) (hint : ¬ causeIsInt saved.cause)
      (hc : s.currentProcess = some cur) (hs : service saved = none) :
      ActFrom s (.exception saved i)
        (if (s.pcbFree_table cur).p_supportStruct = 0 then .kill cur else .quiet)

theorem act_from (s : Kernel) (e : KernelEvent) : ActFrom s e (s.act e) := by
  cases e with
  | store a v => exact .store a v
  | exception saved i =>
      unfold act
      dsimp only
      by_cases hint : causeIsInt saved.cause
      · rw [if_pos hint]
        exact .interrupt i hint
      · rw [if_neg hint]
        cases hc : s.currentProcess with
        | none => exact .nobody i hint hc
        | some cur =>
            dsimp only
            cases hs : PandOS.service saved with
            | none => exact .passUp i hint hc hs
            | some c => exact .service i hint hc hs

/-- An interrupt wakes, requeues the process that runs, or is a tick. -/
theorem interruptAct_cases (s : Kernel) (saved : State) (reg : Word → Word) :
    s.interruptAct saved reg = .requeue ∨ s.interruptAct saved reg = .tick ∨
      ∃ l, s.interruptAct saved reg = .wake l := by
  unfold interruptAct
  dsimp only
  split_ifs
  · exact .inr (.inr ⟨_, rfl⟩)
  · exact .inl rfl
  · exact .inr (.inl rfl)
  · exact .inr (.inr ⟨_, rfl⟩)
  · exact .inr (.inr ⟨_, rfl⟩)

/-! ### What they do -/

/-- The semaphore loses a token and the process that runs blocks on it. -/
def Blocks (L : Layout) (s : Kernel) (semAdd : Word) (t : Kernel) : Prop :=
  ∃ cur u tod₁ tod₂, s.currentProcess = some cur ∧
    Quiet (s.setMem semAdd (s.mem semAdd - 1)) u ∧ t = u.blockCurrentProcess L cur semAdd tod₁ tod₂

/-- The process that ran goes on, or the scheduler is called. -/
def Resumes (s t : Kernel) : Prop :=
  if s.currentProcess = none then ∃ tod, t = s.scheduler tod else Quiet s t ∧ t.running

/-- The `V`s of an interrupt. -/
def Wakes (L : Layout) : List (Fin semDevLen × Word) → Kernel → Kernel → Prop
  | [], s, t => Quiet s t
  | (j, status) :: l, s, t => ∃ u, Quiet s u ∧ Wakes L l (u.wake L j status) t

/-- The process the nucleus has just allocated becomes a ready child of `cur`. -/
def adopt (s : Kernel) (cur newPcb : PcbId) (f : Pcb → Pcb) : Kernel :=
  let s := s.modify newPcb f
  let s := s.withPcbs (s.toPcbs.insertChild cur newPcb)
  { s.ready newPcb with processCount := s.processCount + 1 }

/-- What an act does. -/
def Did (L : Layout) (s : Kernel) : Act → Kernel → Prop
  | .quiet, t => Quiet s t ∧ s.currentProcess ≠ none ∧ t.running
  | .store a v, t => Quiet (s.setMem a v) t ∧ ¬ isSoftBlockSemaphore L a ∧ s.running ∧ t.running
  | .create, t => ∃ cur newPcb v f, s.currentProcess = some cur ∧
      s.toPcbs.allocPcb = some (newPcb, v) ∧
      (∀ x, (f x).p_parent = x.p_parent ∧ (f x).p_child = x.p_child ∧ (f x).p_pid = x.p_pid ∧
        (f x).p_semAdd = 0) ∧
      Quiet ((s.withPcbs v).adopt cur newPcb f) t ∧ t.running
  | .kill target, t => ∃ u, Quiet s u ∧
      let v := recursiveTerminateProcess L maxProc u target
      ((s.currentProcess = some target ∨ v.currentProcess = none) ∧
        ∃ tod, t = { v with currentProcess := none }.scheduler tod) ∨
      (s.currentProcess ≠ some target ∧ v.currentProcess ≠ none ∧ Quiet v t ∧ t.running)
  | .pass semAdd, t => Quiet (s.setMem semAdd (s.mem semAdd - 1)) t ∧ s.currentProcess ≠ none ∧
      ¬ (s.mem semAdd - 1).toInt < 0 ∧ t.running
  | .block semAdd, t => Blocks L s semAdd t ∧ (s.mem semAdd - 1).toInt < 0
  | .io j, t => Blocks L s (L.sem j) t
  | .clockWait, t => Blocks L s (L.sem pseudoClock) t
  | .signal semAdd, t => s.currentProcess ≠ none ∧ ∃ u,
      Quiet (s.setMem semAdd (s.mem semAdd + 1)) u ∧
      Quiet (if (s.mem semAdd + 1).toInt ≤ 0 then (u.release semAdd id).2 else u) t ∧ t.running
  | .requeue, t => ∃ cur u tod, s.currentProcess = some cur ∧ Quiet s u ∧
      t = { u.ready cur with currentProcess := none }.scheduler tod
  | .wake l, t => ∃ u, Wakes L l s u ∧ Resumes u t
  | .tick, t => ∃ u, Quiet s u ∧
      Resumes ((u.wakeClock L (maxProc + 1)).setMem (L.sem pseudoClock) 0) t

/-! ### Every step does its act -/

theorem findInTree_congr (h : ∀ p, (t.pcbFree_table p).p_pid = (s.pcbFree_table p).p_pid ∧
    (t.pcbFree_table p).p_child = (s.pcbFree_table p).p_child) (f : ℕ) (node : PcbId)
    (pid : Word) : t.findInTree f node pid = s.findInTree f node pid := by
  induction f generalizing node with
  | zero => rfl
  | succ f ih =>
      simp only [findInTree, (h node).1, (h node).2, ih]

/-- `TERMPROCESS` looks for its target after `updateCPUTime`, which moves nobody. -/
theorem updateCPUTime_target (s : Kernel) (cur : PcbId) (now pid : Word) :
    (if pid = 0 then some cur else
      (s.updateCPUTime cur now).findInTree maxProc (s.updateCPUTime cur now).rootProcess pid) =
    s.termTarget cur pid := by
  have hq := quiet_updateCPUTime s cur now
  have hfind : (s.updateCPUTime cur now).findInTree maxProc s.rootProcess pid =
      s.findInTree maxProc s.rootProcess pid :=
    findInTree_congr (fun p => ⟨hq.field (fun _ _ _ => rfl) p, hq.field (fun _ _ _ => rfl) p⟩) ..
  rw [termTarget, ← hfind]
  rfl

theorem mem_setMem (s : Kernel) (a v : Word) : (s.setMem a v).mem a = v := Function.update_self ..

theorem resumes_resume (s : Kernel) (saved : State) (tod : Word) :
    Resumes s (s.resume saved tod) := by
  unfold Resumes resume
  cases hc : s.currentProcess with
  | none => exact ⟨tod, rfl⟩
  | some cur => exact ⟨quiet_ldst s saved, trivial⟩

theorem did_passUpOrDie {cur : PcbId} (hc : s.currentProcess = some cur) (ty : Fin 2) (st : State)
    (tod : ℕ → Word) : Did L s (if (s.pcbFree_table cur).p_supportStruct = 0 then .kill cur
      else .quiet) (s.passUpOrDie L cur ty st tod) := by
  unfold passUpOrDie
  dsimp only
  split
  · exact ⟨_, quiet_updateCPUTime s cur (tod 0), .inl ⟨.inl hc, tod 1, rfl⟩⟩
  · exact ⟨⟨rfl, rfl, rfl, fun _ => ⟨_, _, rfl⟩, rfl, rfl, rfl, rfl, rfl, rfl⟩, by
      rw [hc]; exact Option.some_ne_none cur, trivial⟩

section
variable {cur : PcbId} (hc : s.currentProcess = some cur) (state : State) (i : Inputs)
include hc

theorem current_ne : s.currentProcess ≠ none := by
  rw [hc]
  exact Option.some_ne_none cur

/-- `createProcess` does its act. -/
theorem did_createProcess :
    Did L s (s.serviceAct cur state .createProcess) (s.createProcess cur state i) := by
  unfold serviceAct createProcess
  cases ha : s.toPcbs.allocPcb with
  | none =>
      rw [if_pos (Pcbs.allocPcb_none ha)]
      exact ⟨(quiet_copyState s cur _).trans (quiet_ldst _ _), current_ne hc, trivial⟩
  | some r =>
      obtain ⟨newPcb, v⟩ := r
      have hne : s.pcbFree_h ≠ [] := by
        rw [(Pcbs.allocPcb_some ha).1]
        exact List.cons_ne_nil _ _
      rw [if_neg hne]
      refine ⟨cur, newPcb, v, fun pcb => { pcb with
        p_s := i.newState
        p_supportStruct := state.reg_a3
        p_prio := state.reg_a2.toInt
        p_time := 0
        p_semAdd := 0 }, hc, ha, fun x => ⟨rfl, rfl, rfl, rfl⟩, ?_, trivial⟩
      exact (quiet_copyState _ cur _).trans (quiet_ldst _ _)

/-- `terminateProcess` does its act. -/
theorem did_terminateProcess :
    Did L s (s.serviceAct cur state .termProcess) (s.terminateProcess L cur state i) := by
  have hq := quiet_updateCPUTime s cur (i.tod 0)
  unfold serviceAct terminateProcess
  dsimp only
  rw [updateCPUTime_target]
  cases ht : s.termTarget cur state.reg_a1 with
  | none => exact ⟨hq.trans (quiet_ldst _ _), current_ne hc, trivial⟩
  | some target =>
      refine ⟨_, hq, ?_⟩
      dsimp only
      split
      · rename_i hor
        refine .inl ⟨hor.imp (fun he => ?_) id, i.tod 1, rfl⟩
        rw [he]
        exact hc
      · rename_i hor
        obtain ⟨hne, hcur⟩ := not_or.mp hor
        refine .inr ⟨fun he => hne ?_, hcur, (quiet_copyState _ cur _).trans (quiet_ldst _ _),
          trivial⟩
        exact Option.some.inj (he.symm.trans hc)

/-- `passeren` does its act. -/
theorem did_passeren :
    Did L s (s.serviceAct cur state .passeren) (s.passeren L cur state i) := by
  have hq := (quiet_save s cur (i.tod 0) state).setMem state.reg_a1 (s.mem state.reg_a1 - 1)
  unfold serviceAct passeren
  dsimp only
  rw [mem_setMem]
  have hm : ((s.updateCPUTime cur (i.tod 0)).copyState cur state).mem = s.mem := rfl
  rw [hm]
  split
  · rename_i h
    exact ⟨⟨cur, _, _, _, hc, hq, rfl⟩, h⟩
  · rename_i h
    exact ⟨hq.trans (quiet_ldst _ _), current_ne hc, h, trivial⟩

theorem did_verhogen :
    Did L s (s.serviceAct cur state .verhogen) (s.verhogen cur state i) := by
  have hq := (quiet_save s cur (i.tod 0) state).setMem state.reg_a1 (s.mem state.reg_a1 + 1)
  unfold serviceAct verhogen
  dsimp only
  rw [mem_setMem]
  have hm : ((s.updateCPUTime cur (i.tod 0)).copyState cur state).mem = s.mem := rfl
  rw [hm]
  exact ⟨current_ne hc, _, hq, quiet_ldst _ _, trivial⟩

theorem did_doIO : Did L s (s.serviceAct cur state SysCall.doIO) <| doIO L s cur state i := by
  unfold serviceAct doIO
  cases semIndex state.reg_a1 with
  | none => exact ⟨quiet_ldst _ _, current_ne hc, trivial⟩
  | some j =>
      exact ⟨cur, _, _, _, hc, ((quiet_save s cur (i.tod 0) state).setMem (L.sem j)
        (s.mem (L.sem j) - 1)).trans (quiet_output _ _), rfl⟩

/-- Each service does its act. -/
theorem did_serve (c : SysCall) :
    Did L s (s.serviceAct cur state c) (s.serve L cur state i c) := by
  cases c with
  | createProcess => exact did_createProcess hc state i
  | termProcess => exact did_terminateProcess hc state i
  | passeren => exact did_passeren hc state i
  | verhogen => exact did_verhogen hc state i
  | doIO => exact did_doIO hc state i
  | clockWait =>
      exact ⟨cur, _, _, _, hc, (quiet_save s cur (i.tod 0) state).setMem _ _, rfl⟩
  | yield => exact ⟨cur, _, _, hc, quiet_save s cur (i.tod 0) state, rfl⟩
  | getTime =>
      exact ⟨(quiet_updateCPUTime s cur (i.tod 0)).trans (quiet_ldst _ _), current_ne hc, trivial⟩
  | getSupportPtr => exact ⟨quiet_ldst _ _, current_ne hc, trivial⟩
  | getProcessId => exact ⟨quiet_ldst _ _, current_ne hc, trivial⟩

end

/-- The `V`s of an interrupt, with nothing but outputs between them. -/
def Vs (L : Layout) : List (Fin semDevLen × Word) → Kernel → Kernel → Prop
  | [], s, t => ∃ o, t = { s with out := o }
  | (j, status) :: l, s, t => ∃ o, Vs L l ({ s with out := o }.wake L j status) t

theorem quiet_out (s : Kernel) (o : List Output) : Quiet s { s with out := o } :=
  ⟨rfl, rfl, rfl, fun _ => ⟨_, _, rfl⟩, rfl, rfl, rfl, rfl, rfl, rfl⟩

theorem Vs.wakes {l : List (Fin semDevLen × Word)} (h : Vs L l s t) : Wakes L l s t := by
  induction l generalizing s with
  | nil =>
      obtain ⟨o, rfl⟩ := h
      exact quiet_out s o
  | cons x l ih =>
      obtain ⟨o, h⟩ := h
      exact ⟨_, quiet_out s o, ih h⟩

/-- A channel of a terminal, and what follows. -/
theorem vs_termChannel {dev : Fin devPerInt} {reg : Word → Word} {c : TermChannel}
    {cs : List TermChannel} (h : Vs L (cs.filterMap fun c =>
      if reg (c.status dev) &&& 0xFF ≠ 0 then some (c.sem dev, reg (c.status dev)) else none)
      (s.termChannel L dev reg c) t) : Vs L ((c :: cs).filterMap fun c =>
      if reg (c.status dev) &&& 0xFF ≠ 0 then some (c.sem dev, reg (c.status dev)) else none) s t := by
  unfold termChannel at h
  by_cases hb : reg (c.status dev) &&& 0xFF ≠ 0
  · rw [if_pos hb] at h
    rw [List.filterMap_cons, if_pos hb]
    exact ⟨_, h⟩
  · rw [if_neg hb] at h
    rw [List.filterMap_cons, if_neg hb]
    exact h

theorem vs_deviceInterrupt (line : ℕ) (reg : Word → Word) :
    Vs L (deviceWakes line reg) s (s.deviceInterrupt L line reg) := by
  unfold deviceWakes deviceInterrupt
  cases getHighestPriorityDevice (reg (intBitmap line)) with
  | none => exact ⟨s.out, rfl⟩
  | some dev =>
      dsimp only
      split
      · exact ⟨_, _, rfl⟩
      · exact vs_termChannel (vs_termChannel ⟨_, rfl⟩)

theorem Wakes.quiet {l : List (Fin semDevLen × Word)} (hq : Quiet s u) (h : Wakes L l u t) :
    Wakes L l s t := by
  cases l with
  | nil => exact hq.trans h
  | cons x l =>
      obtain ⟨v, hv, h⟩ := h
      exact ⟨v, hq.trans hv, h⟩

/-- `interruptHandler` does the act of the interrupt. -/
theorem did_interruptHandler (saved : State) (i : Inputs) :
    Did L s (s.interruptAct saved i.reg) (s.interruptHandler L saved i) := by
  have hq := quiet_chargeTime s (i.tod 0)
  unfold interruptAct interruptHandler
  dsimp only
  split
  · unfold timeSliceEnd
    have hq' := hq.trans (quiet_output (s.chargeTime (i.tod 0)) (.setTimer never))
    have hcur : ((s.chargeTime (i.tod 0)).output (.setTimer never)).currentProcess =
        s.currentProcess := hq'.current
    cases hc : s.currentProcess with
    | none =>
        rw [if_pos rfl]
        rw [hc] at hcur
        simp only [hcur]
        refine ⟨_, hq', ?_⟩
        unfold Resumes
        rw [if_pos hcur]
        exact ⟨_, rfl⟩
    | some cur =>
        rw [if_neg (Option.some_ne_none cur)]
        rw [hc] at hcur
        simp only [hcur]
        exact ⟨cur, _, _, hc, hq'.trans (quiet_copyState _ cur _), rfl⟩
  · split
    · refine ⟨_, hq.trans (quiet_output _ (.ldit pSecond)), ?_⟩
      exact resumes_resume _ saved _
    · split
      · exact ⟨_, (vs_deviceInterrupt _ _).wakes.quiet hq, resumes_resume _ saved _⟩
      · exact ⟨_, hq, resumes_resume _ saved _⟩

/-- `systemCallHandler` does the act of the service, or of `passUpOrDie`. -/
theorem did_systemCallHandler {cur : PcbId} (hc : s.currentProcess = some cur) (saved : State)
    (i : Inputs) (hecall : saved.cause &&& causeExcCodeMask = 8 ∨
      saved.cause &&& causeExcCodeMask = 11) :
    Did L s (match service saved with
      | some c => s.serviceAct cur saved c
      | none => if (s.pcbFree_table cur).p_supportStruct = 0 then .kill cur else .quiet)
      (s.systemCallHandler L cur { saved with
        pc_epc := saved.pc_epc + BitVec.ofNat 32 wordLen
        cause := 11 } i) := by
  unfold service systemCallHandler
  dsimp only
  by_cases h₁ : 1 ≤ saved.reg_a0.toInt
  · rw [if_pos h₁, if_neg fun h => h.2.1 h₁]
    exact did_passUpOrDie hc _ _ _
  · rw [if_neg h₁]
    by_cases h₂ : saved.status &&& mstatusMppMask = mstatusMppU
    · rw [if_pos h₂, if_neg fun h => h.2.2 h₂]
      exact did_passUpOrDie hc _ _ _
    · rw [if_neg h₂, if_pos ⟨hecall, h₁, h₂⟩]
      cases sysCall saved.reg_a0.toInt with
      | none => exact did_passUpOrDie hc _ _ _
      | some c =>
          have hact : ∀ st : State, st.reg_a1 = saved.reg_a1 →
              s.serviceAct cur st c = s.serviceAct cur saved c := fun st h => by
            cases c <;> simp only [serviceAct, h]
          dsimp only
          rw [← hact { saved with
            pc_epc := saved.pc_epc + BitVec.ofNat 32 wordLen
            cause := 11 } rfl]
          exact did_serve hc _ i c

/-- `trapHandler` does the act of the service, or of `passUpOrDie`. -/
theorem did_trapHandler {cur : PcbId} (hc : s.currentProcess = some cur) (saved : State)
    (i : Inputs) : Did L s (match service saved with
      | some c => s.serviceAct cur saved c
      | none => if (s.pcbFree_table cur).p_supportStruct = 0 then .kill cur else .quiet)
      (s.trapHandler L cur saved i) := by
  unfold trapHandler
  dsimp only
  by_cases hecall : saved.cause &&& causeExcCodeMask = 8 ∨ saved.cause &&& causeExcCodeMask = 11
  · rw [if_pos hecall]
    exact did_systemCallHandler hc saved i hecall
  · have hs : service saved = none := if_neg fun h => hecall h.1
    rw [if_neg hecall, hs]
    exact did_passUpOrDie hc _ _ _

/-- **Every step does its act.** -/
theorem did_step {e : KernelEvent} (h : s.step L e = some t) : Did L s (s.act e) t := by
  rcases step_cases h with ⟨a, v, rfl, hr, ha, rfl⟩ | ⟨saved, i, rfl,
    ⟨hint, -, rfl⟩ | ⟨hint, -, -, cur, hc, rfl⟩⟩
  · exact ⟨.refl _, ha, hr, hr⟩
  · unfold act
    dsimp only
    rw [if_pos hint]
    exact did_interruptHandler saved i
  · unfold act
    dsimp only
    rw [if_neg hint, hc]
    exact did_trapHandler hc saved i

/-- `PASSEREN` and `VERHOGEN` are on semaphore words. -/
theorem step_valid {e : KernelEvent} {semAdd : Word} (h : s.step L e = some t)
    (ha : s.act e = .block semAdd ∨ s.act e = .pass semAdd ∨ s.act e = .signal semAdd) :
    validSem semAdd := by
  have hfrom := act_from s e
  generalize s.act e = x at hfrom ha
  cases hfrom with
  | store | nobody => rcases ha with ha | ha | ha <;> cases ha
  | @interrupt saved i hint =>
      rcases s.interruptAct_cases saved i.reg with hi | hi | ⟨l, hi⟩
      all_goals
        rw [hi] at ha
        rcases ha with ha | ha | ha <;> cases ha
  | passUp => split at ha <;> rcases ha with ha | ha | ha <;> cases ha
  | @service saved cur c i hint hc hs =>
      have hp : c = .passeren ∨ c = .verhogen → validSem saved.reg_a1 := fun h' =>
        step_wellFormed h hint (h'.imp (fun he => hs.trans (congrArg some he)) fun he =>
          hs.trans (congrArg some he))
      cases c with
      | passeren =>
          simp only [serviceAct] at ha
          split at ha <;> rcases ha with ha | ha | ha <;> cases ha <;> exact hp (.inl rfl)
      | verhogen => rcases ha with ha | ha | ha <;> cases ha; exact hp (.inr rfl)
      | createProcess | termProcess | doIO =>
          simp only [serviceAct] at ha
          split at ha <;> rcases ha with ha | ha | ha <;> cases ha
      | _ => rcases ha with ha | ha | ha <;> cases ha

end Kernel

end PandOS
