import PandOS.Phase2.Effects

/-!
# Phase 2 — the context of a process survives every stop

`owe` is the history of what each process is owed: the state saved at its last trap, with what the
service or the interrupt changes in it, and the status of the `V` that wakes it.  `p_s` is not looked
at.  `contexts_of_run`: in every run a process that is dispatched or resumed is loaded with what it
is owed.  `Within` says who can be dispatched at all: a process that terminates itself cannot, even
if its pid is negative and it is not freed.
-/

namespace PandOS

namespace Kernel

variable {L : Layout} {s t u : Kernel} {lossy : Prop} {p q cur target : PcbId} {a : Word}
  {W : PcbId → Prop}

/-! ### Who can be dispatched -/

/-- Who runs, is ready or waits is in `W`. -/
structure Within (W : PcbId → Prop) (s : Kernel) : Prop where
  current : ∀ p, s.currentProcess = some p → W p
  ready : ∀ p ∈ s.readyQueue, W p
  queue : ∀ a, ∀ p ∈ s.queue a, W p

theorem Within.quiet (h : Within W s) (hq : Quiet s t) : Within W t where
  current p hp := h.current p (hq.current ▸ hp)
  ready p hp := h.ready p (hq.ready ▸ hp)
  queue a p hp := h.queue a p (by rwa [hq.asl] at hp)

theorem Within.setMem (h : Within W s) (a v : Word) : Within W (s.setMem a v) :=
  ⟨h.current, h.ready, h.queue⟩

/-- `scheduler` takes a ready process. -/
theorem Within.scheduler (h : Within W s) (tod : Word) : Within W (s.scheduler tod) := by
  refine ⟨fun p hp => ?_, fun p hp => ?_, fun a p hp => ?_⟩
  · unfold Kernel.scheduler at hp
    split at hp
    · rename_i q rest hr
      exact h.ready p (by rw [hr, ← Option.some.inj hp]; exact List.mem_cons_self)
    · split_ifs at hp <;> exact h.current p hp
  · unfold Kernel.scheduler at hp
    split at hp
    · rename_i q rest hr
      exact h.ready p (by rw [hr]; exact List.mem_cons_of_mem q hp)
    · rename_i hr
      split_ifs at hp <;> exact h.ready p hp
  · rw [(sameSems_scheduler s tod).asl] at hp
    exact h.queue a p hp

/-- Nobody runs. -/
theorem Within.drop (h : Within W s) : Within W { s with currentProcess := none } :=
  ⟨nofun, h.ready, h.queue⟩

theorem Within.resumes (h : Within W s) (hr : Resumes s t) : Within W t := by
  unfold Resumes at hr
  split at hr
  · obtain ⟨tod, rfl⟩ := hr
    exact h.scheduler tod
  · exact h.quiet hr.1

theorem mem_insertProcQ {v : Pcbs} {l : List PcbId} (h : q ∈ v.insertProcQ l p) : q = p ∨ q ∈ l :=
  (List.mem_orderedInsert _).mp h

theorem Within.ready_cons (h : Within W s) (hp : W p) : Within W (s.ready p) where
  current := h.current
  ready q hq := by
    rcases mem_insertProcQ hq with rfl | hq
    · exact hp
    · exact h.ready q hq
  queue := h.queue

/-- Who blocks was running, and who runs then was ready. -/
theorem Within.blocks (h : Within W s) (hs : Sound lossy s) (hb : Blocks L s a t) :
    Within W t := by
  have hsems := sems_blocks hs hb
  obtain ⟨cur, u, tod₁, tod₂, hc, hq, rfl⟩ := hb
  have hqueue : ∀ b, ∀ p ∈ (u.blockCurrentProcess L cur a tod₁ tod₂).queue b, W p := by
    intro b p hp
    have he : (u.blockCurrentProcess L cur a tod₁ tod₂).queue b =
        Function.update s.queue a (s.joined a) b := congrFun (congrArg Sems.queue hsems) b
    rw [he] at hp
    by_cases hba : b = a
    · rw [hba, Function.update_self] at hp
      unfold joined at hp
      simp only [hc] at hp
      split at hp
      · rcases mem_insertProcQ hp with rfl | hp
        · exact h.current p hc
        · exact h.queue a p hp
      · exact h.queue a p hp
    · rw [Function.update_of_ne hba] at hp
      exact h.queue b p hp
  rw [blockCurrentProcess_eq] at hqueue ⊢
  have hready : (u.blocked L cur a tod₁).readyQueue = s.readyQueue := by
    refine Eq.trans ?_ hq.ready
    unfold blocked
    dsimp only
    split <;> rfl
  have hcurrent : (u.blocked L cur a tod₁).currentProcess = none := rfl
  have hsame := (sameSems_scheduler (u.blocked L cur a tod₁) tod₂).asl
  refine Within.scheduler ⟨fun p hp => ?_, fun p hp => ?_, fun b p hp => ?_⟩ tod₂
  · rw [hcurrent] at hp
    cases hp
  · exact h.ready p (hready ▸ hp)
  · exact hqueue b p (by rwa [hsame])

/-- Whom a release makes ready was waiting. -/
theorem Within.release (h : Within W s) (hs : Sound lossy s) (a : Word) (f : State → State) :
    Within W (s.release a f).2 := by
  obtain ⟨hfst, hsems⟩ := release_spec hs.links.asl a f
  have hqueue : ∀ b, ∀ p ∈ (s.release a f).2.queue b, W p := by
    intro b p hp
    have he : (s.release a f).2.queue b = Function.update s.queue a (s.queue a).tail b :=
      congrFun (congrArg Sems.queue hsems) b
    rw [he] at hp
    by_cases hba : b = a
    · rw [hba, Function.update_self] at hp
      exact h.queue a p (List.mem_of_mem_tail hp)
    · rw [Function.update_of_ne hba] at hp
      exact h.queue b p hp
  refine ⟨fun p hp => h.current p (current_release s a f ▸ hp), fun p hp => ?_, hqueue⟩
  unfold Kernel.release at hfst hp
  generalize s.toPhase1.removeBlocked a = r at hfst hp
  obtain ⟨x, v⟩ := r
  cases x with
  | none => exact h.ready p hp
  | some q =>
      rcases mem_insertProcQ hp with rfl | hp
      · exact h.queue a p (List.mem_of_head? hfst.symm)
      · exact h.ready p hp

/-- The `V` of a device brings in nobody. -/
theorem Within.wake (h : Within W s) (hs : Sound lossy s) (j : Fin semDevLen) (v : Word) :
    Within W (s.wake L j v) := by
  have hr := (h.setMem (L.sem j) (s.mem (L.sem j) + 1)).release (hs.setMem _ _) (L.sem j)
    fun st => { st with reg_a0 := v }
  unfold Kernel.wake
  split
  · split
    · rename_i he
      rw [he] at hr
      exact hr
    · rename_i he
      rw [he] at hr
      exact ⟨hr.current, hr.ready, hr.queue⟩
  · exact h

theorem Within.wakes {l : List (Fin semDevLen × Word)} (h : Within W s) (hs : Sound lossy s)
    (hw : Wakes L l s t) : Within W t := by
  induction l generalizing s with
  | nil => exact h.quiet hw
  | cons x l ih =>
      obtain ⟨u, hu, hw⟩ := hw
      have hsu := hs.quiet hu
      exact ih ((h.quiet hu).wake hsu x.1 x.2) (hsu.wake x.1 x.2) hw

theorem Within.wakeClock (h : Within W s) (hs : Sound lossy s) (k : ℕ) :
    Within W (s.wakeClock L k) := by
  refine (wakeClock_rule (P := fun u => Within W u ∧ Sound lossy u) (fun u hu => ?_)
    (fun u k hu => ?_) ⟨h, hs⟩ k).1
  · exact ⟨hu.1.release hu.2 _ _, hu.2.release _ _⟩
  · exact ⟨⟨hu.1.current, hu.1.ready, hu.1.queue⟩, hu.2.setSoft k⟩

/-- A kill puts nobody anywhere; `V` is for the process that runs. -/
theorem within_kills (L : Layout) (K W V : PcbId → Prop) : Kills L K fun u => Linked True u none ∧
    (∀ p, u.currentProcess = some p → V p) ∧ (∀ p ∈ u.readyQueue, W p) ∧
      ∀ a, ∀ p ∈ u.queue a, W p where
  mark u p h _ _ _ := ⟨h.1.same (mark_links u p), h.2⟩
  detach u p c rest h _ _ hc := ⟨h.1.same (detach_links hc), h.2⟩
  bury u p h _ hl _ _ := by
    obtain ⟨hlink, hcur, hready, hqueue⟩ := h
    have hu := hlink.unlinked L p
    refine ⟨hlink.bury hl, fun q hq => ?_, fun q hq => ?_, fun a q hq => ?_⟩
    · rw [hu.current] at hq
      split at hq
      · cases hq
      · exact hcur q hq
    · rw [hu.ready] at hq
      exact hready q (List.mem_of_mem_erase hq)
    · rw [hu.queue] at hq
      exact hqueue a q (List.mem_of_mem_erase hq)

theorem Within.terminate (h : Within W s) (hs : Sound lossy s) (hl : s.Live target) :
    Within W (recursiveTerminateProcess L maxProc s target) := by
  obtain ⟨⟨-, hcur, hready, hqueue⟩, -, -⟩ := terminate_rule (within_kills L (fun _ => True) W W)
    (hs.tree.called ⟨hs.links.forget, h.current, h.ready, h.queue⟩) (fun _ => hl)
    fun _ _ => trivial
  exact ⟨hcur, hready, hqueue⟩

/-- The process that ran does not go on. -/
theorem within_terminate_drop (hs : Sound lossy s) (hl : s.Live target)
    (hready : ∀ p ∈ s.readyQueue, W p) (hqueue : ∀ a, ∀ p ∈ s.queue a, W p) :
    Within W { recursiveTerminateProcess L maxProc s target with currentProcess := none } := by
  obtain ⟨⟨-, -, hr, hq⟩, -, -⟩ := terminate_rule
    (within_kills L (fun _ => True) W fun _ => True)
    (hs.tree.called ⟨hs.links.forget, fun _ _ => trivial, hready, hqueue⟩) (fun _ => hl)
    fun _ _ => trivial
  exact ⟨nofun, hr, hq⟩

/-- **Who can be dispatched after a step** could be before it, or is new. -/
theorem Within.did {x : Act} (h : Within W s) (hs : Sound lossy s) (hd : Did L s x t)
    (hk : ∀ p, x = .kill p → s.Live p) (hnew : ∀ p, ¬ s.Live p → W p) : Within W t := by
  cases x with
  | quiet => exact h.quiet hd.1
  | store a v => exact (h.setMem a v).quiet hd.1
  | create =>
      obtain ⟨cur, newPcb, v, f, hc, ha, -, hq, -⟩ := hd
      have hfree := (Pcbs.allocPcb_some ha).1
      have hn : W newPcb := hnew newPcb fun hl => hl (by rw [hfree]; exact List.mem_cons_self)
      have hadopt : Within W ((s.withPcbs v).adopt cur newPcb f) := by
        refine ⟨h.current, fun p hp => ?_, h.queue⟩
        rcases mem_insertProcQ hp with rfl | hp
        · exact hn
        · exact h.ready p hp
      exact hadopt.quiet hq
  | kill target =>
      obtain ⟨u, hq, hd⟩ := hd
      have hv := (h.quiet hq).terminate (L := L) (hs.quiet hq) (hq.tree.live.mpr (hk target rfl))
      rcases hd with ⟨-, tod, rfl⟩ | ⟨-, -, hq', -⟩
      · exact hv.drop.scheduler tod
      · exact hv.quiet hq'
  | pass a => exact (h.setMem _ _).quiet hd.1
  | block a => exact h.blocks hs hd.1
  | io j => exact h.blocks hs hd
  | clockWait => exact h.blocks hs hd
  | signal a =>
      obtain ⟨-, u, hq, hq', -⟩ := hd
      have hu := (h.setMem _ _).quiet hq
      split at hq'
      · exact (hu.release ((hs.setMem _ _).quiet hq) a id).quiet hq'
      · exact hu.quiet hq'
  | requeue =>
      obtain ⟨cur, u, tod, hc, hq, rfl⟩ := hd
      have hr := (h.quiet hq).ready_cons (h.current cur hc)
      exact hr.drop.scheduler tod
  | wake l =>
      obtain ⟨u, hw, hr⟩ := hd
      exact (h.wakes hs hw).resumes hr
  | tick =>
      obtain ⟨u, hq, hr⟩ := hd
      exact (((h.quiet hq).wakeClock (hs.quiet hq) _).setMem _ _).resumes hr

/-- The process runs, is ready or waits. -/
def Present (s : Kernel) (p : PcbId) : Prop :=
  s.currentProcess = some p ∨ p ∈ s.readyQueue ∨ ∃ a, p ∈ s.queue a

theorem Within.present (h : Within W s) (hp : s.Present p) : W p := by
  rcases hp with hp | hp | ⟨a, hp⟩
  · exact h.current p hp
  · exact h.ready p hp
  · exact h.queue a p hp

theorem Present.step {e : KernelEvent} (hs : Sound lossy s) (hst : s.step L e = some t)
    (hp : t.Present p) (hl : s.Live p) : s.Present p := by
  have h : Within (fun p => s.Present p ∨ ¬ s.Live p) s :=
    ⟨fun p hp => .inl (.inl hp), fun p hp => .inl (.inr (.inl hp)),
      fun a p hp => .inl (.inr (.inr ⟨a, hp⟩))⟩
  have ht := h.did hs (did_step hst) (fun p hp => hs.kill_live hp) fun p hp => .inr hp
  exact (ht.present hp).resolve_right (not_not.mpr hl)

/-- A process that is terminated, or terminates itself, is not dispatched any more. -/
theorem gone_of_kill (hs : Sound lossy s) (hc : s.currentProcess = some cur) (hl : s.Live target)
    (hq : Quiet s u) (tod : Word) : ¬ ({ recursiveTerminateProcess L maxProc u target with
      currentProcess := none }.scheduler tod).Present cur := by
  have hcur := hs.links.current hc
  have hw : Within (fun p => p ≠ cur) { recursiveTerminateProcess L maxProc u target with
      currentProcess := none } := by
    refine within_terminate_drop (hs.quiet hq) (hq.tree.live.mpr hl) (fun p hp => ?_)
      fun a p hp => ?_
    · rw [hq.ready] at hp
      exact fun he => hcur.2.1 (he ▸ hp)
    · rw [hq.asl] at hp
      obtain ⟨d, hd, -⟩ := hs.links.asl.mem_queue.mp hp
      exact fun he => hcur.2.2 d (he ▸ hd)
  exact fun hp => (hw.scheduler tod).present hp rfl

theorem Present.live (hs : Sound lossy s) (hp : s.Present p) : s.Live p := by
  rcases hp with hp | hp | ⟨a, hp⟩
  · exact (hs.links.current hp).1
  · exact (hs.links.in_ready hp).1
  · exact hs.links.queue_live hp

/-! ### What a process is owed -/

/-- The result of a service, in `reg_a0` of the caller. -/
def result (s t : Kernel) (cur : PcbId) (saved : State) : SysCall → Option Word
  | SysCall.createProcess => some (if s.pcbFree_h = [] then -1 else s.next_pid)
  | SysCall.getTime => some (t.pcbFree_table cur).p_time
  | SysCall.getSupportPtr => some (s.pcbFree_table cur).p_supportStruct
  | SysCall.getProcessId => some (
      if saved.reg_a1 = 0 then (s.pcbFree_table cur).p_pid
      else match (s.pcbFree_table cur).p_parent with
        | some prnt => (s.pcbFree_table prnt).p_pid
        | none => 0)
  | SysCall.doIO => if semIndex saved.reg_a1 = none then some (-1) else none
  | _ => none

/-- The state in which a process goes on after a trap: the one saved, after an ECALL behind the
instruction and with the result of the service, and with interrupts on after a time slice. -/
def trapState (s t : Kernel) (cur : PcbId) (saved : State) : State :=
  if causeIsInt saved.cause then
    if saved.cause &&& causeExcCodeMask = 7 then
      { saved with status := saved.status ||| mstatusMieMask }
    else saved
  else { ecallState saved with
    reg_a0 := ((service saved).bind (result s t cur saved)).getD saved.reg_a0 }

/-- What the processes are owed after a step. -/
def owe (L : Layout) (s : Kernel) (e : KernelEvent) (t : Kernel) (o : PcbId → State) (p : PcbId) :
    State :=
  match e with
  | .store _ _ => o p
  | .exception saved i =>
      if s.currentProcess = some p then s.trapState t p saved
      else if s.Live p then
        match (s.act e).answer L s t p with
        | some v => { o p with reg_a0 := v }
        | none => o p
      else i.newState

/-- Who does not run has what it is owed in `p_s`, and who runs was loaded with it. -/
structure Owed (s : Kernel) (o : PcbId → State) : Prop where
  saved : ∀ p, s.Present p → s.currentProcess ≠ some p → s.accounts.saved p = o p
  loaded : ∀ p st, s.currentProcess = some p → s.cpu = .ldst st → st = o p

/-- A process that is killed is not there any more. -/
theorem not_present_of_kill (hs : Sound lossy s) (ht : Sound lossy t)
    (hc : s.currentProcess = some cur) (hd : Did L s (.kill target) t) (hl : s.Live target)
    (hor : target = cur ∨ cur ∈ s.doomed target) : ¬ t.Present cur := by
  intro hp
  rcases hor with he | hdoom
  · obtain ⟨u, hq, ⟨-, tod, rfl⟩ | ⟨hne, -⟩⟩ := hd
    · exact gone_of_kill hs hc hl hq tod hp
    · exact hne (he ▸ hc)
  · exact ((hs.live_kill hd hl cur).mp (hp.live ht)).2 hdoom

/-- The state with which the caller of a service goes on, now or when it comes back. -/
theorem own_service (hs : Sound lossy s) (ht : Sound lossy t) (hc : s.currentProcess = some cur)
    {saved : State} {i : Inputs} {c : SysCall} (hint : ¬ causeIsInt saved.cause)
    (hserv : service saved = some c) (hd : Did L s (s.serviceAct cur saved c) t)
    (hl : ∀ p, s.serviceAct cur saved c = .kill p → s.Live p)
    (htime : c = .getTime → (t.pcbFree_table cur).p_time =
      (s.pcbFree_table cur).p_time + (i.tod 0 - s.start_time_current_quantum)) :
    (∀ st, (s.serviceEffect cur (ecallState saved) i c).ending = .ldst st →
      st = s.trapState t cur saved) ∧
    (∀ tod, (s.serviceEffect cur (ecallState saved) i c).ending = .scheduler tod →
      t.Present cur → (s.serviceEffect cur (ecallState saved) i c).saved =
        some (s.trapState t cur saved)) := by
  have hstate : s.trapState t cur saved =
      { ecallState saved with reg_a0 := (s.result t cur saved c).getD saved.reg_a0 } := by
    unfold trapState
    rw [if_neg hint, hserv]
    rfl
  rw [hstate]
  -- a service goes on with the state of its call, or leaves the processor with that state saved
  cases c with
  | createProcess => exact ⟨fun st he => (Ending.ldst.inj he).symm, fun _ he => by cases he⟩
  | termProcess =>
      unfold serviceAct at hd hl
      unfold serviceEffect
      have htarget : s.termTarget cur (ecallState saved).reg_a1 = s.termTarget cur saved.reg_a1 := rfl
      dsimp only at hd hl ⊢
      rw [htarget]
      cases hterm : s.termTarget cur saved.reg_a1 with
      | none => exact ⟨fun st he => (Ending.ldst.inj he).symm, fun _ he => by cases he⟩
      | some target =>
          rw [hterm] at hd hl
          dsimp only at hd hl ⊢
          split
          · rename_i hor
            exact ⟨fun _ he => (by cases he), fun _ _ hp =>
              absurd hp (not_present_of_kill hs ht hc hd (hl target rfl) hor)⟩
          · exact ⟨fun st he => (Ending.ldst.inj he).symm, fun _ he => by cases he⟩
  | passeren =>
      unfold serviceEffect
      dsimp only
      split
      · exact ⟨fun _ he => (by cases he), fun _ _ _ => rfl⟩
      · exact ⟨fun st he => (Ending.ldst.inj he).symm, fun _ he => by cases he⟩
  | verhogen => exact ⟨fun st he => (Ending.ldst.inj he).symm, fun _ he => by cases he⟩
  | doIO =>
      unfold serviceEffect result
      have hindex : semIndex (ecallState saved).reg_a1 = semIndex saved.reg_a1 := rfl
      dsimp only
      rw [hindex]
      cases hj : semIndex saved.reg_a1 with
      | none => exact ⟨fun st he => (Ending.ldst.inj he).symm, fun _ he => by cases he⟩
      | some j => exact ⟨fun _ he => (by cases he), fun _ _ _ => rfl⟩
  | getTime =>
      unfold serviceEffect result
      dsimp only
      rw [htime rfl]
      exact ⟨fun st he => (Ending.ldst.inj he).symm, fun _ he => by cases he⟩
  | clockWait => exact ⟨fun _ he => (by cases he), fun _ _ _ => rfl⟩
  | getSupportPtr => exact ⟨fun st he => (Ending.ldst.inj he).symm, fun _ he => by cases he⟩
  | getProcessId => exact ⟨fun st he => (Ending.ldst.inj he).symm, fun _ he => by cases he⟩
  | yield => exact ⟨fun _ he => (by cases he), fun _ _ _ => rfl⟩

/-- Who leaves the processor and can come back has had its state saved. -/
theorem own_effect (hs : Sound lossy s) (ht : Sound lossy t) {saved : State} {i : Inputs}
    (hst : s.step L (.exception saved i) = some t) (hc : s.currentProcess = some cur) :
    (∀ st, (s.effect saved i).ending = .ldst st → st = s.trapState t cur saved) ∧
    (∀ tod, (s.effect saved i).ending = .scheduler tod → t.Present cur →
      (s.effect saved i).saved = some (s.trapState t cur saved)) := by
  have hlc := (hs.links.current hc).1
  have htime := (effected_step hs hst).time cur hlc
  have hd := did_step hst
  have hl := fun p hp => hs.kill_live (p := p) (e := .exception saved i) hp
  unfold act at hd hl
  unfold effect at htime ⊢
  dsimp only at hd hl
  by_cases hint : causeIsInt saved.cause
  · rw [if_pos hint]
    unfold interruptEffect trapState
    rw [hc, if_pos hint]
    dsimp only
    split
    · exact ⟨nofun, fun _ _ _ => rfl⟩
    · exact ⟨fun st he => (Ending.ldst.inj he).symm, nofun⟩
  · rw [if_neg hint, hc] at hd hl htime
    rw [if_neg hint, hc]
    dsimp only at hd hl htime ⊢
    unfold trapEffect at htime ⊢
    cases hserv : service saved with
    | none =>
        rw [hserv] at hd hl
        dsimp only at hd hl ⊢
        split
        · rename_i h0
          rw [if_pos h0] at hd
          exact ⟨nofun, fun _ _ hp => absurd hp (not_present_of_kill hs ht hc hd hlc (.inl rfl))⟩
        · exact ⟨nofun, nofun⟩
    | some c =>
        rw [hserv] at hd hl htime
        refine own_service hs ht hc hint hserv hd hl fun hget => ?_
        rw [hget] at htime
        exact htime.trans (Function.update_self ..)

/-! ### Runs -/

/-- An effect rewrites only the saved state of the process that runs. -/
theorem after_saved (A : Accounts) (x : Effect) (cur p : PcbId) :
    (A.after x (some cur)).saved p = if cur = p then x.saved.getD (A.saved p) else A.saved p := by
  have hsave : ∀ (B : Accounts) st, B.saved = A.saved →
      (B.save cur st).saved p = if cur = p then st else A.saved p := by
    intro B st hB
    by_cases hp : cur = p
    · rw [if_pos hp, ← hp]
      exact Function.update_self ..
    · rw [if_neg hp, ← hB]
      exact Function.update_of_ne (Ne.symm hp) ..
  unfold Accounts.after
  cases x.reading <;> cases x.saved
  · exact (ite_self _).symm
  · exact hsave _ _ rfl
  · exact (ite_self _).symm
  · exact hsave _ _ rfl

/-- Who runs is not woken. -/
theorem answer_current (hs : Sound lossy s) (hc : s.currentProcess = some p) (x : Act) :
    x.answer L s t p = none := by
  have hno : ∀ a, p ∉ s.queue a := by
    intro a ha
    obtain ⟨d, hd, -⟩ := hs.links.asl.mem_queue.mp ha
    exact (hs.links.current hc).2.2 d hd
  cases x with
  | wake l =>
      have hfind : l.find? (fun y => Released s t (L.sem y.1) p) = none :=
        List.find?_eq_none.mpr fun y _ hy => hno _ (of_decide_eq_true hy).1
      show (l.find? _).map Prod.snd = none
      rw [hfind]
      rfl
  | tick => exact if_neg (hno _)
  | _ => rfl

/-- A step keeps what is saved or loaded of a process the state owed to it. -/
theorem Owed.step {e : KernelEvent} {o : PcbId → State} (h : s.Owed o) (hs : Sound lossy s)
    (ht : Sound lossy t) (hst : s.step L e = some t) : t.Owed (owe L s e t o) := by
  cases e with
  | store a v =>
      rcases step_cases hst with ⟨a', v', he, -, -, rfl⟩ | ⟨saved, i, he, -⟩
      · cases he
        exact ⟨h.saved, h.loaded⟩
      · cases he
  | exception saved i =>
      have heff := effected_step hs hst
      have hend := heff.ending
      -- the saved state, unless the process goes on without the scheduler
      have hsaved : ∀ p, t.Present p →
          (s.currentProcess = some p → ∃ tod, (s.effect saved i).ending = .scheduler tod) →
          t.accounts.saved p = owe L s (.exception saved i) t o p := by
        intro p hp hsched
        unfold owe
        dsimp only
        by_cases hl : s.Live p
        · rw [heff.saved p hl]
          by_cases hc : s.currentProcess = some p
          · obtain ⟨tod, hx⟩ := hsched hc
            rw [answer_current hs hc, if_pos hc, hc]
            dsimp only
            rw [after_saved, if_pos rfl, (own_effect hs ht hst hc).2 tod hx hp]
            rfl
          · rw [if_neg hc, if_pos hl]
            have hafter : (s.accounts.after (s.effect saved i) s.currentProcess).saved p = o p := by
              rw [← h.saved p (hp.step hs hst hl) hc]
              cases hcur : s.currentProcess with
              | none => rfl
              | some cur => rw [after_saved, if_neg fun he => hc (by rw [hcur, he])]
            cases (s.act (.exception saved i)).answer L s t p with
            | none => exact hafter
            | some v => exact congrArg (fun x : State => { x with reg_a0 := v }) hafter
        · obtain ⟨hne, -, -, hnew⟩ := born_step hs hst (hp.live ht) hl
          rw [if_neg hne, if_neg hl, hnew]
      refine ⟨fun p hp hc => hsaved p hp fun hcs => ?_, fun p st hc hcpu => ?_⟩
      · cases hx : (s.effect saved i).ending with
        | ldst st =>
            rw [hx] at hend
            exact absurd (hend.1.trans hcs) hc
        | ldcxt =>
            rw [hx] at hend
            exact absurd (hend.1.trans hcs) hc
        | scheduler tod => exact ⟨tod, rfl⟩
      · cases hx : (s.effect saved i).ending with
        | ldst st' =>
            rw [hx] at hend
            obtain ⟨hcur, hst', -⟩ := hend
            rw [hcpu] at hst'
            have hcs := hcur.symm.trans hc
            unfold owe
            dsimp only
            rw [if_pos hcs, ← (own_effect hs ht hst hcs).1 st' hx]
            exact Cpu.ldst.inj hst'
        | ldcxt =>
            rw [hx] at hend
            obtain ⟨-, ⟨c, hcx⟩, -⟩ := hend
            rw [hcpu] at hcx
            cases hcx
        | scheduler tod =>
            rw [hx] at hend
            have hload := (hend p hc).2
            rw [hcpu] at hload
            rw [← hsaved p (.inl hc) fun _ => ⟨tod, hx⟩]
            exact Cpu.ldst.inj hload

section
variable {mem : Word → Word} {support : Word → SupportT} {test ramtop tod : Word}
  {es : List KernelEvent}

theorem Owed.init (L : Layout) (mem : Word → Word) (support : Word → SupportT)
    (test ramtop tod : Word) :
    (initKernel L mem support test ramtop tod).Owed fun _ => initState test ramtop := by
  refine ⟨fun p hp hc => ?_, fun p st _ hcpu => (Cpu.ldst.inj hcpu).symm⟩
  have hl := hp.live (Sound.init L mem support test ramtop tod True)
  rw [init_live] at hl
  exact absurd (by rw [hl]; rfl) hc

/-- **A process's context survives every stop**: in every run, whatever the others and the
interrupts do, a process that runs and has not been passed up to the Support Level was loaded with
what it is owed: the state saved at its last trap, with the changes of `trapState`, and in `reg_a0`
the status of the `V` that has woken it. -/
theorem contexts_of_run (hr : Run (step L) anyStep (initKernel L mem support test ramtop tod) es s) :
    ∃ o, Run (record (step L) (owe L)) anyStep
        (initKernel L mem support test ramtop tod, fun _ => initState test ramtop) es (s, o) ∧
      ∀ p st, s.currentProcess = some p → s.cpu = .ldst st → st = o p := by
  obtain ⟨o, ho⟩ := hr.recorded (owe L) fun _ => initState test ramtop
  have hinv : Sound True s ∧ s.Owed o := by
    refine ho.inv (I := fun x => Sound True x.1 ∧ x.1.Owed x.2) ⟨.init .., .init ..⟩ ?_
    intro x e y hx _ hy
    obtain ⟨hst, hnote⟩ := record_eq_some hy
    have hy₁ := hx.1.step hst (fun _ _ => .inl trivial) fun _ _ => .inl trivial
    refine ⟨hy₁, ?_⟩
    rw [hnote]
    exact hx.2.step hx.1 hy₁ hst
  exact ⟨o, ho, hinv.2.loaded⟩

/-- The first process waits for the disk, which completes the command. -/
def diskAnswer : List KernelEvent := [call (-5) 0x10000058 2 0, interrupt 17 diskRegs]

theorem contexts_of_run_disk : ∃ (s : Kernel) (o : PcbId → State) (st : State),
    Run (step layout₀) anyStep boot₀ diskAnswer s ∧
    s.currentProcess = some first ∧ s.cpu = .ldst st ∧ st.reg_a0 = 1 ∧ st = o first := by
  obtain ⟨s, hr, hc, hst⟩ := exists_run (step layout₀) anyStep (fun s =>
    s.currentProcess = some first ∧ (match s.cpu with
      | .ldst st => decide (st.reg_a0 = 1)
      | _ => false) = true) boot₀ diskAnswer (by decide +kernel)
  obtain ⟨o, -, ho⟩ := contexts_of_run hr
  split at hst
  · rename_i st hcpu
    exact ⟨s, o, st, hr, hc, hcpu, of_decide_eq_true hst, ho first st hc hcpu⟩
  · cases hst

end

end Kernel

end PandOS
