import PandOS.Lib.Calls
import PandOS.Phase1.AslRefine
import PandOS.Phase2.Effects

/-!
# Phase 2 — the nucleus over the pointers of `asl.c`

The semaphores of the nucleus are in memory the links of `asl.c` and two fields of the PCBs.  What a
step does to them follows from its act and from the semaphores: `stepAslCalls` lists the calls of
`asl.c` that it makes, in order, and what it writes to the two fields, each call with the reply the
nucleus goes by.  `Kernel.asls_of_run`: on every run, the calls made on the pointers get these
replies, and the links make the ASL of the nucleus.
-/

namespace PandOS

/-! ### The calls of the nucleus -/

/-- A call of `asl.c`, with the reply the nucleus goes by, if it looks at it. -/
abbrev AslTalk := Talk (AslCall PcbId) (AslResult PcbId)

namespace Sems

variable (L : Layout) (S : Sems)

/-- `removeBlocked`, and the process it returns is blocked no more. -/
def releaseCalls (a : Word) : List AslTalk :=
  (.removeBlocked a, some (.pcb (S.queue a).head?)) ::
    match (S.queue a).head? with
    | none => []
    | some p => [(.setSemAdd p 0, none)]

/-- `verhogen`. -/
def signalCalls (a : Word) : List AslTalk :=
  if (S.word a + 1).toInt ≤ 0 then S.releaseCalls a else []

/-- The `V` of a device. -/
def wakeCalls (j : Fin semDevLen) : List AslTalk :=
  if (S.word (L.sem j)).toInt < 0 then S.releaseCalls (L.sem j) else []

/-- The `V`s of an interrupt, one after the other. -/
def wakesCalls : List (Fin semDevLen × Word) → Sems → List AslTalk
  | [], _ => []
  | x :: l, S => S.wakeCalls L x.1 ++ wakesCalls l (S.wake L x.1)

/-- `while ((p = removeBlocked(..)) != NULL)` of the interval timer. -/
def tickCalls : List PcbId → List AslTalk
  | [] => [(.removeBlocked (L.sem pseudoClock), some (.pcb none))]
  | p :: rest => (.removeBlocked (L.sem pseudoClock), some (.pcb (some p))) ::
      (.setSemAdd p 0, none) :: tickCalls rest

end Sems

namespace Kernel

/-- `blockCurrentProcess`. -/
def blockAslCalls (s : Kernel) (a : Word) : List AslTalk :=
  match s.currentProcess with
  | none => []
  | some cur => [(.setSemAdd cur a, none), (.insertBlocked a cur, none)]

/-- `allocPcb` resets the fields of the PCB, and `createProcess` sets them. -/
def createAslCalls (s : Kernel) (prio : ℤ) : List AslTalk :=
  match s.toPcbs.allocPcb with
  | none => []
  | some (newPcb, _) => [(.setSemAdd newPcb 0, none), (.setPrio newPcb 0, none),
      (.setPrio newPcb prio, none), (.setSemAdd newPcb 0, none)]

/-- The end of `recursiveTerminateProcess`. -/
def buryAslCalls (s : Kernel) (target : PcbId) : List AslTalk :=
  if (s.pcbFree_table target).p_semAdd = 0 then []
  else [(.outBlocked target, some (.pcb (s.toPhase1.outBlocked target).1))]

/-- The loop of `recursiveTerminateProcess`. -/
def killChildrenAslCalls (kill : Kernel → PcbId → Kernel)
    (calls : Kernel → PcbId → List AslTalk) (target : PcbId) : ℕ → Kernel → List AslTalk
  | 0, _ => []
  | k + 1, s =>
      match s.toPcbs.removeChild target with
      | (none, _) => []
      | (some child, t) => calls (s.withPcbs t) child ++
          killChildrenAslCalls kill calls target k (kill (s.withPcbs t) child)

/-- `recursiveTerminateProcess`. -/
def terminateAslCalls (L : Layout) : ℕ → Kernel → PcbId → List AslTalk
  | 0, _, _ => []
  | f + 1, s, target =>
      if (s.pcbFree_table target).p_pid.toInt < 0 then []
      else
        killChildrenAslCalls (recursiveTerminateProcess L f) (terminateAslCalls L f) target maxProc
            (s.mark target) ++
          (killChildren (recursiveTerminateProcess L f) target maxProc
            (s.mark target)).buryAslCalls target

/-- The calls of an act; `prio` is the priority of the process that is created. -/
def actAslCalls (L : Layout) (s : Kernel) (prio : ℤ) : Act → List AslTalk
  | .quiet | .store _ _ | .pass _ | .requeue => []
  | .create => s.createAslCalls prio
  | .kill target => terminateAslCalls L maxProc s target
  | .block a => s.blockAslCalls a
  | .io j => s.blockAslCalls (L.sem j)
  | .clockWait => s.blockAslCalls (L.sem pseudoClock)
  | .signal a => s.sems.signalCalls a
  | .wake l => Sems.wakesCalls L l s.sems
  | .tick => Sems.tickCalls L (s.queue (L.sem pseudoClock))

/-- The calls of one step. -/
def stepAslCalls (L : Layout) (s : Kernel) (e : KernelEvent) : List AslTalk :=
  match e with
  | .store _ _ => []
  | .exception saved _ => actAslCalls L s saved.reg_a2.toInt (s.act e)

/-- The calls along a run. -/
def aslTalk (L : Layout) (s : Kernel) (e : KernelEvent) (_ : Kernel) (xs : List AslTalk) :
    List AslTalk := xs ++ s.stepAslCalls L e

/-- The calls of `initKernel`, after `initASL`. -/
def initAslCalls : List AslTalk :=
  [(.setSemAdd first 0, none), (.setPrio first 0, none), (.setSemAdd first 0, none),
    (.setPrio first 0, none)]

end Kernel

/-! ### The lists of the ASL -/

namespace AslLinks.Stores

variable {m : AslLinks PcbId} {s t : Phase1} {l : SemdId → Option (List PcbId)} {p : PcbId}

theorem congr (h : m.Stores s l) (ha : t.toAsl = s.toAsl)
    (hp : ∀ p, (t.pcbFree_table p).p_semAdd = (s.pcbFree_table p).p_semAdd ∧
      (t.pcbFree_table p).p_prio = (s.pcbFree_table p).p_prio) : m.Stores t l := by
  refine ⟨?_, ?_, ?_, fun p => (h.p_semAdd p).trans (hp p).1.symm,
    fun p => (h.p_prio p).trans (hp p).2.symm⟩
  · rw [ha]
    exact h.holds
  · rw [ha]
    exact h.procq
  · rw [ha]
    exact h.key

/-- The fields of one PCB are written. -/
theorem write (h : m.Stores s l) {semAdd : Word} {prio : ℤ}
    (ha : t.toAsl = s.toAsl) (hp : (t.pcbFree_table p).p_semAdd = semAdd ∧
      (t.pcbFree_table p).p_prio = prio)
    (hne : ∀ q, q ≠ p → t.pcbFree_table q = s.pcbFree_table q) :
    AslLinks.Stores { m with
      p_semAdd := Function.update m.p_semAdd p semAdd
      p_prio := Function.update m.p_prio p prio } t l := by
  refine ⟨?_, ?_, ?_, fun q => ?_, fun q => ?_⟩
  · rw [ha]
    exact ⟨h.holds.semds, h.holds.procs, h.holds.all, h.holds.keys, h.holds.made, h.holds.idle⟩
  · rw [ha]
    exact h.procq
  · rw [ha]
    exact h.key
  · by_cases hq : q = p
    · rw [hq, hp.1]
      exact Function.update_self ..
    · rw [hne q hq, ← h.p_semAdd q]
      exact Function.update_of_ne hq ..
  · by_cases hq : q = p
    · rw [hq, hp.2]
      exact Function.update_self ..
    · rw [hne q hq, ← h.p_prio q]
      exact Function.update_of_ne hq ..

/-- What is in no queue of the nucleus is in none that the pointers make. -/
theorem unqueued (h : m.Stores s l) (hq : ∀ d, p ∉ (s.semd_table d).s_procq) : m.Unqueued p := by
  refine h.holds.unqueued_iff.mpr fun d xs hd hp => ?_
  by_cases hact : d ∈ s.semd_h
  · rw [h.procq d hact] at hd
    cases hd
    exact hq d hp
  · have hidle := h.holds.idle d hact
    rw [hd] at hidle
    rw [show xs = [] from hidle] at hp
    cases hp

end AslLinks.Stores

namespace Kernel

variable {L : Layout} {s t u : Kernel} {m : AslLinks PcbId} {lossy : Prop} {p q cur target : PcbId}
  {a : Word} {xs ys : List AslTalk} {e : AslCall PcbId} {o : Option (AslResult PcbId)} {f k : ℕ}

/-- The pointers make the ASL of the nucleus. -/
def AslHeld (m : AslLinks PcbId) (s : Kernel) : Prop := ∃ l, m.Stores s.toPhase1 l

/-- Nothing is different that the ASL is made of. -/
structure SameAsl (s t : Kernel) : Prop where
  asl : t.toAsl = s.toAsl
  pcb : ∀ p, (t.pcbFree_table p).p_semAdd = (s.pcbFree_table p).p_semAdd ∧
    (t.pcbFree_table p).p_prio = (s.pcbFree_table p).p_prio

theorem SameAsl.refl (s : Kernel) : SameAsl s s := ⟨rfl, fun _ => ⟨rfl, rfl⟩⟩

theorem SameAsl.trans (h₁ : SameAsl s t) (h₂ : SameAsl t u) : SameAsl s u :=
  ⟨h₂.asl.trans h₁.asl, fun p => ⟨(h₂.pcb p).1.trans (h₁.pcb p).1, (h₂.pcb p).2.trans (h₁.pcb p).2⟩⟩

theorem SameAsl.held (h : SameAsl s t) (m : AslLinks PcbId) (hm : AslHeld m s) : AslHeld m t := by
  obtain ⟨l, hm⟩ := hm
  exact ⟨l, hm.congr h.asl h.pcb⟩

theorem SameAsl.of_eq (h : t.toPhase1 = s.toPhase1) : SameAsl s t := by
  refine ⟨by rw [h], fun p => ?_⟩
  rw [h]
  exact ⟨rfl, rfl⟩

theorem Quiet.sameAsl (h : Quiet s t) : SameAsl s t :=
  ⟨h.asl, fun p => ⟨h.field (fun _ _ _ => rfl) p, h.field (fun _ _ _ => rfl) p⟩⟩

theorem sameAsl_modify {f : Pcb → Pcb}
    (hf : ∀ x, (f x).p_semAdd = x.p_semAdd ∧ (f x).p_prio = x.p_prio) (s : Kernel) (p : PcbId) :
    SameAsl s (s.modify p f) := by
  refine ⟨rfl, fun q => ?_⟩
  by_cases hq : q = p
  · rw [hq, modify_self]
    exact hf _
  · rw [modify_of_ne hq]
    exact ⟨rfl, rfl⟩

theorem sameAsl_scheduler (s : Kernel) (tod : Word) : SameAsl s (s.scheduler tod) := by
  refine .of_eq ?_
  unfold Kernel.scheduler
  split
  · rfl
  · split
    · rfl
    · split
      · rfl
      · split <;> rfl

theorem sameAsl_resumes (h : Resumes s t) : SameAsl s t := by
  unfold Resumes at h
  split at h
  · obtain ⟨tod, rfl⟩ := h
    exact sameAsl_scheduler s tod
  · exact h.1.sameAsl

/-! ### Calls that lead from one state to another -/

/-- Made on pointers that make the ASL of `s`, the calls keep to the obligations of `asl.c`, get
their replies, and leave pointers that make the ASL of `t`. -/
def AslFollows (s : Kernel) (xs : List AslTalk) (t : Kernel) : Prop :=
  Follows AslLinks.call AslLinks.Proper AslHeld s xs t

namespace AslFollows

theorem same (h : SameAsl s t) : AslFollows s [] t := Follows.same h.held

theorem trans (h₁ : AslFollows s xs u) (h₂ : AslFollows u ys t) : AslFollows s (xs ++ ys) t :=
  Follows.trans h₁ h₂

theorem before (hs : SameAsl s u) (h : AslFollows u xs t) : AslFollows s xs t :=
  Follows.before hs.held h

theorem after (h : AslFollows s xs u) (hs : SameAsl u t) : AslFollows s xs t :=
  Follows.after h hs.held

theorem cons (h₁ : AslFollows s [(e, o)] u) (h₂ : AslFollows u xs t) :
    AslFollows s ((e, o) :: xs) t := Follows.cons h₁ h₂

end AslFollows

/-! ### The fields of a PCB -/

theorem aslFollows_setSemAdd {g : Pcb → Pcb}
    (hg : ∀ x, (g x).p_semAdd = a ∧ (g x).p_prio = x.p_prio) (s : Kernel) (p : PcbId) :
    AslFollows s [(.setSemAdd p a, none)] (s.modify p g) := by
  refine Follows.one fun m ⟨l, hm⟩ => ⟨trivial, _, _, rfl, nofun, l, ?_⟩
  have hw := hm.write (t := (s.modify p g).toPhase1) (p := p) rfl
    ⟨congrArg Pcb.p_semAdd (modify_self s p g), congrArg Pcb.p_prio (modify_self s p g)⟩
    fun q hq => modify_of_ne hq s g
  rw [(hg _).1, (hg _).2, ← hm.p_prio p, Function.update_eq_self] at hw
  exact hw

/-- The priority of a PCB changes while it is in no queue. -/
theorem aslFollows_setPrio {g : Pcb → Pcb} {v : ℤ}
    (hg : ∀ x, (g x).p_semAdd = x.p_semAdd ∧ (g x).p_prio = v)
    (hq : ∀ d, p ∉ (s.semd_table d).s_procq) : AslFollows s [(.setPrio p v, none)] (s.modify p g) := by
  refine Follows.one fun m ⟨l, hm⟩ => ⟨hm.unqueued hq, _, _, rfl, nofun, l, ?_⟩
  have hw := hm.write (t := (s.modify p g).toPhase1) (p := p) rfl
    ⟨congrArg Pcb.p_semAdd (modify_self s p g), congrArg Pcb.p_prio (modify_self s p g)⟩
    fun q hq => modify_of_ne hq s g
  rw [(hg _).1, (hg _).2, ← hm.p_semAdd p, Function.update_eq_self] at hw
  exact hw

/-! ### Blocking and releasing -/

theorem aslFollows_insertBlocked (hq : ∀ d, p ∉ (s.semd_table d).s_procq) (a : Word) :
    AslFollows s [(.insertBlocked a p, none)]
      { s with toPhase1 := (s.toPhase1.insertBlocked a p).2 } := by
  refine Follows.one fun m ⟨l, hm⟩ => ?_
  obtain ⟨t, l', ht, hm'⟩ := hm.insertBlocked (hm.unqueued hq) a
  exact ⟨hm.unqueued hq, _, t, by rw [AslLinks.call, ht]; rfl, nofun, l', hm'⟩

theorem aslFollows_removeBlocked (hok : s.toAsl.Ok) (a : Word) :
    AslFollows s [(.removeBlocked a, some (.pcb (s.queue a).head?))]
      { s with toPhase1 := (s.toPhase1.removeBlocked a).2 } := by
  refine Follows.one fun m ⟨l, hm⟩ => ?_
  obtain ⟨t, l', ht, hm'⟩ := hm.removeBlocked a
  refine ⟨trivial, _, t, by rw [AslLinks.call, ht]; rfl, fun v hv => ?_, l', hm'⟩
  cases hv
  rw [(Phase1.removeBlocked_queue hok a a).1]

theorem aslFollows_outBlocked (s : Kernel) (p : PcbId) :
    AslFollows s [(.outBlocked p, some (.pcb (s.toPhase1.outBlocked p).1))]
      { s with toPhase1 := (s.toPhase1.outBlocked p).2 } := by
  refine Follows.one fun m ⟨l, hm⟩ => ?_
  obtain ⟨t, l', ht, hm'⟩ := hm.outBlocked p
  refine ⟨trivial, _, t, by rw [AslLinks.call, ht]; rfl, fun v hv => ?_, l', hm'⟩
  cases hv
  rfl

/-- `blockCurrentProcess`. -/
theorem aslFollows_blocks (h : Sound lossy s) (hb : Blocks L s a t) :
    AslFollows s (s.blockAslCalls a) t := by
  obtain ⟨cur, u, tod₁, tod₂, hc, hq, rfl⟩ := hb
  have hsame : SameAsl s u :=
    SameAsl.trans (t := s.setMem a (s.mem a - 1)) (.of_eq rfl) hq.sameAsl
  obtain ⟨-, -, hout⟩ := h.links.current hc
  have hset := aslFollows_setSemAdd (a := a) (g := fun pcb => { pcb with p_semAdd := a })
    (fun _ => ⟨rfl, rfl⟩) (u.updateCPUTime cur tod₁) cur
  -- `softBlockCount` is no part of the ASL
  have insert : ∀ v : Kernel,
      SameAsl ((u.updateCPUTime cur tod₁).modify cur fun pcb => { pcb with p_semAdd := a }) v →
      AslFollows s [(.setSemAdd cur a, none), (.insertBlocked a cur, none)]
        { v with toPhase1 := (v.toPhase1.insertBlocked a cur).2, currentProcess := none } := by
    intro v hv
    have hins := aslFollows_insertBlocked (s := v) (p := cur)
      (fun d => by rw [hv.asl]; exact hsame.asl ▸ hout d) a
    exact (((hset.after hv).cons (hins.after (.of_eq rfl))).before
      (quiet_updateCPUTime u cur tod₁).sameAsl).before hsame
  rw [blockCurrentProcess_eq, blockAslCalls, hc]
  refine AslFollows.after ?_ (sameAsl_scheduler _ tod₂)
  unfold blocked
  dsimp only
  split
  · exact insert _ (.of_eq rfl)
  · exact insert _ (.refl _)

/-- `release` makes its calls. -/
theorem aslFollows_release (hok : s.toAsl.Ok) (a : Word) (f : State → State) :
    AslFollows s (s.sems.releaseCalls a) (s.release a f).2 := by
  have hrem := aslFollows_removeBlocked hok a
  have hhead := (Phase1.removeBlocked_queue hok a a).1
  unfold Sems.releaseCalls Kernel.release
  refine AslFollows.cons hrem ?_
  show AslFollows _ (match (s.queue a).head? with | none => [] | some p => _) _
  rw [← hhead]
  generalize s.toPhase1.removeBlocked a = r
  obtain ⟨x, v⟩ := r
  cases x with
  | none => exact .same (.refl _)
  | some p =>
      exact (aslFollows_setSemAdd (g := fun pcb => { pcb with p_semAdd := 0, p_s := f pcb.p_s })
        (fun _ => ⟨rfl, rfl⟩) { s with toPhase1 := v } p).after (.of_eq rfl)

/-- The `V` of a device makes its calls. -/
theorem aslFollows_wake (h : Sound lossy s) (j : Fin semDevLen) (status : Word) :
    AslFollows s (s.sems.wakeCalls L j) (s.wake L j status) := by
  have hr := (aslFollows_release (s := s.setMem (L.sem j) (s.mem (L.sem j) + 1)) h.links.asl
    (L.sem j) fun st => { st with reg_a0 := status }).before (.of_eq rfl)
  unfold Sems.wakeCalls Kernel.wake
  by_cases hneg : (s.mem (L.sem j)).toInt < 0
  · have hneg' : (s.sems.word (L.sem j)).toInt < 0 := hneg
    rw [if_pos hneg, if_pos hneg']
    split
    · rename_i t he
      rw [he] at hr
      exact hr
    · rename_i t he
      rw [he] at hr
      exact hr.after (.of_eq rfl)
  · have hneg' : ¬ (s.sems.word (L.sem j)).toInt < 0 := hneg
    rw [if_neg hneg, if_neg hneg']
    exact .same (.refl s)

theorem aslFollows_wakes {l : List (Fin semDevLen × Word)} (h : Sound lossy s)
    (hw : Wakes L l s t) : AslFollows s (Sems.wakesCalls L l s.sems) t := by
  induction l generalizing s with
  | nil => exact .same (Quiet.sameAsl hw)
  | cons x l ih =>
      obtain ⟨u, hu, hw⟩ := hw
      have hsu := h.quiet hu
      have hrest := ih (hsu.wake x.1 x.2) hw
      rw [sems_wake hsu] at hrest
      have hall := ((aslFollows_wake hsu x.1 x.2).trans hrest).before hu.sameAsl
      rw [hu.sameSems.sems] at hall
      exact hall

/-- The loop of the interval timer. -/
theorem aslFollows_wakeClock (h : Sound lossy s) (hk : (s.queue (L.sem pseudoClock)).length < k) :
    AslFollows s (Sems.tickCalls L (s.queue (L.sem pseudoClock))) (s.wakeClock L k) := by
  induction k generalizing s with
  | zero => omega
  | succ k ih =>
      have hrel := aslFollows_release h.links.asl (L.sem pseudoClock)
        fun st => { st with reg_a0 := 0 }
      unfold Sems.releaseCalls at hrel
      unfold Kernel.wakeClock
      cases hq : s.queue (L.sem pseudoClock) with
      | nil =>
          obtain ⟨v, hr, -⟩ := release_clock_nil h hq
          rw [hr, show s.sems.queue (L.sem pseudoClock) = [] from hq] at hrel
          rw [hr]
          exact hrel
      | cons p rest =>
          obtain ⟨v, hr, -, hs, hrest⟩ := release_clock h hq
          rw [hr, show s.sems.queue (L.sem pseudoClock) = p :: rest from hq] at hrel
          rw [hr]
          rw [hq, List.length_cons] at hk
          have hih := ih hs (by
            rw [hrest]
            omega)
          rw [hrest] at hih
          exact hrel.trans (hih.before (.of_eq rfl))

/-! ### Termination -/

/-- `removeChild` leaves the ASL alone. -/
theorem sameAsl_removeChild (s : Kernel) (p : PcbId) :
    SameAsl s (s.withPcbs (s.toPcbs.removeChild p).2) := by
  refine ⟨rfl, fun q => ?_⟩
  cases hc : s.child p with
  | nil =>
      have hr : s.toPcbs.removeChild p = (none, s.toPcbs) := Pcbs.removeChild_nil hc
      rw [hr]
      exact ⟨rfl, rfl⟩
  | cons c rest =>
      obtain ⟨-, -, -, ht⟩ := Pcbs.removeChild_cons hc
      show ((s.toPcbs.removeChild p).2.pcbFree_table q).p_semAdd = _ ∧
        ((s.toPcbs.removeChild p).2.pcbFree_table q).p_prio = _
      rw [ht]
      exact ⟨rfl, rfl⟩

/-- The end of `recursiveTerminateProcess` makes its calls. -/
theorem aslFollows_bury (s : Kernel) (target : PcbId) :
    AslFollows s (s.buryAslCalls target) (s.bury L target) := by
  have hdiscard : ∀ u : Kernel, SameAsl u (u.discard target) := by
    refine fun u => ⟨rfl, fun q => ?_⟩
    show ((u.toPcbs.outChild target).pcbFree_table q).p_semAdd = _ ∧
      ((u.toPcbs.outChild target).pcbFree_table q).p_prio = _
    rw [Pcbs.outChild_table]
    exact ⟨rfl, rfl⟩
  refine AslFollows.after ?_ (hdiscard _)
  have hout := aslFollows_outBlocked s target
  unfold buryAslCalls leaveSemaphore
  dsimp only
  split
  · exact .same (.refl s)
  · generalize s.toPhase1.outBlocked target = r at hout ⊢
    obtain ⟨x, v⟩ := r
    cases x with
    | none => exact hout
    | some p =>
        dsimp only
        split
        · exact hout.after (.of_eq rfl)
        · exact hout.after (.of_eq rfl)

/-- The loop over the children, if the calls on them are followed. -/
theorem aslFollows_killChildren
    (ih : ∀ s target, AslFollows s (terminateAslCalls L f s target)
      (recursiveTerminateProcess L f s target)) :
    AslFollows s (killChildrenAslCalls (recursiveTerminateProcess L f) (terminateAslCalls L f) p k s)
      (killChildren (recursiveTerminateProcess L f) p k s) := by
  induction k generalizing s with
  | zero => exact .same (.refl s)
  | succ k ihk =>
      have hsame := sameAsl_removeChild s p
      unfold killChildrenAslCalls killChildren
      generalize s.toPcbs.removeChild p = r at hsame ⊢
      obtain ⟨x, v⟩ := r
      cases x with
      | none => exact .same (.refl s)
      | some c => exact ((ih (s.withPcbs v) c).trans ihk).before hsame

/-- `recursiveTerminateProcess`. -/
theorem aslFollows_terminate (s : Kernel) (target : PcbId) :
    AslFollows s (terminateAslCalls L f s target) (recursiveTerminateProcess L f s target) := by
  induction f generalizing s target with
  | zero => exact .same (.refl s)
  | succ f ih =>
      unfold terminateAslCalls recursiveTerminateProcess
      split
      · exact .same (.refl s)
      · have hmark : SameAsl s (s.mark target) :=
          sameAsl_modify (f := fun pcb => { pcb with p_pid := -1 }) (fun _ => ⟨rfl, rfl⟩) s target
        exact ((aslFollows_killChildren ih).trans (aslFollows_bury _ target)).before hmark

/-- Quiet changes stay quiet where a PCB is written. -/
theorem Quiet.modify (h : Quiet s u) {g : Pcb → Pcb} (hg : ∀ x st time,
    g { x with p_s := st, p_time := time } = { g x with p_s := st, p_time := time }) (p : PcbId) :
    Quiet (s.modify p g) (u.modify p g) := by
  refine ⟨h.asl, h.free, h.next, fun q => ?_, h.ready, h.current, h.processes, h.soft, h.root,
    h.mem⟩
  obtain ⟨st, time, hp⟩ := h.pcb q
  refine ⟨st, time, ?_⟩
  by_cases hq : q = p
  · subst hq
    rw [modify_self, modify_self, hp, hg]
  · rw [modify_of_ne hq, modify_of_ne hq, hp]

theorem Quiet.removeChild (h : Quiet s u) (p : PcbId) :
    (u.toPcbs.removeChild p).1 = (s.toPcbs.removeChild p).1 ∧
      Quiet (s.withPcbs (s.toPcbs.removeChild p).2) (u.withPcbs (u.toPcbs.removeChild p).2) := by
  have hc := h.field (g := Pcb.p_child) (fun _ _ _ => rfl) p
  unfold Pcbs.removeChild
  rw [hc]
  cases (s.pcbFree_table p).p_child with
  | nil => exact ⟨rfl, h⟩
  | cons c rest =>
      exact ⟨rfl, (h.modify (g := fun pcb => { pcb with p_child := rest }) (fun _ _ _ => rfl) p).modify
        (g := fun pcb => { pcb with p_parent := none }) (fun _ _ _ => rfl) c⟩

theorem Quiet.outBlocked (h : Quiet s u) (p : PcbId) :
    (u.toPhase1.outBlocked p).1 = (s.toPhase1.outBlocked p).1 ∧
      Quiet { s with toPhase1 := (s.toPhase1.outBlocked p).2 }
        { u with toPhase1 := (u.toPhase1.outBlocked p).2 } := by
  have hsem := h.field (g := Pcb.p_semAdd) (fun _ _ _ => rfl) p
  unfold Phase1.outBlocked
  rw [hsem, h.asl]
  cases s.find (s.pcbFree_table p).p_semAdd with
  | none => exact ⟨rfl, h⟩
  | some d => exact ⟨rfl, rfl, h.free, h.next, h.pcb, h.ready, h.current, h.processes, h.soft,
      h.root, h.mem⟩

theorem Quiet.leaveSemaphore (h : Quiet s u) (p : PcbId) :
    Quiet (s.leaveSemaphore L p) (u.leaveSemaphore L p) := by
  have hsem := h.field (g := Pcb.p_semAdd) (fun _ _ _ => rfl) p
  obtain ⟨hret, hout⟩ := h.outBlocked p
  unfold Kernel.leaveSemaphore
  rw [hsem]
  dsimp only
  split
  · exact h
  · generalize s.toPhase1.outBlocked p = r at hret hout ⊢
    generalize u.toPhase1.outBlocked p = r' at hret hout ⊢
    obtain ⟨x, v⟩ := r
    obtain ⟨x', v'⟩ := r'
    obtain rfl : x' = x := hret
    cases x' with
    | none => exact hout
    | some y =>
        dsimp only
        split
        · exact ⟨hout.asl, hout.free, hout.next, hout.pcb, hout.ready, hout.current, hout.processes,
            congrArg (· - 1) h.soft, hout.root, hout.mem⟩
        · rw [congrFun h.mem]
          exact hout.setMem _ _

theorem Quiet.discard (h : Quiet s u) (p : PcbId) : Quiet (s.discard p) (u.discard p) := by
  have hp := h.field (g := Pcb.p_parent) (fun _ _ _ => rfl) p
  have hout : Quiet (s.withPcbs (s.toPcbs.outChild p)) (u.withPcbs (u.toPcbs.outChild p)) := by
    unfold Pcbs.outChild
    rw [hp]
    cases (s.pcbFree_table p).p_parent with
    | none => exact h
    | some prnt =>
        exact (h.modify (g := fun pcb => { pcb with p_child := pcb.p_child.erase p })
          (fun _ _ _ => rfl) prnt).modify (g := fun pcb => { pcb with p_parent := none })
          (fun _ _ _ => rfl) p
  refine ⟨h.asl, congrArg (p :: ·) hout.free, hout.next, hout.pcb, ?_, ?_,
    congrArg (· - 1) h.processes, h.soft, h.root, h.mem⟩
  · exact congrArg (fun q => (Pcbs.outProcQ q p).2) h.ready
  · exact congrArg (fun c => if c = some p then none else c) h.current

/-- The loop over the children does the same on both sides, if the recursion does. -/
theorem Quiet.killChildren
    (ih : ∀ s u target, Quiet s u →
      Quiet (recursiveTerminateProcess L f s target) (recursiveTerminateProcess L f u target))
    (h : Quiet s u) : Quiet (killChildren (recursiveTerminateProcess L f) p k s)
      (killChildren (recursiveTerminateProcess L f) p k u) := by
  induction k generalizing s u with
  | zero => exact h
  | succ k ihk =>
      obtain ⟨hret, hq⟩ := h.removeChild p
      unfold Kernel.killChildren
      generalize s.toPcbs.removeChild p = r at hret hq ⊢
      generalize u.toPcbs.removeChild p = r' at hret hq ⊢
      obtain ⟨x, v⟩ := r
      obtain ⟨x', v'⟩ := r'
      obtain rfl : x' = x := hret
      cases x' with
      | none => exact h
      | some c => exact ihk (ih _ _ c hq)

/-- Who is killed does not depend on what a quiet change changes. -/
theorem Quiet.terminate (h : Quiet s u) (target : PcbId) :
    Quiet (recursiveTerminateProcess L f s target) (recursiveTerminateProcess L f u target) := by
  induction f generalizing s u target with
  | zero => exact h
  | succ f ih =>
      unfold recursiveTerminateProcess
      rw [h.field (g := Pcb.p_pid) (fun _ _ _ => rfl) target]
      split
      · exact h
      · have hmark : Quiet (s.mark target) (u.mark target) :=
          h.modify (g := fun pcb => { pcb with p_pid := -1 }) (fun _ _ _ => rfl) target
        have hloop := Quiet.killChildren (p := target) (k := maxProc)
          (fun _ _ target h => ih h target) hmark
        exact (hloop.leaveSemaphore target).discard target

/-! ### Creation -/

/-- `t` is `s` with the semaphore `a` and the priority `v` in the PCB `p`. -/
structure Written (s t : Kernel) (p : PcbId) (a : Word) (v : ℤ) : Prop where
  asl : t.toAsl = s.toAsl
  self : (t.pcbFree_table p).p_semAdd = a ∧ (t.pcbFree_table p).p_prio = v
  others : ∀ q, q ≠ p → (t.pcbFree_table q).p_semAdd = (s.pcbFree_table q).p_semAdd ∧
    (t.pcbFree_table q).p_prio = (s.pcbFree_table q).p_prio

/-- The two fields are written one after the other. -/
theorem Written.follows {x y : AslCall PcbId} {g g' : Pcb → Pcb} {v : ℤ} (h : Written s t p a v)
    (hx : AslFollows s [(x, none)] (s.modify p g))
    (hy : AslFollows (s.modify p g) [(y, none)] ((s.modify p g).modify p g'))
    (hg : (g' (g (s.pcbFree_table p))).p_semAdd = a ∧ (g' (g (s.pcbFree_table p))).p_prio = v) :
    AslFollows s [(x, none), (y, none)] t := by
  refine hx.cons (hy.after ⟨h.asl, fun q => ?_⟩)
  by_cases hqp : q = p
  · rw [hqp, modify_self, modify_self, hg.1, hg.2]
    exact h.self
  · rw [modify_of_ne hqp, modify_of_ne hqp]
    exact h.others q hqp

/-- The semaphore is written first. -/
theorem Written.semAdd_prio {v : ℤ} (h : Written s t p a v)
    (hq : ∀ d, p ∉ (s.semd_table d).s_procq) :
    AslFollows s [(.setSemAdd p a, none), (.setPrio p v, none)] t :=
  h.follows
    (aslFollows_setSemAdd (g := fun pcb => { pcb with p_semAdd := a }) (fun _ => ⟨rfl, rfl⟩) s p)
    (aslFollows_setPrio (g := fun pcb => { pcb with p_prio := v }) (fun _ => ⟨rfl, rfl⟩) hq)
    ⟨rfl, rfl⟩

/-- The priority is written first. -/
theorem Written.prio_semAdd {v : ℤ} (h : Written s t p a v)
    (hq : ∀ d, p ∉ (s.semd_table d).s_procq) :
    AslFollows s [(.setPrio p v, none), (.setSemAdd p a, none)] t :=
  h.follows
    (aslFollows_setPrio (g := fun pcb => { pcb with p_prio := v }) (fun _ => ⟨rfl, rfl⟩) hq)
    (aslFollows_setSemAdd (g := fun pcb => { pcb with p_semAdd := a }) (fun _ => ⟨rfl, rfl⟩) _ p)
    ⟨rfl, rfl⟩

theorem sameAsl_adopt (s : Kernel) (cur p : PcbId) (g : Pcb → Pcb) :
    SameAsl (s.modify p g) (s.adopt cur p g) := by
  refine ⟨rfl, fun q => ?_⟩
  have ht := Pcbs.insertChild_table (s.modify p g).toPcbs cur p q
  exact ⟨(congrArg Pcb.p_semAdd ht).trans rfl, (congrArg Pcb.p_prio ht).trans rfl⟩

/-- `createProcess` makes its calls. -/
theorem aslFollows_createProcess (h : Sound lossy s) (cur : PcbId) (state : State) (i : Inputs) :
    AslFollows s (s.createAslCalls state.reg_a2.toInt) (s.createProcess cur state i) := by
  have hhand := fun p v => (h.links.alloc (p := p) (u := v))
  unfold createAslCalls createProcess
  cases ha : s.toPcbs.allocPcb with
  | none => exact .same ((quiet_copyState s cur _).trans (quiet_ldst _ _)).sameAsl
  | some r =>
      obtain ⟨newPcb, v⟩ := r
      obtain ⟨-, hold, hnew, -⟩ := Pcbs.allocPcb_some ha
      obtain ⟨-, -, hq, -⟩ := (hhand newPcb v ha).hand
      have halloc : AslFollows s [(.setSemAdd newPcb 0, none), (.setPrio newPcb 0, none)]
          (s.withPcbs v) :=
        Written.semAdd_prio ⟨rfl, ⟨congrArg Pcb.p_semAdd hnew, congrArg Pcb.p_prio hnew⟩,
          fun q hqn => ⟨congrArg Pcb.p_semAdd (hold q hqn), congrArg Pcb.p_prio (hold q hqn)⟩⟩ hq
      have hset : ∀ g : Pcb → Pcb,
          (∀ x, (g x).p_semAdd = 0 ∧ (g x).p_prio = state.reg_a2.toInt) → AslFollows (s.withPcbs v)
            [(.setPrio newPcb state.reg_a2.toInt, none), (.setSemAdd newPcb 0, none)]
            ((s.withPcbs v).adopt cur newPcb g) := by
        intro g hg
        have hw : Written (s.withPcbs v) ((s.withPcbs v).modify newPcb g) newPcb 0
            state.reg_a2.toInt := by
          refine ⟨rfl, ?_, fun q hqn => ?_⟩
          · rw [modify_self]
            exact hg _
          · rw [modify_of_ne hqn]
            exact ⟨rfl, rfl⟩
        exact (hw.prio_semAdd hq).after (sameAsl_adopt _ cur newPcb g)
      exact (halloc.trans (hset _ fun _ => ⟨rfl, rfl⟩)).after
        ((quiet_copyState _ cur _).trans (quiet_ldst _ _)).sameAsl

/-! ### Steps and runs -/

/-- An act makes its calls, but for that of creating a process. -/
theorem aslFollows_did {x : Act} (h : Sound lossy s) (hd : Did L s x t) (hx : x ≠ .create)
    (prio : ℤ) : AslFollows s (actAslCalls L s prio x) t := by
  cases x with
  | quiet => exact .same hd.1.sameAsl
  | store a v => exact (AslFollows.same hd.1.sameAsl).before (.of_eq rfl)
  | create => exact absurd rfl hx
  | kill target =>
      obtain ⟨u, hq, hd⟩ := hd
      have hkill := aslFollows_terminate (L := L) (f := maxProc) s target
      have hrun := hq.terminate (L := L) (f := maxProc) target
      rcases hd with ⟨-, tod, rfl⟩ | ⟨-, -, hq', -⟩
      · have hsame : SameAsl (recursiveTerminateProcess L maxProc u target)
            { recursiveTerminateProcess L maxProc u target with currentProcess := none } := .of_eq rfl
        exact hkill.after ((hrun.sameAsl.trans hsame).trans (sameAsl_scheduler _ tod))
      · exact hkill.after (hrun.sameAsl.trans hq'.sameAsl)
  | pass a => exact (AslFollows.same hd.1.sameAsl).before (.of_eq rfl)
  | block a => exact aslFollows_blocks h hd.1
  | io j => exact aslFollows_blocks h hd
  | clockWait => exact aslFollows_blocks h hd
  | signal a =>
      obtain ⟨-, u, hq, hq', -⟩ := hd
      have hu := (h.setMem a (s.mem a + 1)).quiet hq
      have hsame : SameAsl s u := SameAsl.trans (t := s.setMem a (s.mem a + 1)) (.of_eq rfl) hq.sameAsl
      have hrel := aslFollows_release hu.links.asl a id
      refine AslFollows.after (AslFollows.before hsame ?_) hq'.sameAsl
      show AslFollows u (if (s.mem a + 1).toInt ≤ 0 then s.sems.releaseCalls a else []) _
      have hsems : s.sems.releaseCalls a = u.sems.releaseCalls a := by
        unfold Sems.releaseCalls
        rw [show u.sems.queue = s.sems.queue from congrArg Asl.queue hq.asl]
      rw [hsems]
      split
      · exact hrel
      · exact .same (.refl u)
  | requeue =>
      obtain ⟨cur, u, tod, hc, hq, rfl⟩ := hd
      have hsame : SameAsl u { u.ready cur with currentProcess := none } := .of_eq rfl
      exact .same ((hq.sameAsl.trans hsame).trans (sameAsl_scheduler _ tod))
  | wake l =>
      obtain ⟨u, hw, hr⟩ := hd
      exact (aslFollows_wakes h hw).after (sameAsl_resumes hr)
  | tick =>
      obtain ⟨u, hq, hr⟩ := hd
      have hu := h.quiet hq
      have hw := aslFollows_wakeClock hu
        (Nat.lt_succ_of_le (hu.links.queue_short (L.sem pseudoClock)))
      have hsame : SameAsl (u.wakeClock L (maxProc + 1))
          ((u.wakeClock L (maxProc + 1)).setMem (L.sem pseudoClock) 0) := .of_eq rfl
      rw [show u.queue = s.queue from congrArg Asl.queue hq.asl] at hw
      exact (hw.after (hsame.trans (sameAsl_resumes hr))).before hq.sameAsl

/-- **A step makes its calls.** -/
theorem aslFollows_step {e : KernelEvent} (h : Sound lossy s) (hs : s.step L e = some t) :
    AslFollows s (s.stepAslCalls L e) t := by
  have hd := did_step hs
  cases e with
  | store a v => exact (AslFollows.same hd.1.sameAsl).before (.of_eq rfl)
  | exception saved i =>
      by_cases hx : s.act (.exception saved i) = .create
      · obtain ⟨hint, hsvc⟩ := act_create hx
        unfold stepAslCalls
        rw [hx]
        rcases step_cases hs with ⟨_, _, he, -⟩ | ⟨_, _, he, ⟨hi, -⟩ | ⟨-, -, -, cur, -, rfl⟩⟩
        · cases he
        · cases he
          exact absurd hi hint
        · cases he
          rw [trapHandler_service hsvc cur i]
          exact aslFollows_createProcess h cur (ecallState saved) i
      · exact aslFollows_did h hd hx _

/-- What the pointers of `asl.c` and the two fields of the PCBs show of the nucleus. -/
structure AslShown (m : AslLinks PcbId) (s : Kernel) : Prop where
  free : m.s_link.elems .semdFree_h = some s.semdFree_h
  active : m.s_link.elems .semd_h = some s.semd_h
  key : ∀ d ∈ s.semd_h, m.s_key d = (s.semd_table d).s_key
  procq : ∀ d ∈ s.semd_h, m.p_list.elems d = some (s.semd_table d).s_procq
  blocked : ∀ a, m.blocked a = some (s.queue a)
  p_semAdd : ∀ p, m.p_semAdd p = (s.pcbFree_table p).p_semAdd
  p_prio : ∀ p, m.p_prio p = (s.pcbFree_table p).p_prio

/-- Links that hold the ASL of the nucleus show it. -/
theorem AslHeld.shown (h : AslHeld m s) : AslShown m s := by
  obtain ⟨l, h⟩ := h
  refine ⟨h.holds.semds.elems AslLinks.semds_semdFree_h, h.holds.semds.elems AslLinks.semds_semd_h,
    h.key, fun d hd => h.holds.procs.elems (h.procq d hd), fun a => ?_, h.p_semAdd, h.p_prio⟩
  unfold Asl.queue
  cases hf : s.find a with
  | none =>
      refine h.holds.blocked_nil fun d hd hk => ?_
      rw [h.find_some hd hk] at hf
      cases hf
  | some d =>
      obtain ⟨hd, hk⟩ := Asl.find_some hf
      rw [← hk, ← h.key d hd]
      exact h.holds.blocked_eq hd (h.procq d hd)

section
variable (L : Layout) (mem : Word → Word) (support : Word → SupportT) (test ramtop tod : Word)

/-- `initKernel`, once the ASL is set up. -/
theorem aslFollows_init : AslFollows
    (initGlobals (fun a => if isSoftBlockSemaphore L a then 0 else mem a) support) initAslCalls
    (initKernel L mem support test ramtop tod) := by
  have htable := init_table L mem support test ramtop tod
  have hasl : (initKernel L mem support test ramtop tod).toAsl = initASL := rfl
  generalize initKernel L mem support test ramtop tod = t at htable hasl ⊢
  have hfirst : (t.pcbFree_table first).p_semAdd = 0 ∧ (t.pcbFree_table first).p_prio = 0 := by
    rw [htable, if_pos rfl]
    exact ⟨rfl, rfl⟩
  have hout : ∀ u : Kernel, u.toAsl = initASL → ∀ d, first ∉ (u.semd_table d).s_procq := by
    intro u hu d
    rw [hu]
    exact List.not_mem_nil
  -- `allocPcb`, and then `initKernel` itself
  have halloc : Written (initGlobals (fun a => if isSoftBlockSemaphore L a then 0 else mem a)
      support) t first 0 0 := by
    refine ⟨hasl, hfirst, fun q hq => ?_⟩
    rw [htable, if_neg hq]
    exact ⟨rfl, rfl⟩
  have hkernel : Written t t first 0 0 := ⟨rfl, hfirst, fun _ _ => ⟨rfl, rfl⟩⟩
  exact (halloc.semAdd_prio (hout _ rfl)).trans (hkernel.semAdd_prio (hout t hasl))

end

/-- **The nucleus over the pointers of `asl.c`.**  On every run, whatever the links held before
`initASL`, the calls of the nucleus keep to the obligations of `asl.c`; made on the pointers they
get the replies the nucleus goes by, and the pointers show its ASL. -/
theorem asls_of_run {m₀ : AslLinks PcbId} {mem : Word → Word} {support : Word → SupportT}
    {test ramtop tod : Word} {es : List KernelEvent} (hs : ∀ p, m₀.p_semAdd p = 0)
    (hp : ∀ p, m₀.p_prio p = 0)
    (hr : Run (record (step L) (aslTalk L)) anyStep (initKernel L mem support test ramtop tod,
      initAslCalls) es (s, xs)) :
    ∃ m, Run (ask AslLinks.call) (fun m x => m.Proper x.1) m₀.initASL xs m ∧ AslShown m s := by
  have h₀ : AslHeld m₀.initASL
      (initGlobals (fun a => if isSoftBlockSemaphore L a then 0 else mem a) support) :=
    ⟨_, .initASL m₀ _ rfl hs hp⟩
  obtain ⟨-, m, hm, hh⟩ := hr.inv (I := fun x => Sound True x.1 ∧
    ∃ m, Run (ask AslLinks.call) (fun m x => m.Proper x.1) m₀.initASL x.2 m ∧ AslHeld m x.1)
    ⟨.init L mem support test ramtop tod True,
      aslFollows_init L mem support test ramtop tod _ h₀⟩
    fun x e y ⟨h, m, hm, hh⟩ _ hst => by
      obtain ⟨hstep, hnote⟩ := record_eq_some hst
      obtain ⟨m', hm', hh'⟩ := aslFollows_step h hstep m hh
      refine ⟨h.step hstep (fun _ _ => .inl trivial) fun _ _ => .inl trivial, m', ?_, hh'⟩
      rw [hnote]
      exact hm.append hm'
  exact ⟨m, hm, hh.shown⟩

/-- The first process creates two children and waits, the first child as well; the second child
wakes the first process. -/
def lineUp : List KernelEvent :=
  [call (-1) 0 0 0, call (-1) 0 0 0, call (-3) 0x20002000 0 0, call (-3) 0x20002000 0 0,
    call (-4) 0x20002000 0 0]

theorem asls_of_run_lineUp : ∃ s xs m, Run (record (step layout₀) (aslTalk layout₀)) anyStep
    (boot₀, initAslCalls) lineUp (s, xs) ∧
    Run (ask AslLinks.call) (fun m x => m.Proper x.1) (AslLinks.memory fun _ => 0).initASL xs m ∧
    m.blocked 0x20002000 = some [⟨18, by decide⟩] := by
  obtain ⟨⟨s, xs⟩, hr, hq⟩ := exists_run (record (step layout₀) (aslTalk layout₀)) anyStep
    (fun x => x.1.queue 0x20002000 = [⟨18, by decide⟩]) (boot₀, initAslCalls) lineUp (by decide +kernel)
  have hs : ∀ p : PcbId, (AslLinks.memory fun _ => 0).p_semAdd p = 0 := fun _ => rfl
  obtain ⟨m, hm, hh⟩ := asls_of_run hs (fun _ => rfl) hr
  exact ⟨s, xs, m, hr, hm, (hh.blocked _).trans (congrArg some hq)⟩

end Kernel

end PandOS
