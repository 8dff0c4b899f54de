import PandOS.Lib.Priority
import PandOS.Phase2.Effects
import PandOS.Phase2.Subtree

/-!
# Phase 2 — the scheduler: who runs next, and who waits how long

`Scheduled`: what one step does to the ready queue.  Those who are killed leave it, those who
become ready (`Act.arrivals`) are put in by priority, and where nobody runs any more the first is
dispatched.  Over runs: the ready queue is what has become ready and has not run since, by priority
and in the order of arrival, so that every dispatch takes the first arrival of the highest priority
(`dispatch_of_run`); and while nobody of a higher priority becomes ready, a ready process waits for
no more dispatches than processes are before it (`dispatched_of_run`).
-/

namespace PandOS

/-! ### Arrivals -/

/-- The processes the `V`s of an interrupt make ready. -/
def Sems.woken (L : Layout) : List (Fin semDevLen × Word) → Sems → List PcbId
  | [], _ => []
  | x :: l, S =>
      (if (S.word (L.sem x.1)).toInt < 0 then (S.queue (L.sem x.1)).head?.toList else []) ++
        Sems.woken L l (S.wake L x.1)

namespace Kernel

variable {L : Layout} {s t u : Kernel} {lossy : Prop} {p q cur target : PcbId} {a : Word}
  {xs ys : List PcbId} {x : Act} {e : KernelEvent}

/-- The priority of a process. -/
def prio (s : Kernel) (p : PcbId) : ℤ := (s.pcbFree_table p).p_prio

/-- The processes that become ready in a step, in the order in which they do. -/
def Act.arrivals (L : Layout) (s : Kernel) : Act → List PcbId
  | .create => s.pcbFree_h.head?.toList
  | .signal a => if (s.mem a + 1).toInt ≤ 0 then (s.queue a).head?.toList else []
  | .requeue => s.currentProcess.toList
  | .wake l => s.sems.woken L l
  | .tick => s.queue (L.sem pseudoClock)
  | .quiet | .store _ _ | .kill _ | .pass _ | .block _ | .io _ | .clockWait => []

/-- The processes `xs` are put into the ready queue, and nothing else happens to it. -/
structure Readied (s t : Kernel) (xs : List PcbId) : Prop where
  ready : t.readyQueue = enqueueAll s.prio s.readyQueue xs
  prio : t.prio = s.prio
  current : t.currentProcess = s.currentProcess

theorem Quiet.prio (h : Quiet s t) : t.prio = s.prio :=
  funext fun p => h.field (g := Pcb.p_prio) (fun _ _ _ => rfl) p

theorem Quiet.readied (h : Quiet s t) : Readied s t [] := ⟨h.ready, h.prio, h.current⟩

theorem Readied.trans (h₁ : Readied s t xs) (h₂ : Readied t u ys) : Readied s u (xs ++ ys) where
  ready := by rw [h₂.ready, h₁.ready, h₁.prio, enqueueAll_append]
  prio := h₂.prio.trans h₁.prio
  current := h₂.current.trans h₁.current

/-- A release makes the first of the queue ready, if there is one. -/
theorem readied_release (hok : s.toAsl.Ok) (a : Word) (f : State → State) :
    Readied s (s.release a f).2 (s.queue a).head?.toList := by
  have hfst := (release_spec hok a f).1
  cases hr : (s.release a f).1 with
  | none =>
      obtain ⟨hready, htable⟩ := release_none hr
      rw [← hfst, hr]
      refine ⟨hready, ?_, current_release s a f⟩
      unfold Kernel.prio
      rw [htable]
  | some p =>
      obtain ⟨hready, htable, hcur⟩ := release_some hr
      rw [← hfst, hr]
      refine ⟨hready, funext fun q => ?_, hcur⟩
      unfold Kernel.prio
      rw [htable]
      by_cases hq : q = p
      · rw [hq, Function.update_self]
      · rw [Function.update_of_ne hq]

/-- The `V` of a device makes the first of its queue ready, if the word is negative. -/
theorem readied_wake (hs : Sound lossy s) (j : Fin semDevLen) (status : Word) :
    Readied s (s.wake L j status)
      (if (s.mem (L.sem j)).toInt < 0 then (s.queue (L.sem j)).head?.toList else []) := by
  unfold Kernel.wake
  split
  · have hr := readied_release (s := s.setMem (L.sem j) (s.mem (L.sem j) + 1)) hs.links.asl
      (L.sem j) fun st => { st with reg_a0 := status }
    generalize (s.setMem (L.sem j) (s.mem (L.sem j) + 1)).release (L.sem j)
      (fun st => { st with reg_a0 := status }) = r at hr ⊢
    obtain ⟨o, v⟩ := r
    cases o with
    | none => exact ⟨hr.ready, hr.prio, hr.current⟩
    | some p => exact ⟨hr.ready, hr.prio, hr.current⟩
  · exact (Quiet.refl s).readied

/-- Several `V`s, one after the other. -/
theorem readied_wakes {l : List (Fin semDevLen × Word)} (hs : Sound lossy s) (hw : Wakes L l s t) :
    Readied s t (s.sems.woken L l) := by
  induction l generalizing s with
  | nil => exact Quiet.readied hw
  | cons x l ih =>
      obtain ⟨u, hq, hw⟩ := hw
      have hu := hs.quiet hq
      have hsems : (u.wake L x.1 x.2).sems = s.sems.wake L x.1 := by
        rw [sems_wake hu, hq.sameSems.sems]
      have hrest := ih (hu.wake x.1 x.2) hw
      have hfirst := readied_wake (L := L) hu x.1 x.2
      have hqueue : u.queue = s.queue := congrArg Asl.queue hq.asl
      rw [hsems] at hrest
      rw [hq.mem, hqueue] at hfirst
      exact hq.readied.trans (hfirst.trans hrest)

/-- The interval timer makes everyone ready who waits for the clock. -/
theorem readied_wakeClock {k : ℕ} (hs : Sound lossy s)
    (hk : (s.queue (L.sem pseudoClock)).length < k) :
    Readied s (s.wakeClock L k) (s.queue (L.sem pseudoClock)) := by
  induction k generalizing s with
  | zero => omega
  | succ k ih =>
      have hr := readied_release (s := s) hs.links.asl (L.sem pseudoClock)
        fun st => { st with reg_a0 := 0 }
      unfold Kernel.wakeClock
      cases hq : s.queue (L.sem pseudoClock) with
      | nil =>
          obtain ⟨v, hv, -⟩ := release_clock_nil hs hq
          rw [hv, hq] at hr
          rw [hv]
          exact hr
      | cons p rest =>
          obtain ⟨v, hv, -, hsv, hqv⟩ := release_clock (L := L) hs hq
          rw [hv, hq] at hr
          rw [hv]
          rw [hq, List.length_cons] at hk
          have hrest := ih hsv (by rw [hqv]; omega)
          rw [hqv] at hrest
          have hfirst : Readied s { v with softBlockCount := v.softBlockCount - 1 } [p] :=
            ⟨hr.ready, hr.prio, hr.current⟩
          exact hfirst.trans hrest

/-! ### What a step does to the ready queue -/

/-- The ready queue has become `xs`; then the process that ran goes on, or one is dispatched. -/
inductive Scheduled (s t : Kernel) (x : Act) (xs : List PcbId) : Prop where
  | goes (hx : x ≠ .requeue) (hc : t.currentProcess = s.currentProcess) (hr : t.readyQueue = xs)
  | dispatched (p : PcbId) (hx : s.currentProcess = some p → x = .requeue)
      (hc : t.currentProcess = some p) (hr : xs = p :: t.readyQueue)
  | idle (hc : t.currentProcess = none) (hr : t.readyQueue = []) (hx : xs = [])

/-- The scheduler, where nobody runs. -/
theorem scheduled_scheduler (hc : u.currentProcess = none)
    (hx : ∀ p ∈ u.readyQueue, s.currentProcess = some p → x = .requeue) (tod : Word) :
    Scheduled s (u.scheduler tod) x u.readyQueue ∧ (u.scheduler tod).prio = u.prio := by
  unfold Kernel.scheduler
  split
  · rename_i p rest hr
    refine ⟨.dispatched p (hx p ?_) rfl hr, rfl⟩
    rw [hr]
    exact List.mem_cons_self
  · rename_i hr
    split_ifs <;> exact ⟨.idle hc hr hr, rfl⟩

theorem scheduled_resumes (hr : Readied s u xs) (h : Resumes u t) (hx : x ≠ .requeue) :
    Scheduled s t x u.readyQueue ∧ t.prio = u.prio := by
  unfold Resumes at h
  split at h
  · rename_i hc
    obtain ⟨tod, rfl⟩ := h
    refine scheduled_scheduler hc (fun p hp hsc => ?_) tod
    rw [← hr.current, hc] at hsc
    cases hsc
  · exact ⟨.goes hx (h.1.current.trans hr.current) h.1.ready, h.1.prio⟩

/-- What an act does to the ready queue. -/
structure Queued (L : Layout) (s t : Kernel) (x : Act) : Prop where
  prio : ∀ p, s.Live p → t.prio p = s.prio p
  scheduled : Scheduled s t x
    (enqueueAll t.prio (s.readyQueue.filter fun q => t.Live q) (x.arrivals L s))

/-- Nobody is killed. -/
theorem Sound.ready_filter (h : Sound lossy s) (hl : ∀ p, s.Live p → t.Live p) :
    (s.readyQueue.filter fun q => t.Live q) = s.readyQueue :=
  List.filter_eq_self.mpr fun _ hp => decide_eq_true (hl _ (h.links.in_ready hp).1)

/-- Some become ready, and the scheduler is called or not. -/
theorem Sound.queued_of (h : Sound lossy s) (hl : ∀ p, s.Live p → t.Live p)
    (hr : u.readyQueue = enqueueAll s.prio s.readyQueue (x.arrivals L s)) (hp : u.prio = s.prio)
    (hu : Scheduled s t x u.readyQueue ∧ t.prio = u.prio) : Queued L s t x := by
  have hpt := hu.2.trans hp
  refine ⟨fun p _ => congrFun hpt p, ?_⟩
  rw [h.ready_filter hl, hpt, ← hr]
  exact hu.1

/-- The process that runs goes on. -/
theorem Sound.queued_quiet (h : Sound lossy s) (hu : Readied s u (x.arrivals L s)) (hq : Quiet u t)
    (hl : ∀ p, s.Live p → t.Live p) (hx : x ≠ .requeue) : Queued L s t x :=
  h.queued_of hl hu.ready hu.prio ⟨.goes hx (hq.current.trans hu.current) hq.ready, hq.prio⟩

/-- `insertBlocked` leaves the priorities alone. -/
theorem prio_insertBlocked (y : Phase1) (a : Word) (p q : PcbId) :
    ((y.insertBlocked a p).2.pcbFree_table q).p_prio = (y.pcbFree_table q).p_prio := by
  have henq : ∀ (z : Phase1) d, z.toPcbs = y.toPcbs →
      ((z.enqueue d a p).pcbFree_table q).p_prio = (y.pcbFree_table q).p_prio := by
    intro z d hz
    rw [← hz]
    by_cases hq : q = p
    · rw [hq, Phase1.enqueue_table]
    · rw [Phase1.enqueue_of_ne hq]
  rcases y.insertBlocked_cases a p with ⟨d, -, he⟩ | ⟨-, d, rest, -, he⟩ | ⟨-, -, he⟩
  · rw [he]
    exact henq _ d rfl
  · rw [he]
    exact henq _ d rfl
  · rw [he]

/-- A process that blocks leaves the ready queue as it is. -/
theorem blocked_ready (L : Layout) (u : Kernel) (cur : PcbId) (a tod : Word) :
    (u.blocked L cur a tod).readyQueue = u.readyQueue ∧
      (u.blocked L cur a tod).prio = u.prio := by
  have hmod : ((u.updateCPUTime cur tod).modify cur fun pcb => { pcb with p_semAdd := a }).prio =
      u.prio := by
    rw [← (quiet_updateCPUTime u cur tod).prio]
    funext q
    exact Pcbs.modify_field (s := (u.updateCPUTime cur tod).toPcbs) (p := cur)
      (f := fun pcb => { pcb with p_semAdd := a }) (g := Pcb.p_prio) (fun _ => rfl) q
  unfold blocked
  dsimp only
  rw [← hmod]
  split
  · exact ⟨rfl, funext fun q => prio_insertBlocked _ a cur q⟩
  · exact ⟨rfl, funext fun q => prio_insertBlocked _ a cur q⟩

theorem Sound.queued_blocks (h : Sound lossy s) (hb : Blocks L s a t) (hx : x.arrivals L s = []) :
    Queued L s t x := by
  have hl : ∀ p, s.Live p → t.Live p := fun p => (tree_blocks hb).live.mpr
  obtain ⟨cur, u, tod₁, tod₂, hc, hq, rfl⟩ := hb
  obtain ⟨hready, hprio⟩ := blocked_ready L u cur a tod₁
  have hrs : (u.blocked L cur a tod₁).readyQueue = s.readyQueue := hready.trans hq.ready
  rw [blockCurrentProcess_eq] at hl ⊢
  refine h.queued_of (u := u.blocked L cur a tod₁) hl ?_ (hprio.trans hq.prio) ?_
  · rw [hrs, hx, enqueueAll_nil]
  · exact scheduled_scheduler rfl
      (fun p hp hcp => absurd hcp (h.links.in_ready (hrs ▸ hp)).2.2) tod₂

/-- A PCB keeps its priority. -/
theorem prio_kills (L : Layout) (K : PcbId → Prop) (s : Kernel) :
    Kills L K fun u => u.prio = s.prio where
  mark u p h _ _ _ := by
    rw [← h]
    funext q
    unfold Kernel.prio
    rw [mark_table]
  detach u p c rest h _ _ hc := by
    obtain ⟨-, -, -, ht⟩ := Pcbs.removeChild_cons hc
    rw [← h]
    funext q
    show ((u.toPcbs.removeChild p).2.pcbFree_table q).p_prio = _
    rw [ht]
    rfl
  bury u p h _ _ _ _ := by
    rw [← h]
    funext q
    unfold Kernel.prio
    rw [bury_table]

/-- A kill takes the processes it removes out of `readyQueue`. -/
theorem Sound.queued_kill (h : Sound lossy s) (hl : s.Live target) (hd : Did L s (.kill target) t) :
    Queued L s t (.kill target) := by
  obtain ⟨u, hq, hd⟩ := hd
  have hu := h.quiet hq
  have hlu : u.Live target := hq.tree.live.mpr hl
  have hfilter := hu.ready_filter (t := u) fun _ hp => hp
  obtain ⟨⟨⟨-, hready⟩, hprio⟩, -, -⟩ := terminate_rule
    ((ready_kills L lossy (fun _ => True) u).and (prio_kills L (fun _ => True) u))
    (hu.tree.called ⟨⟨hu.links, hfilter.symm⟩, rfl⟩) (fun _ => hlu) fun _ _ => trivial
  obtain ⟨-, -, -, hcur⟩ := hu.terminate (L := L) fun _ => hlu
  generalize recursiveTerminateProcess L maxProc u target = v at hd hready hprio hcur
  rw [hq.ready] at hready
  rw [hq.prio] at hprio
  -- what is dispatched was ready, so it did not run
  have hsub : ∀ p ∈ v.readyQueue, s.currentProcess ≠ some p := fun p hp => by
    rw [hready] at hp
    exact (h.links.in_ready (List.mem_filter.mp hp).1).2.2
  have hqueue : ∀ t : Kernel, SameTree v t →
      (s.readyQueue.filter fun q => t.Live q) = v.readyQueue := fun t ht => by
    rw [hready]
    exact List.filter_congr fun q _ => decide_eq_decide.mpr ht.live
  rcases hd with ⟨-, tod, rfl⟩ | ⟨-, hne, hqt, -⟩
  · have htree : SameTree v (({ v with currentProcess := none } : Kernel).scheduler tod) :=
      SameTree.trans (t := { v with currentProcess := none })
        ⟨rfl, rfl, rfl, rfl, fun _ => ⟨rfl, rfl, rfl⟩⟩ (tree_scheduler _ tod)
    obtain ⟨hsch, hp⟩ := scheduled_scheduler (s := s) (x := .kill target)
      (u := { v with currentProcess := none }) rfl
      (fun p hp hc => absurd hc (hsub p hp)) tod
    refine ⟨fun p _ => congrFun (hp.trans hprio) p, ?_⟩
    rw [hqueue _ htree]
    exact hsch
  · refine ⟨fun p _ => congrFun (hqt.prio.trans hprio) p, ?_⟩
    have hc := hcur.resolve_left hne
    rw [hqueue _ hqt.tree]
    exact .goes nofun (hqt.current.trans (hc.trans hq.current)) hqt.ready

/-- `createProcess` inserts the new process by its priority. -/
theorem Sound.queued_create (h : Sound lossy s) (hd : Did L s .create t) : Queued L s t .create := by
  obtain ⟨cur, newPcb, v, f, hc, ha, hf, hq, -⟩ := hd
  obtain ⟨hfree, hold, -, -⟩ := Pcbs.allocPcb_some ha
  have hprio : ∀ p, p ≠ newPcb → t.prio p = s.prio p := by
    intro p hp
    rw [hq.prio]
    show ((((s.withPcbs v).modify newPcb f).toPcbs.insertChild cur newPcb).pcbFree_table p).p_prio = _
    rw [Pcbs.insertChild_table]
    show (((s.withPcbs v).modify newPcb f).pcbFree_table p).p_prio = _
    rw [modify_of_ne hp]
    exact congrArg Pcb.p_prio (hold p hp)
  have hnew : ∀ p, s.Live p → p ≠ newPcb := by
    rintro p hp rfl
    exact hp (by rw [hfree]; exact List.mem_cons_self)
  have hl : ∀ p, s.Live p → t.Live p := by
    intro p hp hpt
    rw [hq.free] at hpt
    refine hp ?_
    rw [hfree]
    exact List.mem_cons_of_mem _ hpt
  refine ⟨fun p hp => hprio p (hnew p hp), ?_⟩
  rw [h.ready_filter hl]
  refine .goes nofun hq.current ?_
  have harr : Act.create.arrivals L s = [newPcb] := by
    show s.pcbFree_h.head?.toList = _
    rw [hfree]
    rfl
  rw [harr, hq.ready, hq.prio]
  rfl

/-- Only a kill frees processes. -/
theorem Sound.live_of_did (h : Sound lossy s) (hd : Did L s x t) (hk : ∀ p, x ≠ .kill p)
    (hc : x ≠ .create) : ∀ p, s.Live p → t.Live p := fun p hp => by
  cases h.treeStep hd with
  | same _ _ _ ht => exact ht.live.mpr hp
  | create => exact absurd rfl hc
  | kill u target => exact absurd rfl (hk target)

theorem Sound.queued_requeue (h : Sound lossy s) (hd : Did L s .requeue t) :
    Queued L s t .requeue := by
  have hl := h.live_of_did hd (fun _ => nofun) nofun
  obtain ⟨cur, u, tod, hc, hq, rfl⟩ := hd
  refine h.queued_of (u := { u.ready cur with currentProcess := none }) hl ?_ hq.prio
    (scheduled_scheduler rfl (fun _ _ _ => rfl) tod)
  have harr : Act.requeue.arrivals L s = [cur] := by
    unfold Act.arrivals
    rw [hc]
    rfl
  rw [harr, ← hq.prio, ← hq.ready]
  rfl

/-- A `V` inserts whom it releases by its priority. -/
theorem Sound.queued_signal (h : Sound lossy s) (hd : Did L s (.signal a) t) :
    Queued L s t (.signal a) := by
  have hl := h.live_of_did hd (fun _ => nofun) nofun
  obtain ⟨-, u, hqu, hqt, -⟩ := hd
  have hu : Readied s u [] := ⟨hqu.ready, hqu.prio, hqu.current⟩
  have hqueue : u.queue = s.queue := congrArg Asl.queue hqu.asl
  by_cases hle : (s.mem a + 1).toInt ≤ 0
  · rw [if_pos hle] at hqt
    have hok : u.toAsl.Ok := by
      rw [hqu.asl]
      exact h.links.asl
    have hr := hu.trans (readied_release hok a id)
    rw [hqueue, List.nil_append] at hr
    refine h.queued_quiet (u := (u.release a id).2) ?_ hqt hl nofun
    rwa [Act.arrivals, if_pos hle]
  · rw [if_neg hle] at hqt
    refine h.queued_quiet ?_ hqt hl nofun
    rwa [Act.arrivals, if_neg hle]

/-- **Every act does to the ready queue what `Queued` says.** -/
theorem Sound.queued (h : Sound lossy s) (hd : Did L s x t) (hk : ∀ p, x = .kill p → s.Live p) :
    Queued L s t x := by
  have hl := h.live_of_did hd
  cases x with
  | quiet => exact h.queued_quiet hd.1.readied (.refl t) (hl (fun _ => nofun) nofun) nofun
  | store a v =>
      have hu : Readied s (s.setMem a v) [] := ⟨rfl, rfl, rfl⟩
      exact h.queued_quiet hu hd.1 (hl (fun _ => nofun) nofun) nofun
  | pass a =>
      have hu : Readied s (s.setMem a (s.mem a - 1)) [] := ⟨rfl, rfl, rfl⟩
      exact h.queued_quiet hu hd.1 (hl (fun _ => nofun) nofun) nofun
  | create => exact h.queued_create hd
  | kill p => exact h.queued_kill (hk p rfl) hd
  | block a => exact h.queued_blocks hd.1 rfl
  | io j => exact h.queued_blocks hd rfl
  | clockWait => exact h.queued_blocks hd rfl
  | signal a => exact h.queued_signal hd
  | requeue => exact h.queued_requeue hd
  | wake l =>
      have hlive := hl (fun _ => nofun) nofun
      obtain ⟨u, hw, hr⟩ := hd
      have hu := readied_wakes h hw
      exact h.queued_of hlive hu.ready hu.prio (scheduled_resumes hu hr nofun)
  | tick =>
      have hlive := hl (fun _ => nofun) nofun
      obtain ⟨u, hq, hr⟩ := hd
      have hu := h.quiet hq
      have hclock := hq.readied.trans
        (readied_wakeClock hu (Nat.lt_succ_of_le (hu.links.queue_short (L.sem pseudoClock))))
      rw [List.nil_append, show u.queue = s.queue from congrArg Asl.queue hq.asl] at hclock
      have hset : Readied s ((u.wakeClock L (maxProc + 1)).setMem (L.sem pseudoClock) 0)
          (s.queue (L.sem pseudoClock)) := ⟨hclock.ready, hclock.prio, hclock.current⟩
      exact h.queued_of hlive hset.ready hset.prio (scheduled_resumes hset hr nofun)

theorem Sound.queued_step (h : Sound lossy s) (hs : s.step L e = some t) :
    Queued L s t (s.act e) :=
  h.queued (did_step hs) fun _ hk => h.kill_live hk

/-! ### The order in which they run -/

/-- The history: who has become ready and not left the ready queue since, in the order of the
arrivals. -/
def arrive (L : Layout) (s : Kernel) (e : KernelEvent) (t : Kernel) (as : List PcbId) :
    List PcbId :=
  (as ++ (s.act e).arrivals L s).filter fun p => p ∈ t.readyQueue

/-- The scheduler dispatches a process: another one than ran, or the one that has just given up the
processor. -/
def Dispatches (L : Layout) (s : Kernel) (e : KernelEvent) : Prop :=
  ∃ t ∈ s.step L e, t.currentProcess ≠ none ∧
    (t.currentProcess ≠ s.currentProcess ∨ s.act e = .requeue)

instance (L : Layout) (s : Kernel) (e : KernelEvent) : Decidable (s.Dispatches L e) :=
  inferInstanceAs (Decidable (∃ t ∈ _, _))

namespace Scheduled

theorem mem (h : Scheduled s t x xs) (hp : p ∈ xs) :
    p ∈ t.readyQueue ∨ t.currentProcess = some p := by
  cases h with
  | goes _ _ hr => exact .inl (hr ▸ hp)
  | dispatched q _ hc hr =>
      rw [hr] at hp
      rcases List.mem_cons.mp hp with rfl | hp
      · exact .inr hc
      · exact .inl hp
  | idle _ _ hx =>
      rw [hx] at hp
      cases hp

theorem nodup (h : Scheduled s t x xs) (ht : Linked lossy t none) : xs.Nodup := by
  cases h with
  | goes _ _ hr => exact hr ▸ ht.nodup_ready
  | dispatched q _ hc hr => exact hr ▸ List.nodup_cons.mpr ⟨(ht.current hc).2.1, ht.nodup_ready⟩
  | idle _ _ hx => exact hx ▸ List.nodup_nil

/-- What stays in the ready queue. -/
theorem filter_ready (h : Scheduled s t x xs) (ht : Linked lossy t none) :
    (xs.filter fun p => p ∈ t.readyQueue) = t.readyQueue := by
  have hself : (t.readyQueue.filter fun p => p ∈ t.readyQueue) = t.readyQueue :=
    List.filter_eq_self.mpr fun p hp => decide_eq_true hp
  cases h with
  | goes _ _ hr => rw [← hr, hself]
  | dispatched q _ hc hr =>
      rw [hr, List.filter_cons_of_neg (by simpa using (ht.current hc).2.1), hself]
  | idle _ hr hx => rw [hx, hr, List.filter_nil]

/-- A step dispatches a process if it takes the first that is ready. -/
theorem dispatches_iff (h : Scheduled s t (s.act e) xs) (hs : s.step L e = some t) :
    s.Dispatches L e ↔ ∃ p, t.currentProcess = some p ∧ xs = p :: t.readyQueue := by
  unfold Dispatches
  rw [hs]
  simp only [Option.mem_def, Option.some.injEq, exists_eq_left']
  cases h with
  | goes hx hc hr =>
      refine iff_of_false (fun hd => hd.2.elim (fun hne => hne hc) hx) ?_
      rintro ⟨p, -, he⟩
      rw [hr] at he
      exact List.cons_ne_self p xs he.symm
  | dispatched p hx hc hr =>
      refine iff_of_true ⟨by rw [hc]; exact Option.some_ne_none p, ?_⟩ ⟨p, hc, hr⟩
      by_cases hsc : s.currentProcess = some p
      · exact .inr (hx hsc)
      · exact .inl fun he => hsc (he ▸ hc)
  | idle hc hr hx =>
      refine iff_of_false (fun hd => hd.1 hc) ?_
      rintro ⟨p, hp, -⟩
      rw [hc] at hp
      cases hp

end Scheduled

variable {as : List PcbId}

/-- The history of one step, with those who are dispatched in it. -/
theorem Queued.stable (h : Queued L s t x) (hs : Sound lossy s) (ht : Sound lossy t)
    (hst : Stable s.prio as s.readyQueue) :
    Stable t.prio ((as ++ x.arrivals L s).filter fun p => t.Live p)
      (enqueueAll t.prio (s.readyQueue.filter fun q => t.Live q) (x.arrivals L s)) := by
  have hkey : Stable t.prio as s.readyQueue := hst.congr fun p hp =>
    h.prio p (hs.links.in_ready (hst.perm.mem_iff.mpr hp)).1
  have harr : ((x.arrivals L s).filter fun p => t.Live p) = x.arrivals L s := by
    refine List.filter_eq_self.mpr fun p hp => decide_eq_true ?_
    have hmem := (perm_enqueueAll t.prio (s.readyQueue.filter fun q => t.Live q)
      (x.arrivals L s)).mem_iff.mpr (List.mem_append_left _ hp)
    rcases h.scheduled.mem hmem with hp | hp
    · exact (ht.links.in_ready hp).1
    · exact (ht.links.current hp).1
  rw [List.filter_append, harr]
  exact (hkey.filter fun p => t.Live p).enqueueAll _

theorem Queued.stable_ready (h : Queued L s t x) (hs : Sound lossy s) (ht : Sound lossy t)
    (hst : Stable s.prio as s.readyQueue) :
    Stable t.prio ((as ++ x.arrivals L s).filter fun p => p ∈ t.readyQueue) t.readyQueue := by
  have hf := (h.stable hs ht hst).filter fun p => p ∈ t.readyQueue
  rw [h.scheduled.filter_ready ht.links, List.filter_filter] at hf
  have hand : ∀ p, (decide (p ∈ t.readyQueue) && decide (t.Live p)) = decide (p ∈ t.readyQueue) :=
    fun p => by
      by_cases hp : p ∈ t.readyQueue
      · have hl : t.Live p := (ht.links.in_ready hp).1
        rw [decide_eq_true hl, Bool.and_true]
      · rw [decide_eq_false hp, Bool.false_and]
  simpa only [hand] using hf

section
variable {mem : Word → Word} {support : Word → SupportT} {test ramtop tod : Word} {s₀ : Kernel}
  {es₀ es : List KernelEvent}

theorem stable_of_run (h : Run (record (step L) (arrive L)) anyStep
    (initKernel L mem support test ramtop tod, []) es (s, as)) : Stable s.prio as s.readyQueue := by
  have hI := h.inv (I := fun y => Sound True y.1 ∧ Stable y.1.prio y.2 y.1.readyQueue)
    ⟨.init L mem support test ramtop tod True, .nil _⟩ fun y e z hy _ hs => ?_
  · exact hI.2
  · obtain ⟨hst, hnote⟩ := record_eq_some hs
    have hz : Sound True z.1 := hy.1.step hst (fun _ _ => .inl trivial) fun _ _ => .inl trivial
    refine ⟨hz, ?_⟩
    rw [hnote]
    exact (hy.1.queued_step hst).stable_ready hy.1 hz hy.2

/-- **The scheduler is a stable priority queue.**  In every state of a run the ready queue holds
those who have become ready and not left it since, by priority and, of one priority, in the order in
which they became ready; and a step that dispatches a process takes, of these and of those who become
ready in the step, but for those it kills, the first of the highest priority. -/
theorem dispatch_of_run (h : Run (record (step L) (arrive L)) anyStep
    (initKernel L mem support test ramtop tod, []) es (s, as)) :
    Stable s.prio as s.readyQueue ∧
    ∀ e t p, s.step L e = some t → s.Dispatches L e → t.currentProcess = some p →
      ∃ bs cs, ((as ++ (s.act e).arrivals L s).filter fun q => t.Live q) = bs ++ p :: cs ∧
        (∀ q ∈ bs, t.prio q < t.prio p) ∧ ∀ q ∈ cs, t.prio q ≤ t.prio p := by
  have hst := stable_of_run h
  refine ⟨hst, fun e t p hs hd hp => ?_⟩
  have hsound : Sound True s := sound_of_run h.forget
  have ht : Sound True t := hsound.step hs (fun _ _ => .inl trivial) fun _ _ => .inl trivial
  have hq := hsound.queued_step hs
  have hall := hq.stable hsound ht hst
  obtain ⟨q, hqc, hxs⟩ := (hq.scheduled.dispatches_iff hs).mp hd
  obtain rfl : q = p := Option.some.inj (hqc.symm.trans hp)
  have hn := hall.perm.nodup_iff.mp (hq.scheduled.nodup ht.links)
  rw [hxs] at hall
  exact hall.head hn

/-- The first process creates two, the second of priority 1, and yields. -/
def two : List KernelEvent := [call (-1) 0 0 0, call (-1) 0 1 0, call (-10) 0 0 0]

theorem dispatch_of_run_two : ∃ s as, Run (record (step layout₀) (arrive layout₀)) anyStep
    (boot₀, []) two (s, as) ∧ s.currentProcess = some ⟨17, by decide⟩ ∧ as = [⟨18, by decide⟩, first] ∧
    Stable s.prio as s.readyQueue := by
  obtain ⟨⟨s, as⟩, hr, hc, ha⟩ := exists_run (record (step layout₀) (arrive layout₀)) anyStep
    (fun y => y.1.currentProcess = some ⟨17, by decide⟩ ∧ y.2 = [⟨18, by decide⟩, first]) (boot₀, []) two
    (by decide +kernel)
  exact ⟨s, as, hr, hc, ha, (dispatch_of_run hr).1⟩

/-! ### How long they wait -/

/-- Nobody who becomes ready has a higher priority than `p`. -/
def Unpassed (L : Layout) (p : PcbId) (s : Kernel) (e : KernelEvent) : Prop :=
  ∀ t ∈ s.step L e, ∀ q ∈ (s.act e).arrivals L s, t.prio q ≤ t.prio p

instance (L : Layout) (p : PcbId) (s : Kernel) (e : KernelEvent) : Decidable (s.Unpassed L p e) :=
  inferInstanceAs (Decidable (∀ t ∈ _, _))

/-- A process that stays ready moves up by one place at least with each dispatch. -/
theorem Queued.idxOf (h : Queued L s t (s.act e)) (hs : s.step L e = some t) (hlinks : Sound lossy s)
    (hsort : s.readyQueue.Pairwise fun y z => s.prio z ≤ s.prio y) (hp : p ∈ s.readyQueue)
    (hl : t.Live p) (hu : s.Unpassed L p e) : t.currentProcess = some p ∨
      p ∈ t.readyQueue ∧ t.readyQueue.idxOf p + (if s.Dispatches L e then 1 else 0) ≤
        s.readyQueue.idxOf p := by
  have hmem : p ∈ s.readyQueue.filter fun q => t.Live q :=
    List.mem_filter.mpr ⟨hp, decide_eq_true hl⟩
  have hkey : (s.readyQueue.filter fun q => t.Live q).Pairwise fun y z => t.prio z ≤ t.prio y := by
    refine (hsort.filter _).imp_of_mem fun hy hz hle => ?_
    rw [h.prio _ (hlinks.links.in_ready (List.mem_filter.mp hy).1).1,
      h.prio _ (hlinks.links.in_ready (List.mem_filter.mp hz).1).1]
    exact hle
  have hidx := idxOf_enqueueAll hkey hmem (hu t hs)
  have hfilter : (s.readyQueue.filter fun q => t.Live q).idxOf p ≤ s.readyQueue.idxOf p :=
    idxOf_filter_le (decide_eq_true hl)
  have hle := hidx.le.trans hfilter
  have hin := (perm_enqueueAll t.prio (s.readyQueue.filter fun q => t.Live q)
    ((s.act e).arrivals L s)).mem_iff.mpr (List.mem_append_right _ hmem)
  have hiff := h.scheduled.dispatches_iff hs
  rcases h.scheduled with ⟨hx, hc, hr⟩ | ⟨q, hx, hc, hr⟩ | ⟨hc, hr, hx⟩
  · right
    rw [← hr] at hle hin hiff
    rw [if_neg fun hd => by
      obtain ⟨q, -, he⟩ := hiff.mp hd
      exact List.cons_ne_self q _ he.symm]
    exact ⟨hin, hle⟩
  · by_cases hqp : q = p
    · exact .inl (hqp ▸ hc)
    · right
      rw [if_pos (hiff.mpr ⟨q, hc, hr⟩)]
      rw [hr] at hle hin
      rw [List.idxOf_cons_ne _ hqp] at hle
      exact ⟨(List.mem_cons.mp hin).resolve_left (Ne.symm hqp), hle⟩
  · rw [hx] at hin
    cases hin

/-- **Nobody waits for more dispatches than processes are before it**, as long as nobody of a higher
priority becomes ready: in a run with more dispatches than that, the process is dispatched, unless it
is killed first. -/
theorem dispatched_of_run
    (h₀ : Run (step L) anyStep (initKernel L mem support test ramtop tod) es₀ s₀)
    (hp : p ∈ s₀.readyQueue) (h : Run (step L) (Unpassed L p) s₀ es s)
    (hn : s₀.readyQueue.idxOf p < tally (step L) (Dispatches L) s₀ es) :
    ∃ fs e u t, fs ++ [e] <+: es ∧ Run (step L) (Unpassed L p) s₀ fs u ∧ p ∈ u.readyQueue ∧
      u.step L e = some t ∧ (t.currentProcess = some p ∨ ¬ t.Live p) := by
  suffices hor : (∃ fs e u t, fs ++ [e] <+: es ∧ Run (step L) (Unpassed L p) s₀ fs u ∧
      p ∈ u.readyQueue ∧ u.step L e = some t ∧ (t.currentProcess = some p ∨ ¬ t.Live p)) ∨
      p ∈ s.readyQueue ∧ s.readyQueue.idxOf p + tally (step L) (Dispatches L) s₀ es ≤
        s₀.readyQueue.idxOf p by
    refine hor.resolve_right fun hw => ?_
    omega
  clear hn
  induction h with
  | nil => exact .inr ⟨hp, le_rfl⟩
  | @snoc u t es e h hc hs ih =>
      rcases ih with ⟨fs, f, v, w, hpre, hv⟩ | ⟨hpu, hle⟩
      · exact .inl ⟨fs, f, v, w, hpre.trans (List.prefix_append es [e]), hv⟩
      · have hrun := h₀.append (h.mono (D := anyStep) fun _ _ _ => trivial)
        have hsound := sound_of_run hrun
        obtain ⟨as, hrec⟩ := hrun.recorded (arrive L) []
        by_cases hl : t.Live p
        · rcases (hsound.queued_step hs).idxOf hs hsound (stable_of_run hrec).sorted hpu hl hc with
            hcur | ⟨hpt, hstep⟩
          · exact .inl ⟨es, e, u, t, List.prefix_refl _, h, hpu, hs, .inl hcur⟩
          · right
            rw [h.tally_snoc]
            exact ⟨hpt, by omega⟩
        · exact .inl ⟨es, e, u, t, List.prefix_refl _, h, hpu, hs, .inr hl⟩

/-- The second of two processes that are ready, and two dispatches. -/
theorem dispatched_of_run_second : ∃ s₀ s fs e u t,
    Run (step layout₀) anyStep boot₀ [call (-1) 0 0 0, call (-1) 0 0 0] s₀ ∧
    Run (step layout₀) (Unpassed layout₀ ⟨17, by decide⟩) s₀ [call (-10) 0 0 0, call (-10) 0 0 0] s ∧
    fs ++ [e] <+: [call (-10) 0 0 0, call (-10) 0 0 0] ∧
    Run (step layout₀) (Unpassed layout₀ ⟨17, by decide⟩) s₀ fs u ∧ u.step layout₀ e = some t ∧
    (t.currentProcess = some ⟨17, by decide⟩ ∨ ¬ t.Live ⟨17, by decide⟩) := by
  obtain ⟨s₀, h₀, hp, hrun, hn⟩ := exists_run (step layout₀) anyStep (fun s₀ =>
    (⟨17, by decide⟩ : PcbId) ∈ s₀.readyQueue ∧
    (execIf (step layout₀) (Unpassed layout₀ ⟨17, by decide⟩) s₀
      [call (-10) 0 0 0, call (-10) 0 0 0]).isSome = true ∧
    s₀.readyQueue.idxOf ⟨17, by decide⟩ < tally (step layout₀) (Dispatches layout₀) s₀
      [call (-10) 0 0 0, call (-10) 0 0 0]) boot₀ [call (-1) 0 0 0, call (-1) 0 0 0]
    (by decide +kernel)
  obtain ⟨s, hs⟩ := Option.isSome_iff_exists.mp hrun
  have hr := run_of_execIf hs
  obtain ⟨fs, e, u, t, hpre, hu, -, ht, hor⟩ := dispatched_of_run h₀ hp hr hn
  exact ⟨s₀, s, fs, e, u, t, h₀, hr, hpre, hu, ht, hor⟩

end

end Kernel

end PandOS
