import PandOS.Phase2.Contexts
import PandOS.Phase2.Idle

/-!
# Phase 2 — the tick of the pseudo-clock

The interval timer takes process after process from the queue of the pseudo-clock and puts it in
the ready queue.  `woken_wakeClock` says what the loop does, given fuel for every process that
waits, and `wakeClock_fuel` that more fuel changes nothing.  `tick_of_run`: a tick wakes exactly
those who wait for it.  If no process was interrupted, the scheduler dispatches the first ready one
at once, which may be one of those that were woken (`woken_dispatched`).
-/

namespace PandOS

/-- The PCB of a process the pseudo-clock wakes. -/
def Pcb.ticked (x : Pcb) : Pcb := { x with p_semAdd := 0, p_s := { x.p_s with reg_a0 := 0 } }

namespace Kernel

variable {L : Layout} {s t u : Kernel} {lossy : Prop} {p q cur : PcbId} {k : ℕ}

/-- What is left of `s` once those who wait for the pseudo-clock are ready. -/
structure Woken (L : Layout) (s t : Kernel) : Prop where
  sems : t.sems = { s.sems.setQueue (L.sem pseudoClock) [] with
    soft := s.softBlockCount - (s.queue (L.sem pseudoClock)).length }
  ready : t.readyQueue.Perm (s.queue (L.sem pseudoClock) ++ s.readyQueue)
  order : s.readyQueue.Sublist t.readyQueue
  woken : ∀ p ∈ s.queue (L.sem pseudoClock), t.pcbFree_table p = (s.pcbFree_table p).ticked
  others : ∀ p, p ∉ s.queue (L.sem pseudoClock) → t.pcbFree_table p = s.pcbFree_table p
  current : t.currentProcess = s.currentProcess

/-- **The loop of the interval timer.** -/
theorem woken_wakeClock (hs : Sound lossy s) (hk : (s.queue (L.sem pseudoClock)).length < k) :
    Woken L s (s.wakeClock L k) := by
  have hsems := sems_wakeClock hs hk
  have hcur := current_wakeClock L s k
  suffices h : (s.wakeClock L k).readyQueue.Perm (s.queue (L.sem pseudoClock) ++ s.readyQueue) ∧
      s.readyQueue.Sublist (s.wakeClock L k).readyQueue ∧
      (∀ p ∈ s.queue (L.sem pseudoClock),
        (s.wakeClock L k).pcbFree_table p = (s.pcbFree_table p).ticked) ∧
      ∀ p, p ∉ s.queue (L.sem pseudoClock) →
        (s.wakeClock L k).pcbFree_table p = s.pcbFree_table p from
    ⟨hsems, h.1, h.2.1, h.2.2.1, h.2.2.2, hcur⟩
  clear hsems hcur
  induction k generalizing s with
  | zero => omega
  | succ k ih =>
      cases hq : s.queue (L.sem pseudoClock) with
      | nil =>
          obtain ⟨v, hv, -⟩ := release_clock_nil hs hq
          obtain ⟨hready, htable⟩ := release_none (congrArg Prod.fst hv)
          rw [hv] at hready htable
          rw [Kernel.wakeClock, hv]
          dsimp only at hready htable ⊢
          rw [hready, htable]
          exact ⟨.refl _, .refl _, fun p hp => (nomatch hp), fun p _ => rfl⟩
      | cons p rest =>
          obtain ⟨v, hv, -, hsv, hqv⟩ := release_clock (L := L) hs hq
          obtain ⟨hready, htable, -⟩ := release_some (congrArg Prod.fst hv)
          rw [hv] at hready htable
          dsimp only at hready htable
          have hnodup := hs.links.nodup_queue (L.sem pseudoClock)
          rw [hq] at hnodup hk
          have hp := (List.nodup_cons.mp hnodup).1
          have hstep : s.wakeClock L (k + 1) =
              ({ v with softBlockCount := v.softBlockCount - 1 } : Kernel).wakeClock L k := by
            rw [Kernel.wakeClock, hv]
          rw [List.length_cons] at hk
          -- those behind `p` are woken from the state in which `p` is ready
          obtain ⟨h₁, h₂, h₃, h₄⟩ := ih hsv (by
            rw [hqv]
            omega)
          rw [← hstep] at h₁ h₂ h₃ h₄
          have hins : v.readyQueue.Perm (p :: s.readyQueue) := by
            rw [hready]
            exact List.perm_orderedInsert _ _ _
          have hsub : s.readyQueue.Sublist v.readyQueue := by
            rw [hready]
            exact List.sublist_orderedInsert _ _
          rw [hqv] at h₁ h₃ h₄
          have hself : v.pcbFree_table p = (s.pcbFree_table p).ticked := by
            rw [htable]
            exact Function.update_self ..
          have hne : ∀ q, q ≠ p → v.pcbFree_table q = s.pcbFree_table q := by
            intro q hq
            rw [htable]
            exact Function.update_of_ne hq ..
          refine ⟨?_, hsub.trans h₂, fun q hq => ?_, fun q hq => ?_⟩
          · exact (h₁.trans (hins.append_left rest)).trans List.perm_middle
          · rcases List.mem_cons.mp hq with rfl | hr
            · exact (h₄ q hp).trans hself
            · have hqp : q ≠ p := fun he => hp (he ▸ hr)
              exact (h₃ q hr).trans (congrArg Pcb.ticked (hne q hqp))
          · have hqp : q ≠ p := fun he => hq (he ▸ List.mem_cons_self)
            exact (h₄ q fun hr => hq (List.mem_cons_of_mem p hr)).trans (hne q hqp)

/-- Fuel for every process that waits is enough. -/
theorem wakeClock_fuel (hs : Sound lossy s) {m : ℕ} (hk : (s.queue (L.sem pseudoClock)).length < k)
    (hm : (s.queue (L.sem pseudoClock)).length < m) : s.wakeClock L k = s.wakeClock L m := by
  induction k generalizing s m with
  | zero => omega
  | succ k ih =>
      obtain ⟨m, rfl⟩ : ∃ m', m = m' + 1 := ⟨m - 1, by omega⟩
      cases hq : s.queue (L.sem pseudoClock) with
      | nil =>
          obtain ⟨v, hv, -⟩ := release_clock_nil hs hq
          rw [Kernel.wakeClock, Kernel.wakeClock, hv]
      | cons p rest =>
          obtain ⟨v, hv, -, hsv, hqv⟩ := release_clock (L := L) hs hq
          rw [hq, List.length_cons] at hk hm
          have hlen : (({ v with softBlockCount := v.softBlockCount - 1 } : Kernel).queue
              (L.sem pseudoClock)).length = rest.length := congrArg List.length hqv
          rw [Kernel.wakeClock, Kernel.wakeClock, hv]
          exact ih hsv (by omega) (by omega)

/-! ### The interrupt -/

theorem chargeTime_of_ne (hp : s.currentProcess ≠ some p) (now : Word) :
    (s.chargeTime now).pcbFree_table p = s.pcbFree_table p := by
  unfold chargeTime
  split
  · rename_i cur hc
    exact modify_of_ne (q := p) (p := cur) (fun he => hp (by rw [he]; exact hc)) s _
  · rfl

/-- What a tick does, for those who wait for it and for everybody else. -/
structure Ticked (L : Layout) (s t : Kernel) (saved : State) : Prop where
  empty : t.queue (L.sem pseudoClock) = []
  word : t.mem (L.sem pseudoClock) = 0
  /-- Once in the ready queue, unless nobody was interrupted and the scheduler has dispatched it. -/
  ready : ∀ p ∈ s.queue (L.sem pseudoClock), t.readyQueue.count p =
    if s.currentProcess = none ∧ t.currentProcess = some p then 0 else 1
  woken : ∀ p ∈ s.queue (L.sem pseudoClock), t.pcbFree_table p = (s.pcbFree_table p).ticked
  soft : t.softBlockCount = s.softBlockCount - (s.queue (L.sem pseudoClock)).length
  /-- Who was ready is so in the same order, the one that is dispatched first. -/
  order : s.readyQueue.Sublist
    ((if s.currentProcess = none then t.currentProcess.toList else []) ++ t.readyQueue)
  others : ∀ a, a ≠ L.sem pseudoClock → t.queue a = s.queue a ∧ t.mem a = s.mem a
  continues : ∀ cur, s.currentProcess = some cur → t.currentProcess = some cur ∧ t.cpu = .ldst saved

/-- The state in which the handler has set the word of the pseudo-clock to 0. -/
structure Reset (L : Layout) (s u : Kernel) : Prop where
  empty : u.queue (L.sem pseudoClock) = []
  word : u.mem (L.sem pseudoClock) = 0
  ready : ∀ p ∈ s.queue (L.sem pseudoClock), u.readyQueue.count p = 1
  woken : ∀ p ∈ s.queue (L.sem pseudoClock), u.pcbFree_table p = (s.pcbFree_table p).ticked
  soft : u.softBlockCount = s.softBlockCount - (s.queue (L.sem pseudoClock)).length
  order : s.readyQueue.Sublist u.readyQueue
  others : ∀ a, a ≠ L.sem pseudoClock → u.queue a = s.queue a ∧ u.mem a = s.mem a
  current : u.currentProcess = s.currentProcess

/-- The interval timer resets the clock: everyone who waits for it becomes ready, in order. -/
theorem reset_intervalTimer (hs : Sound lossy s) (now : Word) :
    Reset L s ((s.chargeTime now).intervalTimer L) := by
  have hq := (quiet_chargeTime s now).trans (quiet_output _ (.ldit pSecond))
  have hsv := hs.quiet hq
  have hqueue : ∀ a, ((s.chargeTime now).output (.ldit pSecond)).queue a = s.queue a := fun a => by
    rw [hq.asl]
  have hw := woken_wakeClock (L := L) hsv (Nat.lt_succ_of_le (hsv.links.queue_short (L.sem pseudoClock)))
  have hpcb : ∀ p ∈ s.queue (L.sem pseudoClock),
      ((s.chargeTime now).output (.ldit pSecond)).pcbFree_table p = s.pcbFree_table p := by
    intro p hp
    obtain ⟨d, hd, -⟩ := hs.links.asl.mem_queue.mp hp
    exact chargeTime_of_ne (hs.links.in_queue hd).2.2 now
  have hmem : ∀ a, (((s.chargeTime now).output (.ldit pSecond)).wakeClock L (maxProc + 1)).mem a =
      s.mem a := fun a => (congrFun (congrArg Sems.word hw.sems) a).trans (congrFun hq.mem a)
  have hqw : (((s.chargeTime now).output (.ldit pSecond)).wakeClock L (maxProc + 1)).queue =
      Function.update ((s.chargeTime now).output (.ldit pSecond)).queue (L.sem pseudoClock) [] :=
    congrArg Sems.queue hw.sems
  unfold intervalTimer
  refine ⟨?_, Function.update_self .., fun p hp => ?_, fun p hp => ?_, ?_, ?_, fun a ha => ⟨?_, ?_⟩,
    hw.current.trans hq.current⟩
  · exact (congrFun hqw _).trans (Function.update_self ..)
  · obtain ⟨d, hd, -⟩ := hs.links.asl.mem_queue.mp hp
    have h1 := List.count_eq_one_of_mem (hs.links.nodup_queue (L.sem pseudoClock)) hp
    have h0 := List.count_eq_zero.mpr (hs.links.in_queue hd).2.1
    refine (hw.ready.count_eq p).trans ?_
    rw [List.count_append, hqueue, hq.ready, h1, h0]
  · refine (hw.woken p ((hqueue _).symm ▸ hp)).trans ?_
    rw [hpcb p hp]
  · refine (congrArg Sems.soft hw.sems).trans ?_
    show ((s.chargeTime now).output (.ldit pSecond)).softBlockCount - _ = _
    rw [hq.soft, hqueue]
  · rw [← hq.ready]
    exact hw.order
  · exact ((congrFun hqw a).trans (Function.update_of_ne ha ..)).trans (hqueue a)
  · exact (Function.update_of_ne ha ..).trans (hmem a)

/-- After the reset the process that was interrupted goes on, or the scheduler is called. -/
theorem Reset.ticked (h : Reset L s u) (saved : State) (tod : Word) :
    Ticked L s (u.resume saved tod) saved := by
  unfold resume
  cases hc : u.currentProcess with
  | some cur =>
      have hcs : s.currentProcess = some cur := h.current.symm.trans hc
      refine ⟨h.empty, h.word, fun p hp => ?_, h.woken, h.soft, ?_, h.others, fun c hc' => ?_⟩
      · rw [if_neg fun hn => by rw [hcs] at hn; cases hn.1]
        exact h.ready p hp
      · rw [hcs]
        exact h.order
      · obtain rfl : c = cur := Option.some.inj (hc'.symm.trans hcs)
        exact ⟨hc, rfl⟩
  | none =>
      show Ticked L s (u.scheduler tod) saved
      have hcs : s.currentProcess = none := h.current.symm.trans hc
      have hno : ∀ c, s.currentProcess ≠ some c := fun c hc' => by rw [hcs] at hc'; cases hc'
      have hsems := (sameSems_scheduler u tod)
      have hqueue : ∀ a, (u.scheduler tod).queue a = u.queue a := fun a => by rw [hsems.asl]
      have htable : (u.scheduler tod).pcbFree_table = u.pcbFree_table := by
        unfold Kernel.scheduler
        split
        · rfl
        · split_ifs <;> rfl
      -- the scheduler takes the first ready process, if there is one
      have hready : u.readyQueue =
          (u.scheduler tod).currentProcess.toList ++ (u.scheduler tod).readyQueue := by
        unfold Kernel.scheduler
        split
        · rename_i p rest hr
          rw [hr]
          rfl
        · rename_i hr
          split_ifs <;> exact hr.trans (by simp [hr, hc])
      have hcount : ∀ p, u.readyQueue.count p =
          (if (u.scheduler tod).currentProcess = some p then 1 else 0) +
            (u.scheduler tod).readyQueue.count p := by
        intro p
        rw [hready, List.count_append]
        congr 1
        cases (u.scheduler tod).currentProcess with
        | none => rfl
        | some q => simp [List.count_cons]
      refine ⟨(hqueue _).trans h.empty, (congrFun hsems.mem _).trans h.word, fun p hp => ?_,
        fun p hp => (congrFun htable p).trans (h.woken p hp), hsems.soft.trans h.soft, ?_,
        fun a ha => ⟨(hqueue a).trans (h.others a ha).1, (congrFun hsems.mem a).trans (h.others a ha).2⟩,
        fun c hc' => absurd hc' (hno c)⟩
      · have h1 := h.ready p hp
        rw [hcount p] at h1
        by_cases hd : (u.scheduler tod).currentProcess = some p
        · rw [if_pos hd] at h1
          rw [if_pos ⟨hcs, hd⟩]
          omega
        · rw [if_neg hd] at h1
          rw [if_neg fun hn => hd hn.2]
          omega
      · rw [if_pos hcs, ← hready]
        exact h.order

section
variable {mem : Word → Word} {support : Word → SupportT} {test ramtop tod : Word}
  {es : List KernelEvent} {saved : State} {i : Inputs}

/-- **A tick wakes exactly those who wait for it**, in every state of any run: each of them is
ready once, with `p_semAdd` NULL and 0 in `reg_a0`, apart from the one the scheduler dispatches if
nobody was interrupted; and fuel for every process is enough for the loop to end. -/
theorem tick_of_run (hr : Run (step L) anyStep (initKernel L mem support test ramtop tod) es s)
    (hint : causeIsInt saved.cause) (hc : saved.cause &&& causeExcCodeMask = 3)
    (hst : s.step L (.exception saved i) = some t) :
    Ticked L s t saved ∧ ∀ k, maxProc < k →
      ((s.chargeTime (i.tod 0)).output (.ldit pSecond)).wakeClock L k =
        ((s.chargeTime (i.tod 0)).output (.ldit pSecond)).wakeClock L (maxProc + 1) := by
  have hs := sound_of_run hr
  constructor
  · have ht : t = ((s.chargeTime (i.tod 0)).intervalTimer L).resume saved (i.tod 1) := by
      rw [step_interrupt hst hint]
      unfold interruptHandler
      dsimp only
      rw [hc, if_neg (by decide), if_pos rfl]
    rw [ht]
    exact (reset_intervalTimer hs _).ticked saved _
  · intro k hk
    have hsv := hs.quiet ((quiet_chargeTime s (i.tod 0)).trans (quiet_output _ (.ldit pSecond)))
    have hlen := hsv.links.queue_short (L.sem pseudoClock)
    exact wakeClock_fuel hsv (hlen.trans_lt hk) (Nat.lt_succ_of_le hlen)

/-- The first process waits for the clock; its child is interrupted by the tick. -/
theorem tick_of_run_child : ∃ s t, Run (step layout₀) anyStep boot₀
    [call (-1) 0 0 0, call (-7) 0 0 0] s ∧
    s.step layout₀ (interrupt 3 fun _ => 0) = some t ∧
    first ∈ s.queue (layout₀.sem pseudoClock) ∧ t.readyQueue.count first = 1 := by
  obtain ⟨s, hr, hq, hc, hst⟩ := exists_run (step layout₀) anyStep (fun s =>
    first ∈ s.queue (layout₀.sem pseudoClock) ∧ s.currentProcess ≠ none ∧
      (s.step layout₀ (interrupt 3 fun _ => 0)).isSome = true) boot₀
    [call (-1) 0 0 0, call (-7) 0 0 0] (by decide +kernel)
  obtain ⟨t, ht⟩ := Option.isSome_iff_exists.mp hst
  have htick := (tick_of_run hr (by decide) (by decide) ht).1
  exact ⟨s, t, hr, ht, hq, (htick.ready first hq).trans (if_neg fun hn => hc hn.1)⟩

/-- **Who is woken may run at once**: the only process waits for the clock, and after the tick it
is not in the ready queue. -/
theorem woken_dispatched : ∃ s t, Run (step layout₀) (fun s e => s.Admits layout₀ e) boot₀
    [call (-7) 0 0 0] s ∧ s.step layout₀ (interrupt 3 fun _ => 0) = some t ∧
    first ∈ s.queue (layout₀.sem pseudoClock) ∧ t.readyQueue.count first = 0 := by
  obtain ⟨s, hr, hq, hst⟩ := exists_run (step layout₀) (fun s e => s.Admits layout₀ e) (fun s =>
    first ∈ s.queue (layout₀.sem pseudoClock) ∧
      (s.step layout₀ (interrupt 3 fun _ => 0)).any fun t => t.readyQueue.count first = 0) boot₀
    [call (-7) 0 0 0] (by decide +kernel)
  obtain ⟨t, ht, h0⟩ := (Option.any_eq_true _ _).mp hst
  exact ⟨s, t, hr, ht, hq, of_decide_eq_true h0⟩

end

end Kernel

end PandOS
