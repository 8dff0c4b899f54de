import PandOS.Phase2.Search
import PandOS.Phase2.Semaphores

/-!
# Phase 2 — no live process is lost

`kept_of_run`: as long as no kill takes all who wait for a semaphore, every active descriptor has a
waiter (`Asl.Full`), so that there are fewer of them than processes and whoever blocks finds one;
then every live process runs, is ready, or is in the queue of its semaphore.  `leak`: `outBlocked`
keeps a descriptor whose last waiter is killed, and a process that blocks when there is none left
is lost.
-/

namespace PandOS

/-- Every active descriptor has a waiter. -/
def Asl.Full (s : Asl) : Prop := ∀ d ∈ s.semd_h, (s.semd_table d).s_procq ≠ []

namespace Phase1

variable {s : Phase1} {d : SemdId} {p : PcbId} {semAdd : Word}

theorem insertProcQ_ne_nil (v : Pcbs) (l : List PcbId) (p : PcbId) : v.insertProcQ l p ≠ [] :=
  List.ne_nil_of_mem ((List.mem_orderedInsert _).mpr (.inl rfl))

theorem full_enqueue {x : Phase1} (h : ∀ c ∈ x.semd_h, c ≠ d → (x.semd_table c).s_procq ≠ []) :
    (x.enqueue d semAdd p).toAsl.Full := by
  intro c hc
  by_cases hcd : c = d
  · rw [hcd, enqueue_self]
    exact insertProcQ_ne_nil x.toPcbs _ p
  · show ((x.toAsl.setProcq d _).semd_table c).s_procq ≠ []
    rw [Asl.setProcq_of_ne hcd]
    exact h c hc hcd

theorem full_insertBlocked (h : s.toAsl.Full) : (s.insertBlocked semAdd p).2.toAsl.Full := by
  rcases s.insertBlocked_cases semAdd p with ⟨d, -, he⟩ | ⟨-, d, rest, -, he⟩ | ⟨-, -, he⟩
  · rw [he]
    exact full_enqueue fun c hc _ => h c hc
  · rw [he]
    refine full_enqueue fun c hc hcd => ?_
    have hm := (Asl.link_perm s.toAsl semAdd d).mem_iff.mp hc
    show ((s.take semAdd d rest).semd_table c).s_procq ≠ []
    rw [Asl.take_of_ne hcd]
    exact h c ((List.mem_cons.mp hm).resolve_left hcd)
  · rw [he]
    exact h

/-- `removeBlocked` leaves no descriptor active for nothing. -/
theorem full_removeBlocked (hok : s.toAsl.Ok) (h : s.toAsl.Full) :
    (s.removeBlocked semAdd).2.toAsl.Full := by
  rcases s.removeBlocked_cases semAdd with ⟨-, he⟩ | ⟨d, hf, ⟨hq, -⟩ | ⟨p, rest, -, he⟩⟩
  · rw [he]
    exact h
  · exact absurd hq (h d (Asl.find_some hf).1)
  · rw [he]
    intro c hc
    by_cases hr : rest = []
    · simp only [if_pos hr] at hc ⊢
      -- the descriptor that is given back is not active any more
      have hcd : c ≠ d := by
        intro hcd
        have hback := (hok.setProcq (Asl.find_some hf).1 rest).giveBack
          (d := d) (Asl.find_some hf).1 (by rw [Asl.setProcq_self, hr])
        have hsplit := hback.split d
        rw [hcd] at hc
        have h₁ := List.count_pos_iff.mpr hc
        have h₂ : 0 < ((s.toAsl.setProcq d rest).giveBack d).semdFree_h.count d :=
          List.count_pos_iff.mpr List.mem_cons_self
        omega
      show ((s.toAsl.setProcq d rest).semd_table c).s_procq ≠ []
      rw [Asl.setProcq_of_ne hcd]
      exact h c (List.mem_of_mem_erase hc)
    · simp only [if_neg hr] at hc ⊢
      by_cases hcd : c = d
      · rw [hcd, Asl.setProcq_self]
        exact hr
      · rw [Asl.setProcq_of_ne hcd]
        exact h c hc

end Phase1

namespace Kernel

variable {L : Layout} {s t u : Kernel} {lossy : Prop} {p q cur target : PcbId} {a : Word}

/-! ### Steps that kill nobody -/

theorem full_blocked (h : s.toAsl.Full) (tod : Word) : (s.blocked L cur a tod).toAsl.Full := by
  unfold blocked
  dsimp only
  split <;> exact Phase1.full_insertBlocked h

theorem full_blocks (h : s.toAsl.Full) (hb : Blocks L s a t) : t.toAsl.Full := by
  obtain ⟨cur, u, tod₁, tod₂, -, hq, rfl⟩ := hb
  have hu : u.toAsl.Full := by rw [hq.asl]; exact h
  rw [blockCurrentProcess_eq, (sameSems_scheduler _ tod₂).asl]
  exact full_blocked hu tod₁

theorem full_release (hok : s.toAsl.Ok) (h : s.toAsl.Full) (f : State → State) :
    (s.release a f).2.toAsl.Full := by
  have hr : (s.toPhase1.removeBlocked a).2.toAsl.Full := Phase1.full_removeBlocked hok h
  unfold Kernel.release
  generalize s.toPhase1.removeBlocked a = r at hr ⊢
  obtain ⟨x, v⟩ := r
  cases x <;> exact hr

theorem full_wake (hok : s.toAsl.Ok) (h : s.toAsl.Full) (j : Fin semDevLen) (status : Word) :
    (s.wake L j status).toAsl.Full := by
  have hr := full_release (s := s.setMem (L.sem j) (s.mem (L.sem j) + 1)) (a := L.sem j) hok h
    fun st => { st with reg_a0 := status }
  unfold Kernel.wake
  split
  · generalize (s.setMem (L.sem j) (s.mem (L.sem j) + 1)).release (L.sem j)
      (fun st => { st with reg_a0 := status }) = r at hr ⊢
    obtain ⟨x, v⟩ := r
    cases x <;> exact hr
  · exact h

theorem full_wakes {l : List (Fin semDevLen × Word)} (hs : Sound lossy s) (h : s.toAsl.Full)
    (hw : Wakes L l s t) : t.toAsl.Full := by
  induction l generalizing s with
  | nil => rw [Quiet.asl hw]; exact h
  | cons x l ih =>
      obtain ⟨u, hu, hw⟩ := hw
      have hsu := hs.quiet hu
      exact ih (hsu.wake x.1 x.2) (full_wake hsu.links.asl (by rw [hu.asl]; exact h) x.1 x.2) hw

theorem full_wakeClock (hs : Sound lossy s) (h : s.toAsl.Full) (k : ℕ) :
    (s.wakeClock L k).toAsl.Full := by
  refine (wakeClock_rule (P := fun u => u.toAsl.Full ∧ Sound lossy u) (fun u hu => ?_)
    (fun u k hu => ?_) ⟨h, hs⟩ k).1
  · exact ⟨full_release (a := L.sem pseudoClock) hu.2.links.asl hu.1 _, hu.2.release _ _⟩
  · exact ⟨hu.1, hu.2.setSoft k⟩

/-! ### Kills -/

/-- Of those who wait for each semaphore one is not below `target`. -/
def LeavesWaiters (s : Kernel) (target : PcbId) : Prop :=
  ∀ d, (s.semd_table d).s_procq ≠ [] →
    ∃ q ∈ (s.semd_table d).s_procq, q ∉ postorder s.child maxProc target

instance (s : Kernel) (target : PcbId) : Decidable (s.LeavesWaiters target) :=
  inferInstanceAs (Decidable (∀ _, _))

/-- Those not to be killed stay where they wait. -/
theorem waiters_kills (L : Layout) (K : PcbId → Prop) (s : Kernel) : Kills L K fun u =>
    Linked True u none ∧ u.semd_h = s.semd_h ∧
      ∀ d, ∀ q ∈ (s.semd_table d).s_procq, ¬ K q → q ∈ (u.semd_table d).s_procq where
  mark u p h _ _ _ := ⟨h.1.same (mark_links u p), h.2⟩
  detach u p c rest h _ _ hc := ⟨h.1.same (detach_links hc), h.2⟩
  bury u p h hK hl _ _ := by
    have hu := h.1.unlinked L p
    refine ⟨h.1.bury hl, hu.active.trans h.2.1, fun d q hq hnK => ?_⟩
    have hqp : q ≠ p := fun he => hnK (he ▸ hK)
    rw [hu.procq]
    exact (List.mem_erase_of_ne hqp).mpr (h.2.2 d q hq hnK)

theorem full_terminate (hs : Sound lossy s) (h : s.toAsl.Full) (hl : s.Live target)
    (hw : s.LeavesWaiters target) :
    (recursiveTerminateProcess L maxProc s target).toAsl.Full := by
  obtain ⟨⟨-, hact, hstay⟩, -, -⟩ := terminate_rule
    (waiters_kills L (fun x => x ∈ postorder s.child maxProc target) s)
    (hs.tree.called ⟨hs.links.forget, rfl, fun _ _ hq _ => hq⟩) (fun _ => hl) fun _ hx => hx
  intro d hd
  rw [hact] at hd
  obtain ⟨q, hq, hnq⟩ := hw d (h d hd)
  exact List.ne_nil_of_mem (hstay d q hq hnq)

/-! ### Steps -/

/-- The process a step kills. -/
def Act.kills : Act → Option PcbId
  | .kill p => some p
  | _ => none

/-- A kill leaves one of those who wait for each semaphore. -/
def Gentle (s : Kernel) (e : KernelEvent) : Prop := ∀ p ∈ (s.act e).kills, s.LeavesWaiters p

instance (s : Kernel) (e : KernelEvent) : Decidable (s.Gentle e) :=
  decidable_of_iff ((s.act e).kills.all fun p => decide (s.LeavesWaiters p)) (by
    simp only [Gentle, Option.all_eq_true, Option.mem_def, decide_eq_true_eq])

/-- An act leaves no descriptor active for nothing, unless it kills the last to wait for a
semaphore. -/
theorem full_did {x : Act} (hs : Sound lossy s) (h : s.toAsl.Full) (hd : Did L s x t)
    (hk : ∀ p, x = .kill p → s.Live p ∧ s.LeavesWaiters p) : t.toAsl.Full := by
  have hsame : ∀ {v : Kernel}, v.toAsl = s.toAsl → v.toAsl.Full := fun hv => by rw [hv]; exact h
  cases x with
  | quiet => exact hsame hd.1.asl
  | store a v => exact hsame hd.1.asl
  | create =>
      obtain ⟨cur, newPcb, v, f, -, -, -, hq, -⟩ := hd
      exact hsame hq.asl
  | kill target =>
      obtain ⟨u, hq, hd⟩ := hd
      obtain ⟨hl, hw⟩ := hk target rfl
      -- somebody in each queue is not doomed, so no queue is emptied
      have hw' : u.LeavesWaiters target := by
        unfold LeavesWaiters
        rw [hq.asl, show u.child = s.child from funext fun p => (hq.tree.pcb p).1]
        exact hw
      have hv := full_terminate (L := L) (hs.quiet hq) (hsame hq.asl) (hq.tree.live.mpr hl) hw'
      rcases hd with ⟨-, tod, rfl⟩ | ⟨-, -, hq', -⟩
      · rw [(sameSems_scheduler _ tod).asl]
        exact hv
      · rw [hq'.asl]
        exact hv
  | pass a => exact hsame hd.1.asl
  | block a => exact full_blocks h hd.1
  | io j => exact full_blocks h hd
  | clockWait => exact full_blocks h hd
  | signal a =>
      obtain ⟨-, u, hq, hq', -⟩ := hd
      have hu : u.toAsl.Full := hsame hq.asl
      rw [hq'.asl]
      split
      · exact full_release (by rw [hq.asl]; exact hs.links.asl) hu id
      · exact hu
  | requeue =>
      obtain ⟨cur, u, tod, -, hq, rfl⟩ := hd
      rw [(sameSems_scheduler _ tod).asl]
      exact hsame hq.asl
  | wake l =>
      obtain ⟨u, hw, hr⟩ := hd
      rw [(sameSems_resumes hr).asl]
      exact full_wakes hs h hw
  | tick =>
      obtain ⟨u, hq, hr⟩ := hd
      rw [(sameSems_resumes hr).asl]
      exact full_wakeClock (hs.quiet hq) (hsame hq.asl) _

/-- **There are enough descriptors** while a process runs: it waits for none. -/
theorem hasSemd_of_full (hs : Sound lossy s) (h : s.toAsl.Full) (hc : s.currentProcess = some cur)
    (a : Word) : s.HasSemd a := by
  refine .inr fun hnil => ?_
  have hact : ∀ d, d ∈ s.semd_h := by
    intro d
    have hd := hs.links.asl.split d
    rw [hnil, List.count_nil, zero_add] at hd
    exact List.count_pos_iff.mp (by omega)
  have hwait : ∀ d, ∃ p, p ∈ (s.semd_table d).s_procq :=
    fun d => List.exists_mem_of_ne_nil _ (h d (hact d))
  choose f hf using hwait
  have hinj : Function.Injective f := by
    intro d d' he
    refine hs.links.asl.keys d (hact d) d' (hact d') ?_
    rw [← (hs.links.queued d (f d) (hf d)).1, ← (hs.links.queued d' (f d') (hf d')).1, he]
  -- 20 descriptors with different waiters would include the process that runs
  obtain ⟨d, hd⟩ := Finite.surjective_of_injective hinj cur
  exact (hs.links.current hc).2.2 d (hd ▸ hf d)

/-- What keeps processes from being lost. -/
structure Kept (s : Kernel) : Prop where
  sound : Sound False s
  pids : s.Pids
  full : s.toAsl.Full

/-- A gentle step keeps the bookkeeping. -/
theorem Kept.step {e : KernelEvent} (h : s.Kept) (hst : s.step L e = some t) (hf : s.Fresh e)
    (hg : s.Gentle e) : t.Kept := by
  have hd := did_step hst
  refine ⟨h.sound.step hst (fun w hw => ?_) fun p hp => ?_, h.pids.step h.sound hst hf,
    full_did h.sound h.full hd fun p hp => ⟨h.sound.kill_live hp, hg p ?_⟩⟩
  · have hcur : s.currentProcess ≠ none := by
      generalize s.act e = x at hw hd
      have hb : ∀ {w}, Blocks L s w t → s.currentProcess ≠ none := fun hb => by
        obtain ⟨cur, -, -, -, hc, -⟩ := hb
        exact current_ne hc
      cases x with
      | block a => exact hb hd.1
      | io j => exact hb hd
      | clockWait => exact hb hd
      | _ => cases hw
    obtain ⟨cur, hc⟩ := Option.ne_none_iff_exists'.mp hcur
    exact .inr (hasSemd_of_full h.sound h.full hc w)
  · exact .inr (h.pids.named (h.sound.kill_live hp))
  · rw [hp]
    rfl

/-- A live process is somewhere. -/
theorem Kept.place (h : s.Kept) (hl : s.Live p) : s.currentProcess = some p ∨
    (p ∈ s.readyQueue ∧ (s.pcbFree_table p).p_semAdd = 0) ∨
    ∃ d ∈ s.semd_h, p ∈ (s.semd_table d).s_procq ∧
      (s.semd_table d).s_key = (s.pcbFree_table p).p_semAdd ∧ (s.pcbFree_table p).p_semAdd ≠ 0 := by
  have hone := (h.sound.links.once p).resolve_right fun h => h.2
  have hfree : s.pcbFree_h.count p = 0 := List.count_eq_zero.mpr hl
  unfold places at hone
  rw [isAt_none] at hone
  by_cases hc : s.currentProcess = some p
  · exact .inl hc
  · right
    have hat : isAt s.currentProcess p = 0 := if_neg hc
    by_cases hr : p ∈ s.readyQueue
    · exact .inl ⟨hr, h.sound.links.awake p (.inr hr)⟩
    · right
      have hcount : s.readyQueue.count p = 0 := List.count_eq_zero.mpr hr
      have hq : ∃ d, p ∈ (s.semd_table d).s_procq := by
        by_contra hno
        have := Asl.queuedCount_eq_zero (s := s.toAsl) (p := p) fun d hd => hno ⟨d, hd⟩
        omega
      obtain ⟨d, hd⟩ := hq
      obtain ⟨hk, h0⟩ := h.sound.links.queued d p hd
      have hact : d ∈ s.semd_h := by
        by_contra hd'
        rw [h.sound.links.asl.idle d hd'] at hd
        cases hd
      exact ⟨d, hact, hd, hk.symm, hk ▸ h0⟩

/-- **No live process is lost** in any run in which every kill leaves one of those who wait for
each semaphore, with fewer than 2^31 - 1 processes created: a live process runs, or is ready with
`p_semAdd` NULL, or is in the queue of the descriptor whose key is its `p_semAdd`; and
`insertBlocked` of the process that runs never returns TRUE. -/
theorem kept_of_run {mem : Word → Word} {support : Word → SupportT} {test ramtop tod : Word}
    {es : List KernelEvent} (h : Run (step L) Gentle (initKernel L mem support test ramtop tod) es s)
    (hn : 1 + tally (step L) Creates (initKernel L mem support test ramtop tod) es < 2 ^ 31 - 1) :
    (∀ p, s.Live p → s.currentProcess = some p ∨
      (p ∈ s.readyQueue ∧ (s.pcbFree_table p).p_semAdd = 0) ∨
      ∃ d ∈ s.semd_h, p ∈ (s.semd_table d).s_procq ∧
        (s.semd_table d).s_key = (s.pcbFree_table p).p_semAdd ∧
        (s.pcbFree_table p).p_semAdd ≠ 0) ∧
    ∀ cur (u : Phase1) semAdd, s.currentProcess = some cur → u.toAsl = s.toAsl →
      (u.insertBlocked semAdd cur).1 = false := by
  have hk : s.Kept := by
    refine (fresh_of_few h hn).1.inv ⟨.init .., .init .., ?_⟩ fun u e v hu hc hs =>
      hu.step hs hc.2 hc.1
    exact fun d hd => nomatch hd
  refine ⟨fun p => hk.place, fun cur u semAdd hc hu => ?_⟩
  have hsemd := hasSemd_of_full hk.sound hk.full hc semAdd
  rcases u.insertBlocked_cases semAdd cur with ⟨d, -, he⟩ | ⟨-, d, rest, -, he⟩ | ⟨hf, hl, -⟩
  · rw [he]
  · rw [he]
  · rw [hu] at hf hl
    rcases hsemd with hsemd | hsemd
    · rw [hf] at hsemd
      cases hsemd
    · exact absurd hl hsemd

/-- Two children wait for one semaphore and the first process kills one of them. -/
def killOne : List KernelEvent := [call (-1) 0 0 0, call (-1) 0 0 0, call (-10) 0 0 0,
  call (-3) 0x1000 0 0, call (-3) 0x1000 0 0, call (-2) 2 0 0]

theorem kept_of_run_kill : ∃ s, Run (step layout₀) Gentle boot₀ killOne s ∧
    s.blockedCount 0x1000 = 1 ∧ ∀ cur (u : Phase1) semAdd, s.currentProcess = some cur →
      u.toAsl = s.toAsl → (u.insertBlocked semAdd cur).1 = false := by
  obtain ⟨s, hr, hb⟩ := exists_run (step layout₀) Gentle (fun s => s.blockedCount 0x1000 = 1) boot₀
    killOne (by decide +kernel)
  exact ⟨s, hr, hb, (kept_of_run hr (by decide +kernel)).2⟩

/-- A child that waits is killed; then 19 children wait for 19 other semaphores, and the first
process for a 21st. -/
def leak : List KernelEvent :=
  [call (-1) 0 0 0, call (-10) 0 0 0, call (-3) 0x1000 0 0, call (-2) 2 0 0] ++
  .replicate 19 (call (-1) 0 0 0) ++ [call (-10) 0 0 0] ++
  (List.range 19).map (fun i => call (-3) (BitVec.ofNat 32 (0x2000 + 4 * i)) 0 0) ++
  [call (-3) 0x4000 0 0]

set_option maxRecDepth 10000 in
/-- **A process is lost**: it is live, does not run, is not ready, and waits in no queue. -/
theorem leak_loses : ∃ s p, Run (step layout₀) anyStep boot₀ leak s ∧ s.Live p ∧
    s.currentProcess = none ∧ s.readyQueue = [] ∧ ∀ d, p ∉ (s.semd_table d).s_procq := by
  obtain ⟨s, hr, hl, hc, hq, hd⟩ := exists_run (step layout₀) anyStep (fun s => s.Live first ∧
    s.currentProcess = none ∧ s.readyQueue = [] ∧ ∀ d, first ∉ (s.semd_table d).s_procq) boot₀ leak
    (by decide +kernel)
  exact ⟨s, first, hr, hl, hc, hq, hd⟩

end Kernel

end PandOS
