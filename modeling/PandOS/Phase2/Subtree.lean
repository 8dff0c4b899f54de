import PandOS.Phase2.Search
import PandOS.Phase2.Semaphores

/-!
# Phase 2 — a kill removes exactly a subtree

`subtree s target`: `target` and its descendants.  `Returns` is the recursion of
`recursiveTerminateProcess` with no bound on its depth or on the number of turns of its loop;
`Removed` says what it leaves.  In every state in which the live processes form a tree with pids
that are not negative, the recursion returns and removes exactly the subtree.
-/

namespace PandOS

namespace Kernel

/-! ### The recursion returns -/

mutual

/-- `recursiveTerminateProcess(target)`, called in `s`, returns in `t`. -/
inductive Returns (L : Layout) : Kernel → PcbId → Kernel → Prop
  | marked {s : Kernel} {target : PcbId} (h : (s.pcbFree_table target).p_pid.toInt < 0) :
      Returns L s target s
  | killed {s t : Kernel} {target : PcbId} (h : ¬ (s.pcbFree_table target).p_pid.toInt < 0)
      (hloop : LoopEnds L (s.modify target fun pcb => { pcb with p_pid := -1 }) target t) :
      Returns L s target ((t.leaveSemaphore L target).discard target)

/-- Its loop over the children, entered in `s`, ends in `t`. -/
inductive LoopEnds (L : Layout) : Kernel → PcbId → Kernel → Prop
  | nil {s : Kernel} {target : PcbId} {v : Pcbs} (h : s.toPcbs.removeChild target = (none, v)) :
      LoopEnds L s target s
  | cons {s u t : Kernel} {target c : PcbId} {v : Pcbs}
      (h : s.toPcbs.removeChild target = (some c, v)) (hkill : Returns L (s.withPcbs v) c u)
      (hrest : LoopEnds L u target t) : LoopEnds L s target t

end

variable {L : Layout} {s t u : Kernel} {lossy : Prop} {p c x y target : PcbId} {a : Word}
  {f k : ℕ}

theorem kills_true (L : Layout) (K : PcbId → Prop) : Kills L K fun _ => True where
  mark _ _ _ _ _ _ := trivial
  detach _ _ _ _ _ _ _ _ := trivial
  bury _ _ _ _ _ _ _ := trivial

/-- The loop ends, if the calls in it return. -/
theorem loopEnds_killChildren
    (ih : ∀ s target, Called (fun _ => True) f s → (s.Named target → s.Live target) →
      Returns L s target (recursiveTerminateProcess L f s target))
    (h : Called (fun _ => True) f s) (hl : s.Live p) (hn : ¬ s.Named p)
    (hk : (s.child p).length ≤ k) :
    LoopEnds L s p (killChildren (recursiveTerminateProcess L f) p k s) := by
  induction k generalizing s with
  | zero =>
      exact .nil (Pcbs.removeChild_nil (List.length_eq_zero_iff.mp (Nat.le_zero.mp hk)))
  | succ k ihk =>
      cases hc : s.child p with
      | nil =>
          have hr : s.toPcbs.removeChild p = (none, s.toPcbs) := Pcbs.removeChild_nil hc
          rw [killChildren, hr]
          exact .nil hr
      | cons c rest =>
          have hr := removeChild_first hc
          rw [killChildren, hr]
          have hu := h.detach (kills_true L fun _ => True) trivial hl hc
          obtain ⟨-, hcul, -⟩ := terminate_rule (kills_true L fun _ => True) hu
            (h.detach_tracked hc) fun _ _ => trivial
          have hnu : ¬ (s.withPcbs (s.toPcbs.removeChild p).2).Named p :=
            fun hx => hn ((detach_named hc).mp hx)
          refine .cons hr (ih _ c hu (h.detach_tracked hc)) (ihk ⟨trivial, hu.tracked.culls hcul,
            hu.short.culls hcul, (unmarked_le hcul.named).trans hu.depth⟩
            (hcul.kept p ((detach_live hc).mpr hl) (.inr hnu)) (fun hx => hnu (hcul.named p hx)) ?_)
          refine (hcul.child p).length_le.trans ?_
          rw [detach_child hc, if_pos rfl]
          rw [hc, List.length_cons] at hk
          omega

/-- **The recursion returns**, where the depth is the number of processes not marked. -/
theorem returns_terminate (h : Called (fun _ => True) f s) (hl : s.Named target → s.Live target) :
    Returns L s target (recursiveTerminateProcess L f s target) := by
  induction f generalizing s target with
  | zero => exact .marked (not_le.mp h.marked)
  | succ f ih =>
      unfold recursiveTerminateProcess
      by_cases hn : s.Named target
      · have hneg : ¬ (s.pcbFree_table target).p_pid.toInt < 0 := not_lt.mpr hn
        rw [if_neg hneg]
        have hu := h.mark (kills_true L fun _ => True) trivial (hl hn) hn
        exact .killed hneg (loopEnds_killChildren (fun _ _ => ih) hu (hl hn)
          (fun hx => (mark_named.mp hx).1 rfl) (hu.short target))
      · have hneg : (s.pcbFree_table target).p_pid.toInt < 0 := not_le.mp hn
        rw [if_pos hneg]
        exact .marked hneg

/-! ### The subtree -/

open Classical in
/-- `target` and its descendants. -/
noncomputable def subtree (s : Kernel) (target : PcbId) : Finset PcbId :=
  Finset.univ.filter fun x => Forest.Above s.parent x target

theorem mem_subtree : x ∈ s.subtree target ↔ Forest.Above s.parent x target := by
  simp [subtree]

/-- The descendants of a live process are live. -/
theorem Tree.live_subtree (h : s.Tree) (hl : s.Live target) (hx : x ∈ s.subtree target) :
    s.Live x := by
  rcases Relation.ReflTransGen.cases_head (mem_subtree.mp hx) with rfl | ⟨y, hy, -⟩
  · exact hl
  · by_contra hxl
    rw [(h.dead x hxl).2] at hy
    cases hy

/-- While no live process is marked the kill gets to the subtree. -/
theorem Treed.mem_doomed (h : s.Treed) (hl : s.Live target) :
    x ∈ s.doomed target ↔ x ∈ s.subtree target := by
  have hpost : postorder s.namedChild maxProc target = postorder s.child maxProc target := by
    refine postorder_congr fun y hy => List.filter_eq_self.mpr fun z hz => decide_eq_true ?_
    exact h.pids.named (h.sound.tree.down y (h.forest.mem_live hl hy) z hz).1
  have hfits : Fits s.child maxProc target := by
    have hcard := h.forest.fits_card hl
    rwa [Fintype.card_fin] at hcard
  rw [doomed, if_pos (h.pids.named hl), hpost]
  refine ⟨fun hx => mem_subtree.mpr (h.forest.mem_above hl hx), fun hx => ?_⟩
  exact h.forest.mem_postorder (h.sound.tree.live_subtree hl hx) hfits (mem_subtree.mp hx)

/-! ### What the recursion does to the rest -/

/-- The process that runs goes on unless it is killed. -/
theorem runner_kills (L : Layout) (K : PcbId → Prop) (s : Kernel) : Kills L K fun u =>
    ∀ c, u.currentProcess = some c ↔ s.currentProcess = some c ∧ u.Live c where
  mark _ _ h _ _ _ := h
  detach _ _ _ _ h _ _ hc z := (h z).trans (and_congr_right fun _ => (detach_live hc).symm)
  bury u p h _ _ _ _ z := by
    rw [bury_current, bury_live, and_left_comm, ← h z]
    split
    · rename_i hc
      rw [hc]
      exact ⟨nofun, fun hz => absurd (Option.some.inj hz.2).symm hz.1⟩
    · rename_i hc
      exact ⟨fun hz => ⟨fun he => hc (he ▸ hz), hz⟩, fun hz => hz.2⟩

/-- The ready queue loses those who are killed. -/
theorem ready_kills (L : Layout) (lossy : Prop) (K : PcbId → Prop) (s : Kernel) : Kills L K fun u =>
    Linked lossy u none ∧ u.readyQueue = s.readyQueue.filter fun q => u.Live q where
  mark u p h _ _ _ := ⟨h.1.same (mark_links u p), h.2⟩
  detach u p c rest h _ _ hc := by
    refine ⟨h.1.same (detach_links hc), Eq.trans (b := u.readyQueue) rfl (h.2.trans ?_)⟩
    exact List.filter_congr fun q _ => decide_eq_decide.mpr (detach_live hc).symm
  bury u p h _ hl _ _ := by
    refine ⟨h.1.bury hl, ?_⟩
    rw [(h.1.unlinked L p).ready, h.1.nodup_ready.erase_eq_filter, h.2, List.filter_filter]
    refine List.filter_congr fun q _ => ?_
    rw [decide_eq_decide.mpr bury_live, Bool.decide_and, decide_not]
    rfl

/-- PCBs are added to the free list. -/
theorem freed_kills (L : Layout) (K : PcbId → Prop) (s : Kernel) : Kills L K fun u =>
    ∃ l, u.pcbFree_h = l ++ s.pcbFree_h where
  mark _ _ h _ _ _ := h
  detach u p c rest h _ _ hc := by
    obtain ⟨-, hf, -, -⟩ := Pcbs.removeChild_cons hc
    obtain ⟨l, hl⟩ := h
    exact ⟨l, hf.trans hl⟩
  bury u p h _ _ _ _ := by
    obtain ⟨l, hl⟩ := h
    exact ⟨p :: l, by rw [bury_free, hl, List.cons_append]⟩

/-- A PCB keeps all but its pid and its place in the tree. -/
theorem bare_kills (L : Layout) (K : PcbId → Prop) (s : Kernel) : Kills L K fun u =>
    ∀ x, { u.pcbFree_table x with p_parent := none, p_child := [], p_pid := 0 } =
      { s.pcbFree_table x with p_parent := none, p_child := [], p_pid := 0 } where
  mark u p h _ _ _ x := by
    rw [← h x, mark_table]
  detach u p c rest h _ _ hc x := by
    obtain ⟨-, -, -, ht⟩ := Pcbs.removeChild_cons hc
    rw [← h x]
    show { (u.toPcbs.removeChild p).2.pcbFree_table x with
      p_parent := none, p_child := [], p_pid := 0 } = _
    rw [ht]
  bury u p h _ _ _ _ x := by
    rw [← h x, bury_table]

/-! ### What is removed -/

open Classical in
/-- The processes of `F`, `target` and those below it, are removed from `s`, which leaves `t`. -/
structure Removed (L : Layout) (s t : Kernel) (target : PcbId) (F : Finset PcbId) : Prop where
  /-- They are added to the free list, each once. -/
  free : ∃ l, t.pcbFree_h = l ++ s.pcbFree_h ∧ l.Nodup ∧ ∀ x, x ∈ l ↔ x ∈ F
  /-- They are in no queue and not in the tree. -/
  gone : ∀ x ∈ F, x ∉ t.readyQueue ∧ (∀ d, x ∉ (t.semd_table d).s_procq) ∧
    t.child x = [] ∧ t.parent x = none ∧ ∀ y, x ∉ t.child y
  current : ∀ c, s.currentProcess = some c → (t.currentProcess = none ↔ c ∈ F)
  running : ∀ c, t.currentProcess = some c → s.currentProcess = some c
  processes : t.processCount = s.processCount - F.card
  soft : t.softBlockCount = s.softBlockCount -
    (F.filter fun x => ∃ a, isSoftBlockSemaphore L a ∧ x ∈ s.queue a).card
  /-- A semaphore gets a token for each of them that was queued on it, unless it is a device's. -/
  word : ∀ a, t.mem a = if isSoftBlockSemaphore L a then s.mem a
    else s.mem a + BitVec.ofNat 32 (F.filter fun x => x ∈ s.queue a).card
  /-- The others keep their order in the queues. -/
  ready : t.readyQueue = s.readyQueue.filter fun x => x ∉ F
  queue : ∀ a, t.queue a = (s.queue a).filter fun x => x ∉ F
  /-- The others keep their PCBs, but that the parent of `target` has one child less. -/
  pcb : ∀ x, s.Live x → x ∉ F → t.pcbFree_table x =
    { s.pcbFree_table x with p_child := (s.child x).erase target }

/-! ### The tokens -/

/-- The tokens lost at a semaphore are those of the processes removed. -/
theorem lost_eq_card {S : Sems} {F : Finset PcbId} {live : PcbId → Prop} [DecidablePred live]
    (hn : (S.queue a).Nodup) (hF : ∀ x ∈ S.queue a, live x ↔ x ∉ F) :
    S.lost a live = (F.filter fun x => x ∈ S.queue a).card := by
  have hlen := (S.queue a).length_eq_length_filter_add fun x => decide (live x)
  have hcard : ((S.queue a).filter fun x => !decide (live x)).length =
      (F.filter fun x => x ∈ S.queue a).card := by
    rw [← List.toFinset_card_of_nodup (hn.filter _)]
    congr 1
    ext x
    simp only [List.mem_toFinset, List.mem_filter, Finset.mem_filter, Bool.not_eq_true',
      decide_eq_false_iff_not]
    constructor
    · intro ⟨hx, hxl⟩
      exact ⟨by_contra fun hxF => hxl ((hF x hx).mpr hxF), hx⟩
    · intro ⟨hxF, hx⟩
      exact ⟨hx, fun hxl => (hF x hx).mp hxl hxF⟩
  unfold Sems.lost
  omega

open Classical in
/-- A process is queued on one semaphore at most. -/
theorem Linked.sum_queued (h : Linked lossy s none) (L : Layout) (F : Finset PcbId) :
    ∑ a ∈ L.inside, (F.filter fun x => x ∈ s.queue a).card =
      (F.filter fun x => ∃ a, isSoftBlockSemaphore L a ∧ x ∈ s.queue a).card := by
  rw [← Finset.card_biUnion]
  · refine congrArg Finset.card (Finset.ext fun x => ?_)
    simp only [Finset.mem_biUnion, Finset.mem_filter, Layout.mem_inside]
    constructor
    · intro ⟨a, ha, hx, hq⟩
      exact ⟨hx, a, ha, hq⟩
    · intro ⟨hx, a, ha, hq⟩
      exact ⟨a, ha, hx, hq⟩
  · intro a _ b _ hab
    refine Finset.disjoint_left.mpr fun x hx hx' => hab ?_
    exact h.queue_unique (Finset.mem_filter.mp hx).2 (Finset.mem_filter.mp hx').2

/-! ### Assembling -/

/-- What the rule for the recursion gives. -/
structure Swept (L : Layout) (s t : Kernel) (target : PcbId) : Prop where
  sound : Sound True t
  culls : Culls s t
  live : ∀ x, t.Live x ↔ s.Live x ∧ x ∉ s.subtree target
  runner : ∀ c, t.currentProcess = some c ↔ s.currentProcess = some c ∧ t.Live c
  ready : t.readyQueue = s.readyQueue.filter fun q => t.Live q
  free : ∃ l, t.pcbFree_h = l ++ s.pcbFree_h
  pid : ∀ x, t.Named x → (t.pcbFree_table x).p_pid = (s.pcbFree_table x).p_pid
  bare : ∀ x, { t.pcbFree_table x with p_parent := none, p_child := [], p_pid := 0 } =
    { s.pcbFree_table x with p_parent := none, p_child := [], p_pid := 0 }
  sems : t.sems = s.sems.cull L t.Live

/-- `recursiveTerminateProcess` sweeps the subtree of its target. -/
theorem Treed.swept (h : s.Treed) (hl : s.Live target) (L : Layout) :
    Swept L s (recursiveTerminateProcess L maxProc s target) target := by
  have hP := ((Sound.kills L True fun _ => True).and (runner_kills L (fun _ => True) s)).and
    ((ready_kills L True (fun _ => True) s).and
      ((freed_kills L (fun _ => True) s).and ((pid_kills L (fun _ => True) s).and
        (bare_kills L (fun _ => True) s))))
  have hready : s.readyQueue = s.readyQueue.filter fun q => s.Live q :=
    (List.filter_eq_self.mpr fun q hq => decide_eq_true (h.sound.links.in_ready hq).1).symm
  have hrun : ∀ c, s.currentProcess = some c ↔ s.currentProcess = some c ∧ s.Live c := fun c =>
    ⟨fun hc => ⟨hc, (h.sound.links.current hc).1⟩, And.left⟩
  obtain ⟨⟨⟨hv, hrun⟩, ⟨-, hready⟩, hfree, ⟨-, -, hpid⟩, hbare⟩, hc, -⟩ :=
    terminate_rule hP (h.sound.tree.called ⟨⟨h.sound, hrun⟩, ⟨h.sound.links, hready⟩, ⟨[], rfl⟩,
      ⟨rfl, rfl, fun _ _ => rfl⟩, fun _ => rfl⟩) (fun _ => hl) fun _ _ => trivial
  refine ⟨hv, hc, fun x => ?_, hrun, hready, hfree, hpid, hbare, h.sound.sems_terminate hl⟩
  rw [live_terminate (h.sound.tree.called trivial) (fun _ => hl), h.mem_doomed hl]

theorem pcb_eq_of_bare {p₁ p₂ : Pcb} (h : { p₁ with p_parent := none, p_child := [], p_pid := 0 } =
    { p₂ with p_parent := none, p_child := [], p_pid := 0 }) (hparent : p₁.p_parent = p₂.p_parent)
    (hpid : p₁.p_pid = p₂.p_pid) : p₁ = { p₂ with p_child := p₁.p_child } := by
  cases p₁
  cases p₂
  simp only [Pcb.mk.injEq, true_and, and_true] at h ⊢
  exact ⟨hparent, h.1, h.2.1, h.2.2.1, h.2.2.2.1, h.2.2.2.2, hpid⟩

namespace Swept

/-- Of the live processes those stay live that are not in the subtree. -/
theorem decide_live (h : Swept L s t target) (hx : s.Live x) :
    decide (t.Live x) = decide (x ∉ s.subtree target) :=
  decide_eq_decide.mpr ((h.live x).trans (and_iff_right hx))

theorem dead (h : Swept L s t target) (hx : x ∈ s.subtree target) : ¬ t.Live x := fun hl =>
  ((h.live x).mp hl).2 hx

/-- The members of the subtree are freed. -/
theorem freed (h : Swept L s t target) (hs : s.Treed) (hl : s.Live target) :
    ∃ l, t.pcbFree_h = l ++ s.pcbFree_h ∧ l.Nodup ∧ ∀ x, x ∈ l ↔ x ∈ s.subtree target := by
  obtain ⟨l, hfree⟩ := h.free
  have hn : t.pcbFree_h.Nodup := List.nodup_iff_count_le_one.mpr fun q => by
    have := h.sound.links.le_one q
    unfold places at this
    omega
  rw [hfree] at hn
  obtain ⟨hnl, -, hdis⟩ := List.nodup_append'.mp hn
  refine ⟨l, hfree, hnl, fun x => ⟨fun hx => ?_, fun hx => ?_⟩⟩
  · by_contra hxF
    exact (h.live x).mpr ⟨hdis hx, hxF⟩ (hfree ▸ List.mem_append_left _ hx)
  · have hx' : x ∈ t.pcbFree_h := not_not.mp (h.dead hx)
    rw [hfree] at hx'
    exact (List.mem_append.mp hx').resolve_right (hs.sound.tree.live_subtree hl hx)

/-- They are linked nowhere else. -/
theorem gone (h : Swept L s t target) (hx : x ∈ s.subtree target) :
    x ∉ t.readyQueue ∧ (∀ d, x ∉ (t.semd_table d).s_procq) ∧
      t.child x = [] ∧ t.parent x = none ∧ ∀ y, x ∉ t.child y := by
  have hxt := h.dead hx
  obtain ⟨hchild, hparent⟩ := h.sound.tree.dead x hxt
  refine ⟨fun hr => hxt (h.sound.links.in_ready hr).1,
    fun d hd => hxt (h.sound.links.in_queue hd).1, hchild, hparent, fun y hy => ?_⟩
  by_cases hyt : t.Live y
  · exact hxt (h.sound.tree.down y hyt x hy).1
  · rw [(h.sound.tree.dead y hyt).1] at hy
    cases hy

/-- The processor is free exactly when the process that ran is swept. -/
theorem current (h : Swept L s t target) (hs : s.Treed) (hc : s.currentProcess = some c) :
    t.currentProcess = none ↔ c ∈ s.subtree target := by
  constructor
  · intro hnone
    by_contra hcF
    have hrun := (h.runner c).mpr ⟨hc, (h.live c).mpr ⟨(hs.sound.links.current hc).1, hcF⟩⟩
    rw [hnone] at hrun
    cases hrun
  · intro hcF
    by_contra hne
    obtain ⟨z, hz⟩ := Option.ne_none_iff_exists'.mp hne
    obtain ⟨hzc, hzl⟩ := (h.runner z).mp hz
    obtain rfl : c = z := Option.some.inj (hc.symm.trans hzc)
    exact h.dead hcF hzl

theorem processes (h : Swept L s t target) (hs : s.Treed) (hl : s.Live target) :
    t.processCount = s.processCount - (s.subtree target).card := by
  obtain ⟨l, hfree, hn, hmem⟩ := h.freed hs hl
  have hcard : (s.subtree target).card = l.length := by
    rw [← List.toFinset_card_of_nodup hn]
    exact congrArg Finset.card (Finset.ext fun x => by rw [List.mem_toFinset, hmem])
  have h₁ := hs.sound.count
  have h₂ := h.sound.count
  unfold Counted at h₁ h₂
  rw [hfree, List.length_append] at h₂
  push_cast at h₂
  omega

/-- How many tokens a semaphore loses. -/
theorem lost (h : Swept L s t target) (hs : s.Treed) (a : Word) :
    s.sems.lost a t.Live = ((s.subtree target).filter fun x => x ∈ s.queue a).card :=
  lost_eq_card (hs.sound.links.nodup_queue a) fun x hx =>
    (h.live x).trans (and_iff_right (hs.sound.links.queue_live hx))

/-- Outside the subtree a process loses no child but `target`. -/
theorem child (h : Swept L s t target) (hs : s.Treed) (hx : s.Live x)
    (hxF : x ∉ s.subtree target) : t.child x = (s.child x).erase target := by
  have hn := hs.sound.tree.simple x
  have hmem : ∀ y, y ∈ t.child x ↔ y ∈ (s.child x).erase target := by
    intro y
    rw [hn.mem_erase_iff]
    constructor
    · intro hy
      refine ⟨?_, (h.culls.child x).mem hy⟩
      rintro rfl
      have hxt : t.Live x := (h.live x).mpr ⟨hx, hxF⟩
      exact h.dead (mem_subtree.mpr .refl) (h.sound.tree.down x hxt y hy).1
    · intro ⟨hne, hy⟩
      obtain ⟨hly, hpar⟩ := hs.sound.tree.down x hx y hy
      refine (h.culls.cut x y hy).resolve_right fun hm => ?_
      refine (h.culls.gone y (hs.pids.named hly) hm).2 ((h.live y).mpr ⟨hly, fun hyF => ?_⟩)
      -- `x`, the parent of `y`, would be below `target`
      rcases Relation.ReflTransGen.cases_head (mem_subtree.mp hyF) with he | ⟨z, hz, hza⟩
      · exact hne he
      · rw [hpar] at hz
        cases hz
        exact hxF (mem_subtree.mpr hza)
  -- both are the sublist of `s.child x` with these members
  have hsub : (t.child x).Sublist ((s.child x).erase target) := by
    have hf := (h.culls.child x).filter fun y => y != target
    rw [← hn.erase_eq_filter] at hf
    rwa [List.filter_eq_self.mpr fun y hy => bne_iff_ne.mpr
      (hn.mem_erase_iff.mp ((hmem y).mp hy)).1] at hf
  have hperm : (t.child x).Perm ((s.child x).erase target) :=
    (List.perm_ext_iff_of_nodup (h.sound.tree.simple x) (hn.erase target)).mpr hmem
  exact hsub.eq_of_length hperm.length_eq

/-- Outside the subtree a process keeps its parent. -/
theorem parent (h : Swept L s t target) (hs : s.Treed) (hx : t.Live x) :
    t.parent x = s.parent x := by
  cases hp : s.parent x with
  | some q => exact (h.culls.parent hs.sound.tree h.sound.tree (fun _ => hs.pids.named) hx hp).2
  | none =>
      by_contra hne
      obtain ⟨q, hq⟩ := Option.ne_none_iff_exists'.mp hne
      obtain ⟨hlq, hmem⟩ := h.sound.tree.up x hx q hq
      have hup := (hs.sound.tree.down q (h.culls.live q hlq) x ((h.culls.child q).mem hmem)).2
      rw [hp] at hup
      cases hup

theorem pcb (h : Swept L s t target) (hs : s.Treed) (hx : s.Live x)
    (hxF : x ∉ s.subtree target) : t.pcbFree_table x =
      { s.pcbFree_table x with p_child := (s.child x).erase target } := by
  have hxt : t.Live x := (h.live x).mpr ⟨hx, hxF⟩
  have hchild : (t.pcbFree_table x).p_child = (s.child x).erase target := h.child hs hx hxF
  have hparent : (t.pcbFree_table x).p_parent = (s.pcbFree_table x).p_parent := h.parent hs hxt
  have hpid := h.pid x (by
    by_contra hn
    exact (h.culls.gone x (hs.pids.named hx) hn).2 hxt)
  rw [← hchild]
  exact pcb_eq_of_bare (h.bare x) hparent hpid

end Swept

/-- **What `recursiveTerminateProcess` does.** -/
theorem Treed.removed (h : s.Treed) (hl : s.Live target) (L : Layout) :
    Removed L s (recursiveTerminateProcess L maxProc s target) target (s.subtree target) := by
  have hw := h.swept hl L
  generalize recursiveTerminateProcess L maxProc s target = t at hw
  refine ⟨hw.freed h hl, fun x hx => hw.gone hx, fun c hc => hw.current h hc,
    fun c hc => ((hw.runner c).mp hc).1, hw.processes h hl, ?_, fun a => ?_, ?_, fun a => ?_,
    fun x hx hxF => hw.pcb h hx hxF⟩
  · have hsoft : t.softBlockCount =
        s.softBlockCount - ∑ a ∈ L.inside, (s.sems.lost a t.Live : ℤ) :=
      congrArg Sems.soft hw.sems
    rw [hsoft, ← h.sound.links.sum_queued L]
    push_cast
    simp only [hw.lost h]
  · have hword : t.mem a = if isSoftBlockSemaphore L a then s.mem a
        else s.mem a + BitVec.ofNat 32 (s.sems.lost a t.Live) :=
      congrFun (congrArg Sems.word hw.sems) a
    rw [hword, hw.lost h]
  · rw [hw.ready]
    exact List.filter_congr fun x hx => hw.decide_live (h.sound.links.in_ready hx).1
  · have hqueue : t.queue a = (s.queue a).filter fun x => t.Live x :=
      congrFun (congrArg Sems.queue hw.sems) a
    rw [hqueue]
    exact List.filter_congr fun x hx => hw.decide_live (h.sound.links.queue_live hx)

/-- **A kill removes exactly a subtree.**  In every state that is reached with fewer than 2^31 - 1
processes created, and in the middle of a step where a processor state has been saved or a time
charged: `recursiveTerminateProcess` returns for every live process, and removes it and its
descendants. -/
theorem subtree_of_run {mem : Word → Word} {support : Word → SupportT} {test ramtop tod : Word}
    {es : List KernelEvent} (h : Run (step L) anyStep (initKernel L mem support test ramtop tod) es s)
    (hn : 1 + tally (step L) Creates (initKernel L mem support test ramtop tod) es < 2 ^ 31 - 1)
    (hq : Quiet s u) (hl : u.Live target) :
    Returns L u target (recursiveTerminateProcess L maxProc u target) ∧
      Removed L u (recursiveTerminateProcess L maxProc u target) target (u.subtree target) := by
  have hs := treed_of_run ((fresh_of_few h hn).1.mono fun _ _ hc => hc.2)
  have hu : u.Treed := ⟨hs.sound.quiet hq, hs.pids.same hq.tree, hs.rooted.same hq.tree⟩
  exact ⟨returns_terminate (hu.sound.tree.called trivial) fun _ => hl, hu.removed hl L⟩

/-- The child is killed, and with it its own child. -/
theorem subtree_of_run_child : ∃ s, Run (step layout₀) anyStep boot₀ family s ∧
    Removed layout₀ s (recursiveTerminateProcess layout₀ maxProc s ⟨18, by decide⟩)
      ⟨18, by decide⟩ (s.subtree ⟨18, by decide⟩) ∧ ⟨17, by decide⟩ ∈ s.subtree ⟨18, by decide⟩ := by
  obtain ⟨s, hr, hl, hp⟩ := exists_run (step layout₀) anyStep (fun s =>
    s.Live ⟨18, by decide⟩ ∧ s.parent ⟨17, by decide⟩ = some ⟨18, by decide⟩) boot₀ family
    (by decide +kernel)
  exact ⟨s, hr, (subtree_of_run hr (by decide +kernel) (.refl s) hl).2,
    mem_subtree.mpr (.single hp)⟩

end Kernel

end PandOS
