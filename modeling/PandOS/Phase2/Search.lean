import PandOS.Phase2.Pids

/-!
# Phase 2 — the process tree is complete, and the search by pid is exact

`Kernel.Rooted`: every live process is `rootProcess` or below it.  With `Tree` and `Pids` the live
processes are a `Forest` ranked by their pids, so that `findInTree`, deep enough, finds each of
them and stops.
-/

namespace PandOS

namespace Kernel

variable {L : Layout} {s t : Kernel} {lossy : Prop} {p q cur newPcb target : PcbId}

/-- Every live process is at or below the root. -/
structure Rooted (s : Kernel) : Prop where
  above : ∀ p, s.Live p → Forest.Above s.parent p s.rootProcess
  top : s.parent s.rootProcess = none

/-- If a process is live, the root is. -/
theorem Rooted.root_live (h : s.Rooted) (ht : s.Tree) (hp : s.Live p) : s.Live s.rootProcess := by
  have hb : ∀ q, Forest.Above s.parent p q → s.Live q := by
    intro q ha
    induction ha with
    | refl => exact hp
    | tail _ hs ih => exact (ht.up _ ih _ hs).1
  exact hb _ (h.above p hp)

theorem Rooted.same (h : s.Rooted) (hs : SameTree s t) : t.Rooted := by
  have hpar : t.parent = s.parent := funext fun p => (hs.pcb p).2.1
  refine ⟨fun p hp => ?_, ?_⟩
  · rw [hpar, hs.root]
    exact h.above p (hs.live.mp hp)
  · rw [hpar, hs.root]
    exact h.top

/-- The new process is below the root, as its parent is. -/
theorem Rooted.adopt (h : s.Rooted) (ht : s.Tree) (hcur : s.Live cur)
    (ha : Adopted s t cur newPcb) : t.Rooted := by
  have hdead : ¬ s.Live newPcb := fun hl => hl (by rw [ha.free]; exact List.mem_cons_self)
  have hold : ∀ p, s.Live p → Forest.Above t.parent p t.rootProcess := by
    intro p hp
    rw [ha.root]
    refine (h.above p hp).congr (P := s.Live) hp fun y z hy hyz => ⟨(ht.up y hy z hyz).1, ?_⟩
    have hyn : y ≠ newPcb := by rintro rfl; exact hdead hy
    rw [ha.parent, if_neg hyn]
    exact hyz
  refine ⟨fun p hp => ?_, ?_⟩
  · rcases ha.live hp with rfl | hp
    · refine Relation.ReflTransGen.head ?_ (hold cur hcur)
      rw [ha.parent, if_pos rfl]
    · exact hold p hp
  · have hrn : s.rootProcess ≠ newPcb := fun he => hdead (he ▸ h.root_live ht hcur)
    rw [ha.root, ha.parent, if_neg hrn]
    exact h.top

/-- Those that survive a kill keep their parents. -/
theorem Culls.parent (h : Culls s t) (hs : s.Tree) (ht : t.Tree) (hn : ∀ p, s.Live p → s.Named p)
    (hp : t.Live p) (hq : s.parent p = some q) : t.Live q ∧ t.parent p = some q := by
  obtain ⟨hlq, hmem⟩ := hs.up p (h.live p hp) q hq
  have hc : p ∈ t.child q := by
    refine (h.cut q p hmem).resolve_right fun hm => ?_
    exact (h.gone p (hn p (h.live p hp)) hm).2 hp
  have hlive : t.Live q := by
    by_contra hl
    rw [(ht.dead q hl).1] at hc
    cases hc
  exact ⟨hlive, (ht.down q hlive p hc).2⟩

/-- Who survives a kill keeps its way up to the root. -/
theorem Rooted.culls (h : s.Rooted) (hc : Culls s t) (hs : s.Tree) (ht : t.Tree)
    (hn : ∀ p, s.Live p → s.Named p) (hr : t.rootProcess = s.rootProcess) : t.Rooted := by
  refine ⟨fun p hp => ?_, ?_⟩
  · rw [hr]
    exact (h.above p (hc.live p hp)).congr (P := t.Live) hp fun y z hy hyz =>
      hc.parent hs ht hn hy hyz
  · rw [hr]
    by_contra hne
    obtain ⟨z, hz⟩ := Option.ne_none_iff_exists'.mp hne
    have hl : t.Live s.rootProcess := by
      by_contra hl
      rw [(ht.dead _ hl).2] at hz
      cases hz
    obtain ⟨hlz, hmem⟩ := ht.up _ hl z hz
    have hup := (hs.down z (hc.live z hlz) _ ((hc.child z).mem hmem)).2
    rw [h.top] at hup
    cases hup

theorem Rooted.terminate (h : s.Rooted) (hs : Sound lossy s) (hp : s.Pids) (hl : s.Live target) :
    (recursiveTerminateProcess L maxProc s target).Rooted := by
  obtain ⟨hv, hc, -, -⟩ := hs.terminate (L := L) fun _ => hl
  obtain ⟨⟨-, hroot, -⟩, -, -⟩ := terminate_rule (pid_kills L (fun _ => True) s)
    (hs.tree.called ⟨rfl, rfl, fun _ _ => rfl⟩) (fun _ => hl) fun _ _ => trivial
  exact h.culls hc hs.tree hv.tree (fun p => hp.named) hroot

/-- What the search relies on. -/
structure Treed (s : Kernel) : Prop where
  sound : Sound True s
  pids : s.Pids
  rooted : s.Rooted

/-- A step keeps the tree rooted. -/
theorem Treed.step {e : KernelEvent} (h : s.Treed) (hst : s.step L e = some t) (hf : s.Fresh e) :
    t.Treed := by
  refine ⟨h.sound.step hst (fun _ _ => .inl trivial) fun _ _ => .inl trivial,
    h.pids.step h.sound hst hf, ?_⟩
  have ht := h.sound.treeStep (did_step hst)
  generalize ha : s.act e = a at ht
  cases ht with
  | same _ _ _ hsame => exact h.rooted.same hsame
  | create u cur newPcb hc had hsame =>
      exact (h.rooted.adopt h.sound.tree (h.sound.links.current hc).1 had).same hsame
  | kill u target hq hsame =>
      have hl := h.sound.kill_live ha
      exact ((h.rooted.same hq.tree).terminate (h.sound.quiet hq) (h.pids.same hq.tree)
        (hq.tree.live.mpr hl)).same hsame

theorem Treed.init (L : Layout) (mem : Word → Word) (support : Word → SupportT)
    (test ramtop tod : Word) : (initKernel L mem support test ramtop tod).Treed := by
  refine ⟨.init .., .init .., fun p hp => ?_, rfl⟩
  rw [(init_live L mem support test ramtop tod p).mp hp]
  exact .refl

theorem Treed.forest (h : s.Treed) : Forest s.child s.parent s.pidNat s.Live :=
  ⟨h.sound.tree.down, h.sound.tree.up, fun p _ => h.sound.tree.simple p, h.pids.below⟩

/-- The search finds something where there is something to find. -/
theorem findInTree_ne_none {f : ℕ} {node : PcbId} {pid : Word}
    (hn : ∀ x ∈ postorder s.child f node, s.Named x) (hp : p ∈ postorder s.child f node)
    (hpid : (s.pcbFree_table p).p_pid = pid) : s.findInTree f node pid ≠ none := by
  induction f generalizing node with
  | zero => cases hp
  | succ f ih =>
      unfold findInTree
      have hnode : ¬ (s.pcbFree_table node).p_pid.toInt < 0 :=
        not_lt.mpr (hn node (mem_postorder_succ.mpr (.inr rfl)))
      rw [if_neg hnode]
      split
      · exact Option.some_ne_none node
      · rename_i hne
        obtain ⟨c, hc, hpc⟩ := (mem_postorder_succ.mp hp).resolve_right fun he => hne (he ▸ hpid)
        have hih := ih (fun x hx => hn x (mem_postorder_succ.mpr (.inl ⟨c, hc, hx⟩))) hpc
        exact fun hnone => hih (List.findSome?_eq_none_iff.mp hnone c hc)

/-- **The search is exact**, at every depth from `MAXPROC` on. -/
theorem Treed.findInTree (h : s.Treed) (hr : s.Live s.rootProcess) {f : ℕ} (hf : maxProc ≤ f)
    (pid : Word) (p : PcbId) : s.findInTree f s.rootProcess pid = some p ↔
      s.Live p ∧ (s.pcbFree_table p).p_pid = pid := by
  have hlive : ∀ {x}, s.findInTree f s.rootProcess pid = some x →
      s.Live x ∧ (s.pcbFree_table x).p_pid = pid := by
    intro x hx
    obtain ⟨hpid, hn, rfl | ⟨y, hy⟩⟩ := findInTree_some hx
    · exact ⟨hr, hpid⟩
    · exact ⟨h.sound.tree.tracked y x hy hn, hpid⟩
  refine ⟨hlive, fun ⟨hl, hpid⟩ => ?_⟩
  have hfits : Fits s.child f s.rootProcess := by
    have hcard := h.forest.fits_card hr
    rw [Fintype.card_fin] at hcard
    exact hcard.mono hf
  have hmem := h.forest.mem_postorder hl hfits (h.rooted.above p hl)
  have hne := findInTree_ne_none
    (fun x hx => h.pids.named (h.forest.mem_live hr hx)) hmem hpid
  obtain ⟨x, hx⟩ := Option.ne_none_iff_exists'.mp hne
  obtain ⟨hlx, hpx⟩ := hlive hx
  rw [hx, h.pids.unique x p hlx hl (congrArg BitVec.toNat (hpx.trans hpid.symm))]

theorem treed_of_run {mem : Word → Word} {support : Word → SupportT} {test ramtop tod : Word}
    {es : List KernelEvent} (h : Run (step L) Fresh (initKernel L mem support test ramtop tod) es s) :
    s.Treed :=
  h.inv (.init L mem support test ramtop tod) fun _ _ _ hu hc hs => hu.step hs hc

/-- **The process tree is complete and the search by pid is exact.**  In every state with a live
process that is reached with fewer than 2^31 - 1 processes created: a process is in the child list
of `q`, once, if and only if `q` is its parent; the live processes are those at or below
`rootProcess`, which has no parent; and `findInTree`, at every depth from `MAXPROC` on, returns
the live process with the pid, or NULL if there is none. -/
theorem tree_of_run {mem : Word → Word} {support : Word → SupportT} {test ramtop tod : Word}
    {es : List KernelEvent} (h : Run (step L) anyStep (initKernel L mem support test ramtop tod) es s)
    (hn : 1 + tally (step L) Creates (initKernel L mem support test ramtop tod) es < 2 ^ 31 - 1)
    (hl : ∃ p, s.Live p) :
    (∀ p q, s.parent p = some q ↔ p ∈ s.child q) ∧ (∀ q, (s.child q).Nodup) ∧
    s.parent s.rootProcess = none ∧
    (∀ p, s.Live p ↔ Forest.Above s.parent p s.rootProcess) ∧
    ∀ f, maxProc ≤ f → ∀ pid p, s.findInTree f s.rootProcess pid = some p ↔
      s.Live p ∧ (s.pcbFree_table p).p_pid = pid := by
  have hs := treed_of_run ((fresh_of_few h hn).1.mono fun _ _ hc => hc.2)
  have ht := hs.sound.tree
  obtain ⟨p₀, hp₀⟩ := hl
  have hr := hs.rooted.root_live ht hp₀
  refine ⟨fun p q => ⟨fun hp => ?_, fun hp => ?_⟩, ht.simple, hs.rooted.top,
    fun p => ⟨hs.rooted.above p, fun ha => ?_⟩, fun f hf => hs.findInTree hr hf⟩
  · by_cases hlp : s.Live p
    · exact (ht.up p hlp q hp).2
    · rw [(ht.dead p hlp).2] at hp
      cases hp
  · by_cases hlq : s.Live q
    · exact (ht.down q hlq p hp).2
    · rw [(ht.dead q hlq).1] at hp
      cases hp
  · rcases Relation.ReflTransGen.cases_head ha with rfl | ⟨y, hy, -⟩
    · exact hr
    · by_contra hlp
      rw [(ht.dead p hlp).2] at hy
      cases hy

/-- A child creates a child. -/
def family : List KernelEvent := [call (-1) 0 0 0, call (-10) 0 0 0, call (-1) 0 0 0]

theorem tree_of_run_two : ∃ s, Run (step layout₀) anyStep boot₀ family s ∧ (∃ p, s.Live p) ∧
    ∀ f, maxProc ≤ f → ∀ pid p, s.findInTree f s.rootProcess pid = some p ↔
      s.Live p ∧ (s.pcbFree_table p).p_pid = pid := by
  obtain ⟨s, hr, hl⟩ := exists_run (step layout₀) anyStep (fun s => ∃ p, s.Live p) boot₀ family
    (by decide +kernel)
  exact ⟨s, hr, hl, (tree_of_run hr (by decide +kernel) hl).2.2.2.2⟩

end Kernel

end PandOS
