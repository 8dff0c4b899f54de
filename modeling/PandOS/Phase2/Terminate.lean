import PandOS.Lib.Forest
import PandOS.Phase2.Links

/-!
# Phase 2 — what `recursiveTerminateProcess` does

The recursion marks a process with pid -1, detaches and kills its children one by one, takes it
from the queue it is in and frees it: `mark`, `removeChild` and `bury`.  `terminate_rule`: what
these three keep, the recursion keeps; that a process is marked while its children are killed is
what makes it safe, whatever the child lists look like, and the depth of the recursion is at most
the number of processes that are not marked.  `Culls` says what is left of the process tree.
-/

namespace PandOS

namespace Kernel

variable {L : Layout} {s t u : Kernel} {lossy : Prop} {p q target : PcbId} {d : SemdId}

/-! ### The three steps of the recursion -/

/-- `p_child`. -/
def child (s : Kernel) (p : PcbId) : List PcbId := (s.pcbFree_table p).p_child

/-- `p_parent`. -/
def parent (s : Kernel) (p : PcbId) : Option PcbId := (s.pcbFree_table p).p_parent

/-- The pid is not negative: the process is not marked. -/
def Named (s : Kernel) (p : PcbId) : Prop := 0 ≤ (s.pcbFree_table p).p_pid.toInt

instance (s : Kernel) (p : PcbId) : Decidable (s.Named p) := inferInstanceAs (Decidable (_ ≤ _))

/-- `target->p_pid = -1`. -/
def mark (s : Kernel) (p : PcbId) : Kernel := s.modify p fun pcb => { pcb with p_pid := -1 }

/-- `p` leaves its semaphore, its queue and the tree, and is freed. -/
def bury (L : Layout) (s : Kernel) (p : PcbId) : Kernel := (s.leaveSemaphore L p).discard p

theorem mark_table (s : Kernel) (p q : PcbId) : (s.mark p).pcbFree_table q =
    { s.pcbFree_table q with p_pid := if q = p then -1 else (s.pcbFree_table q).p_pid } := by
  by_cases h : q = p
  · rw [if_pos h, h]
    exact Function.update_self ..
  · rw [if_neg h]
    exact Function.update_of_ne h ..

theorem mark_named : (s.mark p).Named q ↔ q ≠ p ∧ s.Named q := by
  unfold Named
  rw [mark_table]
  by_cases h : q = p
  · simp [h]
  · simp [h]

/-- `leaveSemaphore` changes descriptors, the counter and the semaphore. -/
theorem leaveSemaphore_frame (L : Layout) (s : Kernel) (p : PcbId) : ∃ asl n m,
    s.leaveSemaphore L p = { s with toAsl := asl, softBlockCount := n, mem := m } := by
  have hout : ∃ asl, (s.toPhase1.outBlocked p).2 = { s.toPhase1 with toAsl := asl } := by
    unfold Phase1.outBlocked
    split
    · exact ⟨s.toAsl, rfl⟩
    · exact ⟨_, rfl⟩
  obtain ⟨asl, hasl⟩ := hout
  unfold leaveSemaphore
  dsimp only
  split
  · exact ⟨s.toAsl, s.softBlockCount, s.mem, rfl⟩
  · split
    · rename_i t he
      have ht : t = { s.toPhase1 with toAsl := asl } := by rw [← hasl, he]
      exact ⟨asl, s.softBlockCount, s.mem, by rw [ht]⟩
    · rename_i t he
      have ht : t = { s.toPhase1 with toAsl := asl } := by rw [← hasl, he]
      split
      · exact ⟨asl, _, s.mem, by rw [ht]⟩
      · exact ⟨asl, s.softBlockCount, _, by rw [ht]; rfl⟩

theorem bury_table (L : Layout) (s : Kernel) (p q : PcbId) : (s.bury L p).pcbFree_table q =
    { s.pcbFree_table q with
      p_parent := if q = p then none else s.parent q
      p_child := if s.parent p = some q then (s.child q).erase p else s.child q } := by
  obtain ⟨asl, n, m, he⟩ := leaveSemaphore_frame L s p
  unfold bury
  rw [he]
  exact Pcbs.outChild_table s.toPcbs p q

theorem bury_free (L : Layout) (s : Kernel) (p : PcbId) :
    (s.bury L p).pcbFree_h = p :: s.pcbFree_h := by
  obtain ⟨asl, n, m, he⟩ := leaveSemaphore_frame L s p
  unfold bury
  rw [he]
  exact congrArg (p :: ·) (Pcbs.outChild_free s.toPcbs p)

theorem bury_current (L : Layout) (s : Kernel) (p : PcbId) : (s.bury L p).currentProcess =
    if s.currentProcess = some p then none else s.currentProcess := by
  obtain ⟨asl, n, m, he⟩ := leaveSemaphore_frame L s p
  unfold bury
  rw [he]
  rfl

theorem bury_live : (s.bury L p).Live q ↔ q ≠ p ∧ s.Live q := by
  unfold Live
  rw [bury_free, List.mem_cons, not_or]

theorem bury_named : (s.bury L p).Named q ↔ s.Named q := by
  unfold Named
  rw [bury_table]

theorem bury_child (L : Layout) (s : Kernel) (p q : PcbId) : (s.bury L p).child q =
    if s.parent p = some q then (s.child q).erase p else s.child q := by
  rw [child, bury_table]

theorem bury_sublist (L : Layout) (s : Kernel) (p q : PcbId) :
    ((s.bury L p).child q).Sublist (s.child q) := by
  rw [bury_child]
  split
  · exact List.erase_sublist
  · exact List.Sublist.refl _

/-! ### What is left of the tree -/

/-- From `s` to `t` some processes were killed: marks stay, child lists lose only processes that
are marked, those marked on the way have no children and are free, nobody else is freed. -/
structure Culls (s t : Kernel) : Prop where
  child : ∀ q, (t.child q).Sublist (s.child q)
  cut : ∀ y, ∀ z ∈ s.child y, z ∈ t.child y ∨ ¬ t.Named z
  named : ∀ q, t.Named q → s.Named q
  live : ∀ q, t.Live q → s.Live q
  kept : ∀ q, s.Live q → t.Named q ∨ ¬ s.Named q → t.Live q
  gone : ∀ y, s.Named y → ¬ t.Named y → t.child y = [] ∧ ¬ t.Live y

theorem Culls.refl (s : Kernel) : Culls s s where
  child _ := .refl _
  cut _ _ hz := .inl hz
  named _ h := h
  live _ h := h
  kept _ h _ := h
  gone _ h hn := absurd h hn

/-- Two culls, one after the other. -/
theorem Culls.trans (h₁ : Culls s t) (h₂ : Culls t u) : Culls s u where
  child q := (h₂.child q).trans (h₁.child q)
  cut y z hz := by
    rcases h₁.cut y z hz with hz | hz
    · exact h₂.cut y z hz
    · exact .inr fun h => hz (h₂.named z h)
  named q h := h₁.named q (h₂.named q h)
  live q h := h₁.live q (h₂.live q h)
  kept q hl h := by
    rcases h with h | h
    · exact h₂.kept q (h₁.kept q hl (.inl (h₂.named q h))) (.inl h)
    · exact h₂.kept q (h₁.kept q hl (.inr h)) (.inr fun hn => h (h₁.named q hn))
  gone y hy hn := by
    by_cases ht : t.Named y
    · exact h₂.gone y ht hn
    · obtain ⟨hc, hl⟩ := h₁.gone y hy ht
      exact ⟨List.sublist_nil.mp (hc ▸ h₂.child y), fun h => hl (h₂.live y h)⟩

/-- Children that are not marked are live. -/
def Tracked (s : Kernel) : Prop := ∀ p, ∀ c ∈ s.child p, s.Named c → s.Live c

/-- Child lists are not longer than the table. -/
def Short (s : Kernel) : Prop := ∀ p, (s.child p).length ≤ maxProc

theorem Tracked.culls (h : s.Tracked) (hc : Culls s t) : t.Tracked := fun p c hm hn =>
  hc.kept c (h p c ((hc.child p).mem hm) (hc.named c hn)) (.inl hn)

theorem Short.culls (h : s.Short) (hc : Culls s t) : t.Short := fun p =>
  (hc.child p).length_le.trans (h p)

/-- How many PCBs are not marked. -/
def unmarked (s : Kernel) : ℕ := (Finset.univ.filter s.Named).card

theorem unmarked_le (h : ∀ q, t.Named q → s.Named q) : t.unmarked ≤ s.unmarked :=
  Finset.card_le_card fun q hq => by
    simp only [Finset.mem_filter, Finset.mem_univ, true_and] at hq ⊢
    exact h q hq

theorem unmarked_mark (h : s.Named p) : (s.mark p).unmarked < s.unmarked := by
  refine Finset.card_lt_card (Finset.ssubset_iff_subset_ne.mpr ⟨fun q hq => ?_, fun he => ?_⟩)
  · simp only [Finset.mem_filter, Finset.mem_univ, true_and] at hq ⊢
    exact (mark_named.mp hq).2
  · have hp : p ∈ Finset.univ.filter s.Named := by simpa using h
    rw [← he, Finset.mem_filter, mark_named] at hp
    exact hp.2.1 rfl

/-! ### The rule -/

/-- `P` is kept by the three steps, on the processes of `K`. -/
structure Kills (L : Layout) (K : PcbId → Prop) (P : Kernel → Prop) : Prop where
  mark : ∀ s p, P s → K p → s.Live p → s.Named p → P (s.mark p)
  detach : ∀ s p c rest, P s → K p → s.Live p → s.child p = c :: rest →
    P (s.withPcbs (s.toPcbs.removeChild p).2)
  bury : ∀ s p, P s → K p → s.Live p → ¬ s.Named p → s.child p = [] → P (s.bury L p)

section
variable {K : PcbId → Prop} {P : Kernel → Prop} {f k : ℕ}

/-- A state in which the recursion is called, to depth `f`. -/
structure Called (P : Kernel → Prop) (f : ℕ) (s : Kernel) : Prop where
  inv : P s
  tracked : s.Tracked
  short : s.Short
  depth : s.unmarked ≤ f

/-- A child is taken from the list of `p`; its pid and the free list are as before. -/
theorem detach_child {c : PcbId} {rest : List PcbId} (hc : s.child p = c :: rest) (q : PcbId) :
    (s.withPcbs (s.toPcbs.removeChild p).2).child q = if q = p then rest else s.child q := by
  obtain ⟨-, -, -, ht⟩ := Pcbs.removeChild_cons hc
  show ((s.toPcbs.removeChild p).2.pcbFree_table q).p_child = _
  rw [ht]
  rfl

theorem detach_named {c : PcbId} {rest : List PcbId} (hc : s.child p = c :: rest) :
    (s.withPcbs (s.toPcbs.removeChild p).2).Named q ↔ s.Named q := by
  obtain ⟨-, -, -, ht⟩ := Pcbs.removeChild_cons hc
  show 0 ≤ ((s.toPcbs.removeChild p).2.pcbFree_table q).p_pid.toInt ↔ _
  rw [ht]
  rfl

theorem detach_live {c : PcbId} {rest : List PcbId} (hc : s.child p = c :: rest) :
    (s.withPcbs (s.toPcbs.removeChild p).2).Live q ↔ s.Live q := by
  obtain ⟨-, hf, -, -⟩ := Pcbs.removeChild_cons hc
  show q ∉ (s.toPcbs.removeChild p).2.pcbFree_h ↔ _
  rw [hf]
  rfl

theorem detach_sublist {c : PcbId} {rest : List PcbId} (hc : s.child p = c :: rest) (q : PcbId) :
    ((s.withPcbs (s.toPcbs.removeChild p).2).child q).Sublist (s.child q) := by
  rw [detach_child hc]
  by_cases hq : q = p
  · rw [if_pos hq, hq, hc]
    exact List.sublist_cons_self _ _
  · rw [if_neg hq]

theorem Called.detach (hP : Kills L K P) (h : Called P f s) (hK : K p) (hl : s.Live p)
    {c : PcbId} {rest : List PcbId} (hc : s.child p = c :: rest) :
    Called P f (s.withPcbs (s.toPcbs.removeChild p).2) where
  inv := hP.detach s p c rest h.inv hK hl hc
  tracked q x hx hn := by
    rw [detach_live hc]
    exact h.tracked q x ((detach_sublist hc q).mem hx) ((detach_named hc).mp hn)
  short q := (detach_sublist hc q).length_le.trans (h.short q)
  depth := (unmarked_le fun _ => (detach_named hc).mp).trans h.depth

/-- A named child is not free, so the call on it finds a PCB in use. -/
theorem Called.detach_tracked (h : Called P f s) {c : PcbId} {rest : List PcbId}
    (hc : s.child p = c :: rest) (hn : (s.withPcbs (s.toPcbs.removeChild p).2).Named c) :
    (s.withPcbs (s.toPcbs.removeChild p).2).Live c :=
  (detach_live hc).mpr (h.tracked p c (hc ▸ List.mem_cons_self) ((detach_named hc).mp hn))

/-- The child that was taken from the list is killed. -/
theorem Culls.detach {c : PcbId} {rest : List PcbId} (hc : s.child p = c :: rest)
    (h : Culls (s.withPcbs (s.toPcbs.removeChild p).2) t) (hn : ¬ t.Named c) : Culls s t where
  child q := (h.child q).trans (detach_sublist hc q)
  cut y z hz := by
    by_cases hzu : z ∈ (s.withPcbs (s.toPcbs.removeChild p).2).child y
    · exact h.cut y z hzu
    · right
      rw [detach_child hc] at hzu
      by_cases hy : y = p
      · rw [if_pos hy] at hzu
        rw [hy, hc] at hz
        rwa [(List.mem_cons.mp hz).resolve_right hzu]
      · rw [if_neg hy] at hzu
        exact absurd hz hzu
  named q hq := (detach_named hc).mp (h.named q hq)
  live q hq := (detach_live hc).mp (h.live q hq)
  kept q hl hq := h.kept q ((detach_live hc).mpr hl)
    (hq.imp_right fun hx hy => hx ((detach_named hc).mp hy))
  gone y hy := h.gone y ((detach_named hc).mpr hy)

theorem mark_child (s : Kernel) (p : PcbId) : (s.mark p).child = s.child := by
  funext q
  rw [child, mark_table]
  rfl

/-- The marked process is buried when it has no children left. -/
theorem Culls.bury (hn : s.Named p) (h : Culls (s.mark p) t) (hnil : t.child p = []) :
    Culls s (t.bury L p) where
  child q := (bury_sublist L t p q).trans (mark_child s p ▸ h.child q)
  cut y z hz := by
    rcases h.cut y z (by rwa [mark_child]) with hz | hz
    · by_cases hzp : z = p
      · right
        rw [bury_named, hzp]
        exact fun hx => (mark_named.mp (h.named p hx)).1 rfl
      · left
        rw [bury_child]
        split
        · exact (List.mem_erase_of_ne hzp).mpr hz
        · exact hz
    · exact .inr fun hx => hz (bury_named.mp hx)
  named q hq := (mark_named.mp (h.named q (bury_named.mp hq))).2
  live q hq := h.live q (bury_live.mp hq).2
  kept q hl hq := by
    have hqp : q ≠ p := by
      rintro rfl
      rcases hq with hq | hq
      · exact (mark_named.mp (h.named q (bury_named.mp hq))).1 rfl
      · exact hq hn
    refine bury_live.mpr ⟨hqp, h.kept q hl (hq.imp bury_named.mp fun hx hy => ?_)⟩
    exact hx (mark_named.mp hy).2
  gone y hy hny := by
    rw [bury_named] at hny
    rw [bury_live]
    by_cases hyp : y = p
    · rw [hyp]
      exact ⟨List.sublist_nil.mp (hnil ▸ bury_sublist L t p p), fun hx => hx.1 rfl⟩
    · obtain ⟨hc, hlv⟩ := h.gone y (mark_named.mpr ⟨hyp, hy⟩) hny
      exact ⟨List.sublist_nil.mp (hc ▸ bury_sublist L t p y), fun hx => hlv hx.2⟩

/-- What a call does. -/
def Does (P : Kernel → Prop) (s t : Kernel) (target : PcbId) : Prop :=
  P t ∧ Culls s t ∧ ¬ t.Named target

/-- The children that are not marked. -/
def namedChild (s : Kernel) (p : PcbId) : List PcbId := (s.child p).filter s.Named

theorem mem_namedChild {c : PcbId} : c ∈ s.namedChild p ↔ c ∈ s.child p ∧ s.Named c := by
  rw [namedChild, List.mem_filter, decide_eq_true_iff]

/-- Fewer children, fewer of them not marked. -/
theorem namedChild_mono (hc : ∀ q, t.child q ⊆ s.child q) (hn : ∀ q, t.Named q → s.Named q)
    (q : PcbId) : t.namedChild q ⊆ s.namedChild q := fun x hx => by
  rw [mem_namedChild] at hx ⊢
  exact ⟨hc q hx.1, hn x hx.2⟩

theorem removeChild_first {c : PcbId} {rest : List PcbId} (hc : s.child p = c :: rest) :
    s.toPcbs.removeChild p = (some c, (s.toPcbs.removeChild p).2) :=
  Prod.ext (Pcbs.removeChild_cons hc).1 rfl

/-- The loop over the children, if the calls do what they do. -/
theorem killChildren_rule (hP : Kills L K P)
    (ih : ∀ s target, Called P f s → (s.Named target → s.Live target) →
      (s.Named target → ∀ x ∈ postorder s.namedChild f target, K x) →
      Does P s (recursiveTerminateProcess L f s target) target)
    (h : Called P f s) (hl : s.Live p) (hn : ¬ s.Named p) (hKp : K p)
    (hk : (s.child p).length ≤ k)
    (hK : ∀ c ∈ s.namedChild p, ∀ x ∈ postorder s.namedChild f c, K x) :
    P (killChildren (recursiveTerminateProcess L f) p k s) ∧
    Culls s (killChildren (recursiveTerminateProcess L f) p k s) ∧
    (killChildren (recursiveTerminateProcess L f) p k s).child p = [] := by
  induction k generalizing s with
  | zero => exact ⟨h.inv, .refl s, List.length_eq_zero_iff.mp (Nat.le_zero.mp hk)⟩
  | succ k ihk =>
      cases hc : s.child p with
      | nil =>
          have hr : s.toPcbs.removeChild p = (none, s.toPcbs) := Pcbs.removeChild_nil hc
          rw [killChildren, hr]
          exact ⟨h.inv, .refl s, hc⟩
      | cons c rest =>
          have hr := removeChild_first hc
          rw [killChildren, hr]
          have hu := h.detach hP hKp hl hc
          have hlu : (s.withPcbs (s.toPcbs.removeChild p).2).Live p := (detach_live hc).mpr hl
          have hnu : ¬ (s.withPcbs (s.toPcbs.removeChild p).2).Named p :=
            fun hx => hn ((detach_named hc).mp hx)
          have hmono := namedChild_mono (fun q => (detach_sublist hc q).subset)
            fun _ => (detach_named hc).mp
          -- the call on the first child
          obtain ⟨hv, hcv, hnc⟩ := ih _ c hu (h.detach_tracked hc) fun hnx x hx =>
            hK c (mem_namedChild.mpr ⟨hc ▸ List.mem_cons_self, (detach_named hc).mp hnx⟩) x
              (postorder_mono hmono hx)
          have hcul : Culls s _ := Culls.detach hc hcv hnc
          have hv' : Called P f _ := ⟨hv, hu.tracked.culls hcv, hu.short.culls hcv,
            (unmarked_le hcv.named).trans hu.depth⟩
          have hlen : ((recursiveTerminateProcess L f (s.withPcbs (s.toPcbs.removeChild p).2)
              c).child p).length ≤ k := by
            refine (hcv.child p).length_le.trans ?_
            rw [detach_child hc, if_pos rfl]
            rw [hc, List.length_cons] at hk
            omega
          have hmono' := namedChild_mono (fun q => (hcul.child q).subset) hcul.named
          -- the rest of the loop, on the children that are left
          obtain ⟨hw, hcw, hnil⟩ := ihk hv' (hcv.kept p hlu (.inr hnu))
            (fun hx => hnu (hcv.named p hx)) hlen fun c' hc' x hx =>
              hK c' (hmono' p hc') x (postorder_mono hmono' hx)
          exact ⟨hw, hcul.trans hcw, hnil⟩

/-- The recursion marks the process and goes one level down. -/
theorem Called.mark (hP : Kills L K P) (h : Called P (f + 1) s) (hK : K p) (hl : s.Live p)
    (hn : s.Named p) : Called P f (s.mark p) where
  inv := hP.mark s p h.inv hK hl hn
  tracked q x hx hxn := by
    rw [mark_child] at hx
    exact h.tracked q x hx (mark_named.mp hxn).2
  short q := by
    rw [mark_child]
    exact h.short q
  depth := Nat.lt_succ_iff.mp ((unmarked_mark hn).trans_le h.depth)

/-- At depth 0 everybody is marked. -/
theorem Called.marked (h : Called P 0 s) : ¬ s.Named p := fun hn => by
  have hpos := Finset.card_pos.mpr ⟨p, Finset.mem_filter.mpr ⟨Finset.mem_univ _, hn⟩⟩
  exact absurd h.depth (not_le.mpr hpos)

/-- **The rule for `recursiveTerminateProcess`**, on the processes it gets to. -/
theorem terminate_rule_named (hP : Kills L K P) (h : Called P f s)
    (hl : s.Named target → s.Live target)
    (hK : s.Named target → ∀ x ∈ postorder s.namedChild f target, K x) :
    Does P s (recursiveTerminateProcess L f s target) target := by
  induction f generalizing s target with
  | zero => exact ⟨h.inv, .refl s, h.marked⟩
  | succ f ih =>
      unfold recursiveTerminateProcess
      by_cases hn : s.Named target
      · have hKt : K target := hK hn target (mem_postorder_succ.mpr (.inr rfl))
        have hlt := hl hn
        have hu := h.mark hP hKt hlt hn
        have hnm : ¬ (s.mark target).Named target := fun hx => (mark_named.mp hx).1 rfl
        have hmono := namedChild_mono (s := s) (t := s.mark target)
          (fun q => by rw [mark_child]; exact List.Subset.refl _) fun _ hx => (mark_named.mp hx).2
        obtain ⟨hv, hcv, hnil⟩ := killChildren_rule (k := maxProc) hP (fun s target => ih) hu hlt
          hnm hKt (hu.short target) fun c hc x hx =>
            hK hn x (mem_postorder_succ.mpr (.inl ⟨c, hmono target hc, postorder_mono hmono hx⟩))
        have hneg : ¬ (s.pcbFree_table target).p_pid.toInt < 0 := not_lt.mpr hn
        rw [if_neg hneg]
        refine ⟨hP.bury _ target hv hKt (hcv.kept target hlt (.inr hnm))
          (fun hx => hnm (hcv.named target hx)) hnil, .bury hn hcv hnil, fun hx => ?_⟩
        exact hnm (hcv.named target (bury_named.mp hx))
      · have hneg : (s.pcbFree_table target).p_pid.toInt < 0 := not_le.mp hn
        rw [if_pos hneg]
        exact ⟨h.inv, .refl s, hn⟩

/-- The rule, on all processes below `target`. -/
theorem terminate_rule (hP : Kills L K P) (h : Called P f s) (hl : s.Named target → s.Live target)
    (hK : ∀ x ∈ postorder s.child f target, K x) :
    Does P s (recursiveTerminateProcess L f s target) target :=
  terminate_rule_named hP h hl fun _ x hx =>
    hK x (postorder_mono (fun _ _ hc => (mem_namedChild.mp hc).1) hx)

/-! ### Who is killed -/

/-- The processes a kill of `target` gets to. -/
def doomed (s : Kernel) (target : PcbId) : List PcbId :=
  if s.Named target then postorder s.namedChild maxProc target else []

/-- What is killed has no children that are not. -/
theorem Culls.postorder (h : Culls s t) {y x : PcbId} (hy : s.Named y) (hyt : ¬ t.Named y)
    (hx : x ∈ PandOS.postorder s.namedChild f y) : s.Named x ∧ ¬ t.Named x := by
  induction f generalizing y with
  | zero => cases hx
  | succ f ih =>
      rcases mem_postorder_succ.mp hx with ⟨c, hc, hx⟩ | rfl
      · obtain ⟨hc, hcn⟩ := mem_namedChild.mp hc
        refine ih hcn ?_ hx
        rcases h.cut y c hc with hct | hct
        · rw [(h.gone y hy hyt).1] at hct
          cases hct
        · exact hct
      · exact ⟨hy, hyt⟩

/-- Only those of `K` are marked. -/
theorem marked_kills (L : Layout) (K : PcbId → Prop) (s : Kernel) :
    Kills L K fun u => ∀ q, s.Named q → ¬ u.Named q → K q where
  mark u p h hK _ _ q hq hqu := by
    by_cases hqp : q = p
    · exact hqp ▸ hK
    · exact h q hq fun hn => hqu (mark_named.mpr ⟨hqp, hn⟩)
  detach u p c rest h _ _ hc q hq hqu := h q hq fun hn => hqu ((detach_named hc).mpr hn)
  bury u p h _ _ _ _ q hq hqu := h q hq fun hn => hqu (bury_named.mpr hn)

/-- **Who is killed**: a live process stays live unless the kill gets to it. -/
theorem live_terminate (h : Called (fun _ => True) maxProc s)
    (hl : s.Named target → s.Live target) (q : PcbId) :
    (recursiveTerminateProcess L maxProc s target).Live q ↔ s.Live q ∧ q ∉ s.doomed target := by
  obtain ⟨hmark, hc, hnt⟩ := terminate_rule_named
    (marked_kills L (fun x => x ∈ s.doomed target) s)
    ⟨fun q hq hqu => absurd hq hqu, h.tracked, h.short, h.depth⟩ hl fun hn x hx => by
      rw [doomed, if_pos hn]
      exact hx
  refine ⟨fun hq => ⟨hc.live q hq, fun hd => ?_⟩, fun ⟨hq, hd⟩ => hc.kept q hq ?_⟩
  · unfold doomed at hd
    split at hd
    · rename_i hn
      obtain ⟨hqn, hqt⟩ := hc.postorder hn hnt hd
      exact (hc.gone q hqn hqt).2 hq
    · cases hd
  · by_contra hno
    obtain ⟨hqt, hqn⟩ := not_or.mp hno
    exact hd (hmark q (not_not.mp hqn) hqt)

end

/-! ### The links -/

/-- A process leaves the queue it is in; nothing happens to one that is in none. -/
theorem Linked.leave_cases {h₀ : Option PcbId} (h : Linked lossy s h₀) (L : Layout) (p : PcbId) :
    ((∀ d, p ∉ (s.semd_table d).s_procq) ∧ s.leaveSemaphore L p = s) ∨
    ∃ d ∈ s.semd_h, p ∈ (s.semd_table d).s_procq ∧
      (s.pcbFree_table p).p_semAdd = (s.semd_table d).s_key ∧ s.leaveSemaphore L p = { s with
        toAsl := s.toAsl.setProcq d ((s.semd_table d).s_procq.erase p)
        softBlockCount := if isSoftBlockSemaphore L (s.semd_table d).s_key
          then s.softBlockCount - 1 else s.softBlockCount
        mem := if isSoftBlockSemaphore L (s.semd_table d).s_key then s.mem
          else Function.update s.mem (s.semd_table d).s_key (s.mem (s.semd_table d).s_key + 1) } := by
  by_cases hp : ∃ d, p ∈ (s.semd_table d).s_procq
  · right
    obtain ⟨d, hp⟩ := hp
    obtain ⟨hk, h0⟩ := h.queued d p hp
    have hd : d ∈ s.semd_h := by
      by_contra hd
      rw [h.asl.idle d hd] at hp
      cases hp
    refine ⟨d, hd, hp, hk, ?_⟩
    have hout : s.toPhase1.outBlocked p = (some p,
        { s.toPhase1 with toAsl := s.toAsl.setProcq d ((s.semd_table d).s_procq.erase p) }) := by
      unfold Phase1.outBlocked
      rw [hk, h.asl.find_key hd]
      simp only [Pcbs.outProcQ, if_pos hp]
    unfold leaveSemaphore
    simp only [hk, if_neg h0, hout]
    split <;> rfl
  · left
    -- `p_semAdd` may be left from an earlier wait: `outBlocked` finds nothing
    have hp : ∀ d, p ∉ (s.semd_table d).s_procq := not_exists.mp hp
    refine ⟨hp, ?_⟩
    unfold leaveSemaphore
    dsimp only
    split
    · rfl
    · unfold Phase1.outBlocked
      cases hf : s.find (s.pcbFree_table p).p_semAdd with
      | none => rfl
      | some d =>
          have he : Pcbs.outProcQ (s.semd_table d).s_procq p = (none, (s.semd_table d).s_procq) := by
            unfold Pcbs.outProcQ
            rw [if_neg (hp d)]
          simp only [he]
          rw [Asl.setProcq_eq rfl]

/-- Where the links of a process were that is buried. -/
structure Unlinked (s t : Kernel) (p : PcbId) : Prop where
  free : t.pcbFree_h = p :: s.pcbFree_h
  ready : t.readyQueue = s.readyQueue.erase p
  current : t.currentProcess = if s.currentProcess = some p then none else s.currentProcess
  active : t.semd_h = s.semd_h
  idle : t.semdFree_h = s.semdFree_h
  key : ∀ d, (t.semd_table d).s_key = (s.semd_table d).s_key
  procq : ∀ d, (t.semd_table d).s_procq = (s.semd_table d).s_procq.erase p
  semAdd : ∀ q, (t.pcbFree_table q).p_semAdd = (s.pcbFree_table q).p_semAdd

/-- The end of `recursiveTerminateProcess` takes `p` out of every list. -/
theorem Linked.unlinked (h : Linked lossy s none) (L : Layout) (p : PcbId) :
    Unlinked s (s.bury L p) p := by
  have hready : ∀ u : Kernel, (u.discard p).readyQueue = u.readyQueue.erase p :=
    fun u => Pcbs.outProcQ_snd u.readyQueue p
  have hsem : ∀ q, ((s.bury L p).pcbFree_table q).p_semAdd = (s.pcbFree_table q).p_semAdd :=
    fun q => by rw [bury_table]
  have hfree := bury_free L s p
  rcases h.leave_cases L p with ⟨hp, he⟩ | ⟨d, hd, hp, hk, he⟩
  · refine ⟨hfree, ?_, ?_, ?_, ?_, fun d => ?_, fun d => ?_, hsem⟩
    · rw [bury, he, hready]
    all_goals rw [bury, he]
    · rfl
    · rfl
    · rfl
    · rfl
    · exact (List.erase_of_not_mem (hp d)).symm
  · have hne : ∀ d', d' ≠ d → p ∉ (s.semd_table d').s_procq := fun d' hdd hp' => by
      have hk' := (h.queued d' p hp').1
      have hd' : d' ∈ s.semd_h := by
        by_contra hd'
        rw [h.asl.idle d' hd'] at hp'
        cases hp'
      exact hdd (h.asl.keys d' hd' d hd (hk'.symm.trans hk))
    refine ⟨hfree, ?_, ?_, ?_, ?_, fun d' => ?_, fun d' => ?_, hsem⟩
    · rw [bury, he, hready]
    all_goals rw [bury, he]
    · rfl
    · rfl
    · rfl
    · exact Asl.setProcq_key
    · by_cases hdd : d' = d
      · rw [hdd]
        exact congrArg Semd.s_procq Asl.setProcq_self
      · refine (congrArg Semd.s_procq (Asl.setProcq_of_ne hdd)).trans ?_
        exact (List.erase_of_not_mem (hne d' hdd)).symm

theorem Unlinked.queuedCount (h : Unlinked s t p) (hq : q ≠ p) :
    t.queuedCount q = s.queuedCount q := by
  unfold Asl.queuedCount Asl.total
  refine Finset.sum_congr rfl fun d _ => ?_
  show (t.semd_table d).s_procq.count q = (s.semd_table d).s_procq.count q
  rw [h.procq, List.count_erase_of_ne hq]

/-- A live process is buried. -/
theorem Linked.bury (h : Linked lossy s none) (hl : s.Live p) : Linked lossy (s.bury L p) none := by
  have hu := h.unlinked L p
  refine ⟨fun q => ?_, ⟨fun d => ?_, fun d hd d' hd' hk => ?_, fun d hd => ?_⟩, fun d q hq => ?_,
    fun q hq => ?_⟩
  -- `p` is in the free list and nowhere else
  · by_cases hqp : q = p
    · left
      have ho := h.le_one p
      have hf : s.pcbFree_h.count p = 0 := List.count_eq_zero.mpr hl
      have hr : (s.readyQueue.erase p).count p = 0 := by
        rw [List.count_erase_self]
        unfold places at ho
        omega
      have hz : (s.bury L p).queuedCount p = 0 := by
        refine Asl.queuedCount_eq_zero fun d hd => ?_
        rw [hu.procq] at hd
        have h₁ := List.count_pos_iff.mpr hd
        have h₂ := Asl.count_le_queuedCount (s := s.toAsl) (p := p) d
        rw [List.count_erase_self] at h₁
        unfold places at ho
        omega
      have hc : isAt (s.bury L p).currentProcess p = 0 := by
        rw [hu.current]
        split
        · rfl
        · rename_i hne
          exact if_neg hne
      rw [hqp, places, hu.free, hu.ready, hz, hr, hc, List.count_cons_self, hf, isAt_none]
    · have he : (s.bury L p).places none q = s.places none q := by
        have hc : isAt (s.bury L p).currentProcess q = isAt s.currentProcess q := by
          rw [hu.current]
          split
          · rename_i hc
            rw [hc, isAt_some, if_neg (Ne.symm hqp), isAt_none]
          · rfl
        rw [places, places, hu.free, hu.ready, hu.queuedCount hqp, hc,
          List.count_cons_of_ne (Ne.symm hqp), List.count_erase_of_ne hqp]
      rw [he]
      exact h.once q
  · rw [hu.idle, hu.active]
    exact h.asl.split d
  · rw [hu.active] at hd hd'
    rw [hu.key, hu.key] at hk
    exact h.asl.keys d hd d' hd' hk
  · rw [hu.active] at hd
    rw [hu.procq, h.asl.idle d hd]
    rfl
  · rw [hu.procq] at hq
    rw [hu.key, hu.semAdd]
    exact h.queued d q (List.mem_of_mem_erase hq)
  · rw [hu.semAdd]
    refine h.awake q (hq.imp (fun hc => ?_) fun hr => ?_)
    · rw [hu.current] at hc
      split at hc
      · cases hc
      · exact hc
    · rw [hu.ready] at hr
      exact List.mem_of_mem_erase hr

theorem mark_links (s : Kernel) (p : PcbId) : SameLinks s (s.mark p) :=
  ⟨rfl, rfl, rfl, rfl, fun q => by rw [mark_table]⟩

theorem detach_links {c : PcbId} {rest : List PcbId} (hc : s.child p = c :: rest) :
    SameLinks s (s.withPcbs (s.toPcbs.removeChild p).2) := by
  obtain ⟨-, hf, -, ht⟩ := Pcbs.removeChild_cons hc
  refine ⟨hf, rfl, rfl, rfl, fun q => ?_⟩
  show ((s.toPcbs.removeChild p).2.pcbFree_table q).p_semAdd = _
  rw [ht]

/-- The links are kept by the recursion. -/
theorem Linked.kills (L : Layout) (lossy : Prop) (K : PcbId → Prop) :
    Kills L K fun s => Linked lossy s none where
  mark s p h _ _ _ := h.same (mark_links s p)
  detach _ _ _ _ h _ _ hc := h.same (detach_links hc)
  bury _ _ h _ hl _ _ := h.bury hl

end Kernel

end PandOS
