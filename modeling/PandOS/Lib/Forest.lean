import Mathlib.Data.Finset.Card
import Mathlib.Data.Fintype.Card
import Mathlib.Data.List.Nodup
import Mathlib.Logic.Relation

/-!
# Library — the post-order of a forest of child lists

A forest is given by the list of children of each node.  `postorder child f p` lists what is
below `p`, children before parents and `p` last, to depth `f`.  `Forest child parent rank live`
says that on the live nodes the child lists and the parent pointers agree and that ranks grow
downwards, so that there are no cycles; then the post-order of a live node leaves out nothing that
is below it once `f` is the number of nodes (`Fits.closed`).
-/

namespace PandOS

variable {ι : Type*}

/-- The nodes below `p`, children first and `p` last, to depth `f`. -/
def postorder (child : ι → List ι) : ℕ → ι → List ι
  | 0, _ => []
  | f + 1, p => (child p).flatMap (postorder child f) ++ [p]

/-- No path down from `p` has more than `f` nodes. -/
def Fits (child : ι → List ι) : ℕ → ι → Prop
  | 0, _ => False
  | f + 1, p => ∀ c ∈ child p, Fits child f c

/-- Child lists and parent pointers that agree on the live nodes. -/
structure Forest (child : ι → List ι) (parent : ι → Option ι) (rank : ι → ℕ) (live : ι → Prop) :
    Prop where
  down : ∀ p, live p → ∀ c ∈ child p, live c ∧ parent c = some p
  up : ∀ c, live c → ∀ p, parent c = some p → live p ∧ c ∈ child p
  simple : ∀ p, live p → (child p).Nodup
  rank_lt : ∀ p, live p → ∀ c ∈ child p, rank p < rank c

section
variable {child child' : ι → List ι} {f : ℕ} {p q x : ι}

theorem mem_postorder_succ : x ∈ postorder child (f + 1) p ↔
    (∃ c ∈ child p, x ∈ postorder child f c) ∨ x = p := by
  simp [postorder]

theorem Fits.self_mem (h : Fits child f p) : p ∈ postorder child f p := by
  cases f with
  | zero => exact h.elim
  | succ f => exact mem_postorder_succ.mpr (.inr rfl)

/-- The post-order depends on the child lists of its own nodes only. -/
theorem postorder_congr (h : ∀ x ∈ postorder child f p, child' x = child x) :
    postorder child' f p = postorder child f p := by
  induction f generalizing p with
  | zero => rfl
  | succ f ih =>
      have hp : child' p = child p := h p (mem_postorder_succ.mpr (.inr rfl))
      rw [postorder, postorder, hp]
      congr 1
      refine List.flatMap_congr fun c hc => ih fun x hx => ?_
      exact h x (mem_postorder_succ.mpr (.inl ⟨c, hc, hx⟩))

/-- Fewer edges, fewer nodes below. -/
theorem postorder_mono (h : ∀ x, child' x ⊆ child x) (hx : x ∈ postorder child' f p) :
    x ∈ postorder child f p := by
  induction f generalizing p with
  | zero => cases hx
  | succ f ih =>
      rcases mem_postorder_succ.mp hx with ⟨c, hc, hx⟩ | rfl
      · exact mem_postorder_succ.mpr (.inl ⟨c, h p hc, ih hx⟩)
      · exact mem_postorder_succ.mpr (.inr rfl)

theorem Fits.mono {g : ℕ} (h : Fits child f p) (hg : f ≤ g) : Fits child g p := by
  induction f generalizing p g with
  | zero => exact h.elim
  | succ f ih =>
      obtain ⟨g, rfl⟩ : ∃ k, g = k + 1 := ⟨g - 1, by omega⟩
      exact fun c hc => ih (h c hc) (by omega)

/-- What is below a node of the post-order is in the post-order. -/
theorem Fits.closed (h : Fits child f p) (hx : x ∈ postorder child f p) (hq : q ∈ child x) :
    q ∈ postorder child f p := by
  induction f generalizing p with
  | zero => exact h.elim
  | succ f ih =>
      rcases mem_postorder_succ.mp hx with ⟨c, hc, hx⟩ | rfl
      · exact mem_postorder_succ.mpr (.inl ⟨c, hc, ih (h c hc) hx⟩)
      · exact mem_postorder_succ.mpr (.inl ⟨q, hq, (h q hq).self_mem⟩)

end

namespace Forest

variable {child : ι → List ι} {parent : ι → Option ι} {rank : ι → ℕ} {live : ι → Prop} {f : ℕ}
  {p q x c : ι}

theorem mem_live (h : Forest child parent rank live) (hp : live p)
    (hx : x ∈ postorder child f p) : live x := by
  induction f generalizing p with
  | zero => cases hx
  | succ f ih =>
      rcases mem_postorder_succ.mp hx with ⟨c, hc, hx⟩ | rfl
      · exact ih ((h.down p hp c hc).1) hx
      · exact hp

/-- `q` is `x` or an ancestor of `x`. -/
def Above (parent : ι → Option ι) : ι → ι → Prop :=
  Relation.ReflTransGen fun x q => parent x = some q

theorem mem_above (h : Forest child parent rank live) (hp : live p)
    (hx : x ∈ postorder child f p) : Above parent x p := by
  induction f generalizing p with
  | zero => cases hx
  | succ f ih =>
      rcases mem_postorder_succ.mp hx with ⟨c, hc, hx⟩ | rfl
      · exact (ih ((h.down p hp c hc).1) hx).tail ((h.down p hp c hc).2)
      · exact .refl

/-- A path up that stays among nodes with the same parents. -/
theorem Above.congr {parent' : ι → Option ι} {P : ι → Prop} (h : Above parent x q) (hx : P x)
    (hup : ∀ y z, P y → parent y = some z → P z ∧ parent' y = some z) : Above parent' x q := by
  have hb : Above parent' x q ∧ P q := by
    induction h with
    | refl => exact ⟨.refl, hx⟩
    | tail _ hs ih =>
        obtain ⟨hz, hp⟩ := hup _ _ ih.2 hs
        exact ⟨ih.1.tail hp, hz⟩
  exact hb.1

/-- What is below `p` is in its post-order, if that is deep enough. -/
theorem mem_postorder (h : Forest child parent rank live) (hx : live x) (hf : Fits child f p)
    (ha : Above parent x p) : x ∈ postorder child f p := by
  induction ha using Relation.ReflTransGen.head_induction_on with
  | refl => exact hf.self_mem
  | head hs _ ih =>
      obtain ⟨hl, hc⟩ := h.up _ hx _ hs
      exact hf.closed (ih hl) hc

variable [Fintype ι]

/-- The number of nodes is depth enough. -/
theorem fits (h : Forest child parent rank live) (hp : live p)
    (hf : (Finset.univ.filter fun q => rank p < rank q).card < f) : Fits child f p := by
  induction f generalizing p with
  | zero => omega
  | succ f ih =>
      intro c hc
      refine ih ((h.down p hp c hc).1)
        (Nat.lt_of_lt_of_le (Finset.card_lt_card ?_) (Nat.lt_succ_iff.mp hf))
      have hlt := h.rank_lt p hp c hc
      refine Finset.ssubset_iff_subset_ne.mpr ⟨fun q hq => ?_, fun he => ?_⟩
      · simp only [Finset.mem_filter, Finset.mem_univ, true_and] at hq ⊢
        exact hlt.trans hq
      · have hmem : c ∈ Finset.univ.filter fun q => rank p < rank q := by simpa using hlt
        rw [← he] at hmem
        simp at hmem

theorem fits_card (h : Forest child parent rank live) (hp : live p) :
    Fits child (Fintype.card ι) p := by
  refine h.fits hp (Finset.card_lt_univ_of_notMem (x := p) ?_)
  simp

end Forest

end PandOS
