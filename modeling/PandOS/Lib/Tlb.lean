import Mathlib.Data.Fin.Basic
import Mathlib.Data.List.FinRange
import Mathlib.Logic.Function.Basic

/-!
# Library — a translation cache

`Tlb n τ δ` is a cache of `n` slots, each empty or holding a tag and a datum.  `probe` finds the
first slot with a tag, `write` overwrites a slot (an indexed write and a random write differ only
in who chooses the slot), `refresh` probes a tag and rewrites the datum of the slot found, if
there is one.

Under `Unique`, no two slots with one tag, `refresh t k d` leaves no entry for `k` other than
`(k, d)` and no entry for another tag changed (`refresh_inv`); `write` keeps `Unique` when the
tag written is a miss.
-/

namespace PandOS

variable {n : ℕ} {τ δ : Type*}

/-- `n` slots, each empty or a tagged datum. -/
abbrev Tlb (n : ℕ) (τ δ : Type*) := Fin n → Option (τ × δ)

namespace Tlb

/-- At most one slot for each tag. -/
def Unique (t : Tlb n τ δ) : Prop :=
  ∀ i j k d d', t i = some (k, d) → t j = some (k, d') → i = j

/-- No slot has the tag `k`. -/
def Miss (t : Tlb n τ δ) (k : τ) : Prop := ∀ i d, t i ≠ some (k, d)

theorem unique_empty : Unique (fun _ => none : Tlb n τ δ) := fun _ _ _ _ _ h => nomatch h

/-- The slot `i` is overwritten. -/
def write (t : Tlb n τ δ) (i : Fin n) (e : τ × δ) : Tlb n τ δ := Function.update t i (some e)

theorem write_inv {t : Tlb n τ δ} {i j : Fin n} {e f : τ × δ} (h : t.write i e j = some f) :
    f = e ∨ t j = some f := by
  unfold write at h
  rw [Function.update_apply] at h
  split at h
  · exact .inl (Option.some.inj h).symm
  · exact .inr h

theorem unique_write {t : Tlb n τ δ} {i : Fin n} {k : τ} {d : δ} (ht : t.Unique)
    (hm : t.Miss k) : (t.write i (k, d)).Unique := by
  intro j j' k' e e' hj hj'
  unfold write at hj hj'
  rw [Function.update_apply] at hj hj'
  split at hj <;> split at hj'
  · exact ‹j = i›.trans ‹j' = i›.symm
  · cases Option.some.inj hj; exact absurd hj' (hm _ _)
  · cases Option.some.inj hj'; exact absurd hj (hm _ _)
  · exact ht _ _ _ _ _ hj hj'

variable [DecidableEq τ]

/-- The first slot with the tag `k`. -/
def probe (t : Tlb n τ δ) (k : τ) : Option (Fin n) :=
  (List.finRange n).find? fun i => (t i).any fun e => e.1 = k

theorem probe_some {t : Tlb n τ δ} {k : τ} {i : Fin n} (h : t.probe k = some i) :
    ∃ d, t i = some (k, d) := by
  have := List.find?_some h
  cases hi : t i with
  | none => simp [hi] at this
  | some e =>
      obtain ⟨k', d⟩ := e
      simp only [hi, Option.any_some, decide_eq_true_eq] at this
      exact ⟨d, by rw [this]⟩

theorem probe_none {t : Tlb n τ δ} {k : τ} (h : t.probe k = none) : t.Miss k := by
  intro i d hi
  have := List.find?_eq_none.mp h i (List.mem_finRange i)
  simp [hi] at this

/-- The datum cached for the tag `k`. -/
def lookup (t : Tlb n τ δ) (k : τ) : Option δ :=
  (t.probe k).bind fun i => (t i).map Prod.snd

theorem lookup_some {t : Tlb n τ δ} {k : τ} {d : δ} (h : t.lookup k = some d) :
    ∃ i, t i = some (k, d) := by
  unfold lookup at h
  obtain ⟨i, hi, hd⟩ := Option.bind_eq_some_iff.mp h
  obtain ⟨d', hd'⟩ := probe_some hi
  rw [hd'] at hd
  cases Option.some.inj hd
  exact ⟨i, hd'⟩

/-- Probe for `k`; on a hit, rewrite that slot's datum. -/
def refresh (t : Tlb n τ δ) (k : τ) (d : δ) : Tlb n τ δ :=
  match t.probe k with
  | some i => t.write i (k, d)
  | none => t

theorem refresh_hit {t : Tlb n τ δ} {k : τ} {d : δ} {i : Fin n} (h : t.probe k = some i) :
    t.refresh k d = t.write i (k, d) := by
  rw [refresh, h]

theorem refresh_miss {t : Tlb n τ δ} {k : τ} {d : δ} (h : t.probe k = none) :
    t.refresh k d = t := by
  rw [refresh, h]

/-- An entry after `refresh t k d` is `(k, d)`, or an entry of `t` for another tag. -/
theorem refresh_inv {t : Tlb n τ δ} (ht : t.Unique) {k k' : τ} {d d' : δ} {j : Fin n}
    (h : t.refresh k d j = some (k', d')) : (k' = k ∧ d' = d) ∨ (k' ≠ k ∧ t j = some (k', d')) := by
  cases hp : t.probe k with
  | none =>
      rw [refresh_miss hp] at h
      exact .inr ⟨fun e => probe_none hp j d' (e ▸ h), h⟩
  | some i =>
      obtain ⟨d₀, hd₀⟩ := probe_some hp
      rw [refresh_hit hp, write, Function.update_apply] at h
      split at h
      case isTrue => cases Option.some.inj h; exact .inl ⟨rfl, rfl⟩
      case isFalse hji => exact .inr ⟨fun e => hji (ht _ _ _ _ _ (e ▸ h) hd₀), h⟩

/-- A refresh adds no entry, so the keys stay distinct. -/
theorem unique_refresh {t : Tlb n τ δ} (ht : t.Unique) (k : τ) (d : δ) :
    (t.refresh k d).Unique := by
  cases hp : t.probe k with
  | none => rwa [refresh_miss hp]
  | some i =>
      obtain ⟨d₀, hd₀⟩ := probe_some hp
      rw [refresh_hit hp]
      intro j j' k' e e' hj hj'
      rw [write, Function.update_apply] at hj hj'
      split at hj <;> split at hj'
      · exact ‹j = i›.trans ‹j' = i›.symm
      · cases Option.some.inj hj; exact absurd (ht _ _ _ _ _ hj' hd₀) ‹¬ j' = i›
      · cases Option.some.inj hj'; exact absurd (ht _ _ _ _ _ hj hd₀) ‹¬ j = i›
      · exact ht _ _ _ _ _ hj hj'

end Tlb

end PandOS
