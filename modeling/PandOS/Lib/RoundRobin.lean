import Mathlib.Data.List.Basic

/-!
# Library — slots taken in turn

A store of `n` slots that are taken round and round: the `i`-th taking, from 0, takes slot `i % n`.
A history lists the takings, the last first, each with what was put into its slot, or `none` where
nothing was.  `lastIn n h k` is what slot `k` holds after the history `h`.

What the last `n` takings put in is still there (`lastIn_recent`), and the slot taken next is the
one that was taken longest ago (`lastIn_next`): taking in turn is first in, first out.
-/

namespace PandOS

variable {α : Type*} {n k i j : ℕ} {h : List (Option α)} {y : α}

/-- Two takings less than `n` apart take different slots. -/
theorem mod_ne (hij : i < j) (hj : j < i + n) : i % n ≠ j % n := by
  intro h
  have hd : n ∣ j - i := Nat.dvd_of_mod_eq_zero (Nat.sub_mod_eq_zero_of_mod_eq h.symm)
  have := Nat.le_of_dvd (by omega) hd
  omega

/-- What was last put into slot `k`. -/
def lastIn (n : ℕ) : List (Option α) → ℕ → Option α
  | [], _ => none
  | x :: h, k => if h.length % n = k then x.or (lastIn n h k) else lastIn n h k

/-- A slot that is taken keeps what it holds until something is put in. -/
@[simp] theorem lastIn_take : lastIn n (none :: h) k = lastIn n h k := by
  simp [lastIn]

theorem lastIn_put :
    lastIn n (some y :: h) k = if h.length % n = k then some y else lastIn n h k := by
  simp [lastIn]

/-- What one of the last `n` takings put in is still there. -/
theorem lastIn_recent (hi : i < n) (hy : h[i]? = some (some y)) :
    lastIn n h ((h.length - 1 - i) % n) = some y := by
  induction h generalizing i with
  | nil => simp at hy
  | cons x h ih =>
      cases i with
      | zero =>
          cases hy
          simp [lastIn_put]
      | succ i =>
          rw [List.getElem?_cons_succ] at hy
          have hlt : i < h.length := (List.getElem?_eq_some_iff.mp hy).1
          have hidx : (x :: h).length - 1 - (i + 1) = h.length - 1 - i := by
            rw [List.length_cons]
            omega
          have hne := mod_ne (n := n) (by omega : h.length - 1 - i < h.length) (by omega)
          rw [hidx, lastIn, if_neg hne.symm]
          exact ih (Nat.lt_of_succ_lt hi) hy

/-- **First in, first out**: the slot taken next holds what was put in `n` takings ago. -/
theorem lastIn_next (hn : 0 < n) (hy : h[n - 1]? = some (some y)) :
    lastIn n h (h.length % n) = some y := by
  have hlt : n - 1 < h.length := (List.getElem?_eq_some_iff.mp hy).1
  have hidx : h.length % n = (h.length - 1 - (n - 1)) % n := by
    rw [Nat.mod_eq_sub_mod (by omega)]
    congr 1
    omega
  rw [hidx]
  exact lastIn_recent (Nat.sub_lt hn Nat.one_pos) hy

end PandOS
