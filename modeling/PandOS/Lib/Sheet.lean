import Mathlib.Data.List.Basic
import Mathlib.Logic.Function.Basic
import PandOS.Lib.RoundRobin

/-!
# Library — text in lines, and the last lines of a text

`Sheet` is a text broken into lines of at most `n` characters: `put` writes one character, a line
ends at the character `br`, which is not part of it, and with its `n`-th character.  What is on
the sheet is the text without its breaks (`Sheet.flatten_write`), and no line is longer than `n`
(`Sheet.Fits`).

`Window n f xs` says that the array `f` of `n` slots, used in a circle, shows the last `n` items
of `xs`.  It is kept by writing the next item (`Window.push`) and by rewriting the last one
(`Window.setLast`).
-/

namespace PandOS

variable {α β : Type*}

/-! ### Lines -/

/-- The lines that have ended, and the open one. -/
structure Sheet (α : Type*) where
  closed : List (List α)
  line : List α

namespace Sheet

/-- An empty sheet. -/
def blank : Sheet α := ⟨[], []⟩

/-- The next line. -/
def next (p : Sheet α) : Sheet α := ⟨p.closed ++ [p.line], []⟩

/-- All its lines, the open one last. -/
def lines (p : Sheet α) : List (List α) := p.closed ++ [p.line]

variable [DecidableEq α] {n : ℕ} {br : α} {p : Sheet α}

/-- One character. -/
def put (n : ℕ) (br : α) (p : Sheet α) (c : α) : Sheet α :=
  if c = br then p.next
  else if p.line.length + 1 < n then ⟨p.closed, p.line ++ [c]⟩
  else next ⟨p.closed, p.line ++ [c]⟩

/-- A text. -/
def write (n : ℕ) (br : α) (p : Sheet α) (cs : List α) : Sheet α := cs.foldl (put n br) p

theorem write_cons (c : α) (cs : List α) :
    p.write n br (c :: cs) = (p.put n br c).write n br cs := rfl

theorem write_append (cs ds : List α) :
    p.write n br (cs ++ ds) = (p.write n br cs).write n br ds := List.foldl_append

theorem flatten_put (c : α) :
    (p.put n br c).lines.flatten = p.lines.flatten ++ if c = br then [] else [c] := by
  unfold put
  split_ifs <;> simp [lines, next]

/-- What is on the sheet is the text without the breaks. -/
theorem flatten_write (cs : List α) :
    (p.write n br cs).lines.flatten = p.lines.flatten ++ cs.filter (· ≠ br) := by
  induction cs generalizing p with
  | nil => simp [write]
  | cons c cs ih =>
      rw [write_cons, ih, flatten_put]
      by_cases hc : c = br <;> simp [hc]

/-- No line is longer than `n`, and the open one has room. -/
structure Fits (n : ℕ) (p : Sheet α) : Prop where
  closed : ∀ l ∈ p.closed, l.length ≤ n
  line : p.line.length < n

namespace Fits

omit [DecidableEq α] in
theorem blank (hn : 0 < n) : Fits n (blank : Sheet α) :=
  ⟨fun _ hl => absurd hl List.not_mem_nil, hn⟩

omit [DecidableEq α] in
/-- A line may end wherever it is. -/
theorem next {cs : List (List α)} {l : List α} (hcs : ∀ m ∈ cs, m.length ≤ n)
    (hl : l.length ≤ n) (hn : 0 < n) : Fits n (Sheet.next ⟨cs, l⟩) := by
  refine ⟨fun m hm => ?_, hn⟩
  rcases List.mem_append.mp hm with h | h
  · exact hcs m h
  · rw [List.mem_singleton.mp h]
    exact hl

theorem put (h : Fits n p) (c : α) : Fits n (p.put n br c) := by
  have hn : 0 < n := Nat.lt_of_le_of_lt (Nat.zero_le _) h.line
  unfold Sheet.put
  split_ifs with hc hlt
  · exact next h.closed (Nat.le_of_lt h.line) hn
  · exact ⟨h.closed, by simpa using hlt⟩
  · exact next h.closed (by rw [List.length_append]; exact h.line) hn

theorem write (h : Fits n p) (cs : List α) : Fits n (p.write n br cs) := by
  induction cs generalizing p with
  | nil => exact h
  | cons c cs ih => exact ih (h.put c)

end Fits

end Sheet

/-! ### The last lines -/

/-- `f`, used in a circle, shows the last `n` items of `xs`. -/
def Window (n : ℕ) (f : ℕ → β) (xs : List β) : Prop :=
  ∀ i (h : i < xs.length), xs.length ≤ i + n → f (i % n) = xs[i]

namespace Window

variable {n : ℕ} {f : ℕ → β} {xs : List β} {x y : β}

/-- The next item takes the slot of the oldest one. -/
theorem push (h : Window n f xs) (x : β) :
    Window n (Function.update f (xs.length % n) x) (xs ++ [x]) := by
  intro i hi hw
  rw [List.length_append, List.length_singleton] at hi hw
  rcases Nat.lt_succ_iff_lt_or_eq.mp hi with hlt | rfl
  · rw [Function.update_of_ne (mod_ne hlt (by omega)), List.getElem_append_left hlt]
    exact h i hlt (by omega)
  · rw [Function.update_self, List.getElem_concat_length rfl]

/-- The last item is rewritten in its slot. -/
theorem setLast (h : Window n f (xs ++ [x])) (y : β) :
    Window n (Function.update f (xs.length % n) y) (xs ++ [y]) := by
  intro i hi hw
  rw [List.length_append, List.length_singleton] at hi hw
  rcases Nat.lt_succ_iff_lt_or_eq.mp hi with hlt | rfl
  · have hold := h i (by simpa using hi) (by simpa using hw)
    rw [List.getElem_append_left hlt] at hold
    rwa [Function.update_of_ne (mod_ne hlt (by omega)), List.getElem_append_left hlt]
  · rw [Function.update_self, List.getElem_concat_length rfl]

end Window

end PandOS
