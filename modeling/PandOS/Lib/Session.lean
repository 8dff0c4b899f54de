import Mathlib.Data.List.Basic

/-!
# Library — sessions that nobody breaks into

A resource is used in sessions: `Turn.open i` begins a session of `i`, and every `Turn.use i` until
the next `Turn.open i` belongs to it.  `Unbroken h` says of a history `h` that no session has a use
by another between two of its own.

`Sessions h inside waiting` is the invariant by which a lock gives that: who waits for the lock has
not used the resource in its session yet, and a session that was broken into is over.  Its rules are
one for each thing that can happen: a session begins (`Sessions.begin`), the one that has the lock
uses the resource (`Sessions.use`), and some leave (`Sessions.mono`).
-/

namespace PandOS

variable {ι : Type*}

/-- What happens at a resource. -/
inductive Turn (ι : Type*) where
  | open (i : ι)
  | use (i : ι)
  deriving DecidableEq

/-- Between two uses in one session there is none by another. -/
def Unbroken (h : List (Turn ι)) : Prop :=
  ∀ i j h₁ h₂ h₃, h = h₁ ++ .use i :: (h₂ ++ .use i :: h₃) → .open i ∉ h₂ → .use j ∈ h₂ → j = i

/-- The last session of `i` has used the resource. -/
def Begun (h : List (Turn ι)) (i : ι) : Prop :=
  ∃ h₁ h₂, h = h₁ ++ .use i :: h₂ ∧ .open i ∉ h₂

/-- Another one has used the resource since. -/
def Broken (h : List (Turn ι)) (i : ι) : Prop :=
  ∃ j h₁ h₂, h = h₁ ++ .use i :: h₂ ∧ .open i ∉ h₂ ∧ .use j ∈ h₂ ∧ j ≠ i

section
variable {h : List (Turn ι)} {i j : ι} {x : Turn ι}

/-- A list cut in two, of which the last item is known. -/
theorem concat_eq_append_cons {α : Type*} {l l₁ l₂ : List α} {a b : α} (h : l ++ [b] = l₁ ++ a :: l₂) :
    (l₂ = [] ∧ a = b ∧ l = l₁) ∨ ∃ m, l₂ = m ++ [b] ∧ l = l₁ ++ a :: m := by
  rcases List.eq_nil_or_concat' l₂ with rfl | ⟨m, c, rfl⟩
  · obtain ⟨hl, hb⟩ := List.append_inj' h rfl
    exact .inl ⟨rfl, (List.singleton_inj.mp hb).symm, hl⟩
  · rw [← List.cons_append, ← List.append_assoc] at h
    obtain ⟨hl, hb⟩ := List.append_inj' h rfl
    obtain rfl := List.singleton_inj.mp hb
    exact .inr ⟨m, rfl, hl⟩

/-- A session goes on unless it is begun anew. -/
theorem Begun.of_concat (hb : Begun (h ++ [x]) i) : x ≠ .open i ∧ (x = .use i ∨ Begun h i) := by
  obtain ⟨h₁, h₂, heq, hno⟩ := hb
  rcases concat_eq_append_cons heq with ⟨-, hx, -⟩ | ⟨m, rfl, rfl⟩
  · exact ⟨by simp [← hx], .inl hx.symm⟩
  · rw [List.mem_append, not_or, List.mem_singleton] at hno
    exact ⟨Ne.symm hno.2, .inr ⟨h₁, m, rfl, hno.1⟩⟩

/-- A session is broken into by a use of another. -/
theorem Broken.of_concat (hb : Broken (h ++ [x]) i) :
    x ≠ .open i ∧ (Broken h i ∨ ∃ j ≠ i, x = .use j ∧ Begun h i) := by
  obtain ⟨j, h₁, h₂, heq, hno, hj, hne⟩ := hb
  rcases concat_eq_append_cons heq with ⟨rfl, -, -⟩ | ⟨m, rfl, rfl⟩
  · cases hj
  · rw [List.mem_append, not_or, List.mem_singleton] at hno
    refine ⟨Ne.symm hno.2, ?_⟩
    rcases List.mem_append.mp hj with hj | hj
    · exact .inl ⟨j, h₁, m, rfl, hno.1, hj, hne⟩
    · exact .inr ⟨j, hne, (List.mem_singleton.mp hj).symm, h₁, m, rfl, hno.1⟩

/-- A use that does not end a broken session breaks nothing. -/
theorem Unbroken.concat (hu : Unbroken h) (hx : ∀ i, x = .use i → ¬ Broken h i) :
    Unbroken (h ++ [x]) := by
  intro i j h₁ h₂ h₃ heq hno hj
  rw [← List.cons_append, ← List.append_assoc] at heq
  rcases concat_eq_append_cons heq with ⟨-, hi, rfl⟩ | ⟨m, -, rfl⟩
  · by_contra hne
    exact hx i hi.symm ⟨j, h₁, h₂, rfl, hno, hj, hne⟩
  · exact hu i j h₁ h₂ m (by simp) hno hj

end

/-- What a lock makes of a history. -/
structure Sessions (h : List (Turn ι)) (inside waiting : ι → Prop) : Prop where
  waits : ∀ i, waiting i → ¬ Begun h i
  ended : ∀ i, Broken h i → ¬ inside i
  unbroken : Unbroken h

namespace Sessions

variable {h : List (Turn ι)} {I W J V : ι → Prop} {i : ι}

theorem nil (I : ι → Prop) : Sessions [] I fun _ => False where
  waits := nofun
  ended i hb := by
    obtain ⟨j, h₁, h₂, heq, -⟩ := hb
    simp at heq
  unbroken i j h₁ h₂ h₃ heq := by simp at heq

/-- Some leave, and some wait no longer. -/
theorem mono (hs : Sessions h I W) (hJ : ∀ j, J j → I j) (hV : ∀ j, V j → W j) :
    Sessions h J V where
  waits j hj := hs.waits j (hV j hj)
  ended j hb hj := hs.ended j hb (hJ j hj)
  unbroken := hs.unbroken

/-- `i` begins a session, and may have to wait. -/
theorem begin (hs : Sessions h I W) :
    Sessions (h ++ [.open i]) (fun j => I j ∨ j = i) fun j => W j ∨ j = i where
  waits j hj hb := by
    obtain ⟨hne, hb⟩ := hb.of_concat
    have hb : Begun h j := hb.resolve_left (by simp)
    rcases hj with hj | rfl
    · exact hs.waits j hj hb
    · exact hne rfl
  ended j hb hj := by
    obtain ⟨hne, hb⟩ := hb.of_concat
    have hb : Broken h j := hb.resolve_right (by simp)
    rcases hj with hj | rfl
    · exact hs.ended j hb hj
    · exact hne rfl
  unbroken := hs.unbroken.concat (by simp)

/-- The one inside that does not wait uses the resource. -/
theorem use (hs : Sessions h I W) (hi : I i) (hw : ¬ W i)
    (only : ∀ j, I j → ¬ W j → j = i) : Sessions (h ++ [.use i]) I W where
  waits j hj hb := by
    obtain ⟨-, he | hb⟩ := hb.of_concat
    · cases he
      exact hw hj
    · exact hs.waits j hj hb
  ended j hb hj := by
    obtain ⟨-, hb | ⟨k, hne, he, hb⟩⟩ := hb.of_concat
    · exact hs.ended j hb hj
    · cases he
      exact hne (only j hj fun hwj => hs.waits j hwj hb).symm
  unbroken := hs.unbroken.concat fun j he hb => by
    cases he
    exact hs.ended i hb hi

end Sessions

end PandOS
