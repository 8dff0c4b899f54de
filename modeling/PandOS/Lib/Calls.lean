import PandOS.Lib.Run

/-!
# Library — a component and its caller

A component is a partial function `call : μ → ε → Option (ν × μ)`, from its state and a call to the
reply and the state after it, with a condition `ok` that its callers owe it.  A caller is seen as
the list of its calls, each with the reply it goes by, if it goes by one (`Talk`); `ask` is the
machine that makes them and gets stuck where a reply is another.

`Follows call ok R s xs t`: made on a component that stands for the caller's state `s`, the calls
`xs` meet `ok`, get their replies, and leave a component that stands for `t`.  Such lists are put
together by `Follows.trans`, function by function.  `Run.asks` takes the calls to an implementation
of the component.
-/

namespace PandOS

variable {μ τ ε ν σ : Type*} [DecidableEq ν]

/-- A call, and the reply its caller goes by, if it goes by one. -/
abbrev Talk (ε ν : Type*) := ε × Option ν

/-- The call is made, and its reply is the one the caller goes by. -/
def ask (call : μ → ε → Option (ν × μ)) (m : μ) (x : Talk ε ν) : Option μ :=
  (call m x.1).bind fun r => if ∀ v ∈ x.2, r.1 = v then some r.2 else none

section
variable {call : μ → ε → Option (ν × μ)} {m t : μ} {x : Talk ε ν}

/-- A call that answers as asked is a call that returns, with that answer if one is asked for. -/
theorem ask_eq_some : ask call m x = some t ↔
    ∃ r, call m x.1 = some (r, t) ∧ ∀ v ∈ x.2, r = v := by
  unfold ask
  constructor
  · intro h
    obtain ⟨⟨r, u⟩, hr, h⟩ := Option.bind_eq_some_iff.mp h
    split at h
    case isTrue hv =>
      cases h
      exact ⟨r, hr, hv⟩
    case isFalse => cases h
  · intro ⟨r, hr, hv⟩
    rw [hr]
    exact if_pos hv

/-- Calls that are answered are answered by an implementation. -/
theorem Run.asks {callC : τ → ε → Option (ν × τ)} {ok : μ → ε → Prop} {I : μ → τ → Prop}
    (hsim : ∀ b m e r c, I b m → ok b e → call b e = some (r, c) →
      ∃ t, callC m e = some (r, t) ∧ I c t)
    {b c : μ} {m : τ} {xs : List (Talk ε ν)} (h : I b m)
    (hr : Run (ask call) (fun b x => ok b x.1) b xs c) :
    ∃ t, Run (ask callC) anyStep m xs t ∧ I c t := by
  induction hr with
  | nil => exact ⟨m, .nil m, h⟩
  | snoc hr hp hx ih =>
      obtain ⟨u, hu, hI⟩ := ih
      obtain ⟨r, hc, hv⟩ := ask_eq_some.mp hx
      obtain ⟨t, ht, hI'⟩ := hsim _ _ _ _ _ hI hp hc
      exact ⟨t, .snoc hu trivial (ask_eq_some.mpr ⟨r, ht, hv⟩), hI'⟩

end

/-- Made where the component stands for `s`, the calls are allowed and answered, and it then stands
for `t`. -/
def Follows (call : μ → ε → Option (ν × μ)) (ok : μ → ε → Prop) (R : μ → σ → Prop) (s : σ)
    (xs : List (Talk ε ν)) (t : σ) : Prop :=
  ∀ m, R m s → ∃ m', Run (ask call) (fun m x => ok m x.1) m xs m' ∧ R m' t

namespace Follows

variable {call : μ → ε → Option (ν × μ)} {ok : μ → ε → Prop} {R : μ → σ → Prop} {s t u : σ}
  {xs ys : List (Talk ε ν)} {e : ε} {o : Option ν}

/-- No call. -/
theorem same (h : ∀ m, R m s → R m t) : Follows call ok R s [] t := fun m hm => ⟨m, .nil m, h m hm⟩

theorem trans (h₁ : Follows call ok R s xs u) (h₂ : Follows call ok R u ys t) :
    Follows call ok R s (xs ++ ys) t := by
  intro m hm
  obtain ⟨m₁, hr₁, hu⟩ := h₁ m hm
  obtain ⟨m₂, hr₂, ht⟩ := h₂ m₁ hu
  exact ⟨m₂, hr₁.append hr₂, ht⟩

theorem before (hs : ∀ m, R m s → R m u) (h : Follows call ok R u xs t) :
    Follows call ok R s xs t := fun m hm => h m (hs m hm)

theorem after (h : Follows call ok R s xs u) (ht : ∀ m, R m u → R m t) :
    Follows call ok R s xs t := by
  intro m hm
  obtain ⟨m', hr, hu⟩ := h m hm
  exact ⟨m', hr, ht m' hu⟩

/-- One call. -/
theorem one (h : ∀ m, R m s → ok m e ∧ ∃ r m', call m e = some (r, m') ∧ (∀ v ∈ o, r = v) ∧
    R m' t) : Follows call ok R s [(e, o)] t := by
  intro m hm
  obtain ⟨hp, r, m', hc, ho, ht⟩ := h m hm
  exact ⟨m', .one hp (ask_eq_some.mpr ⟨r, hc, ho⟩), ht⟩

theorem cons (h₁ : Follows call ok R s [(e, o)] u) (h₂ : Follows call ok R u xs t) :
    Follows call ok R s ((e, o) :: xs) t := h₁.trans h₂

end Follows

end PandOS
