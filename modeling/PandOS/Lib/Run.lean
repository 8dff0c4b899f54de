import Mathlib.Data.List.Basic

/-!
# Library — runs of a labelled machine

A machine is a partial function `step : σ → ε → Option σ`: the event `ε` says who moves and
carries every input the environment chooses.  `Run step C s es t` is a run from `s` to `t` over
the events `es` each of whose steps meets `C`, a condition on the state before the step and the
event.  The condition `fun _ _ => True` gives all runs.

`Run.inv`, the invariant rule, carries the proofs about states.  `record` adds a history to a
machine, for properties of what has happened so far.
-/

namespace PandOS

variable {σ ε : Type*}

/-- A run of `step`, every step of which meets `C`.  The last event is the last of the list. -/
inductive Run (step : σ → ε → Option σ) (C : σ → ε → Prop) : σ → List ε → σ → Prop where
  | nil (s : σ) : Run step C s [] s
  | snoc {s u t : σ} {es : List ε} {e : ε} (h : Run step C s es u) (hc : C u e)
      (hs : step u e = some t) : Run step C s (es ++ [e]) t

/-- Every run. -/
abbrev anyStep : σ → ε → Prop := fun _ _ => True

namespace Run

variable {step : σ → ε → Option σ} {C D : σ → ε → Prop} {s t u : σ} {es fs : List ε}

/-- **The invariant rule.**  What holds of the first state and is preserved by every step that
meets `C` holds of the last. -/
theorem inv {I : σ → Prop} (h : Run step C s es t) (h₀ : I s)
    (hI : ∀ u e v, I u → C u e → step u e = some v → I v) : I t := by
  induction h with
  | nil => exact h₀
  | snoc _ hc hs ih => exact hI _ _ _ ih hc hs

/-- A run of a stronger condition is a run of a weaker one. -/
theorem mono (h : Run step C s es t) (hCD : ∀ u e, C u e → D u e) : Run step D s es t := by
  induction h with
  | nil => exact .nil _
  | snoc _ hc hs ih => exact .snoc ih (hCD _ _ hc) hs

theorem append (h₁ : Run step C s es u) (h₂ : Run step C u fs t) :
    Run step C s (es ++ fs) t := by
  induction h₂ with
  | nil => simpa using h₁
  | snoc _ hc hs ih => rw [← List.append_assoc]; exact .snoc ih hc hs

theorem one {e : ε} (hc : C s e) (hs : step s e = some t) : Run step C s [e] t :=
  .snoc (.nil s) hc hs

theorem cons {e : ε} (hc : C s e) (hs : step s e = some u) (h : Run step C u es t) :
    Run step C s (e :: es) t :=
  append (one hc hs) h

/-- A run, cut in two. -/
theorem split (h : Run step C s (es ++ fs) t) : ∃ u, Run step C s es u ∧ Run step C u fs t := by
  generalize hgs : es ++ fs = gs at h
  induction h generalizing fs with
  | nil =>
      obtain ⟨rfl, rfl⟩ := List.append_eq_nil_iff.mp hgs
      exact ⟨_, .nil _, .nil _⟩
  | @snoc u v gs e hu hc hs ih =>
      rcases List.eq_nil_or_concat' fs with rfl | ⟨fs, x, rfl⟩
      · rw [List.append_nil] at hgs
        exact ⟨v, hgs ▸ .snoc hu hc hs, .nil v⟩
      · rw [← List.append_assoc] at hgs
        obtain ⟨hpre, hx⟩ := List.append_inj' hgs rfl
        obtain rfl := List.singleton_inj.mp hx
        obtain ⟨w, hw, hu⟩ := ih hpre
        exact ⟨w, hw, .snoc hu hc hs⟩

end Run

/-- The machine run over a list of events, where it does not get stuck. -/
def exec (step : σ → ε → Option σ) (s : σ) (es : List ε) : Option σ := es.foldlM step s

theorem exec_cons {step : σ → ε → Option σ} {s : σ} {e : ε} {es : List ε} :
    exec step s (e :: es) = (step s e).bind fun u => exec step u es := by
  simp [exec, List.foldlM_cons]

/-- What `exec` computes is a run. -/
theorem run_of_exec {step : σ → ε → Option σ} {s t : σ} {es : List ε}
    (h : exec step s es = some t) : Run step anyStep s es t := by
  induction es generalizing s with
  | nil => cases h; exact .nil _
  | cons e es ih =>
      rw [exec_cons] at h
      obtain ⟨u, hu, ht⟩ := Option.bind_eq_some_iff.mp h
      exact .cons trivial hu (ih ht)

/-- How many steps of a run over `es` are `P`. -/
def tally (step : σ → ε → Option σ) (P : σ → ε → Prop) [∀ s e, Decidable (P s e)] :
    σ → List ε → ℕ
  | _, [] => 0
  | s, e :: es => (if P s e then 1 else 0) +
      match step s e with
      | some u => tally step P u es
      | none => 0

section
variable {step : σ → ε → Option σ} {C P : σ → ε → Prop} [∀ s e, Decidable (P s e)] {s u : σ}
  {es : List ε} {e : ε}

/-- The last step of a run counts if it meets `P`. -/
theorem tally_of_exec (h : exec step s es = some u) :
    tally step P s (es ++ [e]) = tally step P s es + if P u e then 1 else 0 := by
  induction es generalizing s with
  | nil =>
      cases h
      simp only [List.nil_append, tally]
      cases step u e <;> simp
  | cons x es ih =>
      rw [exec_cons] at h
      obtain ⟨v, hv, hu⟩ := Option.bind_eq_some_iff.mp h
      simp only [List.cons_append, tally, hv]
      rw [ih hu]
      omega

theorem Run.exec (h : Run step C s es u) : PandOS.exec step s es = some u := by
  induction h with
  | nil => rfl
  | snoc _ _ hs ih =>
      unfold PandOS.exec at ih ⊢
      rw [List.foldlM_append, ih]
      simpa using hs

/-- A run over given events ends in one state. -/
theorem Run.det {D : σ → ε → Prop} {t : σ} (h : Run step C s es u) (h' : Run step D s es t) :
    u = t :=
  Option.some.inj (h.exec.symm.trans h'.exec)

/-- **Every state and every step.**  Where, from a state with `I`, the step leads to one if and
only if it meets `D`, all states of a run have `I` if and only if all its steps meet `D`. -/
theorem Run.always_iff {I J : σ → Prop} {D : σ → ε → Prop} {t : σ} (h : Run step C s es t)
    (hJ₀ : J s) (hJ : ∀ u e v, J u → C u e → step u e = some v → J v) (h₀ : I s)
    (hI : ∀ u e v, J u → I u → C u e → step u e = some v → (I v ↔ D u e)) :
    (∀ fs u, fs <+: es → Run step C s fs u → I u) ↔ Run step (fun u e => C u e ∧ D u e) s es t := by
  constructor
  · intro hall
    induction h with
    | nil => exact .nil _
    | @snoc u v fs e hu hc hs ih =>
        have hrun := ih fun gs w hg hw => hall gs w (hg.trans (List.prefix_append fs [e])) hw
        have hIu := hall fs u (List.prefix_append fs [e]) hu
        have hIv := hall (fs ++ [e]) v (List.prefix_refl _) (.snoc hu hc hs)
        exact .snoc hrun ⟨hc, (hI u e v (hu.inv hJ₀ hJ) hIu hc hs).mp hIv⟩ hs
  · rintro hD fs u ⟨gs, rfl⟩ hu
    obtain ⟨v, hv, -⟩ := hD.split
    obtain rfl := hu.det hv
    refine (hv.inv (I := fun w => J w ∧ I w) ⟨hJ₀, h₀⟩ fun w e x hw hc hs => ?_).2
    exact ⟨hJ w e x hw.1 hc.1 hs, (hI w e x hw.1 hw.2 hc.1 hs).mpr hc.2⟩

/-- **Counting along a run.** -/
theorem Run.tally_snoc (h : Run step C s es u) :
    tally step P s (es ++ [e]) = tally step P s es + if P u e then 1 else 0 :=
  tally_of_exec h.exec

end

/-- A run that meets a decidable condition at every step, as a computation. -/
def execIf (step : σ → ε → Option σ) (C : σ → ε → Prop) [∀ s e, Decidable (C s e)] (s : σ)
    (es : List ε) : Option σ :=
  exec (fun u e => if C u e then step u e else none) s es

theorem run_of_execIf {step : σ → ε → Option σ} {C : σ → ε → Prop} [∀ s e, Decidable (C s e)]
    {s t : σ} {es : List ε} (h : execIf step C s es = some t) : Run step C s es t := by
  induction es generalizing s with
  | nil => cases h; exact .nil _
  | cons e es ih =>
      rw [execIf, exec_cons] at h
      obtain ⟨u, hu, ht⟩ := Option.bind_eq_some_iff.mp h
      split at hu
      case isTrue hc => exact .cons hc hu (ih ht)
      case isFalse => cases hu

/-- A state with a decidable property is reached, found by running the machine. -/
theorem exists_run (step : σ → ε → Option σ) (C : σ → ε → Prop) [∀ s e, Decidable (C s e)]
    (P : σ → Prop) [DecidablePred P] (s : σ) (es : List ε)
    (h : (execIf step C s es).any (fun t => decide (P t)) = true) : ∃ t, Run step C s es t ∧ P t := by
  obtain ⟨t, ht, hP⟩ := (Option.any_eq_true _ _).mp h
  exact ⟨t, run_of_execIf ht, of_decide_eq_true hP⟩

/-! ### Histories -/

/-- The machine with a history, in which `note` writes down each step. -/
def record {η : Type*} (step : σ → ε → Option σ) (note : σ → ε → σ → η → η) (x : σ × η) (e : ε) :
    Option (σ × η) :=
  (step x.1 e).map fun t => (t, note x.1 e t x.2)

section
variable {η : Type*} {step : σ → ε → Option σ} {note : σ → ε → σ → η → η} {C : σ × η → ε → Prop}
  {s t : σ} {x y : σ × η} {es : List ε} {e : ε}

theorem record_eq_some (h : record step note x e = some y) :
    step x.1 e = some y.1 ∧ y.2 = note x.1 e y.1 x.2 := by
  obtain ⟨t, ht, rfl⟩ := Option.map_eq_some_iff.mp h
  exact ⟨ht, rfl⟩

theorem record_of (h : step x.1 e = some t) :
    record step note x e = some (t, note x.1 e t x.2) := by
  rw [record, h]
  rfl

/-- A history changes nothing. -/
theorem Run.forget (h : Run (record step note) C x es y) : Run step anyStep x.1 es y.1 := by
  induction h with
  | nil => exact .nil _
  | snoc _ _ hs ih => exact .snoc ih trivial (record_eq_some hs).1

/-- The same, with a condition that does not look at the history. -/
theorem Run.unrecord {D : σ → ε → Prop} (h : Run (record step note) (fun x e => D x.1 e) x es y) :
    Run step D x.1 es y.1 := by
  induction h with
  | nil => exact .nil _
  | snoc _ hc hs ih => exact .snoc ih hc (record_eq_some hs).1

/-- Every run has a history. -/
theorem Run.recorded (h : Run step anyStep s es t) (note : σ → ε → σ → η → η) (a : η) :
    ∃ b, Run (record step note) anyStep (s, a) es (t, b) := by
  induction h with
  | nil => exact ⟨a, .nil _⟩
  | snoc _ _ hs ih =>
      obtain ⟨b, hb⟩ := ih
      exact ⟨_, .snoc hb trivial (record_of hs)⟩

end

end PandOS
