import Mathlib.Logic.Relation
import Mathlib.Order.WellFounded

/-!
# Library — lock order

Processes wait for resources and hold them.  `WaitFor waits holds i j` says that `i` waits for a
resource that `j` holds.  If the resources are ranked so that whoever waits for one holds only
smaller ones, a path of waiting processes leads to larger and larger resources and never closes
(`WaitFor.acyclic`); if whatever is waited for is held, it ends at a process that does not wait
(`WaitFor.exists_awake`).
-/

namespace PandOS

variable {ι ρ α : Type*} {waits holds : ρ → ι → Prop} {i j : ι}

/-- `i` waits for a resource that `j` holds. -/
def WaitFor (waits holds : ρ → ι → Prop) (i j : ι) : Prop := ∃ m, waits m i ∧ holds m j

section
variable [Preorder α] {rank : ρ → α}

/-- The first process of a path waits for a resource that is not above one the last process
holds. -/
theorem WaitFor.rank_le (h : ∀ m m' i, holds m i → waits m' i → rank m < rank m')
    (hp : Relation.TransGen (WaitFor waits holds) i j) :
    ∃ m m', waits m i ∧ holds m' j ∧ rank m ≤ rank m' := by
  induction hp with
  | single hij =>
      obtain ⟨m, hw, hh⟩ := hij
      exact ⟨m, m, hw, hh, le_rfl⟩
  | tail _ hjk ih =>
      obtain ⟨m, m', hw, hh, hle⟩ := ih
      obtain ⟨m'', hw', hh'⟩ := hjk
      exact ⟨m, m'', hw, hh', hle.trans (h m' m'' _ hh hw').le⟩

/-- **Lock order**: if who waits for a resource holds only smaller ones, nobody waits for itself
along a path. -/
theorem WaitFor.acyclic (rank : ρ → α)
    (h : ∀ m m' i, holds m i → waits m' i → rank m < rank m') (i : ι) :
    ¬ Relation.TransGen (WaitFor waits holds) i i := by
  intro hp
  obtain ⟨m, m', hw, hh, hle⟩ := rank_le h hp
  exact (hle.trans_lt (h m' m i hh hw)).false

/-- **Nobody waits in vain**: if moreover every resource somebody waits for is held, who waits does
so, along a path, for one that does not. -/
theorem WaitFor.exists_awake [WellFoundedGT α] (rank : ρ → α)
    (h : ∀ m m' i, holds m i → waits m' i → rank m < rank m')
    (held : ∀ m i, waits m i → ∃ j, holds m j) {m : ρ} (hi : waits m i) :
    ∃ j, Relation.TransGen (WaitFor waits holds) i j ∧ ∀ m, ¬ waits m j := by
  obtain ⟨r, hr⟩ : ∃ r, rank m = r := ⟨_, rfl⟩
  induction r using WellFoundedGT.induction generalizing m i with
  | ind r ih =>
      obtain ⟨j, hj⟩ := held m i hi
      by_cases hw : ∃ m', waits m' j
      · obtain ⟨m', hw⟩ := hw
        obtain ⟨k, hk, hno⟩ := ih (rank m') (hr ▸ h m m' j hj hw) hw rfl
        exact ⟨k, .head ⟨m, hi, hj⟩ hk, hno⟩
      · exact ⟨j, .single ⟨m, hi, hj⟩, not_exists.mp hw⟩

end

end PandOS
