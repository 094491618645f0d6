import Mathlib.Algebra.BigOperators.Group.Finset.Basic
import Mathlib.Algebra.BigOperators.Group.Multiset.Basic
import Mathlib.Algebra.Order.BigOperators.Group.Finset
import Mathlib.Algebra.Order.Group.Multiset
import Mathlib.Data.Fintype.BigOperators

/-!
# What a table owns

Every entry of a finite table owns some items. `tally` collects the items of all entries, and
`tally_update` says how it changes when one entry is replaced.
-/

namespace Tally

variable {Index Entry Item : Type*} [Fintype Index]

/-- The items of all entries. -/
def tally (owns : Index → Entry → Multiset Item) (table : Index → Entry) : Multiset Item :=
  ∑ i, owns i (table i)

variable {owns : Index → Entry → Multiset Item}

/-- Replacing an entry exchanges its items for those of the new one. -/
theorem tally_update [DecidableEq Index] (table : Index → Entry) (i : Index) (entry : Entry) :
    tally owns (Function.update table i entry) + owns i (table i) =
      tally owns table + owns i entry := by
  unfold tally
  rw [← Finset.add_sum_erase Finset.univ _ (Finset.mem_univ i),
    ← Finset.add_sum_erase Finset.univ (fun k ↦ owns k (table k)) (Finset.mem_univ i)]
  have hrest : ∑ k ∈ Finset.univ.erase i, owns k (Function.update table i entry k) =
      ∑ k ∈ Finset.univ.erase i, owns k (table k) :=
    Finset.sum_congr rfl fun k hk ↦ by rw [Function.update_of_ne (Finset.ne_of_mem_erase hk)]
  rw [hrest, Function.update_self, add_right_comm, add_comm (owns i entry), add_right_comm]

/-- Tables whose entries own the same items have the same tally. -/
theorem tally_congr {first second : Index → Entry}
    (h : ∀ i, owns i (first i) = owns i (second i)) : tally owns first = tally owns second :=
  Finset.sum_congr rfl fun i _ ↦ h i

/-- A table whose entries own nothing has an empty tally. -/
theorem tally_eq_zero {table : Index → Entry} (h : ∀ i, owns i (table i) = 0) :
    tally owns table = 0 :=
  Finset.sum_eq_zero fun i _ ↦ h i

/-- If the entries outside a set own nothing and the others at most one item, there are at most as
many items as the set has elements. -/
theorem card_tally_le {table : Index → Entry} (owners : Finset Index)
    (hone : ∀ i ∈ owners, (owns i (table i)).card ≤ 1)
    (hnone : ∀ i ∉ owners, owns i (table i) = 0) : (tally owns table).card ≤ owners.card := by
  have hsum : (tally owns table).card = ∑ i ∈ owners, (owns i (table i)).card := by
    rw [tally, ← Finset.sum_subset (Finset.subset_univ owners) fun i _ hi ↦ hnone i hi]
    exact map_sum Multiset.cardHom _ _
  rw [hsum]
  simpa using Finset.sum_le_card_nsmul owners _ 1 hone

end Tally
