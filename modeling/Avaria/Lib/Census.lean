import Mathlib.Data.Finset.Card
import Mathlib.Data.Fintype.Basic
import Mathlib.Logic.Function.Basic

/-!
# How many parties are at a point

Some parties each stand at a point of their program. `census` counts those among a finite set of
them whose point has a property. When one party moves, the count changes by that party:
`census_enter` and `census_leave` say by how much, and `census_stay` that it need not.
-/

namespace Census

variable {Party Point : Type*} [DecidableEq Party]
variable (members : Finset Party) (Counted : Point → Prop) [DecidablePred Counted]

/-- How many of the members stand at a counted point. -/
def census (points : Party → Point) : Nat := (members.filter fun i ↦ Counted (points i)).card

variable {members Counted} {points : Party → Point} {i : Party} {point : Point}

omit [DecidableEq Party] in
theorem census_le_card : census members Counted points ≤ members.card :=
  Finset.card_filter_le ..

omit [DecidableEq Party] in
/-- As many as there are members are counted when all of them are. -/
theorem census_eq_card_iff :
    census members Counted points = members.card ↔ ∀ i ∈ members, Counted (points i) :=
  Finset.card_filter_eq_iff

omit [DecidableEq Party] in
theorem census_eq_zero_iff :
    census members Counted points = 0 ↔ ∀ i ∈ members, ¬ Counted (points i) := by
  rw [census, Finset.card_eq_zero, Finset.filter_eq_empty_iff]

/-- A move between two counted points or two others leaves the count alone. -/
theorem census_stay (h : Counted point ↔ Counted (points i)) :
    census members Counted (Function.update points i point) = census members Counted points := by
  refine congrArg Finset.card (Finset.filter_congr fun j _ ↦ ?_)
  by_cases heq : j = i
  · subst heq
    rw [Function.update_self, h]
  · rw [Function.update_of_ne heq]

/-- A member that moves to a counted point is counted once more. -/
theorem census_enter (hi : i ∈ members) (hbefore : ¬ Counted (points i)) (hafter : Counted point) :
    census members Counted (Function.update points i point) =
      census members Counted points + 1 := by
  have hnot : i ∉ members.filter fun j ↦ Counted (points j) :=
    fun hmem ↦ hbefore (Finset.mem_filter.mp hmem).2
  rw [census, census, ← Finset.card_insert_of_notMem hnot]
  refine congrArg Finset.card (Finset.ext fun j ↦ ?_)
  rw [Finset.mem_insert, Finset.mem_filter, Finset.mem_filter]
  by_cases heq : j = i
  · subst heq
    rw [Function.update_self]
    exact iff_of_true ⟨hi, hafter⟩ (Or.inl rfl)
  · rw [Function.update_of_ne heq, or_iff_right heq]

/-- A member that moves away from a counted point is counted no more. -/
theorem census_leave (hi : i ∈ members) (hbefore : Counted (points i)) (hafter : ¬ Counted point) :
    census members Counted (Function.update points i point) + 1 =
      census members Counted points := by
  have hback : Function.update (Function.update points i point) i (points i) = points := by
    rw [Function.update_idem, Function.update_eq_self]
  have hmoved : ¬ Counted (Function.update points i point i) := by rwa [Function.update_self]
  have henter : census members Counted
      (Function.update (Function.update points i point) i (points i)) =
        census members Counted (Function.update points i point) + 1 :=
    census_enter hi hmoved hbefore
  rw [hback] at henter
  exact henter.symm

end Census
