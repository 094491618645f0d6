import Mathlib.Order.CompletePartialOrder
import Mathlib.Order.Interval.Set.Disjoint
import Mathlib.Data.Nat.Basic

/-!
# Address ranges

An extent is a range of consecutive addresses. `Apart` is the decidable form of disjointness:
one range ends before the other begins. For ranges that are not empty it agrees with
disjointness of the address sets (`apart_iff_disjoint`).
-/

/-- The `length` addresses from `start` on. -/
structure Extent where
  start : Nat
  length : Nat
  deriving DecidableEq, Repr

namespace Extent

/-- The addresses of the range, as a set. -/
def addresses (extent : Extent) : Set Nat := Set.Ico extent.start (extent.start + extent.length)

/-- One range ends before the other begins. -/
def Apart (a b : Extent) : Prop :=
  a.start + a.length ≤ b.start ∨ b.start + b.length ≤ a.start

instance (a b : Extent) : Decidable (a.Apart b) := inferInstanceAs (Decidable (_ ∨ _))

/-- The first range lies inside the second. -/
def Within (a b : Extent) : Prop :=
  b.start ≤ a.start ∧ a.start + a.length ≤ b.start + b.length

instance (a b : Extent) : Decidable (a.Within b) := inferInstanceAs (Decidable (_ ∧ _))

/-- The address lies in the range. -/
def Contains (extent : Extent) (addr : Nat) : Prop :=
  extent.start ≤ addr ∧ addr < extent.start + extent.length

instance (extent : Extent) (addr : Nat) : Decidable (extent.Contains addr) :=
  inferInstanceAs (Decidable (_ ∧ _))

theorem Apart.symm {a b : Extent} (h : a.Apart b) : b.Apart a := Or.symm h

theorem Within.refl (a : Extent) : a.Within a := ⟨le_rfl, le_rfl⟩

/-- Ranges inside separate ranges are separate. -/
theorem Apart.mono {a b a' b' : Extent} (h : a.Apart b) (ha : a'.Within a) (hb : b'.Within b) :
    a'.Apart b' := by
  unfold Apart Within at *
  omega

/-- An address is in at most one of two separate ranges. -/
theorem Apart.not_contains {a b : Extent} (h : a.Apart b) {addr : Nat} (ha : a.Contains addr) :
    ¬ b.Contains addr := by
  unfold Apart Contains at *
  omega

/-- A range has the addresses of the ranges inside it. -/
theorem Within.contains {a b : Extent} (h : a.Within b) {addr : Nat} (ha : a.Contains addr) :
    b.Contains addr := by
  unfold Within Contains at *
  omega

/-- A range that is not empty is not separate from itself. -/
theorem not_apart_self {a : Extent} (ha : 0 < a.length) : ¬ a.Apart a := by
  unfold Apart
  omega

/-- Ranges that are not empty are separate exactly when they share no address. -/
theorem apart_iff_disjoint {a b : Extent} (ha : 0 < a.length) (hb : 0 < b.length) :
    a.Apart b ↔ Disjoint a.addresses b.addresses := by
  unfold Apart addresses
  rw [Set.Ico_disjoint_Ico]
  omega

end Extent
