import Mathlib.Init

/-!
# Cursors

A loop that walks over records: from each position, the record there says where the next one
starts, or the loop ends. Something shrinks at every step, so the walk is finite.

`trail` lists the positions at which the body of the loop runs, and `length_trail_le` bounds their
number.
-/

/-- A partial step function on positions, with a measure that it decreases. -/
structure Cursor (Pos : Type*) where
  next : Pos → Option Pos
  left : Pos → Nat
  left_lt : ∀ {pos after}, next pos = some after → left after < left pos

namespace Cursor

variable {Pos : Type*} (cursor : Cursor Pos)

/-- The positions from one on, up to the one without a next. -/
def trail (pos : Pos) : List Pos :=
  match _ : cursor.next pos with
  | none => []
  | some after => pos :: trail after
termination_by cursor.left pos
decreasing_by exact cursor.left_lt ‹_›

variable {cursor} {pos after : Pos}

theorem trail_of_none (h : cursor.next pos = none) : cursor.trail pos = [] := by
  rw [trail]
  split
  · rfl
  · next hsome => cases h.symm.trans hsome

theorem trail_of_some (h : cursor.next pos = some after) :
    cursor.trail pos = pos :: cursor.trail after := by
  rw [trail]
  split
  · next hnone => cases h.symm.trans hnone
  · next hsome =>
      cases h.symm.trans hsome
      rfl

/-- The body runs at most as often as the measure allows. -/
theorem length_trail_le (cursor : Cursor Pos) (pos : Pos) :
    (cursor.trail pos).length ≤ cursor.left pos := by
  fun_induction cursor.trail pos with
  | case1 pos h => exact Nat.zero_le _
  | case2 pos after h ih =>
      have hlt := cursor.left_lt h
      rw [List.length_cons]
      omega

end Cursor
