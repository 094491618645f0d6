import Mathlib.Algebra.Order.Group.Multiset

/-!
# Ledgers of obtained and returned items

A ledger records which items were obtained and which were given back, the latest entry first. `live`
is what is held after all entries, and is undefined once an item was given back that was not held.

`Gains` compares two ledgers: whatever was held before, the later ledger holds some items more. It
composes (`Gains.trans`), an item that was obtained in between may be given back
(`Gains.give_back`), and no other one in its place (`Gains.give_back_iff`).
-/

namespace Ledger

/-- An entry of a ledger. -/
inductive Event (Item : Type*) where
  | obtained (item : Item)
  | gaveBack (item : Item)
  deriving DecidableEq

variable {Item : Type*} [DecidableEq Item]

/-- The items that are held after all entries. -/
def live : List (Event Item) → Option (Multiset Item)
  | [] => some 0
  | .obtained item :: earlier => (live earlier).map fun held ↦ item ::ₘ held
  | .gaveBack item :: earlier =>
      (live earlier).bind fun held ↦ if item ∈ held then some (held.erase item) else none

/-- The items that were given back, the latest first. -/
def returned : List (Event Item) → List Item
  | [] => []
  | .obtained _ :: earlier => returned earlier
  | .gaveBack item :: earlier => item :: returned earlier

/-- The later ledger holds what the earlier one held and some items more, and is undefined if that
was. -/
def Gains (items : Multiset Item) (before after : List (Event Item)) : Prop :=
  live after = (live before).map (items + ·)

variable {items more held : Multiset Item} {before middle after : List (Event Item)}
  {item other : Item}

theorem Gains.refl (before : List (Event Item)) : Gains 0 before before := by
  simp only [Gains, zero_add, Option.map_id']

theorem Gains.trans (h : Gains items before middle) (hrest : Gains more middle after) :
    Gains (more + items) before after := by
  rw [Gains, hrest, h, Option.map_map]
  simp only [Function.comp_def, add_assoc]

/-- What is held after a ledger that is defined. -/
theorem Gains.live_eq (h : Gains items before after) (hheld : live before = some held) :
    live after = some (items + held) := by
  rw [h, hheld]
  rfl

/-- A ledger stays undefined. -/
theorem Gains.live_eq_none (h : Gains items before after) (hnone : live before = none) :
    live after = none := by
  rw [h, hnone]
  rfl

/-- An item is obtained. -/
theorem Gains.obtain (before : List (Event Item)) (item : Item) :
    Gains {item} before (.obtained item :: before) := by
  simp only [Gains, live, Multiset.singleton_add]

/-- An item that was obtained is given back. -/
theorem Gains.give_back (h : Gains (items + {item}) before after) :
    Gains items before (.gaveBack item :: after) := by
  rw [Gains, live, h]
  cases live before with
  | none => rfl
  | some held =>
      have hmem : item ∈ items + {item} + held :=
        Multiset.mem_add.mpr
          (Or.inl (Multiset.mem_add.mpr (Or.inr (Multiset.mem_singleton_self item))))
      have herase : (items + {item} + held).erase item = items + held := by
        rw [add_right_comm, add_comm _ ({item} : Multiset Item), Multiset.singleton_add,
          Multiset.erase_cons_head]
      rw [Option.map_some, Option.bind_some, if_pos hmem, herase, Option.map_some]

/-- Giving back another item instead never has the same effect. -/
theorem Gains.give_back_iff (h : Gains (items + {item}) before after)
    (hheld : live before = some held) :
    Gains items before (.gaveBack other :: after) ↔ other = item := by
  constructor
  · intro hgains
    have hlive := hgains.live_eq hheld
    rw [live, h.live_eq hheld, Option.bind_some] at hlive
    by_cases hmem : other ∈ items + {item} + held
    · rw [if_pos hmem] at hlive
      have hcons := Multiset.cons_erase hmem
      rw [Option.some.inj hlive, add_right_comm, add_comm _ ({item} : Multiset Item),
        Multiset.singleton_add] at hcons
      exact (Multiset.cons_inj_left _).mp hcons
    · rw [if_neg hmem] at hlive
      cases hlive
  · rintro rfl
    exact h.give_back

/-- An item that is not held is given back. -/
theorem live_gaveBack_of_not_mem (hheld : live before = some held) (h : item ∉ held) :
    live (.gaveBack item :: before) = none := by
  rw [live, hheld, Option.bind_some, if_neg h]

end Ledger
