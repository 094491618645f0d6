import Mathlib.Data.Fin.Basic
import Mathlib.Data.List.Basic
import Mathlib.Data.Multiset.Basic
import Mathlib.Data.Nat.ModEq
import Mathlib.Logic.Function.Basic

/-!
# Ring buffers

A table of slots with two indices: items are written at the head and read at the tail, and both
wrap around. One slot stays free, so that a full ring differs from an empty one.

`contents` is the queue that a ring stands for. `contents_put` and `contents_drop` say that writing
at the head and moving the tail are the two queue operations; `contents_write_of_occupied` and
`contents_advance` say what a write anywhere and a move of the head do, for code that performs the
two halves of a queue operation separately.
-/

/-- A table of slots with the index of the next write and of the next read. -/
structure RingQueue (Item : Type*) (size : Nat) where
  slots : Fin size → Item
  head : Fin size
  tail : Fin size

namespace RingQueue

variable {Item : Type*} {size : Nat}

/-! ## Slots -/

/-- The slot some places after another. -/
def shift (i : Fin size) (k : Nat) : Fin size := ⟨(i.val + k) % size, Nat.mod_lt _ i.pos⟩

/-- The slot after another. -/
def next (i : Fin size) : Fin size := shift i 1

theorem shift_zero (i : Fin size) : shift i 0 = i := Fin.ext (Nat.mod_eq_of_lt i.isLt)

theorem next_shift (i : Fin size) (k : Nat) : next (shift i k) = shift i (k + 1) := by
  refine Fin.ext ?_
  show ((i.val + k) % size + 1) % size = (i.val + (k + 1)) % size
  rw [Nat.mod_add_mod, Nat.add_assoc]

theorem shift_next (i : Fin size) (k : Nat) : shift (next i) k = shift i (k + 1) := by
  refine Fin.ext ?_
  show ((i.val + 1) % size + k) % size = (i.val + (k + 1)) % size
  rw [Nat.mod_add_mod, Nat.add_assoc, Nat.add_comm 1 k]

/-- Within one round all slots are different. -/
theorem shift_inj {i : Fin size} {k l : Nat} (hk : k < size) (hl : l < size)
    (h : shift i k = shift i l) : k = l := by
  have hsum : i.val + k ≡ i.val + l [MOD size] := congrArg Fin.val h
  have hmod : k ≡ l [MOD size] := Nat.ModEq.add_left_cancel' i.val hsum
  exact hmod.eq_of_lt_of_lt hk hl

theorem next_inj {i j : Fin size} (h : next i = next j) : i = j := by
  have hsum : i.val + 1 ≡ j.val + 1 [MOD size] := congrArg Fin.val h
  have hmod : i.val ≡ j.val [MOD size] := Nat.ModEq.add_right_cancel' 1 hsum
  exact Fin.ext (hmod.eq_of_lt_of_lt i.isLt j.isLt)

/-! ## The queue -/

/-- The number of items between tail and head. -/
def filled (ring : RingQueue Item size) : Nat := (ring.head.val + size - ring.tail.val) % size

/-- The items between tail and head, the next one to be read first. -/
def contents (ring : RingQueue Item size) : List Item :=
  (List.range ring.filled).map fun k ↦ ring.slots (shift ring.tail k)

theorem length_contents (ring : RingQueue Item size) : ring.contents.length = ring.filled := by
  rw [contents, List.length_map, List.length_range]

theorem filled_lt (ring : RingQueue Item size) : ring.filled < size := Nat.mod_lt _ ring.head.pos

theorem getElem_contents (ring : RingQueue Item size) {k : Nat} (h : k < ring.contents.length) :
    ring.contents[k] = ring.slots (shift ring.tail k) := by
  simp [contents]

/-- The head is where the items end. -/
theorem shift_filled (ring : RingQueue Item size) : shift ring.tail ring.filled = ring.head := by
  have hhead := ring.head.isLt
  have htail := ring.tail.isLt
  refine Fin.ext ?_
  show (ring.tail.val + (ring.head.val + size - ring.tail.val) % size) % size = ring.head.val
  rw [Nat.add_mod_mod, show ring.tail.val + (ring.head.val + size - ring.tail.val) =
    ring.head.val + size by omega, Nat.add_mod_right, Nat.mod_eq_of_lt hhead]

/-- The number of items is the distance at which the head is found. -/
theorem filled_eq {ring : RingQueue Item size} {count : Nat} (hcount : count < size)
    (h : shift ring.tail count = ring.head) : ring.filled = count :=
  shift_inj ring.filled_lt hcount (ring.shift_filled.trans h.symm)

/-- The ring is empty when the indices agree. -/
theorem contents_eq_nil_iff (ring : RingQueue Item size) :
    ring.contents = [] ↔ ring.tail = ring.head := by
  rw [← List.length_eq_zero_iff, length_contents]
  constructor
  · intro hzero
    have hshift := ring.shift_filled
    rwa [hzero, shift_zero] at hshift
  · intro heq
    exact filled_eq ring.head.pos (by rw [shift_zero, heq])

/-- The ring is full when a write would make it look empty. -/
theorem next_head_eq_tail_iff (ring : RingQueue Item size) :
    next ring.head = ring.tail ↔ ring.contents.length + 1 = size := by
  have hlt := ring.filled_lt
  rw [length_contents, ← ring.shift_filled, next_shift]
  constructor
  · intro hfull
    by_contra hne
    have hzero : ring.filled + 1 = 0 :=
      shift_inj (by omega) ring.head.pos (hfull.trans (shift_zero ring.tail).symm)
    exact absurd hzero (Nat.succ_ne_zero _)
  · intro hsize
    refine Fin.ext ?_
    show (ring.tail.val + (ring.filled + 1)) % size = ring.tail.val
    rw [hsize, Nat.add_mod_right, Nat.mod_eq_of_lt ring.tail.isLt]

/-! ## Queue operations -/

/-- Write at the head and move it on. -/
def put (ring : RingQueue Item size) (item : Item) : RingQueue Item size :=
  ⟨Function.update ring.slots ring.head item, next ring.head, ring.tail⟩

/-- Move the tail on. -/
def drop (ring : RingQueue Item size) : RingQueue Item size := { ring with tail := next ring.tail }

/-- Write to any slot. -/
def write (ring : RingQueue Item size) (slot : Fin size) (item : Item) : RingQueue Item size :=
  { ring with slots := Function.update ring.slots slot item }

/-- The slot holds an item of the queue. -/
def Occupied (ring : RingQueue Item size) (slot : Fin size) : Prop :=
  ∃ k < ring.filled, shift ring.tail k = slot

instance (ring : RingQueue Item size) (slot : Fin size) : Decidable (ring.Occupied slot) :=
  inferInstanceAs (Decidable (∃ k < ring.filled, shift ring.tail k = slot))

/-- The head is not a slot of the queue. -/
theorem not_occupied_head (ring : RingQueue Item size) : ¬ ring.Occupied ring.head := by
  intro h
  obtain ⟨k, hk, heq⟩ := h
  have hlt := ring.filled_lt
  have hsame := shift_inj (by omega) hlt (heq.trans ring.shift_filled.symm)
  omega

/-- The tail is a slot of the queue, unless the ring is empty. -/
theorem occupied_tail {ring : RingQueue Item size} (h : ring.tail ≠ ring.head) :
    ring.Occupied ring.tail := by
  refine ⟨0, Nat.pos_of_ne_zero fun hzero ↦ h ?_, shift_zero ring.tail⟩
  have hshift := ring.shift_filled
  rwa [hzero, shift_zero] at hshift

/-- A write to a slot outside the queue leaves the queue alone. -/
theorem contents_write_of_not_occupied {ring : RingQueue Item size} {slot : Fin size}
    (h : ¬ ring.Occupied slot) (item : Item) : (ring.write slot item).contents = ring.contents := by
  refine List.map_congr_left fun k hk ↦ ?_
  refine Function.update_of_ne ?_ _ _
  intro heq
  exact h ⟨k, List.mem_range.mp hk, heq⟩

/-- A write to a slot of the queue replaces one item. -/
theorem contents_write_of_occupied {ring : RingQueue Item size} {k : Nat} (hk : k < ring.filled)
    (item : Item) :
    (ring.write (shift ring.tail k) item).contents = ring.contents.set k item := by
  have hlt := ring.filled_lt
  refine List.ext_getElem ?_ ?_
  · rw [List.length_set, length_contents, length_contents]
    rfl
  · intro l hl hl'
    have hfilled : l < ring.filled := by
      rw [length_contents] at hl
      exact hl
    rw [List.getElem_set, getElem_contents]
    show Function.update ring.slots (shift ring.tail k) item (shift ring.tail l) = _
    by_cases heq : k = l
    · subst heq
      rw [if_pos rfl, Function.update_self]
    · have hne : shift ring.tail l ≠ shift ring.tail k :=
        fun hshift ↦ heq (shift_inj (by omega) (by omega) hshift).symm
      rw [if_neg heq, Function.update_of_ne hne, getElem_contents]

/-- Moving the head on by one slot adds the item that this slot holds. -/
theorem contents_advance (ring : RingQueue Item size) (h : next ring.head ≠ ring.tail) :
    ({ ring with head := next ring.head } : RingQueue Item size).contents =
      ring.contents ++ [ring.slots ring.head] := by
  have hlt := ring.filled_lt
  have hroom : ring.filled + 1 < size := by
    have hfull := mt ring.next_head_eq_tail_iff.mpr h
    rw [length_contents] at hfull
    omega
  have hfilled : ({ ring with head := next ring.head } : RingQueue Item size).filled =
      ring.filled + 1 := by
    refine filled_eq hroom ?_
    show shift ring.tail (ring.filled + 1) = next ring.head
    rw [← next_shift, shift_filled]
  rw [contents, hfilled, List.range_succ, List.map_append, List.map_singleton]
  show ring.contents ++ [ring.slots (shift ring.tail ring.filled)] = _
  rw [shift_filled]

/-- Writing at the head adds an item, unless the ring is full. -/
theorem contents_put {ring : RingQueue Item size} (h : next ring.head ≠ ring.tail) (item : Item) :
    (ring.put item).contents = ring.contents ++ [item] := by
  have hwrite := contents_write_of_not_occupied ring.not_occupied_head item
  have hadvance := contents_advance (ring.write ring.head item) h
  rw [hwrite] at hadvance
  refine hadvance.trans ?_
  show ring.contents ++ [Function.update ring.slots ring.head item ring.head] = _
  rw [Function.update_self]

/-- Moving the tail on removes the item that the tail holds, unless the ring is empty. -/
theorem contents_drop {ring : RingQueue Item size} (h : ring.tail ≠ ring.head) :
    ring.contents = ring.slots ring.tail :: ring.drop.contents := by
  have hlt := ring.filled_lt
  have hne : ring.filled ≠ 0 := by
    intro hzero
    exact h ((contents_eq_nil_iff ring).mp
      (List.length_eq_zero_iff.mp (ring.length_contents.trans hzero)))
  obtain ⟨count, hcount⟩ := Nat.exists_eq_succ_of_ne_zero hne
  have hfilled : ring.drop.filled = count := by
    refine filled_eq (by omega) ?_
    show shift (next ring.tail) count = ring.head
    rw [shift_next, ← ring.shift_filled, hcount]
  rw [contents, contents, hcount, hfilled, List.range_succ_eq_map, List.map_cons, List.map_map,
    shift_zero]
  refine congrArg (List.cons _) (List.map_congr_left fun k _ ↦ ?_)
  show ring.slots (shift ring.tail (k + 1)) = ring.slots (shift (next ring.tail) k)
  rw [shift_next]

end RingQueue
