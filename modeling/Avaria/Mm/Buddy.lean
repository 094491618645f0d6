import Avaria.Lib.PackedBits
import Avaria.Mm.Pages

/-!
# The buddy allocator

`mm/buddy.rs`. One flat bitmap holds a bit for every block of every order: `bitIndex order idx`
is `2 ^ order - 1 + idx`, and a clear bit means that the block is free. `allocPages` takes the
first free block of the order asked for, or splits the first free block of a larger order;
`freePages` merges a block with its buddy as long as the buddy's bit is clear.

Orders are below 64 and page indices below `2 ^ 52`, so shifts and index sums do not wrap; the
address sum of `allocPages` is taken modulo `2 ^ 64`.

The second half gives each function one specification: `getBit` after a bit update,
`findFree_eq_some` and `findFree_eq_none`, `allocPages_eq_some` and `allocPages_eq_none` for the
answer, and the geometry lemmas for what no operation changes.
-/

namespace Avaria.Mm

/-- `MAX_ORDER` of `mm/buddy.rs`. -/
def MAX_ORDER : Nat := 20

/-- `BITMAP_SIZE` of `mm/buddy.rs`: the number of bits of the bitmap. -/
def BITMAP_SIZE : Nat := 1 <<< MAX_ORDER

/-- `struct BuddyAllocator`. -/
structure BuddyAllocator where
  base : Nat
  totalPages : Nat
  bitmap : PackedBits.Words (BITMAP_SIZE / 8) 8
  maxOrder : Nat

namespace BuddyAllocator

/-- `BuddyAllocator::init`, which overwrites every field. -/
def init (base size : Nat) : BuddyAllocator where
  base := base
  totalPages := size / PAGE_SIZE
  bitmap := fun _ ↦ 0#8
  maxOrder := growOrder (size / PAGE_SIZE) MAX_ORDER 0

/-- `bit_index`. -/
def bitIndex (order idx : Nat) : Nat := (1 <<< order) - 1 + idx

/-- `get_bit`: bits beyond the bitmap read as allocated. -/
def getBit (buddy : BuddyAllocator) (bit : Nat) : Bool :=
  if h : bit / 8 < BITMAP_SIZE / 8 then
    decide (buddy.bitmap ⟨bit / 8, h⟩ &&& PackedBits.mask 8 (bit % 8) ≠ 0#8)
  else true

/-- `set_bit`: bits beyond the bitmap are dropped. -/
def setBit (buddy : BuddyAllocator) (bit : Nat) : BuddyAllocator :=
  { buddy with
    bitmap :=
      if h : bit / 8 < BITMAP_SIZE / 8 then PackedBits.set buddy.bitmap ⟨bit / 8, h⟩ (bit % 8)
      else buddy.bitmap }

/-- `clear_bit`: bits beyond the bitmap are dropped. -/
def clearBit (buddy : BuddyAllocator) (bit : Nat) : BuddyAllocator :=
  { buddy with
    bitmap :=
      if h : bit / 8 < BITMAP_SIZE / 8 then PackedBits.clear buddy.bitmap ⟨bit / 8, h⟩ (bit % 8)
      else buddy.bitmap }

/-- `is_free`, whose two branches read the same bit. -/
def isFree (buddy : BuddyAllocator) (order idx : Nat) : Bool :=
  if order = buddy.maxOrder then !buddy.getBit (bitIndex order idx)
  else !buddy.getBit (bitIndex order idx)

/-- `mark_allocated`. -/
def markAllocated (buddy : BuddyAllocator) (order idx : Nat) : BuddyAllocator :=
  buddy.setBit (bitIndex order idx)

/-- `mark_free`. -/
def markFree (buddy : BuddyAllocator) (order idx : Nat) : BuddyAllocator :=
  buddy.clearBit (bitIndex order idx)

/-- `find_free`: the lowest free index of the order. -/
def findFree (buddy : BuddyAllocator) (order : Nat) : Option Nat :=
  (List.range (buddy.totalPages >>> order)).find? fun idx ↦ buddy.isFree order idx

/-- The address that `alloc_pages` returns for a page index. -/
def pageAddr (buddy : BuddyAllocator) (page : Nat) : Nat :=
  usize (buddy.base + page * PAGE_SIZE)

/-- The loop `while current_order > order` of `alloc_pages`, with `current_order - order` levels
left: keep the lower half and free the upper one. -/
def splitDown (order : Nat) : Nat → Nat → BuddyAllocator → Nat × BuddyAllocator
  | 0, idx, buddy => (idx, buddy)
  | levels + 1, idx, buddy =>
      splitDown order levels (idx * 2) (buddy.markFree (order + levels) (idx * 2 + 1))

/-- The loop `while split_order <= self.max_order` of `alloc_pages`, with the number of larger
orders left to try. -/
def splitFrom (buddy : BuddyAllocator) (order : Nat) : Nat → Nat → Option Nat × BuddyAllocator
  | 0, _ => (none, buddy)
  | left + 1, splitOrder =>
      match buddy.findFree splitOrder with
      | some idx =>
          let split := splitDown order (splitOrder - order) idx
            (buddy.markAllocated splitOrder idx)
          (some (buddy.pageAddr (split.1 <<< order)), split.2)
      | none => buddy.splitFrom order left (splitOrder + 1)

/-- `alloc_pages`. -/
def allocPages (buddy : BuddyAllocator) (order : Nat) : Option Nat × BuddyAllocator :=
  if order > buddy.maxOrder then (none, buddy)
  else
    match buddy.findFree order with
    | some idx => (some (buddy.pageAddr (idx <<< order)), buddy.markAllocated order idx)
    | none => buddy.splitFrom order (buddy.maxOrder - order) (order + 1)

/-- The loop `while current_order < self.max_order` of `free_pages`, with the number of orders
left below `max_order`: merge with the buddy while the buddy's bit is clear. -/
def mergeUp : Nat → Nat → Nat → BuddyAllocator → BuddyAllocator
  | 0, _, _, buddy => buddy
  | left + 1, order, idx, buddy =>
      -- no test that the buddy lies inside the region
      if buddy.isFree order (idx ^^^ 1) then
        mergeUp left (order + 1) (idx >>> 1)
          (((buddy.markAllocated order idx).markAllocated order (idx ^^^ 1)).markFree
            (order + 1) (idx >>> 1))
      else buddy

/-- `free_pages`. -/
def freePages (buddy : BuddyAllocator) (addr order : Nat) : BuddyAllocator :=
  if addr < buddy.base then buddy
  else
    let page := (addr - buddy.base) / PAGE_SIZE
    let idx := page >>> order
    mergeUp (buddy.maxOrder - order) order idx (buddy.markFree order idx)

/-! ## Bits -/

/-- The bitmap has a bit at this index. -/
def InBitmap (bit : Nat) : Prop := bit / 8 < BITMAP_SIZE / 8

instance (bit : Nat) : Decidable (InBitmap bit) := inferInstanceAs (Decidable (_ < _))

theorem inBitmap_iff {bit : Nat} : InBitmap bit ↔ bit < 2 ^ 20 := by
  unfold InBitmap BITMAP_SIZE MAX_ORDER
  rw [Nat.shiftLeft_eq]
  omega

theorem getBit_eq (buddy : BuddyAllocator) (bit : Nat) :
    buddy.getBit bit = if InBitmap bit then PackedBits.bit buddy.bitmap bit else true := by
  unfold getBit
  by_cases h : bit / 8 < BITMAP_SIZE / 8
  · have hmod : bit % 8 < 8 := Nat.mod_lt _ (by decide)
    simp only [InBitmap, h, ↓reduceDIte, ↓reduceIte, PackedBits.bit_of_lt h,
      PackedBits.and_mask_ne_zero_iff hmod, Bool.decide_eq_true]
  · simp [InBitmap, h]

@[simp] theorem getBit_setBit (buddy : BuddyAllocator) (i j : Nat) :
    (buddy.setBit i).getBit j = (decide (j = i) || buddy.getBit j) := by
  rw [getBit_eq, getBit_eq]
  unfold setBit
  by_cases h : InBitmap i
  · rw [InBitmap] at h
    simp only [h, ↓reduceDIte, PackedBits.bit_set _ (by decide : 0 < 8) h]
    split <;> simp
  · have h' := h
    rw [InBitmap] at h'
    simp only [h', ↓reduceDIte]
    by_cases hj : j = i
    · simp [hj, h]
    · simp [hj]

@[simp] theorem getBit_clearBit (buddy : BuddyAllocator) (i j : Nat) :
    (buddy.clearBit i).getBit j = (!decide (j = i ∧ InBitmap i) && buddy.getBit j) := by
  rw [getBit_eq, getBit_eq]
  unfold clearBit
  by_cases h : InBitmap i
  · have h' := h
    rw [InBitmap] at h'
    simp only [h', ↓reduceDIte, PackedBits.bit_clear _ (by decide : 0 < 8) h']
    by_cases hj : j = i
    · subst hj
      simp [h]
    · simp [hj]
  · have h' := h
    rw [InBitmap] at h'
    simp [h', h]

@[simp] theorem isFree_eq (buddy : BuddyAllocator) (order idx : Nat) :
    buddy.isFree order idx = !buddy.getBit (bitIndex order idx) := by
  unfold isFree
  split <;> rfl

theorem bitIndex_eq (order idx : Nat) : bitIndex order idx = 2 ^ order - 1 + idx := by
  simp [bitIndex, Nat.shiftLeft_eq]

/-! ## What no operation changes -/

/-- The region and the orders that the allocator manages. -/
def geometry (buddy : BuddyAllocator) : Nat × Nat × Nat :=
  (buddy.base, buddy.totalPages, buddy.maxOrder)

@[simp] theorem geometry_markAllocated (buddy : BuddyAllocator) (order idx : Nat) :
    (buddy.markAllocated order idx).geometry = buddy.geometry := rfl

theorem geometry_splitDown (order levels idx : Nat) (buddy : BuddyAllocator) :
    (splitDown order levels idx buddy).2.geometry = buddy.geometry := by
  induction levels generalizing idx buddy with
  | zero => rfl
  | succ levels ih => exact ih _ _

theorem geometry_mergeUp (left order idx : Nat) (buddy : BuddyAllocator) :
    (mergeUp left order idx buddy).geometry = buddy.geometry := by
  induction left generalizing order idx buddy with
  | zero => rfl
  | succ left ih =>
      unfold mergeUp
      split
      · exact ih _ _ _
      · rfl

theorem geometry_freePages (buddy : BuddyAllocator) (addr order : Nat) :
    (buddy.freePages addr order).geometry = buddy.geometry := by
  unfold freePages
  split
  · rfl
  · exact geometry_mergeUp _ _ _ _

/-! ## Searching -/

/-- The slot is one of the blocks of its order that `find_free` looks at. -/
def InRange (buddy : BuddyAllocator) (order idx : Nat) : Prop :=
  idx < buddy.totalPages >>> order

theorem findFree_eq_some {buddy : BuddyAllocator} {order idx : Nat} :
    buddy.findFree order = some idx ↔
      buddy.InRange order idx ∧ buddy.isFree order idx = true ∧
        ∀ j < idx, buddy.isFree order j = false := by
  unfold findFree InRange
  rw [List.find?_range_eq_some]
  simp only [List.mem_range, Bool.not_eq_eq_eq_not, Bool.not_true]
  tauto

theorem findFree_eq_none {buddy : BuddyAllocator} {order : Nat} :
    buddy.findFree order = none ↔
      ∀ idx, buddy.InRange order idx → buddy.isFree order idx = false := by
  unfold findFree InRange
  simp

/-- The first free slot in the order in which `alloc_pages(order)` looks: orders from `order` to
`max_order`, and in each the lowest index. -/
structure FirstFree (buddy : BuddyAllocator) (order slotOrder idx : Nat) : Prop where
  order_le : order ≤ slotOrder
  le_maxOrder : slotOrder ≤ buddy.maxOrder
  inRange : buddy.InRange slotOrder idx
  free : buddy.isFree slotOrder idx = true
  lower_taken : ∀ j < idx, buddy.isFree slotOrder j = false
  smaller_taken : ∀ o, order ≤ o → o < slotOrder → ∀ j, buddy.InRange o j →
    buddy.isFree o j = false

/-- No free slot has a smaller order. -/
theorem FirstFree.slotOrder_le {buddy : BuddyAllocator} {order o₁ i₁ o₂ i₂ : Nat}
    (h₁ : buddy.FirstFree order o₁ i₁) (h₂ : buddy.FirstFree order o₂ i₂) : o₁ ≤ o₂ := by
  by_contra hlt
  have htaken := h₁.smaller_taken o₂ h₂.order_le (Nat.lt_of_not_le hlt) i₂ h₂.inRange
  rw [h₂.free] at htaken
  cases htaken

/-- No free slot of its order has a lower index. -/
theorem FirstFree.idx_le {buddy : BuddyAllocator} {order o i₁ i₂ : Nat}
    (h₁ : buddy.FirstFree order o i₁) (h₂ : buddy.FirstFree order o i₂) : i₁ ≤ i₂ := by
  by_contra hlt
  have htaken := h₁.lower_taken i₂ (Nat.lt_of_not_le hlt)
  rw [h₂.free] at htaken
  cases htaken

/-- There is at most one first free slot. -/
theorem FirstFree.unique {buddy : BuddyAllocator} {order o₁ i₁ o₂ i₂ : Nat}
    (h₁ : buddy.FirstFree order o₁ i₁) (h₂ : buddy.FirstFree order o₂ i₂) :
    o₁ = o₂ ∧ i₁ = i₂ := by
  obtain rfl : o₁ = o₂ := Nat.le_antisymm (h₁.slotOrder_le h₂) (h₂.slotOrder_le h₁)
  exact ⟨rfl, Nat.le_antisymm (h₁.idx_le h₂) (h₂.idx_le h₁)⟩

/-- Where there is a first free slot, not every slot is taken. -/
theorem FirstFree.not_all_taken {buddy : BuddyAllocator} {order slotOrder idx : Nat}
    (h : buddy.FirstFree order slotOrder idx) :
    ¬ ∀ o, order ≤ o → o ≤ buddy.maxOrder → ∀ idx, buddy.InRange o idx →
      buddy.isFree o idx = false := by
  intro hall
  have htaken := hall slotOrder h.order_le h.le_maxOrder idx h.inRange
  rw [h.free] at htaken
  cases htaken

/-- Splitting keeps the first page of the block. -/
theorem splitDown_fst (order levels idx : Nat) (buddy : BuddyAllocator) :
    (splitDown order levels idx buddy).1 = idx * 2 ^ levels := by
  induction levels generalizing idx buddy with
  | zero => simp [splitDown]
  | succ levels ih =>
      unfold splitDown
      rw [ih, pow_succ, Nat.mul_assoc, Nat.mul_comm 2]

/-- When an order has no free slot, the search goes on with the next one. -/
theorem findFree_from_succ {buddy : BuddyAllocator} {order : Nat} {within : Nat → Prop}
    (hfind : buddy.findFree order = none)
    (hrest : ∀ o, order + 1 ≤ o → within o → buddy.findFree o = none) :
    ∀ o, order ≤ o → within o → buddy.findFree o = none := by
  intro o hle hwithin
  rcases Nat.eq_or_lt_of_le hle with rfl | hlt
  · exact hfind
  · exact hrest o hlt hwithin

/-- What the split loop does: it takes the first free slot at or above `splitOrder`, or finds
every slot of these orders taken and changes nothing. -/
theorem splitFrom_cases (buddy : BuddyAllocator) (order left splitOrder : Nat)
    (hlt : order < splitOrder) :
    (∃ slotOrder idx split, splitOrder ≤ slotOrder ∧ slotOrder < splitOrder + left ∧
      buddy.findFree slotOrder = some idx ∧
      (∀ o, splitOrder ≤ o → o < slotOrder → buddy.findFree o = none) ∧
      split.geometry = buddy.geometry ∧
      buddy.splitFrom order left splitOrder =
        (some (buddy.pageAddr (idx <<< slotOrder)), split)) ∨
    ((∀ o, splitOrder ≤ o → o < splitOrder + left → buddy.findFree o = none) ∧
      buddy.splitFrom order left splitOrder = (none, buddy)) := by
  -- over the orders left to try; the orders below `splitOrder` are those already found taken
  induction left generalizing splitOrder with
  | zero => exact Or.inr ⟨fun o h₁ h₂ ↦ absurd h₂ (by omega), rfl⟩
  | succ left ih =>
      unfold splitFrom
      cases hfind : buddy.findFree splitOrder with
      | some idx =>
          refine Or.inl ⟨splitOrder, idx, _, le_rfl, by omega, hfind,
            fun o h₁ h₂ ↦ absurd h₁ (by omega),
            geometry_splitDown order (splitOrder - order) idx
              (buddy.markAllocated splitOrder idx), ?_⟩
          -- the block of `order` kept by the split starts at the first page of the slot
          have hpow : idx * 2 ^ (splitOrder - order) * 2 ^ order = idx * 2 ^ splitOrder := by
            rw [Nat.mul_assoc, ← pow_add, Nat.sub_add_cancel hlt.le]
          simp only [splitDown_fst, Nat.shiftLeft_eq, hpow]
      | none =>
          rcases ih (splitOrder + 1) (by omega) with
            ⟨slotOrder, idx, split, hle, hslot, hidx, hsmaller, hgeometry, heq⟩ | ⟨hall, heq⟩
          · exact Or.inl ⟨slotOrder, idx, split, by omega, by omega, hidx,
              findFree_from_succ hfind hsmaller, hgeometry, heq⟩
          · refine Or.inr ⟨findFree_from_succ hfind fun o h₁ h₂ ↦ ?_, heq⟩
            exact hall o h₁ (by omega)

/-- Everything a call of `alloc_pages` can do: hand out the leading pages of the first free slot,
or find every slot it looks at taken and change nothing. -/
theorem allocPages_cases (buddy : BuddyAllocator) (order : Nat) :
    (∃ slotOrder idx after, buddy.FirstFree order slotOrder idx ∧
      after.geometry = buddy.geometry ∧
      buddy.allocPages order = (some (buddy.pageAddr (idx <<< slotOrder)), after)) ∨
    ((∀ o, order ≤ o → o ≤ buddy.maxOrder → buddy.findFree o = none) ∧
      buddy.allocPages order = (none, buddy)) := by
  unfold allocPages
  by_cases horder : order > buddy.maxOrder
  · exact Or.inr ⟨fun o h₁ h₂ ↦ absurd h₁ (by omega), by simp [horder]⟩
  simp only [horder, ↓reduceIte]
  cases hfind : buddy.findFree order with
  | some idx =>
      obtain ⟨hrange, hfree, hlower⟩ := findFree_eq_some.mp hfind
      exact Or.inl ⟨order, idx, _, ⟨le_rfl, by omega, hrange, hfree, hlower,
        fun o h₁ h₂ ↦ absurd h₁ (by omega)⟩, geometry_markAllocated _ _ _, rfl⟩
  | none =>
      rcases buddy.splitFrom_cases order (buddy.maxOrder - order) (order + 1) (by omega) with
        ⟨slotOrder, idx, split, hle, hslot, hidx, hsmaller, hgeometry, heq⟩ | ⟨hall, heq⟩
      · obtain ⟨hrange, hfree, hlower⟩ := findFree_eq_some.mp hidx
        have htaken := findFree_from_succ hfind hsmaller
        exact Or.inl ⟨slotOrder, idx, split, ⟨by omega, by omega, hrange, hfree, hlower,
          fun o h₁ h₂ ↦ findFree_eq_none.mp (htaken o h₁ h₂)⟩, hgeometry, heq⟩
      · refine Or.inr ⟨findFree_from_succ hfind fun o h₁ h₂ ↦ ?_, heq⟩
        exact hall o h₁ (by omega)

theorem geometry_allocPages (buddy : BuddyAllocator) (order : Nat) :
    (buddy.allocPages order).2.geometry = buddy.geometry := by
  rcases buddy.allocPages_cases order with ⟨_, _, _, _, hgeometry, heq⟩ | ⟨_, heq⟩
  · rw [heq]
    exact hgeometry
  · rw [heq]

/-- `alloc_pages` returns the address of the first free slot. -/
theorem allocPages_eq_some {buddy : BuddyAllocator} {order addr : Nat} :
    (buddy.allocPages order).1 = some addr ↔
      ∃ slotOrder idx, buddy.FirstFree order slotOrder idx ∧
        addr = buddy.pageAddr (idx <<< slotOrder) := by
  rcases buddy.allocPages_cases order with
    ⟨slotOrder, idx, after, hfirst, -, heq⟩ | ⟨hall, heq⟩
  · rw [heq]
    constructor
    · intro hcase
      cases hcase
      exact ⟨slotOrder, idx, hfirst, rfl⟩
    · intro hcase
      obtain ⟨otherOrder, otherIdx, hother, rfl⟩ := hcase
      obtain ⟨rfl, rfl⟩ := hfirst.unique hother
      rfl
  · rw [heq]
    constructor
    · intro hcase
      cases hcase
    · intro hcase
      obtain ⟨slotOrder, idx, hfirst, rfl⟩ := hcase
      exact absurd (fun o h₁ h₂ ↦ findFree_eq_none.mp (hall o h₁ h₂)) hfirst.not_all_taken

/-- `alloc_pages` fails exactly when every slot it looks at is taken. -/
theorem allocPages_eq_none {buddy : BuddyAllocator} {order : Nat} :
    (buddy.allocPages order).1 = none ↔
      ∀ o, order ≤ o → o ≤ buddy.maxOrder → ∀ idx, buddy.InRange o idx →
        buddy.isFree o idx = false := by
  rcases buddy.allocPages_cases order with
    ⟨slotOrder, idx, after, hfirst, -, heq⟩ | ⟨hall, heq⟩
  · rw [heq]
    constructor
    · intro hcase
      cases hcase
    · exact fun h ↦ absurd h hfirst.not_all_taken
  · rw [heq]
    exact ⟨fun _ o h₁ h₂ ↦ findFree_eq_none.mp (hall o h₁ h₂), fun _ ↦ rfl⟩

instance : PageSource BuddyAllocator where
  allocPages := allocPages
  freePages := freePages
  allocPages_none := by
    intro buddy order h
    rcases buddy.allocPages_cases order with ⟨_, _, _, _, _, heq⟩ | ⟨_, heq⟩
    · simp [heq] at h
    · rw [heq]

end BuddyAllocator

end Avaria.Mm
