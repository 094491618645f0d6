import Avaria.Mm.Buddy
import Avaria.Mm.Slab

/-!
# kmalloc and kfree

The allocation entry points of `mem.rs` over the slab allocator and a page source. Requests of at
most 2048 bytes go to the slab allocator first; larger ones, aligned ones and those that the slab
allocator turns down are rounded to pages and served by a block of the page source.

`kmallocWith` and `kmallocAlignedWith` also name the owner of the block, which the source does not
record. `kmalloc_covers_iff` says for which sizes the block is large enough: the rounding
`size + PAGE_SIZE - 1` wraps for the 4095 largest sizes, and these get a single page.
-/

namespace Avaria.Mem

open Mm

/-- The statics `SLAB` and `BUDDY`. -/
structure Heap (σ : Type*) where
  slab : SlabAllocator
  buddy : σ

/-- The layer that produced a block: a slab slot of this many bytes, or a block of the page source
of this order. -/
inductive Owner where
  | slab (objSize : Nat)
  | buddy (order : Nat)
  deriving DecidableEq, Repr

/-- The bytes that the block provides. -/
def Owner.bytes : Owner → Nat
  | .slab objSize => objSize
  | .buddy order => PAGE_SIZE * 2 ^ order

/-- The order that the entry points compute from a size. The loop runs at most 64 times, and
`growOrder` stops at the first order that covers the pages (`pages_le_orderFor`). -/
def orderFor (size : Nat) : Nat :=
  let pages := usize (size + PAGE_SIZE - 1) / PAGE_SIZE
  growOrder pages 64 0

namespace Heap

variable {σ : Type*} [PageSource σ]

/-- The page request at the end of `kmalloc` and `kmalloc_aligned`. -/
def allocOrder (heap : Heap σ) (order : Nat) : Option (Nat × Owner) × Heap σ :=
  match PageSource.allocPages heap.buddy order with
  | (some addr, buddy) => (some (addr, .buddy order), { heap with buddy })
  | (none, buddy) => (none, { heap with buddy })

/-- `kmalloc`, with the owner of the block. -/
def kmallocWith (heap : Heap σ) (size : Nat) : Option (Nat × Owner) × Heap σ :=
  if size = 0 then (none, heap)
  else if size ≤ 2048 then
    match heap.slab.alloc size heap.buddy with
    | (some ptr, slab, buddy) => (some (ptr, .slab (slotSize size)), ⟨slab, buddy⟩)
    | (none, slab, buddy) => Heap.allocOrder ⟨slab, buddy⟩ (orderFor size)
  else heap.allocOrder (orderFor size)

/-- The size that `kmalloc_aligned` requests. -/
def alignedSize (size align : Nat) : Nat := if size < align then align else size

/-- `kmalloc_aligned`, with the owner of the block. -/
def kmallocAlignedWith (heap : Heap σ) (size align : Nat) : Option (Nat × Owner) × Heap σ :=
  if size = 0 then (none, heap)
  else heap.allocOrder (orderFor (alignedSize size align))

/-- The pointer that an entry point returns; no block is the null pointer. -/
def pointer (result : Option (Nat × Owner)) : Nat := result.elim 0 Prod.fst

/-- `kmalloc`. -/
def kmalloc (heap : Heap σ) (size : Nat) : Nat × Heap σ :=
  let result := heap.kmallocWith size
  (pointer result.1, result.2)

/-- `kmalloc_aligned`. -/
def kmallocAligned (heap : Heap σ) (size align : Nat) : Nat × Heap σ :=
  let result := heap.kmallocAlignedWith size align
  (pointer result.1, result.2)

/-- The call of `free_pages` at the end of `kfree`. -/
def freeOrder (heap : Heap σ) (ptr order : Nat) : Heap σ :=
  { heap with buddy := PageSource.freePages heap.buddy ptr order }

/-- `kfree`. -/
def kfree (heap : Heap σ) (ptr size : Nat) : Heap σ :=
  if ptr = 0 ∨ size = 0 then heap
  else if size ≤ 2048 then
    match heap.slab.free ptr heap.buddy with
    | (true, slab, buddy) => ⟨slab, buddy⟩
    | (false, slab, buddy) => Heap.freeOrder ⟨slab, buddy⟩ ptr (orderFor size)
  else heap.freeOrder ptr (orderFor size)

end Heap

/-! ## The order of a size -/

/-- The order loop ends at an order that covers the pages. -/
theorem pages_le_orderFor (size : Nat) :
    usize (size + PAGE_SIZE - 1) / PAGE_SIZE ≤ 2 ^ orderFor size := by
  have hlt : usize (size + PAGE_SIZE - 1) / PAGE_SIZE ≤ 2 ^ 64 :=
    le_trans (Nat.div_le_self _ _) (usize_lt _).le
  exact le_two_pow_growOrder _ 64 0 (by simpa using hlt)

/-- A request of at most one page has order 0. -/
theorem orderFor_of_pages_le_one {size : Nat}
    (h : usize (size + PAGE_SIZE - 1) / PAGE_SIZE ≤ 1) : orderFor size = 0 := by
  simp only [orderFor, growOrder]
  rw [if_neg]
  simpa using h

theorem orderFor_of_le_page {size : Nat} (h : size ≤ PAGE_SIZE) : orderFor size = 0 := by
  refine orderFor_of_pages_le_one ?_
  rw [PAGE_SIZE] at *
  rw [usize_eq (by omega)]
  omega

/-- Where the rounding does not wrap, a block of the computed order covers the size. -/
theorem le_bytes_orderFor {size : Nat} (h : size ≤ 2 ^ 64 - PAGE_SIZE) :
    size ≤ (Owner.buddy (orderFor size)).bytes := by
  have hpages := pages_le_orderFor size
  rw [usize_eq (by rw [PAGE_SIZE] at *; omega)] at hpages
  have hmul := Nat.mul_le_mul_left PAGE_SIZE hpages
  have hround : size ≤ PAGE_SIZE * ((size + PAGE_SIZE - 1) / PAGE_SIZE) := by
    rw [PAGE_SIZE]
    omega
  exact le_trans hround hmul

/-- It is the least order of such a block. -/
theorem orderFor_le {size order : Nat} (h : size ≤ 2 ^ 64 - PAGE_SIZE)
    (horder : size ≤ (Owner.buddy order).bytes) : orderFor size ≤ order := by
  by_contra hlt
  have hpages : 2 ^ order < usize (size + PAGE_SIZE - 1) / PAGE_SIZE :=
    two_pow_lt_of_lt_growOrder (Nat.zero_le order) (Nat.lt_of_not_le hlt)
  rw [usize_eq (by rw [PAGE_SIZE] at *; omega)] at hpages
  simp only [Owner.bytes] at horder
  rw [PAGE_SIZE] at *
  omega

theorem bytes_mono {order order' : Nat} (h : order ≤ order') :
    (Owner.buddy order).bytes ≤ (Owner.buddy order').bytes :=
  Nat.mul_le_mul_left PAGE_SIZE (Nat.pow_le_pow_right Nat.two_pos h)

/-- Where the rounding does not wrap, the orders from the computed one on are those that cover the
size. -/
theorem orderFor_le_iff {size order : Nat} (h : size ≤ 2 ^ 64 - PAGE_SIZE) :
    orderFor size ≤ order ↔ size ≤ (Owner.buddy order).bytes :=
  ⟨fun hle ↦ (le_bytes_orderFor h).trans (bytes_mono hle), orderFor_le h⟩

/-- Where it wraps, the order is 0. -/
theorem orderFor_of_wrap {size : Nat} (h : 2 ^ 64 - PAGE_SIZE < size) (hsize : size < 2 ^ 64) :
    orderFor size = 0 := by
  refine orderFor_of_pages_le_one ?_
  have hwrap : usize (size + PAGE_SIZE - 1) = size + PAGE_SIZE - 1 - 2 ^ 64 := by
    rw [usize, PAGE_SIZE, Nat.mod_eq_sub_mod (by rw [PAGE_SIZE] at h; omega), Nat.mod_eq_of_lt]
    omega
  rw [hwrap, PAGE_SIZE]
  omega

/-- For requests with an alignment of at most a page, the alignment does not change the order. -/
theorem orderFor_alignedSize {size align : Nat} (halign : align ≤ PAGE_SIZE) :
    orderFor (Heap.alignedSize size align) = orderFor size := by
  unfold Heap.alignedSize
  split
  · rw [orderFor_of_le_page halign, orderFor_of_le_page (by omega)]
  · rfl

namespace Heap

variable {σ : Type*} [PageSource σ]

/-- Everything `kmalloc` can do with a size other than 0: the slab allocator serves it, or it left
its state as it was and a block of the page source is requested. -/
theorem kmallocWith_cases (heap : Heap σ) {size : Nat} (hsize : size ≠ 0) :
    (∃ ptr slab buddy, size ≤ 2048 ∧ heap.slab.alloc size heap.buddy = (some ptr, slab, buddy) ∧
      heap.kmallocWith size = (some (ptr, .slab (slotSize size)), ⟨slab, buddy⟩)) ∨
    heap.kmallocWith size = heap.allocOrder (orderFor size) := by
  unfold kmallocWith
  rw [if_neg hsize]
  split
  · rename_i hsmall
    rcases hcall : heap.slab.alloc size heap.buddy with ⟨_ | ptr, slab, buddy⟩
    · -- every page of the class is full, and no other could be added
      obtain ⟨rfl, rfl⟩ := SlabAllocator.alloc_eq_none hcall
      exact Or.inr rfl
    · exact Or.inl ⟨ptr, slab, buddy, hsmall, rfl, rfl⟩
  · exact Or.inr rfl

/-- A page request hands out a block of its order, or changes nothing. -/
theorem allocOrder_cases (heap : Heap σ) (order : Nat) :
    (∃ addr buddy, PageSource.allocPages heap.buddy order = (some addr, buddy) ∧
      heap.allocOrder order = (some (addr, .buddy order), { heap with buddy })) ∨
    ((PageSource.allocPages heap.buddy order).1 = none ∧ heap.allocOrder order = (none, heap)) := by
  unfold allocOrder
  have hsource := PageSource.allocPages_none heap.buddy order
  rcases hcall : PageSource.allocPages heap.buddy order with ⟨_ | addr, buddy⟩
  · rw [hcall] at hsource
    have hsame : buddy = heap.buddy := hsource rfl
    exact Or.inr ⟨rfl, by rw [hsame]⟩
  · exact Or.inl ⟨addr, buddy, rfl, rfl⟩

/-! ## The size of the block -/

/-- A block that is not null has at least the requested bytes. -/
def Covers (result : Option (Nat × Owner)) (size : Nat) : Prop :=
  ∀ ptr owner, result = some (ptr, owner) → ptr ≠ 0 → size ≤ owner.bytes

/-- The page source cannot hand out a single page. -/
def OutOfPages (heap : Heap σ) : Prop :=
  ∀ addr, (PageSource.allocPages heap.buddy 0).1 = some addr → addr = 0

/-- A page request covers a size exactly when the order does or the request fails. -/
theorem covers_allocOrder (heap : Heap σ) (order size : Nat) :
    Covers (heap.allocOrder order).1 size ↔
      size ≤ (Owner.buddy order).bytes ∨
        ∀ addr, (PageSource.allocPages heap.buddy order).1 = some addr → addr = 0 := by
  rcases heap.allocOrder_cases order with ⟨addr, buddy, hcall, heq⟩ | ⟨hcall, heq⟩
  · rw [heq, hcall]
    constructor
    · intro h
      by_cases haddr : addr = 0
      · exact Or.inr fun other hother ↦ by rw [← Option.some.inj hother, haddr]
      · exact Or.inl (h addr _ rfl haddr)
    · intro h ptr owner hresult hptr
      cases hresult
      rcases h with h | h
      · exact h
      · exact absurd (h addr rfl) hptr
  · rw [heq, hcall]
    exact iff_of_true (fun _ _ h ↦ by cases h) (Or.inr fun _ h ↦ by cases h)

/-- A page request for the order of a size covers another size exactly when the rounding of the
first does not wrap, or a single page is enough, or there is none. -/
theorem covers_orderFor (heap : Heap σ) {size request : Nat} (hrequest : request < 2 ^ 64)
    (hle : size ≤ request) :
    Covers (heap.allocOrder (orderFor request)).1 size ↔
      request ≤ 2 ^ 64 - PAGE_SIZE ∨ size ≤ PAGE_SIZE ∨ heap.OutOfPages := by
  rw [covers_allocOrder]
  by_cases hwrap : request ≤ 2 ^ 64 - PAGE_SIZE
  · exact iff_of_true (Or.inl (le_trans hle (le_bytes_orderFor hwrap))) (Or.inl hwrap)
  · rw [orderFor_of_wrap (Nat.lt_of_not_le hwrap) hrequest, or_iff_right hwrap]
    simp [Owner.bytes, OutOfPages]

/-- In every allocator state, `kmalloc` hands out at least what was asked for exactly when the
size is at most `2 ^ 64 - 4096` or there is no page to hand out, and `kmalloc_aligned` exactly when
that holds of the larger of size and alignment, or the size is at most a page, or there is no page
to hand out. -/
theorem kmalloc_covers_iff (heap : Heap σ) (size align : Nat) (hsize : size < 2 ^ 64)
    (halign : align < 2 ^ 64) :
    (Covers (heap.kmallocWith size).1 size ↔ size ≤ 2 ^ 64 - PAGE_SIZE ∨ heap.OutOfPages) ∧
    (Covers (heap.kmallocAlignedWith size align).1 size ↔
      max size align ≤ 2 ^ 64 - PAGE_SIZE ∨ size ≤ PAGE_SIZE ∨ heap.OutOfPages) := by
  by_cases hzero : size = 0
  · subst hzero
    have hnone : Covers none 0 := fun _ _ h ↦ by cases h
    exact ⟨iff_of_true hnone (Or.inl (Nat.zero_le _)),
      iff_of_true hnone (Or.inr (Or.inl (Nat.zero_le _)))⟩
  constructor
  · rcases heap.kmallocWith_cases hzero with ⟨ptr, slab, buddy, hsmall, -, heq⟩ | heq
    · rw [heq]
      refine iff_of_true ?_ (Or.inl (by rw [PAGE_SIZE]; omega))
      intro addr owner hresult _
      cases hresult
      exact le_slotSize hsmall
    · rw [heq, covers_orderFor heap hsize le_rfl]
      have hpage : size ≤ PAGE_SIZE → size ≤ 2 ^ 64 - PAGE_SIZE := by
        rw [PAGE_SIZE]
        omega
      tauto
  · have hrequest : alignedSize size align = max size align := by
      unfold alignedSize
      split <;> omega
    unfold kmallocAlignedWith
    rw [if_neg hzero, hrequest]
    exact covers_orderFor heap (max_lt hsize halign) (le_max_left _ _)

/-- A page for a request of `2 ^ 64 - 1` bytes. -/
theorem kmalloc_covers_not :
    ¬ ∀ (heap : Heap BuddyAllocator) (size : Nat), size < 2 ^ 64 →
      Covers (heap.kmallocWith size).1 size := by
  intro h
  have hcall : (Heap.kmallocWith ⟨SlabAllocator.new, BuddyAllocator.init 0x100000 0x2000⟩
      (2 ^ 64 - 1)).1 = some (0x100000, .buddy 0) := by decide +kernel
  exact absurd (h _ (2 ^ 64 - 1) (by decide) _ _ hcall (by decide)) (by decide)

/-- The sizes that module code asks for in practice are served in full. -/
theorem kmalloc_covers_page :
    Covers ((Heap.kmallocWith ⟨SlabAllocator.new, BuddyAllocator.init 0x100000 0x2000⟩ 4097).1)
      4097 :=
  ((kmalloc_covers_iff ⟨SlabAllocator.new, BuddyAllocator.init 0x100000 0x2000⟩ 4097 16
    (by decide) (by decide)).1).mpr (Or.inl (by decide))

end Heap

end Avaria.Mem
