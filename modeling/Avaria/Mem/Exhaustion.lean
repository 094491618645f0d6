import Mathlib.Order.Bounds.Defs
import Avaria.Mem.Kmalloc
import Avaria.Mm.BuddyRegion

/-!
# When kmalloc fails

`kmalloc` over the buddy allocator, in the states that calls of `kmalloc` and `kfree` lead to, with
any sizes and any pointers. A null pointer means that the request could not be served: the cache of
a small size has no free slot and there is no page for another, or there is no block of the least
order that covers a large size. The request then changes nothing (`kmalloc_fails_cleanly`).

`InRegion` is the invariant: the buddy allocator manages the region that it was initialised with,
and the slab pages lie in it. Blocks and slots of a region above address 0 are never null, so null
pointers only stand for failures. In a region that wraps around the address space they do not
(`kmalloc_fails_not`).
-/

namespace Avaria.Mm

/-- The page at this address lies in the region. -/
def PageWithin (base bytes addr : Nat) : Prop := base ≤ addr ∧ addr + PAGE_SIZE ≤ base + bytes

namespace BuddyAllocator

/-- A block lies in the region that the allocator was initialised with. -/
theorem allocPages_within {buddy : BuddyAllocator} {base bytes order addr : Nat}
    (hgeometry : buddy.geometry = (init base bytes).geometry) (hregion : base + bytes ≤ 2 ^ 64)
    (h : (buddy.allocPages order).1 = some addr) : PageWithin base bytes addr := by
  have hfits : bytes / PAGE_SIZE * PAGE_SIZE ≤ bytes := Nat.div_mul_le_self _ _
  obtain ⟨k, rfl, hrange⟩ := allocPages_in_region hgeometry (by omega) h
  have hpow := Nat.two_pow_pos order
  have hblock := Nat.mul_le_mul_right PAGE_SIZE hrange
  rw [Nat.add_one_mul, Nat.add_mul] at hblock
  have hpage : PAGE_SIZE ≤ 2 ^ order * PAGE_SIZE := Nat.le_mul_of_pos_left _ hpow
  exact ⟨Nat.le_add_right _ _, by omega⟩

end BuddyAllocator

namespace SlabAllocator

variable {σ : Type*} [PageSource σ] {slab : SlabAllocator} {ok : Nat → Prop}

/-- Every slot of every page that the cache of the class holds is used. -/
def ClassFull (slab : SlabAllocator) (cls : SizeClass) : Prop :=
  ∀ k (page : SlabPage cls), slab.HeldAt k page → ∀ i < page.capacity, page.used i = true

/-- A slot lies in its page. -/
theorem slot_offset {cls : SizeClass} {page after : SlabPage cls} {ptr : Nat}
    (h : page.alloc = some (ptr, after)) :
    ∃ offset < PAGE_SIZE, ptr = usize (page.base + offset) := by
  obtain ⟨i, hi, -, hptr, -⟩ := SlabPage.alloc_eq_some h
  have hwithin := page.slot_within hi
  have hpos := page.capacity_eq.2.2.2
  simp only [Extent.Within, SlabPage.slotAddr, SlabPage.extent] at hwithin
  exact ⟨i * page.objSize, by omega, hptr⟩

/-- `is_full` tests the slots. -/
theorem classFull_iff {cls : SizeClass} : slab.ClassFull cls ↔ slab.Full cls :=
  forall_congr' fun _ ↦ forall_congr' fun _ ↦ forall_congr' fun _ ↦ SlabPage.isFull_iff.symm

/-- What an allocation hands out when the page source answers with pages of the property: a slot of
such a page, or nothing because the class is full. A full class is served as long as there is a page
and room for it. -/
theorem PagesAt.alloc_slot (h : slab.PagesAt ok) {size : Nat} {cls : SizeClass}
    (hclass : classFor size = some cls) (buddy : σ)
    (hsource : ∀ base ∈ (PageSource.allocOne buddy).1, ok base) :
    (∃ ptr next after base, ∃ offset < PAGE_SIZE,
      slab.alloc size buddy = (some ptr, next, after) ∧ ptr = usize (base + offset) ∧ ok base ∧
      ¬ (slab.ClassFull cls ∧ (PageSource.allocOne buddy).1 = none)) ∨
    slab.ClassFull cls ∧ slab.alloc size buddy = (none, slab, buddy) := by
  rcases slab.alloc_cases hclass buddy with
    ⟨k, page, after, ptr, hpage, halloc, heq⟩ |
      ⟨base, ptr, next, after, ⟨-, hcall, -, page, halloc, -⟩, heq⟩ | ⟨hfull, heq⟩
  · obtain ⟨i, hi, hclear, -⟩ := SlabPage.alloc_eq_some halloc
    obtain ⟨offset, hoffset, hptr⟩ := slot_offset halloc
    refine Or.inl ⟨ptr, _, _, page.base, offset, hoffset, heq, hptr, h cls k page hpage, ?_⟩
    intro hcase
    rw [hcase.1 k page hpage i hi] at hclear
    cases hclear
  · obtain ⟨offset, hoffset, hptr⟩ := slot_offset halloc
    have hok : ok base := hsource base (by rw [hcall]; rfl)
    exact Or.inl ⟨ptr, next, after, base, offset, hoffset, heq, hptr, hok, by simp [hcall]⟩
  · exact Or.inr ⟨classFull_iff.mpr hfull, heq⟩

/-- An allocation asks the page source for one page at most. -/
theorem alloc_source (slab : SlabAllocator) (size : Nat) (buddy : σ) :
    (slab.alloc size buddy).2.2 = buddy ∨
      (slab.alloc size buddy).2.2 = (PageSource.allocOne buddy).2 := by
  cases hclass : classFor size with
  | none => exact Or.inl (by rw [alloc_of_classFor_eq_none hclass])
  | some cls =>
      rcases slab.alloc_cases hclass buddy with
        ⟨_, _, _, _, -, -, heq⟩ | ⟨_, _, _, _, hgrown, heq⟩ | ⟨-, heq⟩ <;> rw [heq]
      · exact Or.inl rfl
      · exact Or.inr (by rw [hgrown.call])
      · exact Or.inl rfl

/-- A free gives the page source one page at most. -/
theorem free_source (slab : SlabAllocator) (ptr : Nat) (buddy : σ) :
    (slab.free ptr buddy).2.2 = buddy ∨
      ∃ base, (slab.free ptr buddy).2.2 = PageSource.freeOne buddy base := by
  rcases slab.free_cases ptr buddy with ⟨-, heq⟩ | ⟨_, _, page, -, -, heq | ⟨-, heq⟩⟩ <;> rw [heq]
  · exact Or.inl rfl
  · exact Or.inl rfl
  · exact Or.inr ⟨page.base, rfl⟩

end SlabAllocator

end Avaria.Mm

namespace Avaria.Mem

open Transition Mm

/-- The calls that lead from one state of the heap to the next. -/
inductive HeapRequest where
  | kmalloc (size : Nat)
  | kfree (ptr size : Nat)

namespace Heap

/-- The statics once `init` has given the page source its region. -/
def init (base bytes : Nat) : Heap BuddyAllocator :=
  ⟨SlabAllocator.new, BuddyAllocator.init base bytes⟩

/-- One call; `kfree` may be given any pointer and any size. -/
def serve (heap : Heap BuddyAllocator) : HeapRequest → Option (Heap BuddyAllocator)
  | .kmalloc size => some (heap.kmalloc size).2
  | .kfree ptr size => some (heap.kfree ptr size)

/-- The page source manages the region, and the slab pages lie in it. -/
structure InRegion (base bytes : Nat) (heap : Heap BuddyAllocator) : Prop where
  geometry : heap.buddy.geometry = (BuddyAllocator.init base bytes).geometry
  bounds : heap.slab.InBounds
  pages : heap.slab.PagesAt (PageWithin base bytes)

variable {base bytes : Nat} {heap : Heap BuddyAllocator}

theorem inRegion_init : InRegion base bytes (init base bytes) :=
  ⟨rfl, SlabAllocator.inBounds_new, SlabAllocator.pagesAt_new _⟩

/-- An address in a page of the region is not null. -/
theorem usize_ne_zero (hbase : base ≠ 0) (hregion : base + bytes ≤ 2 ^ 64) {addr offset : Nat}
    (haddr : PageWithin base bytes addr) (hoffset : offset < PAGE_SIZE) :
    usize (addr + offset) ≠ 0 := by
  obtain ⟨hle, hend⟩ := haddr
  rw [usize_eq (by omega)]
  omega

namespace InRegion

/-- The blocks that the page source hands out lie in the region. -/
theorem within (h : InRegion base bytes heap) (hregion : base + bytes ≤ 2 ^ 64) (order : Nat) :
    ∀ addr ∈ (PageSource.allocPages heap.buddy order).1, PageWithin base bytes addr :=
  fun _ haddr ↦ BuddyAllocator.allocPages_within h.geometry hregion haddr

/-- A page request keeps the invariant. -/
theorem allocOrder (h : InRegion base bytes heap) (order : Nat) :
    InRegion base bytes (heap.allocOrder order).2 := by
  rcases heap.allocOrder_cases order with ⟨addr, buddy, hcall, heq⟩ | ⟨-, heq⟩ <;> rw [heq]
  · have hgeometry := heap.buddy.geometry_allocPages order
    rw [show heap.buddy.allocPages order = _ from hcall] at hgeometry
    exact ⟨hgeometry.trans h.geometry, h.bounds, h.pages⟩
  · exact h

theorem freeOrder (h : InRegion base bytes heap) (ptr order : Nat) :
    InRegion base bytes (heap.freeOrder ptr order) :=
  ⟨(heap.buddy.geometry_freePages ptr order).trans h.geometry, h.bounds, h.pages⟩

/-- What the slab allocator does to its pages and to the page source keeps the invariant. -/
theorem slabAlloc (h : InRegion base bytes heap) (hregion : base + bytes ≤ 2 ^ 64) (size : Nat) :
    InRegion base bytes ⟨(heap.slab.alloc size heap.buddy).2.1,
      (heap.slab.alloc size heap.buddy).2.2⟩ where
  geometry := by
    rcases heap.slab.alloc_source size heap.buddy with heq | heq <;> rw [heq]
    · exact h.geometry
    · exact (heap.buddy.geometry_allocPages 0).trans h.geometry
  bounds := h.bounds.alloc size heap.buddy
  pages := h.pages.alloc size heap.buddy (h.within hregion 0)

theorem slabFree (h : InRegion base bytes heap) (ptr : Nat) :
    InRegion base bytes ⟨(heap.slab.free ptr heap.buddy).2.1,
      (heap.slab.free ptr heap.buddy).2.2⟩ where
  geometry := by
    rcases heap.slab.free_source ptr heap.buddy with heq | ⟨addr, heq⟩ <;> rw [heq]
    · exact h.geometry
    · exact (heap.buddy.geometry_freePages addr 0).trans h.geometry
  bounds := h.bounds.free ptr heap.buddy
  pages := h.pages.free h.bounds ptr heap.buddy

/-- `kmalloc` keeps the invariant. -/
theorem kmalloc (h : InRegion base bytes heap) (hregion : base + bytes ≤ 2 ^ 64) (size : Nat) :
    InRegion base bytes (heap.kmalloc size).2 := by
  show InRegion base bytes (heap.kmallocWith size).2
  by_cases hzero : size = 0
  · subst hzero
    exact h
  rcases heap.kmallocWith_cases hzero with ⟨ptr, slab, buddy, -, hcall, heq⟩ | heq <;> rw [heq]
  · have hslab := h.slabAlloc hregion size
    rwa [hcall] at hslab
  · exact h.allocOrder _

/-- `kfree` keeps the invariant, whatever it is given. -/
theorem kfree (h : InRegion base bytes heap) (ptr size : Nat) :
    InRegion base bytes (heap.kfree ptr size) := by
  have hslab := h.slabFree ptr
  unfold Heap.kfree
  split
  · exact h
  split
  · rcases hcall : heap.slab.free ptr heap.buddy with ⟨_ | _, slab, buddy⟩ <;> rw [hcall] at hslab
    · exact hslab.freeOrder ptr _
    · exact hslab
  · exact h.freeOrder ptr _

/-- Every call keeps the invariant. -/
theorem serve (h : InRegion base bytes heap) (hregion : base + bytes ≤ 2 ^ 64)
    {request : HeapRequest} {next : Heap BuddyAllocator}
    (hserve : heap.serve request = some next) : InRegion base bytes next := by
  cases request with
  | kmalloc size =>
      cases hserve
      exact h.kmalloc hregion size
  | kfree ptr size =>
      cases hserve
      exact h.kfree ptr size

/-- The invariant holds in every state that calls lead to. -/
theorem of_reachable (hregion : base + bytes ≤ 2 ^ 64)
    (h : Reachable Heap.serve (init base bytes) heap) : InRegion base bytes heap :=
  h.invariant (P := InRegion base bytes) inRegion_init fun _ _ _ hstate hserve ↦
    hstate.serve hregion hserve

end InRegion

/-! ## Failures -/

/-- A null pointer stands for a request that could not be served, and such a request leaves the
allocators as they were. -/
structure FailsCleanly (heap : Heap BuddyAllocator) (size : Nat) : Prop where
  small : size ≤ 2048 → ((heap.kmalloc size).1 = 0 ↔
    (∀ cls ∈ classFor size, heap.slab.ClassFull cls) ∧ (heap.buddy.allocPages 0).1 = none)
  large : 2048 < size → ∃ order, IsLeast {o | size ≤ PAGE_SIZE * 2 ^ o} order ∧
    ((heap.kmalloc size).1 = 0 ↔ (heap.buddy.allocPages order).1 = none)
  unchanged : (heap.kmalloc size).1 = 0 → (heap.kmalloc size).2 = heap

/-- A page request answers null exactly when the page source has no block, and then changes
nothing. -/
theorem InRegion.allocOrder_eq_zero (h : InRegion base bytes heap) (hbase : base ≠ 0)
    (hregion : base + bytes ≤ 2 ^ 64) (order : Nat) :
    (pointer (heap.allocOrder order).1 = 0 ↔ (heap.buddy.allocPages order).1 = none) ∧
      (pointer (heap.allocOrder order).1 = 0 → (heap.allocOrder order).2 = heap) := by
  rcases heap.allocOrder_cases order with ⟨addr, buddy, hcall, heq⟩ | ⟨hcall, heq⟩ <;> rw [heq]
  · have hwithin := h.within hregion order addr (by rw [hcall]; rfl)
    have hne : addr ≠ 0 := by
      obtain ⟨hle, -⟩ := hwithin
      omega
    have hsome : (heap.buddy.allocPages order).1 = some addr := congrArg Prod.fst hcall
    rw [hsome]
    exact ⟨iff_of_false hne (by simp), fun hzero ↦ absurd hzero hne⟩
  · exact ⟨iff_of_true rfl hcall, fun _ ↦ rfl⟩

/-- A request that the slab allocator turns down, or that is too large for it, is a page request. -/
theorem kmalloc_eq_allocOrder {size : Nat} (hsize : size ≠ 0)
    (h : size ≤ 2048 → heap.slab.alloc size heap.buddy = (none, heap.slab, heap.buddy)) :
    heap.kmalloc size =
      (pointer (heap.allocOrder (orderFor size)).1, (heap.allocOrder (orderFor size)).2) := by
  by_cases hsmall : size ≤ 2048
  · simp [Heap.kmalloc, kmallocWith, hsize, hsmall, h hsmall]
  · simp [Heap.kmalloc, kmallocWith, hsize, hsmall]

/-- Small requests fail cleanly: either the slab allocator has a slot, which is not null, or the
class is full and `kmalloc` falls back to a page. -/
theorem InRegion.failsCleanly_small (h : InRegion base bytes heap) (hbase : base ≠ 0)
    (hregion : base + bytes ≤ 2 ^ 64) {size : Nat} (hsize : size ≠ 0) (hsmall : size ≤ 2048) :
    heap.FailsCleanly size := by
  have hlarge : ¬ 2048 < size := Nat.not_lt.mpr hsmall
  obtain ⟨cls, hclass⟩ := exists_classFor hsmall
  have hfull : (∀ cls ∈ classFor size, heap.slab.ClassFull cls) ↔ heap.slab.ClassFull cls := by
    simp [hclass]
  rcases h.pages.alloc_slot hclass heap.buddy (h.within hregion 0) with
    ⟨ptr, next, after, addr, offset, hoffset, hcall, hptr, haddr, hroom⟩ | ⟨hnone, hcall⟩
  · have hne : ptr ≠ 0 := hptr ▸ usize_ne_zero hbase hregion haddr hoffset
    have hkmalloc : heap.kmalloc size = (ptr, ⟨next, after⟩) := by
      simp [Heap.kmalloc, kmallocWith, hsize, hsmall, hcall, pointer]
    refine ⟨fun _ ↦ ?_, fun hcase ↦ absurd hcase hlarge, fun hnull ↦ ?_⟩
    · rw [hkmalloc, hfull]
      exact iff_of_false hne hroom
    · rw [hkmalloc] at hnull
      exact absurd hnull hne
  · have hrequest := h.allocOrder_eq_zero hbase hregion (orderFor size)
    have hkmalloc := kmalloc_eq_allocOrder hsize fun _ ↦ hcall
    have horder : orderFor size = 0 := orderFor_of_le_page (le_trans hsmall (by decide))
    refine ⟨fun _ ↦ ?_, fun hcase ↦ absurd hcase hlarge, fun hnull ↦ ?_⟩
    · rw [hkmalloc, hfull, and_iff_right hnone, hrequest.1, horder]
    · rw [hkmalloc] at hnull ⊢
      exact hrequest.2 hnull

/-- Large requests fail cleanly: they are page requests of the least order that covers them. -/
theorem InRegion.failsCleanly_large (h : InRegion base bytes heap) (hbase : base ≠ 0)
    (hregion : base + bytes ≤ 2 ^ 64) {size : Nat} (hlarge : 2048 < size)
    (hmax : size ≤ 2 ^ 64 - PAGE_SIZE) : heap.FailsCleanly size := by
  have hsmall : ¬ size ≤ 2048 := Nat.not_le.mpr hlarge
  have hrequest := h.allocOrder_eq_zero hbase hregion (orderFor size)
  have hzero : size ≠ 0 := by omega
  have hkmalloc : heap.kmalloc size = _ :=
    kmalloc_eq_allocOrder hzero fun hcase ↦ absurd hcase hsmall
  have hleast : IsLeast {o | size ≤ PAGE_SIZE * 2 ^ o} (orderFor size) :=
    ⟨le_bytes_orderFor hmax, fun _ ho ↦ orderFor_le hmax ho⟩
  refine ⟨fun hcase ↦ absurd hcase hsmall, fun _ ↦ ⟨orderFor size, hleast, ?_⟩, fun hnull ↦ ?_⟩
  · rw [hkmalloc]
    exact hrequest.1
  · rw [hkmalloc] at hnull ⊢
    exact hrequest.2 hnull

/-- In every state that calls of `kmalloc` and `kfree` lead to from a region above address 0 that
ends in the address space, `kmalloc` fails only when it must, and a failure changes nothing. -/
theorem kmalloc_fails_cleanly {size : Nat} (hbase : base ≠ 0) (hregion : base + bytes ≤ 2 ^ 64)
    (h : Reachable serve (init base bytes) heap) (hsize : 1 ≤ size) (hmax : size ≤ 2 ^ 63) :
    heap.FailsCleanly size := by
  have hstate : InRegion base bytes heap := InRegion.of_reachable hregion h
  by_cases hsmall : size ≤ 2048
  · exact hstate.failsCleanly_small hbase hregion (by omega) hsmall
  · exact hstate.failsCleanly_large hbase hregion (Nat.lt_of_not_le hsmall)
      (le_trans hmax (by decide))

/-- When two objects fill the only page of the region, a third request of their size fails. -/
theorem kmalloc_fails_third_object :
    ∃ heap, run serve (init 0x100000 0x1000) [.kmalloc 2048, .kmalloc 2048] = some heap ∧
      heap.FailsCleanly 2048 ∧ (heap.kmalloc 2048).1 = 0 := by
  have hreachable : Reachable serve (init 0x100000 0x1000)
      (((init 0x100000 0x1000).kmalloc 2048).2.kmalloc 2048).2 :=
    ⟨[.kmalloc 2048, .kmalloc 2048], rfl⟩
  exact ⟨_, rfl, kmalloc_fails_cleanly (by decide) (by decide) hreachable (by decide) (by decide),
    by decide +kernel⟩

/-- The second page of a region that wraps around is at address 0: the request for it takes the page
and returns null. -/
theorem kmalloc_fails_not :
    ¬ ∀ (base bytes : Nat) (heap : Heap BuddyAllocator) (size : Nat), base ≠ 0 → base < 2 ^ 64 →
      bytes < 2 ^ 64 → Reachable serve (init base bytes) heap → 1 ≤ size → size ≤ 2 ^ 63 →
        heap.FailsCleanly size := by
  intro h
  have hclean : ((init (2 ^ 64 - 0x1000) 0x2000).kmalloc 4096).2.FailsCleanly 4096 :=
    h _ _ _ _ (by decide) (by decide) (by decide) ⟨[.kmalloc 4096], rfl⟩ (by decide) (by decide)
  have hsame := congrArg (fun heap ↦ heap.buddy.getBit 1) (hclean.unchanged (by decide +kernel))
  exact absurd hsame (by decide +kernel)

end Heap

end Avaria.Mem
