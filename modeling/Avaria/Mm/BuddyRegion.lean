import Avaria.Mm.BuddyRuns

/-!
# The blocks of the buddy allocator

The bitmap of `mm/buddy.rs` cannot be trusted: `free_pages` takes any address and any order, and
even correct frees merge blocks that are not free. Whatever the bitmap says, a block that
`alloc_pages` hands out is one of the blocks of its order that lie in the managed pages
(`bitmap_block_in_region`), because `find_free` counts the blocks of the order it looks at and a
split keeps the first part of the block that it found.
-/

namespace Avaria.Mm

open Transition

namespace BuddyAllocator

/-- The first pages of a slot are a block of a smaller order, counted in blocks of that order. -/
theorem FirstFree.block {buddy : BuddyAllocator} {order slotOrder idx : Nat}
    (h : buddy.FirstFree order slotOrder idx) :
    idx <<< slotOrder = idx * 2 ^ (slotOrder - order) * 2 ^ order ∧
      (idx * 2 ^ (slotOrder - order) + 1) * 2 ^ order ≤ buddy.totalPages := by
  have hsplit : 2 ^ slotOrder = 2 ^ (slotOrder - order) * 2 ^ order := by
    rw [← pow_add, Nat.sub_add_cancel h.order_le]
  have hfirst : idx * 2 ^ (slotOrder - order) + 1 ≤ (idx + 1) * 2 ^ (slotOrder - order) := by
    rw [Nat.add_one_mul]
    exact Nat.add_le_add_left (Nat.two_pow_pos _) _
  constructor
  · rw [Nat.shiftLeft_eq, hsplit, Nat.mul_assoc]
  · calc
      (idx * 2 ^ (slotOrder - order) + 1) * 2 ^ order
          ≤ (idx + 1) * 2 ^ (slotOrder - order) * 2 ^ order := Nat.mul_le_mul_right _ hfirst
      _ = (idx + 1) * 2 ^ slotOrder := by rw [hsplit, Nat.mul_assoc]
      _ ≤ buddy.totalPages := BuddyRun.inRange_iff.mp h.inRange

/-- A block that is handed out is the `k`-th block of its order and lies in the managed pages. -/
theorem allocPages_block {buddy : BuddyAllocator} {order addr : Nat}
    (h : (buddy.allocPages order).1 = some addr) :
    ∃ k, addr = buddy.pageAddr (k * 2 ^ order) ∧ (k + 1) * 2 ^ order ≤ buddy.totalPages := by
  obtain ⟨slotOrder, idx, hfirst, rfl⟩ := allocPages_eq_some.mp h
  obtain ⟨hpages, hrange⟩ := hfirst.block
  exact ⟨idx * 2 ^ (slotOrder - order), by rw [hpages], hrange⟩

/-- The address of a block in the managed pages does not wrap around when their end does not. -/
theorem pageAddr_eq {buddy : BuddyAllocator} {k order : Nat}
    (hend : buddy.base + buddy.totalPages * PAGE_SIZE ≤ 2 ^ 64)
    (hrange : (k + 1) * 2 ^ order ≤ buddy.totalPages) :
    buddy.pageAddr (k * 2 ^ order) = buddy.base + k * 2 ^ order * PAGE_SIZE := by
  have hpow := Nat.two_pow_pos order
  have hlt : k * 2 ^ order < buddy.totalPages := by
    rw [Nat.add_one_mul] at hrange
    omega
  have hbelow : k * 2 ^ order * PAGE_SIZE < buddy.totalPages * PAGE_SIZE :=
    Nat.mul_lt_mul_of_pos_right hlt (by decide)
  exact usize_eq (by omega)

/-- A block that an allocator hands out lies in the region that it manages, provided that the pages
of the region end in the address space. -/
theorem allocPages_in_region {buddy : BuddyAllocator} {base bytes order addr : Nat}
    (hgeometry : buddy.geometry = (init base bytes).geometry)
    (hend : base + bytes / PAGE_SIZE * PAGE_SIZE ≤ 2 ^ 64)
    (h : (buddy.allocPages order).1 = some addr) :
    ∃ k, addr = base + k * 2 ^ order * PAGE_SIZE ∧ (k + 1) * 2 ^ order ≤ bytes / PAGE_SIZE := by
  have hbase : buddy.base = base := congrArg Prod.fst hgeometry
  have htotal : buddy.totalPages = bytes / PAGE_SIZE :=
    congrArg (fun geometry ↦ geometry.2.1) hgeometry
  obtain ⟨k, rfl, hrange⟩ := allocPages_block h
  have haddr := pageAddr_eq (by rwa [hbase, htotal]) hrange
  rw [hbase] at haddr
  rw [htotal] at hrange
  exact ⟨k, haddr, hrange⟩

/-- With any bitmap at all, `alloc_pages` hands out blocks of the region that `init` was given. -/
theorem bitmap_block_in_region {base bytes order addr : Nat}
    (bitmap : PackedBits.Words (BITMAP_SIZE / 8) 8)
    (hend : base + bytes / PAGE_SIZE * PAGE_SIZE ≤ 2 ^ 64)
    (h : (({ init base bytes with bitmap } : BuddyAllocator).allocPages order).1 = some addr) :
    ∃ k, addr = base + k * 2 ^ order * 4096 ∧ (k + 1) * 2 ^ order ≤ bytes / 4096 := by
  have hgeometry : ({ init base bytes with bitmap } : BuddyAllocator).geometry =
      (init base bytes).geometry := rfl
  exact allocPages_in_region hgeometry hend h

/-- A region of 11 pages in which the bits of the first four pages are set serves a pair of pages
with its fourth pair. -/
theorem bitmap_block_in_region_odd :
    ∃ k, 0x106000 = 0x100000 + k * 2 ^ 1 * 4096 ∧ (k + 1) * 2 ^ 1 ≤ 0xB000 / 4096 :=
  @bitmap_block_in_region 0x100000 0xB000 1 0x106000 (fun i ↦ if i.val = 0 then 0x0F#8 else 0#8)
    (by decide) (by decide +kernel)

/-! ## Runs with any frees -/

/-- One call of a client that may free any block, live or not, at any order. -/
def serve (buddy : BuddyAllocator) : BuddyCall → Option BuddyAllocator
  | .alloc order => some (buddy.allocPages order).2
  | .free block => some (buddy.freePages block.addr block.order)

theorem geometry_serve {buddy next : BuddyAllocator} {call : BuddyCall}
    (h : buddy.serve call = some next) : next.geometry = buddy.geometry := by
  cases call with
  | alloc order =>
      cases h
      exact buddy.geometry_allocPages order
  | free block =>
      cases h
      exact buddy.geometry_freePages block.addr block.order

/-- After any calls, the blocks that `alloc_pages` hands out lie in the region. -/
theorem reachable_block_in_region {buddy : BuddyAllocator} {base bytes order addr : Nat}
    (h : Reachable serve (init base bytes) buddy)
    (hend : base + bytes / PAGE_SIZE * PAGE_SIZE ≤ 2 ^ 64)
    (haddr : (buddy.allocPages order).1 = some addr) :
    ∃ k, addr = base + k * 2 ^ order * PAGE_SIZE ∧ (k + 1) * 2 ^ order ≤ bytes / PAGE_SIZE := by
  have hgeometry : buddy.geometry = (init base bytes).geometry :=
    h.invariant (P := fun buddy ↦ buddy.geometry = (init base bytes).geometry) rfl
      fun _ _ _ hstate hserve ↦ (geometry_serve hserve).trans hstate
  exact allocPages_in_region hgeometry hend haddr

end BuddyAllocator

end Avaria.Mm
