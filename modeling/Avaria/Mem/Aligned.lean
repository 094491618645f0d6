import Mathlib.Tactic.Ring
import Avaria.Mem.Ownership
import Avaria.Mm.BuddyRegion

/-!
# Aligned allocations

`kmalloc_aligned` asks the buddy allocator for a block of at least `align` bytes and relies on the
block to be aligned. Blocks are aligned relative to the region, so this gives the alignment of the
region's start and no more: `dvd_pageAddr_iff`. `kfree` is not told the alignment and computes the
order from the size alone, which is the order of the block when the alignment is at most a page or
less than twice the size: `orderFor_alignedSize_eq_iff`.

`aligned_block_iff` puts these together: for which requests, and in which later states, the block is
aligned and goes back to the buddy allocator as a whole.
-/

namespace Avaria.Mm

namespace BuddyAllocator

/-- Blocks that are large enough for an alignment have the alignment of the region, also when their
address wraps around. -/
theorem dvd_pageAddr_iff {buddy : BuddyAllocator} {e order k : Nat} (he : e < 64)
    (hblock : 2 ^ e ≤ PAGE_SIZE * 2 ^ order) :
    2 ^ e ∣ buddy.pageAddr (k * 2 ^ order) ↔ 2 ^ e ∣ buddy.base := by
  have hbytes : PAGE_SIZE * 2 ^ order = 2 ^ (12 + order) := by rw [pow_add]; rfl
  have hexp : e ≤ 12 + order := by
    rw [hbytes] at hblock
    exact (Nat.pow_le_pow_iff_right Nat.one_lt_two).mp hblock
  have hoffset : 2 ^ e ∣ k * 2 ^ order * PAGE_SIZE := by
    rw [Nat.mul_assoc, Nat.mul_comm (2 ^ order), hbytes]
    exact Nat.dvd_mul_left_of_dvd (pow_dvd_pow 2 hexp) k
  unfold pageAddr usize
  rw [Nat.dvd_mod_iff (pow_dvd_pow 2 he.le)]
  exact Nat.dvd_add_left hoffset

/-- A request for a single page is served with the first page whose bit is clear, or not at all. -/
theorem allocPages_zero (buddy : BuddyAllocator) :
    (buddy.allocPages 0).1 = (buddy.findFree 0).map buddy.pageAddr := by
  cases hfind : buddy.findFree 0 with
  | none => exact BuddyRun.allocPages_zero_eq_none hfind
  | some page => rw [BuddyRun.allocPages_direct (Nat.zero_le _) hfind]; rfl

end BuddyAllocator

end Avaria.Mm

namespace Avaria.Mem

open Transition Mm

/-- The value of a `usize` that is a power of two. -/
def PowerOfTwo (align : Nat) : Prop := ∃ e < 64, align = 2 ^ e

instance (align : Nat) : Decidable (PowerOfTwo align) :=
  decidable_of_iff (∃ e ∈ List.range 64, align = 2 ^ e) (by simp [PowerOfTwo])

/-! ## The order of an alignment -/

/-- An alignment of more than a page is the size of a block, and half of it is the size of a block
of the order below. -/
theorem exists_order_of_page_lt {e : Nat} (h : PAGE_SIZE < 2 ^ e) :
    ∃ order, 2 ^ e = 2 * (Owner.buddy order).bytes ∧ 2 ^ e = (Owner.buddy (order + 1)).bytes := by
  have hexp : 12 < e := (Nat.pow_lt_pow_iff_right Nat.one_lt_two).mp (show 2 ^ 12 < 2 ^ e from h)
  obtain ⟨order, rfl⟩ := Nat.exists_eq_add_of_lt hexp
  have hbytes : 2 ^ (12 + order + 1) = (Owner.buddy (order + 1)).bytes := by
    rw [Nat.add_assoc, pow_add]
    rfl
  refine ⟨order, ?_, hbytes⟩
  rw [hbytes]
  simp only [Owner.bytes, pow_succ]
  ring

theorem two_pow_le_of_lt {e : Nat} (h : e < 64) : 2 ^ e ≤ 2 ^ 64 - PAGE_SIZE :=
  le_trans (Nat.pow_le_pow_right Nat.two_pos (Nat.le_of_lt_succ h)) (by decide)

/-- The alignment leaves the order of the size as it is exactly when it is at most a page or less
than twice the size. -/
theorem orderFor_alignedSize_eq_iff {size e : Nat} (hsize : 0 < size) (he : e < 64) :
    orderFor (Heap.alignedSize size (2 ^ e)) = orderFor size ↔
      2 ^ e ≤ PAGE_SIZE ∨ 2 ^ e < 2 * size := by
  by_cases hpage : 2 ^ e ≤ PAGE_SIZE
  · exact iff_of_true (orderFor_alignedSize hpage) (Or.inl hpage)
  rw [or_iff_right hpage]
  unfold Heap.alignedSize
  split
  · rename_i hlt
    have halign := two_pow_le_of_lt he
    obtain ⟨order, hhalf, hbytes⟩ := exists_order_of_page_lt (Nat.lt_of_not_le hpage)
    -- both orders are at most `order + 1`, and that of the alignment is not smaller
    have hupper : orderFor (2 ^ e) ≤ order + 1 := (orderFor_le_iff halign).mpr hbytes.le
    have hlower : ¬ orderFor (2 ^ e) ≤ order := by
      rw [orderFor_le_iff halign]
      omega
    have hsizeUpper : orderFor size ≤ order + 1 :=
      (orderFor_le_iff (by omega)).mpr (by omega)
    have hsizeLower : orderFor size ≤ order ↔ size ≤ (Owner.buddy order).bytes :=
      orderFor_le_iff (by omega)
    omega
  · exact iff_of_true rfl (by omega)

namespace Heap

/-! ## Giving a block back -/

section Release

variable {σ : Type*} [PageSource σ]

/-- A block of an order that is given back to a logged page source shows in the record. -/
theorem freeOrder_returned (heap : Heap (Logged σ)) (ptr order : Nat) :
    (heap.freeOrder ptr order).buddy.returned = ⟨ptr, order⟩ :: heap.buddy.returned := rfl

/-- `kfree` passes a block to `free_pages` with an order, and does nothing else, exactly when the
size has this order and the slab allocator does not take the block for an object. -/
theorem kfree_eq_freeOrder_iff (heap : Heap (Logged σ)) {ptr size order : Nat} (hptr : ptr ≠ 0)
    (hsize : 0 < size) :
    heap.kfree ptr size = heap.freeOrder ptr order ↔
      orderFor size = order ∧ (size ≤ 2048 → ¬ heap.slab.Claims ptr) := by
  have horder : heap.freeOrder ptr (orderFor size) = heap.freeOrder ptr order ↔
      orderFor size = order := by
    refine ⟨fun hsame ↦ ?_, fun hsame ↦ by rw [hsame]⟩
    have hreturned := congrArg (fun heap ↦ heap.buddy.returned) hsame
    simp only [freeOrder_returned, List.cons.injEq, Block.mk.injEq, true_and, and_true]
      at hreturned
    exact hreturned
  have hcase : ¬ (ptr = 0 ∨ size = 0) := by omega
  unfold kfree
  rw [if_neg hcase]
  by_cases hsmall : size ≤ 2048
  · rw [if_pos hsmall, imp_iff_right hsmall]
    by_cases hclaims : heap.slab.Claims ptr
    · obtain ⟨slab, buddy, hfree, heffect⟩ := SlabAllocator.free_of_claims hclaims heap.buddy
      rw [hfree]
      refine iff_of_false (fun hsame ↦ ?_) fun hcase ↦ hcase.2 hclaims
      rcases heffect with rfl | hslab
      · have hreturned := congrArg (fun heap ↦ heap.buddy.returned.length) hsame
        simp [freeOrder_returned] at hreturned
      · exact hslab (congrArg Heap.slab hsame)
    · rw [SlabAllocator.free_of_not_claims hclaims, and_iff_left hclaims]
      exact horder
  · rw [if_neg hsmall, and_iff_left fun hcase ↦ absurd hcase hsmall]
    exact horder

/-- A block that `kmalloc_aligned` hands out is one of the page source, of the order for the larger
of size and alignment. -/
theorem kmallocAlignedWith_eq_some {heap after : Heap σ} {size align ptr : Nat} {owner : Owner}
    (h : heap.kmallocAlignedWith size align = (some (ptr, owner), after)) :
    owner = .buddy (orderFor (alignedSize size align)) ∧
      (PageSource.allocPages heap.buddy (orderFor (alignedSize size align))).1 = some ptr := by
  unfold kmallocAlignedWith at h
  split at h
  · cases h
  · rcases heap.allocOrder_cases (orderFor (alignedSize size align)) with
      ⟨addr, buddy, hcall, heq⟩ | ⟨-, heq⟩ <;> rw [heq] at h <;> cases h
    exact ⟨rfl, congrArg Prod.fst hcall⟩

end Release

/-! ## Aligned blocks -/

/-- The region starts at a multiple of the alignment. A size whose rounding to pages wraps around is
given a single page, and then the first page whose bit is clear has to be at a multiple. -/
def StartAligned (buddy : BuddyAllocator) (size align : Nat) : Prop :=
  if size ≤ 2 ^ 64 - PAGE_SIZE then align ∣ buddy.base
  else ∀ page ∈ buddy.findFree 0, align ∣ buddy.base + page * PAGE_SIZE

instance (buddy : BuddyAllocator) (size align : Nat) : Decidable (StartAligned buddy size align) :=
  inferInstanceAs (Decidable (ite ..))

/-- In a region that starts at a page boundary, alignments up to a page are met. -/
theorem startAligned_of_le_page {buddy : BuddyAllocator} {size e : Nat}
    (hbase : PAGE_SIZE ∣ buddy.base) (he : 2 ^ e ≤ PAGE_SIZE) :
    StartAligned buddy size (2 ^ e) := by
  have hpage : 2 ^ e ∣ PAGE_SIZE :=
    pow_dvd_pow (n := 12) 2 ((Nat.pow_le_pow_iff_right Nat.one_lt_two).mp he)
  unfold StartAligned
  split
  · exact hpage.trans hbase
  · exact fun page _ ↦ hpage.trans ((Nat.dvd_add_right hbase).mpr (Nat.dvd_mul_left _ _))

/-- The block that `kmalloc_aligned` hands out has the alignment exactly when the start of the
region has it. -/
theorem dvd_block_iff {heap after : Heap (Logged BuddyAllocator)} {size e ptr : Nat} {owner : Owner}
    (hsize : size < 2 ^ 64) (he : e < 64)
    (hcall : heap.kmallocAlignedWith size (2 ^ e) = (some (ptr, owner), after)) :
    2 ^ e ∣ ptr ↔ StartAligned heap.buddy.source size (2 ^ e) := by
  obtain ⟨-, hlogged⟩ := kmallocAlignedWith_eq_some hcall
  have halloc : (heap.buddy.source.allocPages (orderFor (alignedSize size (2 ^ e)))).1 = some ptr :=
    (congrArg Prod.fst (Logged.allocPages_source heap.buddy _)).trans hlogged
  have halign := two_pow_le_of_lt he
  unfold StartAligned
  split
  · rename_i hfits
    obtain ⟨k, rfl, -⟩ := BuddyAllocator.allocPages_block halloc
    refine BuddyAllocator.dvd_pageAddr_iff he ?_
    have hrequest : alignedSize size (2 ^ e) ≤ 2 ^ 64 - PAGE_SIZE := by
      unfold alignedSize
      split <;> omega
    have hcovers : 2 ^ e ≤ alignedSize size (2 ^ e) := by
      unfold alignedSize
      split <;> omega
    exact hcovers.trans (le_bytes_orderFor hrequest)
  · rename_i hwrap
    -- the rounding wraps around, so the block is the first free page, wherever that is
    have hrequest : alignedSize size (2 ^ e) = size := if_neg (by omega)
    rw [hrequest, orderFor_of_wrap (Nat.lt_of_not_le hwrap) hsize, BuddyAllocator.allocPages_zero,
      Option.map_eq_some_iff] at halloc
    obtain ⟨page, hpage, rfl⟩ := halloc
    simp only [hpage, Option.mem_some_iff, forall_eq']
    exact Nat.dvd_mod_iff (pow_dvd_pow 2 he.le)

/-- A block that `kmalloc_aligned` hands out is a multiple of the alignment, and a later `kfree`
with the same size gives all of it back to the buddy allocator, exactly when the start of the region
has the alignment, the alignment is at most a page or less than twice the size, and no page of the
slab allocator contains the block's address at the time of a `kfree` of at most 2048 bytes. -/
theorem aligned_block_iff {heap after later : Heap (Logged BuddyAllocator)}
    {size align ptr order : Nat} (hsize : 0 < size) (hbound : size < 2 ^ 64)
    (halign : PowerOfTwo align)
    (hcall : heap.kmallocAlignedWith size align = (some (ptr, .buddy order), after))
    (hptr : ptr ≠ 0) :
    (align ∣ ptr ∧ later.kfree ptr size = later.freeOrder ptr order) ↔
      StartAligned heap.buddy.source size align ∧ (align ≤ PAGE_SIZE ∨ align < 2 * size) ∧
        (size ≤ 2048 → ¬ later.slab.Claims ptr) := by
  obtain ⟨e, he, rfl⟩ := halign
  obtain ⟨howner, -⟩ := kmallocAlignedWith_eq_some hcall
  obtain rfl : order = orderFor (alignedSize size (2 ^ e)) := by simpa using howner
  rw [dvd_block_iff hbound he hcall, kfree_eq_freeOrder_iff later hptr hsize,
    eq_comm (a := orderFor size), orderFor_alignedSize_eq_iff hsize he]

/-- A region that starts at a multiple of 16 KiB serves a request for three of four pages. -/
theorem aligned_block_four_pages :
    ∃ after, (HeapRun.start (BuddyAllocator.init 0x108000 0x8000)).heap.kmallocAlignedWith
        0x3000 0x4000 = (some (0x108000, .buddy 2), after) ∧
      0x4000 ∣ 0x108000 ∧ after.kfree 0x108000 0x3000 = after.freeOrder 0x108000 2 := by
  obtain ⟨after, hcall⟩ : ∃ after, (HeapRun.start
      (BuddyAllocator.init 0x108000 0x8000)).heap.kmallocAlignedWith 0x3000 0x4000 =
        (some (0x108000, .buddy 2), after) := ⟨_, Prod.ext (by decide +kernel) rfl⟩
  exact ⟨after, hcall, (aligned_block_iff (by decide) (by decide) ⟨14, by decide, rfl⟩ hcall
    (by decide)).mpr ⟨by decide, by decide, fun hsmall ↦ absurd hsmall (by decide)⟩⟩

/-- The region of a first block decides its alignment: 8 KiB are not met at 0x101000. The order that
`kfree` computes from 100 bytes is 0, whatever the alignment was. -/
theorem aligned_block_not :
    (¬ ∀ (base bytes size align ptr order : Nat) (after : Heap (Logged BuddyAllocator)),
      PAGE_SIZE ∣ base → base + bytes ≤ 2 ^ 64 → 0 < size → PowerOfTwo align →
        (HeapRun.start (BuddyAllocator.init base bytes)).heap.kmallocAlignedWith size align =
          (some (ptr, .buddy order), after) → ptr ≠ 0 → align ∣ ptr) ∧
    ¬ ∀ (base bytes size align ptr order : Nat) (after : Heap (Logged BuddyAllocator)),
      PAGE_SIZE ∣ base → base + bytes ≤ 2 ^ 64 → 0 < size → PowerOfTwo align →
        (HeapRun.start (BuddyAllocator.init base bytes)).heap.kmallocAlignedWith size align =
          (some (ptr, .buddy order), after) → ptr ≠ 0 →
            after.kfree ptr size = after.freeOrder ptr order := by
  constructor
  · intro h
    exact absurd (h 0x101000 0x4000 0x2000 0x2000 0x101000 1 _ (by decide) (by decide) (by decide)
      ⟨13, by decide, rfl⟩ (Prod.ext (by decide +kernel) rfl) (by decide)) (by decide)
  · intro h
    have hsame := h 0x100000 0x4000 100 0x2000 0x100000 1 _ (by decide) (by decide) (by decide)
      ⟨13, by decide, rfl⟩ (Prod.ext (by decide +kernel) rfl) (by decide)
    have hreturned := congrArg (fun heap ↦ heap.buddy.returned) hsame
    exact absurd hreturned (by decide +kernel)

end Heap

/-! ## Runs with alignments of more than a page -/

namespace HeapRun

variable {σ : Type*} [PageSource σ]

/-- As `Allowed`, with alignments that leave the order of the size as it is in place of those up to
a page. -/
def AllowedAligned (state : HeapRun σ) : HeapCall σ → Prop
  | .kmallocAligned size align =>
      (align ≤ PAGE_SIZE ∨ align < 2 * size) ∧ PowerOfTwo align ∧
        FreshBlock state.heap state.live (orderFor (Heap.alignedSize size align))
  | call => Allowed state call

instance (state : HeapRun σ) : (call : HeapCall σ) → Decidable (AllowedAligned state call)
  | .kmallocAligned _ _ => inferInstanceAs (Decidable (_ ∧ _ ∧ _))
  | .kmalloc size => inferInstanceAs (Decidable (Allowed state (.kmalloc size)))
  | .kfree a => inferInstanceAs (Decidable (Allowed state (.kfree a)))
  | .other source => inferInstanceAs (Decidable (Allowed state (.other source)))

/-- An allowed call. -/
def alignedStep : HeapRun σ → HeapCall σ → Option (HeapRun σ) := restrict call AllowedAligned

/-- Every allowed call keeps the invariant. -/
theorem owned_alignedStep {state next : HeapRun σ} {action : HeapCall σ}
    (h : Owned state.heap state.live) (hstep : alignedStep state action = some next) :
    Owned next.heap next.live := by
  obtain ⟨hallowed, hcall⟩ := restrict_eq_some.mp hstep
  cases action with
  | kmallocAligned size align =>
      cases hcall
      obtain ⟨hcondition, ⟨e, he, rfl⟩, hfresh⟩ := hallowed
      show Owned (state.heap.kmallocAlignedWith size (2 ^ e)).2
        (adopt size (state.heap.kmallocAlignedWith size (2 ^ e)).1 ++ state.live)
      unfold Heap.kmallocAlignedWith
      split
      · exact h
      · rename_i hzero
        exact h.buddyAlloc hzero hfresh
          ((orderFor_alignedSize_eq_iff (Nat.pos_of_ne_zero hzero) he).mpr hcondition)
  | kmalloc size =>
      have hallowed : Allowed state (.kmalloc size) := hallowed
      exact owned_step h (restrict_eq_some.mpr ⟨hallowed, hcall⟩)
  | kfree a =>
      have hallowed : Allowed state (.kfree a) := hallowed
      exact owned_step h (restrict_eq_some.mpr ⟨hallowed, hcall⟩)
  | other source =>
      have hallowed : Allowed state (.other source) := hallowed
      exact owned_step h (restrict_eq_some.mpr ⟨hallowed, hcall⟩)

/-- In every such run, `kfree` gives every live block of the page source back as a whole, aligned or
not: the slab allocator never claims it. -/
theorem aligned_block_released {source : σ} {state : HeapRun σ}
    (h : Reachable alignedStep (start source) state) {a : Allocation} (ha : a ∈ state.live)
    {order : Nat} (howner : a.owner = .buddy order) :
    state.heap.kfree a.ptr a.size = state.heap.freeOrder a.ptr order := by
  have howned : Owned state.heap state.live :=
    h.invariant (P := fun state ↦ Owned state.heap state.live) (owned_start source)
      fun _ _ _ howned hstep ↦ owned_alignedStep howned hstep
  exact howned.kfree_buddy ha howner

end HeapRun

end Avaria.Mem
