import Mathlib.Data.Finset.Card
import Avaria.Lib.Transition
import Avaria.Mm.Buddy

/-!
# Runs of the buddy allocator

A run is a list of `alloc_pages` and `free_pages` calls after `init`, in which every free names a
block that is live with the order it was allocated at. Two properties of all runs are studied:
that live blocks never overlap, and that a request fails only when live blocks cover every block
of the order asked for.

Neither holds of the bitmap layout. Orders share bits, because `bitIndex` places order `o` at
`2 ^ o - 1` as if orders counted depth from the root; `init` marks the blocks of all orders free
at once; and a merge sets both buddies although the parent's bit may stand for other pages.
`live_disjoint_iff` and `complete_iff` give the exact conditions on the bitmap before a call, and
show that only regions of at most one page are safe for every run.
-/

namespace Avaria.Mm

open Transition

/-- The allocator together with the blocks that its clients hold. -/
structure BuddyRun where
  buddy : BuddyAllocator
  live : List Block

/-- The calls of the clients. -/
inductive BuddyCall where
  | alloc (order : Nat)
  | free (block : Block)

namespace BuddyRun

/-- The state after `init`. -/
def start (base size : Nat) : BuddyRun := ⟨BuddyAllocator.init base size, []⟩

/-- One call. Only a live block may be freed. -/
def step (state : BuddyRun) : BuddyCall → Option BuddyRun
  | .alloc order =>
      let result := state.buddy.allocPages order
      some ⟨result.2, (result.1.map fun addr ↦ ⟨addr, order⟩).toList ++ state.live⟩
  | .free block =>
      if block ∈ state.live then
        some ⟨state.buddy.freePages block.addr block.order, state.live.erase block⟩
      else none

/-- No two live blocks share an address. -/
def LiveDisjoint (state : BuddyRun) : Prop :=
  state.live.Pairwise fun a b ↦ a.extent.Apart b.extent

instance (state : BuddyRun) : Decidable state.LiveDisjoint :=
  inferInstanceAs (Decidable (List.Pairwise _ _))

/-- The block of an order at an index of the managed region. -/
def slot (state : BuddyRun) (order idx : Nat) : Block :=
  ⟨state.buddy.pageAddr (idx <<< order), order⟩

/-- Some live block overlaps this one. -/
def Overlapped (state : BuddyRun) (block : Block) : Prop :=
  ∃ held ∈ state.live, ¬ block.extent.Apart held.extent

/-- The bitmap before the call is right about the slot that the call will take: no live block
lies on the leading `2 ^ order` pages of the first slot whose bit is clear. -/
def FirstFreeUnheld (state : BuddyRun) : BuddyCall → Prop
  | .alloc order => ∀ slotOrder idx, state.buddy.FirstFree order slotOrder idx →
      ¬ state.Overlapped ⟨state.buddy.pageAddr (idx <<< slotOrder), order⟩
  | .free _ => True

/-- A request of an order within `max_order` fails only if live blocks overlap every aligned
block of that order in the region. When nothing is live, every request that a freshly initialised
allocator serves is served. -/
def Complete (base size : Nat) (state : BuddyRun) : BuddyCall → Prop
  | .alloc order =>
      (order ≤ state.buddy.maxOrder → (state.buddy.allocPages order).1 = none →
        ∀ idx, (idx + 1) * 2 ^ order ≤ state.buddy.totalPages →
          state.Overlapped (state.slot order idx)) ∧
      (state.live = [] → ((BuddyAllocator.init base size).allocPages order).1 ≠ none →
        (state.buddy.allocPages order).1 ≠ none)
  | .free _ => True

/-- Before the call some slot of the orders from `order` to `max_order` has a clear bit, or live
blocks overlap every block of the order. -/
def SlotLeft (state : BuddyRun) : BuddyCall → Prop
  | .alloc order => order ≤ state.buddy.maxOrder →
      (∃ slotOrder idx, order ≤ slotOrder ∧ slotOrder ≤ state.buddy.maxOrder ∧
        (idx + 1) * 2 ^ slotOrder ≤ state.buddy.totalPages ∧
        state.buddy.isFree slotOrder idx = true) ∨
      ∀ idx, (idx + 1) * 2 ^ order ≤ state.buddy.totalPages →
        state.Overlapped (state.slot order idx)
  | .free _ => True

/-! ## Geometry -/

theorem inRange_iff {buddy : BuddyAllocator} {order idx : Nat} :
    buddy.InRange order idx ↔ (idx + 1) * 2 ^ order ≤ buddy.totalPages := by
  unfold BuddyAllocator.InRange
  rw [Nat.shiftRight_eq_div_pow, ← Nat.succ_le_iff, Nat.le_div_iff_mul_le (Nat.two_pow_pos _)]

/-- The number of pages and the orders stay what `init` made them. -/
theorem step_geometry {state next : BuddyRun} {call : BuddyCall}
    (h : state.step call = some next) : next.buddy.geometry = state.buddy.geometry := by
  cases call with
  | alloc order =>
      cases h
      exact state.buddy.geometry_allocPages order
  | free block =>
      simp only [step, Option.ite_none_right_eq_some, Option.some.injEq] at h
      obtain ⟨-, rfl⟩ := h
      exact state.buddy.geometry_freePages block.addr block.order

theorem init_maxOrder_pos (base : Nat) {size : Nat} (h : 2 ≤ size / PAGE_SIZE) :
    1 ≤ (BuddyAllocator.init base size).maxOrder := by
  show 1 ≤ growOrder (size / PAGE_SIZE) 20 0
  rw [growOrder, if_pos (by simp only [Nat.shiftLeft_zero]; omega)]
  exact le_growOrder _ _ _

theorem init_maxOrder_zero {base size : Nat} (h : size / PAGE_SIZE ≤ 1) :
    (BuddyAllocator.init base size).maxOrder = 0 := by
  show growOrder (size / PAGE_SIZE) 20 0 = 0
  rw [growOrder, if_neg (by simp only [Nat.shiftLeft_zero]; omega)]

@[simp] theorem init_getBit {base size bit : Nat} :
    (BuddyAllocator.init base size).getBit bit = !decide (BuddyAllocator.InBitmap bit) := by
  rw [BuddyAllocator.getBit_eq]
  have hclear : PackedBits.bit (BuddyAllocator.init base size).bitmap bit = false :=
    (PackedBits.eq_zero_iff (by decide)).mp rfl bit
  split <;> simp [*]

/-- When some slot of the order asked for is free, `alloc_pages` marks the lowest one. -/
theorem allocPages_direct {buddy : BuddyAllocator} {order idx : Nat}
    (horder : order ≤ buddy.maxOrder) (hfind : buddy.findFree order = some idx) :
    buddy.allocPages order =
      (some (buddy.pageAddr (idx <<< order)), buddy.markAllocated order idx) := by
  simp [BuddyAllocator.allocPages, hfind, Nat.not_lt.mpr horder]

/-- A request served from the order asked for makes the lowest free block live. -/
theorem step_alloc_direct (state : BuddyRun) {order idx : Nat}
    (horder : order ≤ state.buddy.maxOrder) (hfind : state.buddy.findFree order = some idx) :
    state.step (.alloc order) =
      some ⟨state.buddy.markAllocated order idx,
        ⟨state.buddy.pageAddr (idx <<< order), order⟩ :: state.live⟩ := by
  simp [step, allocPages_direct horder hfind]

/-- A freshly initialised region serves its first page first. -/
theorem init_findFree_zero (base : Nat) {size : Nat} (h : 1 ≤ size / PAGE_SIZE) :
    (BuddyAllocator.init base size).findFree 0 = some 0 := by
  rw [BuddyAllocator.findFree_eq_some, inRange_iff]
  refine ⟨by simpa [BuddyAllocator.init] using h, ?_, by omega⟩
  simp [BuddyAllocator.bitIndex_eq, BuddyAllocator.inBitmap_iff]

/-- Freeing the first page of the region clears its bit and merges upwards. -/
theorem freePages_base (buddy : BuddyAllocator) :
    buddy.freePages buddy.base 0 =
      BuddyAllocator.mergeUp buddy.maxOrder 0 0 (buddy.markFree 0 0) := by
  simp [BuddyAllocator.freePages]

/-! ## Live blocks -/

/-- Disjoint live blocks are blocks without a common address. -/
theorem liveDisjoint_iff_addresses {state : BuddyRun} :
    state.LiveDisjoint ↔
      state.live.Pairwise fun a b ↦ Disjoint a.extent.addresses b.extent.addresses :=
  List.Pairwise.iff fun a b ↦
    Extent.apart_iff_disjoint a.extent_length_pos b.extent_length_pos

theorem liveDisjoint_cons {state : BuddyRun} {block : Block} {buddy : BuddyAllocator}
    (h : state.LiveDisjoint) :
    LiveDisjoint ⟨buddy, block :: state.live⟩ ↔ ¬ state.Overlapped block := by
  unfold LiveDisjoint Overlapped at *
  simp [h]

/-- One call keeps the live blocks disjoint exactly when the bitmap is right about the first free
slot. -/
theorem step_liveDisjoint {state next : BuddyRun} {call : BuddyCall}
    (h : state.LiveDisjoint) (hstep : state.step call = some next) :
    next.LiveDisjoint ↔ state.FirstFreeUnheld call := by
  cases call with
  | alloc order =>
      cases hstep
      rcases hresult : (state.buddy.allocPages order).1 with _ | addr
      · have hnone := BuddyAllocator.allocPages_eq_none.mp hresult
        constructor
        · intro _ slotOrder idx hfirst
          exact absurd hnone hfirst.not_all_taken
        · intro _
          simpa [LiveDisjoint] using h
      · -- the block handed out is the one that the condition is about
        obtain ⟨slotOrder, idx, hfirst, rfl⟩ := BuddyAllocator.allocPages_eq_some.mp hresult
        refine (liveDisjoint_cons h).trans ⟨?_, fun hunheld ↦ hunheld slotOrder idx hfirst⟩
        intro hoverlap otherOrder otherIdx hother
        obtain ⟨rfl, rfl⟩ := hfirst.unique hother
        exact hoverlap
  | free block =>
      simp only [step, Option.ite_none_right_eq_some, Option.some.injEq] at hstep
      obtain ⟨-, rfl⟩ := hstep
      exact iff_of_true (h.sublist List.erase_sublist) trivial

/-! ## Regions of at most one page -/

/-- In a region of at most one page, the page is live exactly when its bit is set. -/
structure SinglePage (base : Nat) (state : BuddyRun) : Prop where
  base_eq : state.buddy.base = base
  totalPages_le : state.buddy.totalPages ≤ 1
  maxOrder_eq : state.buddy.maxOrder = 0
  held : (state.live = [] ∧ state.buddy.getBit 0 = false) ∨
    (state.live = [⟨base, 0⟩] ∧ state.buddy.getBit 0 = true)

theorem singlePage_start {base size : Nat} (hsize : size / PAGE_SIZE ≤ 1) :
    SinglePage base (start base size) where
  base_eq := rfl
  totalPages_le := hsize
  maxOrder_eq := init_maxOrder_zero hsize
  held := Or.inl ⟨rfl, by
    show (BuddyAllocator.init base size).getBit 0 = false
    rw [init_getBit]
    decide⟩

theorem SinglePage.step {base : Nat} (hbase : base < 2 ^ 64) {state next : BuddyRun}
    {call : BuddyCall} (h : SinglePage base state) (hstep : state.step call = some next) :
    SinglePage base next := by
  have hgeometry := step_geometry hstep
  simp only [BuddyAllocator.geometry, Prod.mk.injEq] at hgeometry
  refine ⟨hgeometry.1.trans h.base_eq, hgeometry.2.1.trans_le h.totalPages_le,
    hgeometry.2.2.trans h.maxOrder_eq, ?_⟩
  cases call with
  | alloc order =>
      cases hstep
      rcases hresult : state.buddy.allocPages order with ⟨_ | addr, after⟩
      · have hsame := PageSource.allocPages_none state.buddy order (congrArg Prod.fst hresult)
        change (state.buddy.allocPages order).2 = state.buddy at hsame
        rw [hresult] at hsame
        subst hsame
        exact h.held
      · -- only page 0 at order 0 exists, so its bit was clear and nothing was live
        obtain ⟨slotOrder, idx, hfirst, haddr⟩ :=
          BuddyAllocator.allocPages_eq_some.mp (congrArg Prod.fst hresult)
        have hslot : slotOrder = 0 := by
          have := hfirst.le_maxOrder
          rw [h.maxOrder_eq] at this
          omega
        subst hslot
        have horder : order = 0 := by have := hfirst.order_le; omega
        subst horder
        have hidx : idx = 0 := by
          have hrange := inRange_iff.mp hfirst.inRange
          have := h.totalPages_le
          omega
        subst hidx
        have hfind : state.buddy.findFree 0 = some 0 :=
          BuddyAllocator.findFree_eq_some.mpr ⟨hfirst.inRange, hfirst.free, by omega⟩
        rw [allocPages_direct (Nat.zero_le _) hfind] at hresult
        cases hresult
        have hclear : state.buddy.getBit 0 = false := by
          simpa [BuddyAllocator.bitIndex_eq] using hfirst.free
        rcases h.held with ⟨hlive, -⟩ | ⟨-, hset⟩
        · refine Or.inr ⟨?_, ?_⟩
          · simp [hlive, BuddyAllocator.pageAddr, h.base_eq, usize_eq hbase]
          · simp [BuddyAllocator.markAllocated, BuddyAllocator.bitIndex_eq]
        · rw [hclear] at hset
          cases hset
  | free block =>
      simp only [BuddyRun.step, Option.ite_none_right_eq_some, Option.some.injEq] at hstep
      obtain ⟨hmem, rfl⟩ := hstep
      rcases h.held with ⟨hlive, -⟩ | ⟨hlive, -⟩
      · simp [hlive] at hmem
      · obtain rfl : block = ⟨base, 0⟩ := by simpa [hlive] using hmem
        refine Or.inl ⟨by simp [hlive], ?_⟩
        show (state.buddy.freePages base 0).getBit 0 = false
        rw [← h.base_eq, freePages_base, h.maxOrder_eq, BuddyAllocator.mergeUp,
          BuddyAllocator.markFree, BuddyAllocator.getBit_clearBit]
        simp [BuddyAllocator.bitIndex_eq, BuddyAllocator.inBitmap_iff]

theorem SinglePage.liveDisjoint {base : Nat} {state : BuddyRun} (h : SinglePage base state) :
    state.LiveDisjoint := by
  rcases h.held with ⟨hlive, -⟩ | ⟨hlive, -⟩ <;> simp [LiveDisjoint, hlive]

/-! ## Larger regions lose a page -/

/-- A merge at order 1 or above leaves the bit of page 0 alone. -/
theorem getBit_zero_mergeUp (left order idx : Nat) (buddy : BuddyAllocator) (horder : 1 ≤ order) :
    (BuddyAllocator.mergeUp left order idx buddy).getBit 0 = buddy.getBit 0 := by
  induction left generalizing order idx buddy with
  | zero => rfl
  | succ left ih =>
      have hbit : ∀ o i, 1 ≤ o → ¬ 0 = BuddyAllocator.bitIndex o i := by
        intro o i ho
        have := Nat.pow_le_pow_right (n := 2) (by decide) ho
        rw [BuddyAllocator.bitIndex_eq]
        omega
      unfold BuddyAllocator.mergeUp
      split
      · rw [ih _ _ _ (by omega)]
        simp [BuddyAllocator.markAllocated, BuddyAllocator.markFree, hbit order _ horder,
          hbit (order + 1) _ (by omega)]
      · rfl

/-- Every slot of a larger order uses a bit that order 0 uses for a page of the region. -/
theorem bitIndex_lt_totalPages {buddy : BuddyAllocator} {order idx : Nat}
    (h : buddy.InRange order idx) : BuddyAllocator.bitIndex order idx < buddy.totalPages := by
  have hrange := inRange_iff.mp h
  have hpow := Nat.two_pow_pos order
  have hmul : idx ≤ idx * 2 ^ order := Nat.le_mul_of_pos_right idx hpow
  rw [Nat.add_one_mul] at hrange
  rw [BuddyAllocator.bitIndex_eq]
  omega

/-- When no page is free at order 0, no request of order 0 can be served. -/
theorem allocPages_zero_eq_none {buddy : BuddyAllocator} (h : buddy.findFree 0 = none) :
    (buddy.allocPages 0).1 = none := by
  rw [BuddyAllocator.allocPages_eq_none]
  intro o _ _ idx hrange
  have hpage : buddy.InRange 0 (BuddyAllocator.bitIndex o idx) := by
    simpa [BuddyAllocator.InRange] using bitIndex_lt_totalPages hrange
  simpa [BuddyAllocator.bitIndex_eq] using BuddyAllocator.findFree_eq_none.mp h _ hpage

/-- The number of pages whose bit is clear. -/
def clearPages (buddy : BuddyAllocator) : Nat :=
  ((Finset.range buddy.totalPages).filter fun page ↦ buddy.isFree 0 page = true).card

theorem clearPages_markAllocated {buddy : BuddyAllocator} {page : Nat}
    (hpage : page < buddy.totalPages) (hfree : buddy.isFree 0 page = true) :
    clearPages (buddy.markAllocated 0 page) < clearPages buddy := by
  have hbit : ∀ j, (buddy.markAllocated 0 page).isFree 0 j = true ↔
      j ≠ page ∧ buddy.isFree 0 j = true := by
    intro j
    simp [BuddyAllocator.markAllocated, BuddyAllocator.bitIndex_eq]
  apply Finset.card_lt_card
  rw [Finset.ssubset_iff_of_subset]
  · refine ⟨page, Finset.mem_filter.mpr ⟨Finset.mem_range.mpr hpage, hfree⟩, ?_⟩
    intro hmem
    exact ((hbit page).mp (Finset.mem_filter.mp hmem).2).1 rfl
  · intro j hj
    obtain ⟨hrange, hj⟩ := Finset.mem_filter.mp hj
    exact Finset.mem_filter.mpr ⟨hrange, ((hbit j).mp hj).2⟩

/-- Requests of order 0 drain the allocator: if page 0 is marked and no live block lies on it,
some run reaches a state where a further request fails while page 0 is still unused. -/
theorem drain (count : Nat) (state : BuddyRun) (hcount : clearPages state.buddy = count)
    (hset : state.buddy.getBit 0 = true) (hbase : state.buddy.base < 2 ^ 64)
    (hlive : ¬ state.Overlapped ⟨state.buddy.base, 0⟩) :
    ∃ calls final, run step state calls = some final ∧
      final.buddy.geometry = state.buddy.geometry ∧ (final.buddy.allocPages 0).1 = none ∧
      ¬ final.Overlapped ⟨state.buddy.base, 0⟩ := by
  -- each allocation marks one page of order 0, and an allocation of order 0 clears no bit
  induction count using Nat.strong_induction_on generalizing state with
  | _ count ih =>
      cases hfind : state.buddy.findFree 0 with
      | none => exact ⟨[], state, rfl, rfl, allocPages_zero_eq_none hfind, hlive⟩
      | some page =>
          obtain ⟨hrange, hfree, -⟩ := BuddyAllocator.findFree_eq_some.mp hfind
          have hclear : state.buddy.getBit page = false := by
            simpa [BuddyAllocator.bitIndex_eq] using hfree
          have hpos : page ≠ 0 := by
            intro heq
            subst heq
            rw [hset] at hclear
            cases hclear
          have hsmall : page < 2 ^ 20 := by
            rw [← BuddyAllocator.inBitmap_iff]
            by_contra hout
            simp [BuddyAllocator.getBit_eq, hout] at hclear
          -- the page handed out is at another address, wrapped or not
          have hapart : (⟨state.buddy.base, 0⟩ : Block).extent.Apart
              (⟨state.buddy.pageAddr (page <<< 0), 0⟩ : Block).extent := by
            simp only [Extent.Apart, Block.extent, PAGE_SIZE, BuddyAllocator.pageAddr, usize,
              Nat.shiftLeft_zero, pow_zero]
            omega
          obtain ⟨calls, final, hrun, hgeometry, hnone, hfinal⟩ :=
            ih (clearPages (state.buddy.markAllocated 0 page))
              (hcount ▸ clearPages_markAllocated (by simpa [BuddyAllocator.InRange] using hrange)
                hfree)
              ⟨state.buddy.markAllocated 0 page,
                ⟨state.buddy.pageAddr (page <<< 0), 0⟩ :: state.live⟩ rfl
              (by simp [BuddyAllocator.markAllocated, hset]) hbase
              (by
                intro hcase
                obtain ⟨block, hmem, hnot⟩ := hcase
                rcases List.mem_cons.mp hmem with rfl | hmem
                · exact hnot hapart
                · exact hlive ⟨block, hmem, hnot⟩)
          refine ⟨.alloc 0 :: calls, final, ?_, hgeometry, hnone, hfinal⟩
          rw [run_cons, step_alloc_direct _ (Nat.zero_le _) hfind]
          exact hrun

/-- A single allocation that is freed again costs a region of two or more pages its first page. -/
theorem exists_incomplete {base size : Nat} (hbase : base < 2 ^ 64)
    (hsize : 2 ≤ size / PAGE_SIZE) :
    ∃ calls, ¬ Throughout step (Complete base size) (start base size) calls := by
  have hmax := init_maxOrder_pos base hsize
  have hpages : (BuddyAllocator.init base size).totalPages = size / PAGE_SIZE := rfl
  have hfind := init_findFree_zero base (le_trans (by decide) hsize)
  have haddr : (BuddyAllocator.init base size).pageAddr (0 <<< 0) = base := by
    simp [BuddyAllocator.pageAddr, usize_eq hbase, BuddyAllocator.init]
  set allocated := (BuddyAllocator.init base size).markAllocated 0 0 with hallocated
  set freed := allocated.freePages base 0 with hfreed
  have hrun : run step (start base size) [.alloc 0, .free ⟨base, 0⟩] =
      some ⟨freed, []⟩ := by
    have halloc := step_alloc_direct (start base size) (Nat.zero_le _) hfind
    rw [run_cons, halloc]
    show run step ⟨allocated, [⟨(BuddyAllocator.init base size).pageAddr (0 <<< 0), 0⟩]⟩ _ = _
    rw [haddr]
    simp [step, hfreed]
  have hset : freed.getBit 0 = true := by
    -- the buddy of page 0 is free, so the first round of the merge sets both bits
    have hbuddy : (allocated.markFree 0 0).isFree 0 (0 ^^^ 1) = true := by
      simp [hallocated, BuddyAllocator.markFree, BuddyAllocator.markAllocated,
        BuddyAllocator.bitIndex_eq, BuddyAllocator.inBitmap_iff]
    have hlevels : allocated.maxOrder = (allocated.maxOrder - 1) + 1 := by
      change 1 ≤ allocated.maxOrder at hmax
      omega
    rw [hfreed, show base = allocated.base from rfl, freePages_base, hlevels,
      BuddyAllocator.mergeUp, if_pos hbuddy, getBit_zero_mergeUp _ _ _ _ le_rfl]
    simp [BuddyAllocator.markFree, BuddyAllocator.markAllocated, BuddyAllocator.bitIndex_eq]
  have hgeometry : freed.geometry = (BuddyAllocator.init base size).geometry := by
    rw [hfreed, BuddyAllocator.geometry_freePages, hallocated,
      BuddyAllocator.geometry_markAllocated]
  have hfreedBase : freed.base = base := congrArg Prod.fst hgeometry
  obtain ⟨calls, final, hdrain, hfinalGeometry, hnone, hfinal⟩ :=
    drain _ ⟨freed, []⟩ rfl hset (by rw [hfreedBase]; exact hbase) (by simp [Overlapped])
  -- page 0 is lost, so the last request fails although page 0 is unused
  refine ⟨[.alloc 0, .free ⟨base, 0⟩] ++ calls ++ [.alloc 0], ?_⟩
  intro hthroughout
  have hreach : run step (start base size) ([.alloc 0, .free ⟨base, 0⟩] ++ calls) =
      some final := by
    rw [run_append, hrun]
    exact hdrain
  obtain ⟨hcomplete, -⟩ := hthroughout.at_prefix hreach
  have hfinalBase : final.buddy.base = base :=
    (congrArg Prod.fst hfinalGeometry).trans hfreedBase
  have hfinalPages : final.buddy.totalPages = size / PAGE_SIZE :=
    (congrArg (fun geometry ↦ geometry.2.1) hfinalGeometry).trans
      (congrArg (fun geometry ↦ geometry.2.1) hgeometry)
  have hover := hcomplete (Nat.zero_le _) hnone 0 (by rw [hfinalPages]; omega)
  rw [hfreedBase] at hfinal
  apply hfinal
  simpa [slot, BuddyAllocator.pageAddr, hfinalBase, usize_eq hbase] using hover

/-! ## The two results -/

/-- In a region of two or more pages, a page and the pair that contains it are both handed out. -/
theorem exists_overlap (base : Nat) {size : Nat} (hsize : 2 ≤ size / PAGE_SIZE) :
    ∃ calls, ¬ Along step LiveDisjoint (start base size) calls := by
  have hmax := init_maxOrder_pos base hsize
  have hfirst := init_findFree_zero base (le_trans (by decide) hsize)
  have hpage := step_alloc_direct (start base size) (Nat.zero_le _) hfirst
  set allocated := (start base size).buddy.markAllocated 0 0 with hallocated
  -- bit 0 stands for page 0 only; the pair that contains it has bit 1, which is still clear
  have hsecond : allocated.findFree 1 = some 0 := by
    rw [BuddyAllocator.findFree_eq_some, inRange_iff]
    refine ⟨hsize, ?_, by omega⟩
    simp [hallocated, start, BuddyAllocator.markAllocated, BuddyAllocator.bitIndex_eq,
      BuddyAllocator.inBitmap_iff]
  have hpair := step_alloc_direct ⟨allocated,
    [⟨(start base size).buddy.pageAddr (0 <<< 0), 0⟩]⟩ hmax hsecond
  refine ⟨[.alloc 0, .alloc 1], fun hall ↦ ?_⟩
  have hlive := (hall.2 _ hpage).2 _ hpair
  have hapart := (List.pairwise_cons.mp hlive).1 _ (List.mem_singleton.mpr rfl)
  simp only [Extent.Apart, Block.extent, BuddyAllocator.pageAddr, PAGE_SIZE, hallocated,
    BuddyAllocator.markAllocated, BuddyAllocator.setBit, Nat.zero_shiftLeft] at hapart
  omega

/-- Live blocks stay disjoint along a run exactly when before each allocation no live block lies
on the first slot whose bit is clear. Only regions of at most one page keep live blocks disjoint
along every run: in a larger one a page and the pair that contains it are both handed out. -/
theorem live_disjoint_iff (base size : Nat) (hregion : base + size < 2 ^ 64) :
    (∀ calls, Along step LiveDisjoint (start base size) calls ↔
      Throughout step FirstFreeUnheld (start base size) calls) ∧
    ((∀ calls, Along step LiveDisjoint (start base size) calls) ↔ size / PAGE_SIZE ≤ 1) := by
  have hstart : (start base size).LiveDisjoint := List.Pairwise.nil
  have hiff : ∀ calls, Along step LiveDisjoint (start base size) calls ↔
      Throughout step FirstFreeUnheld (start base size) calls := fun calls ↦
    along_iff_throughout (fun _ _ _ ↦ step_liveDisjoint)
      (fun state call hstuck ↦ by cases call <;> simp_all [step, FirstFreeUnheld]) hstart calls
  refine ⟨hiff, ?_, ?_⟩
  · intro hall
    by_contra hsize
    obtain ⟨calls, hnot⟩ := exists_overlap base (Nat.lt_of_not_le hsize)
    exact hnot (hall calls)
  · intro hsize calls
    rw [hiff]
    refine throughout_of_invariant (P := SinglePage base) (fun _ _ _ ↦ SinglePage.step (by omega))
      ?_ (singlePage_start hsize) calls
    intro state call hsingle
    cases hstep : state.step call with
    | none => cases call <;> simp_all [step, FirstFreeUnheld]
    | some next =>
        exact (step_liveDisjoint hsingle.liveDisjoint hstep).mp
          (hsingle.step (by omega) hstep).liveDisjoint

/-- An instance of `live_disjoint_iff` at a region of one page. -/
theorem live_disjoint_one_page :
    0x100000 + 0x1000 < 2 ^ 64 ∧
      ∀ calls, Along step LiveDisjoint (start 0x100000 0x1000) calls :=
  ⟨by decide, (live_disjoint_iff 0x100000 0x1000 (by decide)).2.mpr (by decide)⟩

/-- A two-page region hands out page 0 and then the pair that contains it. -/
theorem live_overlap_two_pages :
    0x100000 + 0x2000 < 2 ^ 64 ∧
      ¬ Along step LiveDisjoint (start 0x100000 0x2000) [.alloc 0, .alloc 1] := by
  refine ⟨by decide, ?_⟩
  intro hcase
  obtain ⟨-, h⟩ := hcase
  have hpair := (h _ rfl).2 _ rfl
  revert hpair
  simp only [Along]
  decide

/-- A request can fail wrongly exactly when every bit it looks at is set although some block of
its order is unheld. -/
theorem complete_iff_slotLeft {base size : Nat} {state : BuddyRun} {call : BuddyCall}
    (hgeometry : state.buddy.geometry = (BuddyAllocator.init base size).geometry) :
    state.Complete base size call ↔ state.SlotLeft call := by
  simp only [BuddyAllocator.geometry, Prod.mk.injEq] at hgeometry
  obtain ⟨-, hpages, hmax⟩ := hgeometry
  cases call with
  | free block => exact Iff.rfl
  | alloc order =>
      constructor
      · intro hcase horder
        obtain ⟨hcomplete, -⟩ := hcase
        by_contra hnot
        rw [not_or] at hnot
        refine hnot.2 (hcomplete horder (BuddyAllocator.allocPages_eq_none.mpr ?_))
        intro o hle hmaxOrder idx hrange
        by_contra hfree
        exact hnot.1 ⟨o, idx, hle, hmaxOrder, inRange_iff.mp hrange, by simpa using hfree⟩
      · intro hslot
        have hcomplete : order ≤ state.buddy.maxOrder → (state.buddy.allocPages order).1 = none →
            ∀ idx, (idx + 1) * 2 ^ order ≤ state.buddy.totalPages →
              state.Overlapped (state.slot order idx) := by
          intro horder hnone
          rcases hslot horder with ⟨o, idx, hle, hmaxOrder, hrange, hfree⟩ | hover
          · have htaken := BuddyAllocator.allocPages_eq_none.mp hnone o hle hmaxOrder idx
              (inRange_iff.mpr hrange)
            rw [hfree] at htaken
            cases htaken
          · exact hover
        refine ⟨hcomplete, ?_⟩
        intro hlive hfresh hnone
        -- the slot that the fresh allocator serves contains block 0 of the order
        obtain ⟨addr, haddr⟩ := Option.ne_none_iff_exists'.mp hfresh
        obtain ⟨slotOrder, idx, hfirst, -⟩ := BuddyAllocator.allocPages_eq_some.mp haddr
        have hrange := inRange_iff.mp hfirst.inRange
        have hpow := Nat.pow_le_pow_right (n := 2) (by decide) hfirst.order_le
        have hslotPow : 2 ^ slotOrder ≤ (idx + 1) * 2 ^ slotOrder :=
          Nat.le_mul_of_pos_left _ (Nat.succ_pos idx)
        obtain ⟨held, hmem, -⟩ := hcomplete
          (hmax ▸ le_trans hfirst.order_le hfirst.le_maxOrder) hnone 0
          (by rw [hpages]; omega)
        simp [hlive] at hmem

theorem SinglePage.slotLeft {base : Nat} (hbase : base < 2 ^ 64) {state : BuddyRun}
    (h : SinglePage base state) (call : BuddyCall) : state.SlotLeft call := by
  cases call with
  | free block => trivial
  | alloc order =>
      intro horder
      obtain rfl : order = 0 := by have := h.maxOrder_eq; omega
      have hpages := h.totalPages_le
      rcases h.held with ⟨-, hclear⟩ | ⟨hlive, -⟩
      · by_cases hone : 1 ≤ state.buddy.totalPages
        · exact Or.inl ⟨0, 0, le_rfl, Nat.zero_le _, by simpa using hone,
            by simpa [BuddyAllocator.bitIndex_eq] using hclear⟩
        · exact Or.inr fun idx hidx ↦ by omega
      · refine Or.inr fun idx hidx ↦ ⟨⟨base, 0⟩, by simp [hlive], ?_⟩
        obtain rfl : idx = 0 := by omega
        have haddr : state.slot 0 0 = ⟨base, 0⟩ := by
          simp [slot, BuddyAllocator.pageAddr, h.base_eq, usize_eq hbase]
        rw [haddr]
        exact Extent.not_apart_self (Block.extent_length_pos _)

/-- Requests fail only for want of pages along a run exactly when before each request a bit it
looks at is clear or its blocks are all held. Only regions of at most one page serve every run
completely: a larger one loses its first page once that is allocated and freed. -/
theorem complete_iff (base size : Nat) (hbase : base < 2 ^ 64) :
    (∀ calls, Throughout step (Complete base size) (start base size) calls ↔
      Throughout step SlotLeft (start base size) calls) ∧
    ((∀ calls, Throughout step (Complete base size) (start base size) calls) ↔
      size / PAGE_SIZE ≤ 1) := by
  have hiff : ∀ calls, Throughout step (Complete base size) (start base size) calls ↔
      Throughout step SlotLeft (start base size) calls := fun calls ↦
    throughout_congr
      (P := fun state ↦ state.buddy.geometry = (BuddyAllocator.init base size).geometry)
      (fun _ _ _ hgeometry hstep ↦ (step_geometry hstep).trans hgeometry)
      (fun _ _ ↦ complete_iff_slotLeft) rfl calls
  refine ⟨hiff, ?_, ?_⟩
  · intro hall
    by_contra hsize
    obtain ⟨calls, hnot⟩ := exists_incomplete hbase (Nat.lt_of_not_le hsize)
    exact hnot (hall calls)
  · intro hsize calls
    exact (hiff calls).mpr (throughout_of_invariant (P := SinglePage base)
      (fun _ _ _ ↦ SinglePage.step hbase) (fun _ call h ↦ h.slotLeft hbase call)
      (singlePage_start hsize) calls)

/-- An instance of `complete_iff` at a region of one page. -/
theorem complete_one_page :
    0x100000 < 2 ^ 64 ∧
      ∀ calls, Throughout step (Complete 0x100000 0x1000) (start 0x100000 0x1000) calls :=
  ⟨by decide, (complete_iff 0x100000 0x1000 (by decide)).2.mpr (by decide)⟩

/-- A three-page region serves a page once; after that page is freed it serves nothing. -/
theorem incomplete_three_pages :
    ¬ Throughout step (Complete 0x100000 0x3000) (start 0x100000 0x3000)
      [.alloc 0, .free ⟨0x100000, 0⟩, .alloc 0] := by
  intro hcase
  obtain ⟨-, h⟩ := hcase
  obtain ⟨⟨-, hserves⟩, -⟩ := (h _ rfl).2 _ rfl
  exact hserves (by decide) (by decide) (by decide)

end BuddyRun

end Avaria.Mm
