import Avaria.Mem.Aligned
import Avaria.Mem.MapMmio

/-!
# Single pages from the buddy allocator

`map_mmio` and `ahci::init` rely on a page source that hands out every page once (`Supplies`). The
buddy allocator can hand out blocks of several pages that overlap others. Single pages are
different: each has a bit of its own, the bits of larger blocks are among them, and a request finds
a clear one or fails. So the allocator supplies pages, from any bitmap, until something is given
back (`buddy_supplies`), and `page_requests_distinct` says what any number of requests return.
-/

namespace Avaria.Mem

open Mm

section Requests

variable {σ : Type*} [PageSource σ]

/-- The pages that a number of requests return, the last one first, and the source afterwards. -/
def requests (source : σ) : Nat → List Nat × σ
  | 0 => ([], source)
  | count + 1 =>
      let (taken, source) := requests source count
      match PageSource.allocPages source 0 with
      | (some page, source) => (page :: taken, source)
      | (none, source) => (taken, source)

/-- A source that hands out every page once hands out different pages, all of those that it had. -/
theorem Supplies.requests {spare : σ → Set Nat → Prop} (h : Supplies spare) {source : σ}
    {pages : Set Nat} (hspare : spare source pages) (count : Nat) :
    (requests source count).1.Nodup ∧ (∀ page ∈ (requests source count).1, page ∈ pages) ∧
      spare (requests source count).2 (pages \ {page | page ∈ (requests source count).1}) := by
  induction count with
  | zero =>
      refine ⟨List.nodup_nil, fun page hpage ↦ absurd hpage List.not_mem_nil, ?_⟩
      rw [show {page | page ∈ (Mem.requests source 0).1} = ∅ from
        Set.eq_empty_of_forall_notMem fun _ ↦ List.not_mem_nil, Set.sdiff_empty]
      exact hspare
  | succ count ih =>
      obtain ⟨hnodup, hmem, hleft⟩ := ih
      rw [Mem.requests]
      generalize Mem.requests source count = before at hnodup hmem hleft
      obtain ⟨taken, current⟩ := before
      dsimp only at hnodup hmem hleft ⊢
      rcases hcall : PageSource.allocPages current 0 with ⟨_ | page, after⟩
      · have hsame := PageSource.allocPages_none current 0 (congrArg Prod.fst hcall)
        rw [hcall] at hsame
        dsimp only at hsame ⊢
        rw [hsame]
        exact ⟨hnodup, hmem, hleft⟩
      · obtain ⟨hnew, hafter⟩ := h _ _ _ _ hleft hcall
        refine ⟨List.nodup_cons.mpr ⟨fun hold ↦ hnew.2 hold, hnodup⟩, ?_, ?_⟩
        · intro other hother
          rcases List.mem_cons.mp hother with rfl | hother
          · exact hnew.1
          · exact hmem other hother
        · have hset : pages \ {other | other ∈ page :: taken} =
              (pages \ {other | other ∈ taken}) \ {page} := by
            ext other
            simp only [Set.mem_sdiff, Set.mem_ofPred_eq, List.mem_cons, Set.mem_singleton_iff]
            tauto
          rw [hset]
          exact hafter

end Requests

/-- The region ends in the address space, and the pages whose bit is clear are in the set. -/
def ClearPages (buddy : BuddyAllocator) (pages : Set Nat) : Prop :=
  buddy.base + buddy.totalPages * PAGE_SIZE ≤ 2 ^ 64 ∧
    ∀ page < buddy.totalPages, buddy.getBit page = false → buddy.base + page * PAGE_SIZE ∈ pages

/-- The buddy allocator hands out every page once. -/
theorem buddy_supplies : Supplies ClearPages := by
  rintro buddy pages addr after ⟨hregion, hpages⟩ hcall
  have hcall : buddy.allocPages 0 = (some addr, after) := hcall
  cases hfind : buddy.findFree 0 with
  | none =>
      have hnone := BuddyRun.allocPages_zero_eq_none hfind
      rw [hcall] at hnone
      cases hnone
  | some page =>
      rw [BuddyRun.allocPages_direct (Nat.zero_le _) hfind] at hcall
      obtain ⟨haddr, rfl⟩ := Prod.mk.inj hcall
      obtain ⟨hrange, hclear, -⟩ := BuddyAllocator.findFree_eq_some.mp hfind
      have hlt : page < buddy.totalPages := hrange
      have hbit : buddy.getBit page = false := by
        rwa [BuddyAllocator.isFree_eq, BuddyAllocator.bitIndex_eq, Bool.not_eq_true',
          show 2 ^ 0 - 1 + page = page from Nat.zero_add page] at hclear
      have hfits : page * PAGE_SIZE + PAGE_SIZE ≤ buddy.totalPages * PAGE_SIZE :=
        (Nat.succ_mul page PAGE_SIZE).symm.le.trans (Nat.mul_le_mul_right _ hlt)
      have haddr : addr = buddy.base + page * PAGE_SIZE := by
        rw [← Option.some.inj haddr, Nat.shiftLeft_zero]
        refine usize_eq ?_
        have hsize : 0 < PAGE_SIZE := by decide
        omega
      refine ⟨haddr ▸ hpages page hlt hbit, hregion, fun other hother hleft ↦ ?_⟩
      -- the bit of the page is set now
      rw [BuddyAllocator.markAllocated, BuddyAllocator.getBit_setBit, Bool.or_eq_false_iff,
        BuddyAllocator.bitIndex_eq] at hleft
      obtain ⟨hne, hother'⟩ := hleft
      have hne : other ≠ page := by simpa using hne
      refine ⟨hpages other hother hother', fun hsame ↦ hne ?_⟩
      rw [Set.mem_singleton_iff, haddr] at hsame
      exact Nat.eq_of_mul_eq_mul_right (by decide) (Nat.add_left_cancel hsame)

/-- However many single pages are requested, from whatever bitmap, and as long as nothing is given
back: the pages returned are all different, they lie in the region, and their bits were clear. -/
theorem page_requests_distinct {buddy : BuddyAllocator}
    (hregion : buddy.base + buddy.totalPages * PAGE_SIZE ≤ 2 ^ 64) (count : Nat) :
    (requests buddy count).1.Nodup ∧
      ∀ addr ∈ (requests buddy count).1, ∃ page < buddy.totalPages,
        buddy.getBit page = false ∧ addr = buddy.base + page * PAGE_SIZE := by
  have hclear : ClearPages buddy {addr | ∃ page < buddy.totalPages,
      buddy.getBit page = false ∧ addr = buddy.base + page * PAGE_SIZE} :=
    ⟨hregion, fun page hlt hbit ↦ ⟨page, hlt, hbit, rfl⟩⟩
  obtain ⟨hnodup, hmem, -⟩ := buddy_supplies.requests hclear count
  exact ⟨hnodup, hmem⟩

/-- Three of the pages of a small region. -/
theorem page_requests_distinct_three :
    (requests (BuddyAllocator.init 0x100000 0x4000) 3).1 = [0x102000, 0x101000, 0x100000] ∧
      (requests (BuddyAllocator.init 0x100000 0x4000) 3).1.Nodup :=
  ⟨by decide +kernel, (page_requests_distinct (by decide) 3).1⟩

end Avaria.Mem
