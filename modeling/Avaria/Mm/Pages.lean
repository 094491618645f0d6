import Mathlib.Algebra.Group.Nat.Defs
import Avaria.Lib.Extent

/-!
# Pages and page sources

The vocabulary that the memory modules share: 64-bit wrapping, the block of `2 ^ order` pages, the
order loop of the allocator entry points, and the interface `PageSource` through which the slab
layer, `kmalloc` and the scheduler obtain pages. The buddy allocator is the kernel's page source;
results about the layers above it take any source.

`Logged` wraps a source and records its calls. The record never influences an answer.
-/

namespace Avaria.Mm

/-- `PAGE_SIZE` of `mm/buddy.rs`, `mm/slab.rs` and `mem.rs`. -/
def PAGE_SIZE : Nat := 4096

/-- The value of a `usize` or `u64` expression in the release build. -/
def usize (value : Nat) : Nat := value % 2 ^ 64

theorem usize_eq {value : Nat} (h : value < 2 ^ 64) : usize value = value := Nat.mod_eq_of_lt h

theorem usize_lt (value : Nat) : usize value < 2 ^ 64 := Nat.mod_lt _ (by decide)

/-- A block of `2 ^ order` pages at an address. -/
structure Block where
  addr : Nat
  order : Nat
  deriving DecidableEq, Repr

namespace Block

/-- The address range `[addr, addr + 4096 * 2 ^ order)`. -/
def extent (block : Block) : Extent := ⟨block.addr, PAGE_SIZE * 2 ^ block.order⟩

theorem extent_length_pos (block : Block) : 0 < block.extent.length :=
  Nat.mul_pos (by decide) (Nat.two_pow_pos _)

end Block

/-- The loop `while (1 << order) < pages { order += 1 }` with at most `left` iterations. -/
def growOrder (pages : Nat) : Nat → Nat → Nat
  | 0, order => order
  | left + 1, order => if 1 <<< order < pages then growOrder pages left (order + 1) else order

theorem le_growOrder (pages left order : Nat) : order ≤ growOrder pages left order := by
  induction left generalizing order with
  | zero => exact le_rfl
  | succ left ih =>
      unfold growOrder
      split
      · exact le_trans (Nat.le_succ order) (ih (order + 1))
      · exact le_rfl

/-- The loop stops at an order that covers the pages, or for lack of iterations. -/
theorem le_two_pow_growOrder (pages left order : Nat) (h : pages ≤ 2 ^ (order + left)) :
    pages ≤ 2 ^ growOrder pages left order := by
  induction left generalizing order with
  | zero => exact h
  | succ left ih =>
      unfold growOrder
      split
      · exact ih (order + 1) (by rwa [Nat.add_assoc, Nat.add_comm 1 left])
      · rename_i hstop
        rw [Nat.shiftLeft_eq, Nat.one_mul] at hstop
        omega

/-- The loop passes over the orders that do not cover the pages only. -/
theorem two_pow_lt_of_lt_growOrder {pages left order o : Nat} (hle : order ≤ o)
    (hlt : o < growOrder pages left order) : 2 ^ o < pages := by
  induction left generalizing order with
  | zero => exact absurd hlt (Nat.not_lt.mpr hle)
  | succ left ih =>
      unfold growOrder at hlt
      split at hlt
      · rename_i hnext
        rcases Nat.eq_or_lt_of_le hle with rfl | hle
        · rwa [Nat.shiftLeft_eq, Nat.one_mul] at hnext
        · exact ih hle hlt
      · exact absurd hlt (Nat.not_lt.mpr hle)

/-- The interface of the page allocator as its clients see it. A request that fails leaves the
source as it was. -/
class PageSource (σ : Type*) where
  allocPages : σ → Nat → Option Nat × σ
  freePages : σ → Nat → Nat → σ
  allocPages_none : ∀ source order, (allocPages source order).1 = none →
    (allocPages source order).2 = source

namespace PageSource

variable {σ : Type*} [PageSource σ]

/-- `alloc_one`: a single page. -/
def allocOne (source : σ) : Option Nat × σ := allocPages source 0

/-- `free_one`: give back a single page. -/
def freeOne (source : σ) (addr : Nat) : σ := freePages source addr 0

end PageSource

/-- A page source together with the blocks it handed out and the blocks it was given back. -/
structure Logged (σ : Type*) where
  source : σ
  obtained : List Block
  returned : List Block

namespace Logged

variable {σ : Type*} [PageSource σ]

/-- Pass the request on and record a block that was handed out. -/
def allocPages (log : Logged σ) (order : Nat) : Option Nat × Logged σ :=
  match PageSource.allocPages log.source order with
  | (some addr, source) =>
      (some addr, { log with source, obtained := ⟨addr, order⟩ :: log.obtained })
  | (none, source) => (none, { log with source })

/-- Pass the block on and record that it was given back. -/
def freePages (log : Logged σ) (addr order : Nat) : Logged σ :=
  { log with
    source := PageSource.freePages log.source addr order
    returned := ⟨addr, order⟩ :: log.returned }

instance : PageSource (Logged σ) where
  allocPages := allocPages
  freePages := freePages
  allocPages_none := by
    intro log order h
    unfold allocPages at h ⊢
    have hsource := PageSource.allocPages_none log.source order
    rcases hcall : PageSource.allocPages log.source order with ⟨_ | addr, source⟩
    · simp only [hcall, forall_const] at hsource ⊢
      rw [hsource]
    · simp [hcall] at h

/-- The log is transparent: a logged source answers and moves as the source does. -/
theorem allocPages_source (log : Logged σ) (order : Nat) :
    PageSource.allocPages log.source order =
      ((PageSource.allocPages log order).1, (PageSource.allocPages log order).2.source) := by
  show _ = ((allocPages log order).1, (allocPages log order).2.source)
  unfold allocPages
  split <;> rename_i hcall <;> exact hcall

/-- The record after an allocation: a block handed out is added, nothing else changes. -/
theorem allocPages_record (log : Logged σ) (order : Nat) :
    (PageSource.allocPages log order).2.returned = log.returned ∧
      (PageSource.allocPages log order).2.obtained =
        ((PageSource.allocPages log order).1.map fun addr ↦ ⟨addr, order⟩).toList ++
          log.obtained := by
  show (allocPages log order).2.returned = _ ∧ (allocPages log order).2.obtained =
    ((allocPages log order).1.map fun addr ↦ (⟨addr, order⟩ : Block)).toList ++ log.obtained
  unfold allocPages
  split <;> simp

/-- The record after a page was handed out. -/
theorem allocOne_record {log after : Logged σ} {base : Nat}
    (h : PageSource.allocOne log = (some base, after)) :
    after.returned = log.returned ∧ after.obtained = ⟨base, 0⟩ :: log.obtained := by
  have hrecord := allocPages_record log 0
  have hcall : PageSource.allocPages log 0 = (some base, after) := h
  rwa [hcall] at hrecord

end Logged

end Avaria.Mm
