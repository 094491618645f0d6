import Avaria.Mem.MapMmio
import Avaria.Mm.BuddyRegion

/-!
# The memory map

`mem::init` goes through the memory map of the boot loader for the largest usable entry and gives it
to the buddy allocator, through the window at `hhdm`. Without a usable entry the allocator stays as
the image has it, and serves nothing.

`largestUsable_cases` says which entry the loop ends with, and `served_from_usable` that no run of
calls makes the allocator hand out memory outside it.
-/

namespace Avaria.Mem

open Mm Transition

/-- `EntryType::USABLE`. -/
def USABLE : UInt64 := 0

/-- `limine::memory_map::Entry`. -/
structure MemoryEntry where
  base : UInt64
  length : UInt64
  entry_type : UInt64

/-- The loop of `init`, on `best_base` and `best_size`. -/
def largestUsable (entries : List MemoryEntry) : UInt64 × UInt64 :=
  entries.foldl (fun best entry ↦
    if entry.entry_type = USABLE ∧ entry.length > best.2 then (entry.base, entry.length) else best)
    (0, 0)

/-- `BuddyAllocator::new`. -/
def emptyBuddy : BuddyAllocator where
  base := 0
  totalPages := 0
  bitmap := fun _ ↦ 0#8
  maxOrder := 0

/-- `mem::init`, on the allocator that the image has. -/
def memInit (hhdm : UInt64) (entries : List MemoryEntry) : BuddyAllocator :=
  let (bestBase, bestSize) := largestUsable entries
  if bestSize = 0 then emptyBuddy
  else BuddyAllocator.init (hhdm + bestBase).toNat bestSize.toNat

/-- The first of the longest usable entries. -/
structure IsLargest (entries : List MemoryEntry) (entry : MemoryEntry) : Prop where
  usable : entry.entry_type = USABLE
  pos : 0 < entry.length
  first : ∃ before after, entries = before ++ entry :: after ∧
    (∀ other ∈ before, other.entry_type = USABLE → other.length < entry.length) ∧
    ∀ other ∈ after, other.entry_type = USABLE → other.length ≤ entry.length

/-- What the loop of `init` ends with. -/
theorem largestUsable_cases (entries : List MemoryEntry) :
    ((∀ entry ∈ entries, entry.entry_type = USABLE → entry.length = 0) ∧
      largestUsable entries = (0, 0)) ∨
    ∃ entry, IsLargest entries entry ∧ largestUsable entries = (entry.base, entry.length) := by
  induction entries using List.reverseRecOn with
  | nil => exact Or.inl ⟨fun entry hentry ↦ absurd hentry List.not_mem_nil, rfl⟩
  | append_singleton done next ih =>
      have hstep : largestUsable (done ++ [next]) =
          if next.entry_type = USABLE ∧ next.length > (largestUsable done).2 then
            (next.base, next.length)
          else largestUsable done := List.foldl_append ..
      rw [hstep]
      rcases ih with ⟨hnone, hbest⟩ |
        ⟨entry, ⟨husable, hpos, before, after, rfl, hshorter, hle⟩, hbest⟩
      · rw [hbest]
        split
        · rename_i hlonger
          refine Or.inr ⟨next, ⟨hlonger.1, hlonger.2, done, [], rfl, fun other hother htype ↦ ?_,
            fun other hother ↦ absurd hother List.not_mem_nil⟩, rfl⟩
          rw [hnone other hother htype]
          exact hlonger.2
        · rename_i hnot
          refine Or.inl ⟨fun entry hentry htype ↦ ?_, rfl⟩
          rcases List.mem_append.mp hentry with hdone | hnext
          · exact hnone entry hdone htype
          · obtain rfl := List.mem_singleton.mp hnext
            exact UInt64.le_zero_iff.mp (UInt64.not_lt.mp fun hlt ↦ hnot ⟨htype, hlt⟩)
      · rw [hbest]
        split
        · rename_i hlonger
          refine Or.inr ⟨next, ⟨hlonger.1, UInt64.lt_trans hpos hlonger.2, _, [], rfl,
            fun other hother htype ↦ ?_, fun other hother ↦ absurd hother List.not_mem_nil⟩, rfl⟩
          rcases List.mem_append.mp hother with hbefore | hrest
          · exact UInt64.lt_trans (hshorter other hbefore htype) hlonger.2
          · rcases List.mem_cons.mp hrest with rfl | hafter
            · exact hlonger.2
            · exact UInt64.lt_of_le_of_lt (hle other hafter htype) hlonger.2
        · rename_i hnot
          refine Or.inr ⟨entry, ⟨husable, hpos, before, after ++ [next],
            by rw [List.append_assoc, List.cons_append], hshorter, fun other hother htype ↦ ?_⟩,
            rfl⟩
          rcases List.mem_append.mp hother with hafter | hnext
          · exact hle other hafter htype
          · obtain rfl := List.mem_singleton.mp hnext
            exact UInt64.not_lt.mp fun hlt ↦ hnot ⟨htype, hlt⟩

/-- The window of the physical memory at `hhdm` holds the entry. -/
def InPhysWindow (hhdm : UInt64) (entry : MemoryEntry) : Prop :=
  hhdm.toNat + entry.base.toNat + entry.length.toNat < 2 ^ 64

instance (hhdm : UInt64) (entry : MemoryEntry) : Decidable (InPhysWindow hhdm entry) :=
  inferInstanceAs (Decidable (_ < _))

/-- Whatever calls were made before, allocations and frees of anything, the physical memory of a
block that `alloc_pages` hands out lies in the first of the longest usable entries. -/
theorem served_from_usable {hhdm : UInt64} {entries : List MemoryEntry}
    (hwindow : ∀ entry ∈ entries, entry.entry_type = USABLE → InPhysWindow hhdm entry)
    {buddy : BuddyAllocator} (h : Reachable BuddyAllocator.serve (memInit hhdm entries) buddy)
    {order addr : Nat} (haddr : (buddy.allocPages order).1 = some addr) :
    ∃ entry, IsLargest entries entry ∧
      entry.base.toNat ≤ (virtToPhys hhdm addr).toNat ∧
      (virtToPhys hhdm addr).toNat + PAGE_SIZE * 2 ^ order ≤
        entry.base.toNat + entry.length.toNat := by
  rw [memInit] at h
  rcases largestUsable_cases entries with ⟨-, hbest⟩ | ⟨entry, hentry, hbest⟩
  · rw [hbest] at h
    have hnone : emptyBuddy = BuddyAllocator.init 0 0 := rfl
    obtain ⟨k, -, hrange⟩ :=
      BuddyAllocator.reachable_block_in_region (hnone ▸ h) (by decide) haddr
    have hpow := Nat.two_pow_pos order
    rw [Nat.zero_div, Nat.add_one_mul] at hrange
    omega
  · rw [hbest] at h
    have hlength : entry.length ≠ 0 := fun hzero ↦ by
      have hpos := hentry.pos
      rw [hzero] at hpos
      exact absurd hpos (UInt64.lt_irrefl 0)
    dsimp only at h
    rw [if_neg hlength] at h
    obtain ⟨before, after, hsplit, -⟩ := hentry.first
    have hmem : entry ∈ entries := hsplit ▸ List.mem_append_right _ List.mem_cons_self
    have hfits : hhdm.toNat + entry.base.toNat + entry.length.toNat < 2 ^ 64 :=
      hwindow entry hmem hentry.usable
    have hbase : (hhdm + entry.base).toNat = hhdm.toNat + entry.base.toNat := by
      rw [UInt64.toNat_add, Nat.mod_eq_of_lt (by omega)]
    have hpages := Nat.div_mul_le_self entry.length.toNat PAGE_SIZE
    rw [hbase] at h
    obtain ⟨k, rfl, hrange⟩ := BuddyAllocator.reachable_block_in_region h (by omega) haddr
    have hend := Nat.mul_le_mul_right PAGE_SIZE hrange
    rw [Nat.add_one_mul, Nat.add_mul, Nat.mul_comm (2 ^ order)] at hend
    have hphys : (virtToPhys hhdm (hhdm.toNat + entry.base.toNat + k * 2 ^ order * PAGE_SIZE)).toNat
        = entry.base.toNat + k * 2 ^ order * PAGE_SIZE := by
      set addr := hhdm.toNat + entry.base.toNat + k * 2 ^ order * PAGE_SIZE with haddr
      have hsize : (UInt64.ofNat addr).toNat = addr := by
        rw [UInt64.toNat_ofNat', Nat.mod_eq_of_lt (by omega)]
      rw [virtToPhys, UInt64.toNat_sub_of_le _ _ (by
        rw [UInt64.le_iff_toNat_le, hsize]
        omega), hsize]
      omega
    refine ⟨entry, hentry, ?_, ?_⟩
    · rw [hphys]
      exact Nat.le_add_right _ _
    · rw [hphys]
      omega

/-- A reserved entry and two usable ones. -/
def sampleMap : List MemoryEntry :=
  [⟨0, 0x100000, 1⟩, ⟨0x100000, 0x3000, USABLE⟩, ⟨0x200000, 0x10000, USABLE⟩]

/-- The second block that is handed out at boot. -/
theorem served_from_usable_sample :
    ∃ entry, IsLargest sampleMap entry ∧ entry.base.toNat ≤ 0x208000 ∧
      0x208000 + PAGE_SIZE * 2 ^ 3 ≤ entry.base.toNat + entry.length.toNat := by
  obtain ⟨buddy, hcall, haddr⟩ :
      ∃ buddy, BuddyAllocator.serve (memInit 0xFFFF800000000000 sampleMap) (.alloc 3) = some buddy ∧
        (buddy.allocPages 3).1 = some 0xFFFF800000208000 :=
    ⟨_, rfl, by decide +kernel⟩
  have hphys : (virtToPhys 0xFFFF800000000000 0xFFFF800000208000).toNat = 0x208000 := by decide
  have hwindow : ∀ entry ∈ sampleMap, entry.entry_type = USABLE →
      InPhysWindow 0xFFFF800000000000 entry := by decide
  have hserved := served_from_usable hwindow
    ((Reachable.refl _).tail hcall) haddr
  rwa [hphys] at hserved

end Avaria.Mem
