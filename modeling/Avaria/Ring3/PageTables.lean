import Mathlib.Data.List.Basic
import Mathlib.Logic.Function.Basic

/-!
# Page tables

The 4-level page tables that the processor walks: the bits of an entry, the walk of a virtual
address, and what the entries of a walk permit. An access is permitted only when every level permits
it.

`Marked` describes a memory in which some entries were opened. Opening an entry changes no bit that
the walk depends on, so all walks stay what they were (`Marked.walk_eq`).
-/

namespace Avaria.Ring3

/-- `PTE_PRESENT`. -/
def PTE_PRESENT : UInt64 := (1 : UInt64) <<< 0

/-- `PTE_WRITABLE`. -/
def PTE_WRITABLE : UInt64 := (1 : UInt64) <<< 1

/-- `PTE_USER`. -/
def PTE_USER : UInt64 := (1 : UInt64) <<< 2

/-- `PTE_NX`. -/
def PTE_NX : UInt64 := (1 : UInt64) <<< 63

/-- The bit that makes an entry of the second or third level map a large page. -/
def PTE_LARGE : UInt64 := (1 : UInt64) <<< 7

/-- The bits of an entry that hold a physical address. -/
def ADDR_MASK : UInt64 := 0x000FFFFFFFFFF000

/-- The physical memory as words, by their addresses. The kernel reaches it at the HHDM offset. -/
abbrev PhysMem := UInt64 → UInt64

/-- The address of an entry of a table. -/
def entryAddr (table index : UInt64) : UInt64 := table + index * 8

/-- The index that a virtual address has at the level whose entries cover `2 ^ shift` bytes. -/
def tableIndex (vaddr shift : UInt64) : UInt64 := (vaddr >>> shift) &&& 0x1FF

/-! ## Walks -/

/-- The entries that a walk finds present, from the top, and the one that maps the page. -/
structure Walk where
  entries : List UInt64
  leaf : Option UInt64

/-- A walk that goes through one more entry first. -/
def Walk.cons (a : UInt64) (rest : Walk) : Walk := ⟨a :: rest.entries, rest.leaf⟩

/-- The walk from a page table. -/
def walkPt (mem : PhysMem) (pt vaddr : UInt64) : Walk :=
  let a := entryAddr pt (tableIndex vaddr 12)
  if mem a &&& PTE_PRESENT = 0 then ⟨[], none⟩ else ⟨[a], some a⟩

/-- The walk from a page directory. -/
def walkPd (mem : PhysMem) (pd vaddr : UInt64) : Walk :=
  let a := entryAddr pd (tableIndex vaddr 21)
  if mem a &&& PTE_PRESENT = 0 then ⟨[], none⟩
  else if mem a &&& PTE_LARGE ≠ 0 then ⟨[a], some a⟩
  else (walkPt mem (mem a &&& ADDR_MASK) vaddr).cons a

/-- The walk from a page directory pointer table. -/
def walkPdpt (mem : PhysMem) (pdpt vaddr : UInt64) : Walk :=
  let a := entryAddr pdpt (tableIndex vaddr 30)
  if mem a &&& PTE_PRESENT = 0 then ⟨[], none⟩
  else if mem a &&& PTE_LARGE ≠ 0 then ⟨[a], some a⟩
  else (walkPd mem (mem a &&& ADDR_MASK) vaddr).cons a

/-- The walk of a virtual address from the top table. -/
def walk (mem : PhysMem) (pml4 vaddr : UInt64) : Walk :=
  let a := entryAddr pml4 (tableIndex vaddr 39)
  if mem a &&& PTE_PRESENT = 0 then ⟨[], none⟩
  else (walkPdpt mem (mem a &&& ADDR_MASK) vaddr).cons a

/-- The virtual address is one that the processor accepts: its upper bits repeat bit 47. -/
def Canonical (vaddr : UInt64) : Prop := vaddr + 0x800000000000 < 0x1000000000000

instance (vaddr : UInt64) : Decidable (Canonical vaddr) :=
  inferInstanceAs (Decidable (vaddr + 0x800000000000 < 0x1000000000000))

/-- The virtual address is mapped. -/
def Mapped (mem : PhysMem) (pml4 vaddr : UInt64) : Prop := (walk mem pml4 vaddr).leaf.isSome = true

/-- The virtual address is mapped and every entry of its walk has the property. -/
def EachLevel (ok : UInt64 → Prop) (mem : PhysMem) (pml4 vaddr : UInt64) : Prop :=
  Mapped mem pml4 vaddr ∧ ∀ a ∈ (walk mem pml4 vaddr).entries, ok (mem a)

/-- The entry permits accesses from user mode. -/
def EntryUser (entry : UInt64) : Prop := entry &&& PTE_USER ≠ 0

/-- The entry permits writes. -/
def EntryWritable (entry : UInt64) : Prop := entry &&& PTE_WRITABLE ≠ 0

/-- The entry permits instruction fetches. -/
def EntryExecutable (entry : UInt64) : Prop := entry &&& PTE_NX = 0

/-- The virtual address is accessible from user mode. -/
def UserAccessible : PhysMem → UInt64 → UInt64 → Prop := EachLevel EntryUser

/-- The virtual address is writable. -/
def Writable : PhysMem → UInt64 → UInt64 → Prop := EachLevel EntryWritable

/-- The virtual address is executable. -/
def Executable : PhysMem → UInt64 → UInt64 → Prop := EachLevel EntryExecutable

instance (mem : PhysMem) (pml4 vaddr : UInt64) : Decidable (UserAccessible mem pml4 vaddr) :=
  -- The entries of the walk are tested, not all words.
  have : Decidable (∀ a ∈ (walk mem pml4 vaddr).entries, mem a &&& PTE_USER ≠ 0) :=
    List.decidableBAll _ _
  inferInstanceAs (Decidable ((walk mem pml4 vaddr).leaf.isSome = true ∧
    ∀ a ∈ (walk mem pml4 vaddr).entries, mem a &&& PTE_USER ≠ 0))

/-- The entry that maps a page is one of the walk. -/
theorem leaf_mem_entries (mem : PhysMem) (pml4 vaddr : UInt64) :
    (walk mem pml4 vaddr).leaf.toList ⊆ (walk mem pml4 vaddr).entries := by
  have hcons {a : UInt64} {rest : Walk} (h : rest.leaf.toList ⊆ rest.entries) :
      (rest.cons a).leaf.toList ⊆ (rest.cons a).entries :=
    List.Subset.trans h (List.subset_cons_self a rest.entries)
  have hpt (pt : UInt64) : (walkPt mem pt vaddr).leaf.toList ⊆ (walkPt mem pt vaddr).entries := by
    unfold walkPt
    by_cases hpresent : mem (entryAddr pt (tableIndex vaddr 12)) &&& PTE_PRESENT = 0
    · simp [hpresent]
    · simp [hpresent]
  have hpd (pd : UInt64) : (walkPd mem pd vaddr).leaf.toList ⊆ (walkPd mem pd vaddr).entries := by
    unfold walkPd
    by_cases hpresent : mem (entryAddr pd (tableIndex vaddr 21)) &&& PTE_PRESENT = 0
    · simp [hpresent]
    · by_cases hlarge : mem (entryAddr pd (tableIndex vaddr 21)) &&& PTE_LARGE ≠ 0
      · simp [hpresent, hlarge]
      · simp only [if_neg hpresent, if_neg hlarge]
        exact hcons (hpt _)
  have hpdpt (pdpt : UInt64) :
      (walkPdpt mem pdpt vaddr).leaf.toList ⊆ (walkPdpt mem pdpt vaddr).entries := by
    unfold walkPdpt
    by_cases hpresent : mem (entryAddr pdpt (tableIndex vaddr 30)) &&& PTE_PRESENT = 0
    · simp [hpresent]
    · by_cases hlarge : mem (entryAddr pdpt (tableIndex vaddr 30)) &&& PTE_LARGE ≠ 0
      · simp [hpresent, hlarge]
      · simp only [if_neg hpresent, if_neg hlarge]
        exact hcons (hpd _)
  unfold walk
  by_cases hpresent : mem (entryAddr pml4 (tableIndex vaddr 39)) &&& PTE_PRESENT = 0
  · simp [hpresent]
  · simp only [if_neg hpresent]
    exact hcons (hpdpt _)

/-! ## Opening entries -/

/-- The entry with the user bit. -/
def setUser (entry : UInt64) : UInt64 := entry ||| PTE_USER

/-- The entry with the user bit and the writable bit, and without the no-execute bit. -/
def grant (entry : UInt64) : UInt64 := (entry ||| PTE_USER ||| PTE_WRITABLE) &&& ~~~PTE_NX

section Bits

variable {entry bits mask : UInt64}

/-- Setting bits outside a mask does not change what the mask shows. -/
theorem or_and_of_disjoint (h : bits &&& mask = 0) :
    (entry ||| bits) &&& mask = entry &&& mask := by
  have hdistrib : (entry ||| bits) &&& mask = (entry &&& mask) ||| (bits &&& mask) := by
    simp only [← UInt64.toBitVec_inj, UInt64.toBitVec_and, UInt64.toBitVec_or]
    exact BitVec.and_or_distrib_right
  rw [hdistrib, h, UInt64.or_zero]

/-- Clearing bits outside a mask does not change what the mask shows. -/
theorem and_not_and_of_disjoint (h : bits &&& mask = 0) :
    entry &&& ~~~bits &&& mask = entry &&& mask := by
  simp only [← UInt64.toBitVec_inj, UInt64.toBitVec_and, UInt64.toBitVec_not] at h ⊢
  ext i hi
  have hbit := congrArg (fun word ↦ word.getLsbD i) h
  simp only [UInt64.toBitVec_zero, BitVec.getLsbD_eq_getElem hi] at hbit
  simp only [BitVec.getElem_and, BitVec.getElem_not]
  grind

/-- A bit that was set shows. -/
theorem or_and_ne_zero (h : bits ≠ 0) : (entry ||| bits) &&& bits ≠ 0 := by
  have habsorb : (entry ||| bits) &&& bits = bits := by
    simp only [← UInt64.toBitVec_inj, UInt64.toBitVec_and, UInt64.toBitVec_or]
    ext i hi
    simp only [BitVec.getElem_and, BitVec.getElem_or]
    grind
  rw [habsorb]
  exact h

/-- A bit that was cleared does not show. -/
theorem and_not_and_self : entry &&& ~~~bits &&& bits = 0 := by
  rw [UInt64.and_assoc, UInt64.and_comm (~~~bits), UInt64.and_not_self, UInt64.and_zero]

/-- Setting bits that another step did not clear, again, changes nothing. -/
theorem and_not_or_of_disjoint (h : bits &&& mask = 0) :
    ((entry ||| bits) &&& ~~~mask) ||| bits = (entry ||| bits) &&& ~~~mask := by
  simp only [← UInt64.toBitVec_inj, UInt64.toBitVec_and, UInt64.toBitVec_not,
    UInt64.toBitVec_or] at h ⊢
  ext i hi
  have hbit := congrArg (fun word ↦ word.getLsbD i) h
  simp only [UInt64.toBitVec_zero, BitVec.getLsbD_eq_getElem hi] at hbit
  simp only [BitVec.getElem_and, BitVec.getElem_not, BitVec.getElem_or]
  grind

end Bits

/-- `setUser` leaves the bits of a mask without the user bit. -/
theorem setUser_and {mask : UInt64} (h : PTE_USER &&& mask = 0) (entry : UInt64) :
    setUser entry &&& mask = entry &&& mask :=
  or_and_of_disjoint h

/-- `grant` leaves the bits of a mask without the three bits that it changes. -/
theorem grant_and {mask : UInt64} (huser : PTE_USER &&& mask = 0)
    (hwritable : PTE_WRITABLE &&& mask = 0) (hnx : PTE_NX &&& mask = 0) (entry : UInt64) :
    grant entry &&& mask = entry &&& mask := by
  rw [grant, and_not_and_of_disjoint hnx, or_and_of_disjoint hwritable, or_and_of_disjoint huser]

theorem setUser_setUser (entry : UInt64) : setUser (setUser entry) = setUser entry := by
  rw [setUser, setUser, UInt64.or_assoc, UInt64.or_self]

theorem grant_setUser (entry : UInt64) : grant (setUser entry) = grant entry := by
  rw [grant, grant, setUser, UInt64.or_assoc entry, UInt64.or_self]

theorem setUser_grant (entry : UInt64) : setUser (grant entry) = grant entry := by
  have hswap : entry ||| PTE_USER ||| PTE_WRITABLE = entry ||| PTE_WRITABLE ||| PTE_USER := by
    rw [UInt64.or_assoc, UInt64.or_comm PTE_USER, UInt64.or_assoc]
  rw [setUser, grant, hswap]
  exact and_not_or_of_disjoint (by decide)

theorem grant_grant (entry : UInt64) : grant (grant entry) = grant entry := by
  have hwritable : grant entry ||| PTE_WRITABLE = grant entry :=
    and_not_or_of_disjoint (by decide)
  have huser : grant entry ||| PTE_USER = grant entry := setUser_grant entry
  rw [grant, huser, hwritable, grant, UInt64.and_assoc, UInt64.and_self]

theorem entryUser_setUser (entry : UInt64) : EntryUser (setUser entry) :=
  or_and_ne_zero (by decide)

theorem entryUser_grant (entry : UInt64) : EntryUser (grant entry) := by
  rw [← setUser_grant]
  exact entryUser_setUser _

theorem entryWritable_setUser (entry : UInt64) :
    EntryWritable (setUser entry) ↔ EntryWritable entry := by
  rw [EntryWritable, setUser_and (by decide), EntryWritable]

theorem entryWritable_grant (entry : UInt64) : EntryWritable (grant entry) := by
  rw [EntryWritable, grant, and_not_and_of_disjoint (by decide)]
  exact or_and_ne_zero (by decide)

theorem entryExecutable_setUser (entry : UInt64) :
    EntryExecutable (setUser entry) ↔ EntryExecutable entry := by
  rw [EntryExecutable, setUser_and (by decide), EntryExecutable]

theorem entryExecutable_grant (entry : UInt64) : EntryExecutable (grant entry) :=
  and_not_and_self

/-! ## Memories with opened entries -/

/-- The entry at an address after the entries of one list got the user bit and those of another
were granted. -/
def mark (users grants : List UInt64) (a entry : UInt64) : UInt64 :=
  if a ∈ grants then grant entry else if a ∈ users then setUser entry else entry

/-- One memory is another with opened entries. -/
def Marked (mem : PhysMem) (users grants : List UInt64) (opened : PhysMem) : Prop :=
  ∀ a, opened a = mark users grants a (mem a)

/-- Opening an entry leaves the bits of a mask without the three bits. -/
theorem mark_and {mask : UInt64} (huser : PTE_USER &&& mask = 0)
    (hwritable : PTE_WRITABLE &&& mask = 0) (hnx : PTE_NX &&& mask = 0)
    (users grants : List UInt64) (a entry : UInt64) :
    mark users grants a entry &&& mask = entry &&& mask := by
  unfold mark
  split
  · exact grant_and huser hwritable hnx entry
  · split
    · exact setUser_and huser entry
    · rfl

section Mark

variable {users grants : List UInt64} {a b entry : UInt64}

theorem mark_of_mem_grants (h : a ∈ grants) : mark users grants a entry = grant entry := if_pos h

theorem mark_of_not_mem_grants (h : a ∉ grants) :
    mark users grants a entry = if a ∈ users then setUser entry else entry :=
  if_neg h

theorem mark_append_user :
    mark (users ++ [a]) grants a entry = setUser (mark users grants a entry) := by
  by_cases hgrant : a ∈ grants
  · rw [mark_of_mem_grants hgrant, mark_of_mem_grants hgrant, setUser_grant]
  · rw [mark_of_not_mem_grants hgrant, mark_of_not_mem_grants hgrant,
      if_pos (List.mem_append_right users (List.mem_singleton_self a))]
    by_cases huser : a ∈ users
    · rw [if_pos huser, setUser_setUser]
    · rw [if_neg huser]

theorem mark_append_grant :
    mark users (grants ++ [a]) a entry = grant (mark users grants a entry) := by
  rw [mark_of_mem_grants (List.mem_append_right grants (List.mem_singleton_self a))]
  by_cases hgrant : a ∈ grants
  · rw [mark_of_mem_grants hgrant, grant_grant]
  · rw [mark_of_not_mem_grants hgrant]
    by_cases huser : a ∈ users
    · rw [if_pos huser, grant_setUser]
    · rw [if_neg huser]

theorem mark_append_user_of_ne (h : b ≠ a) :
    mark (users ++ [a]) grants b entry = mark users grants b entry := by
  have hmem : b ∈ users ++ [a] ↔ b ∈ users := by simp [h]
  simp only [mark, hmem]

theorem mark_append_grant_of_ne (h : b ≠ a) :
    mark users (grants ++ [a]) b entry = mark users grants b entry := by
  have hmem : b ∈ grants ++ [a] ↔ b ∈ grants := by simp [h]
  simp only [mark, hmem]

end Mark

namespace Marked

variable {mem opened : PhysMem} {users grants : List UInt64}

theorem refl (mem : PhysMem) : Marked mem [] [] mem := fun _ ↦ rfl

theorem and_present (h : Marked mem users grants opened) (a : UInt64) :
    opened a &&& PTE_PRESENT = mem a &&& PTE_PRESENT := by
  rw [h a, mark_and (by decide) (by decide) (by decide)]

theorem and_large (h : Marked mem users grants opened) (a : UInt64) :
    opened a &&& PTE_LARGE = mem a &&& PTE_LARGE := by
  rw [h a, mark_and (by decide) (by decide) (by decide)]

theorem and_addr (h : Marked mem users grants opened) (a : UInt64) :
    opened a &&& ADDR_MASK = mem a &&& ADDR_MASK := by
  rw [h a, mark_and (by decide) (by decide) (by decide)]

/-- Every walk goes through the same entries as before. -/
theorem walk_eq (h : Marked mem users grants opened) (pml4 vaddr : UInt64) :
    walk opened pml4 vaddr = walk mem pml4 vaddr := by
  simp only [walk, walkPdpt, walkPd, walkPt, h.and_present, h.and_large, h.and_addr]

/-- An entry gets the user bit. -/
theorem set_user (h : Marked mem users grants opened) (a : UInt64) :
    Marked mem (users ++ [a]) grants (Function.update opened a (setUser (opened a))) := by
  intro b
  by_cases heq : b = a
  · subst heq
    rw [Function.update_self, h b, mark_append_user]
  · rw [Function.update_of_ne heq, h b, mark_append_user_of_ne heq]

/-- An entry is granted. -/
theorem set_grant (h : Marked mem users grants opened) (a : UInt64) :
    Marked mem (users ++ [a]) (grants ++ [a]) (Function.update opened a (grant (opened a))) := by
  intro b
  by_cases heq : b = a
  · subst heq
    rw [Function.update_self, h b, mark_append_grant, mark_append_user, grant_setUser]
  · rw [Function.update_of_ne heq, h b, mark_append_grant_of_ne heq, mark_append_user_of_ne heq]

end Marked

/-- Which accesses a walk permits after entries were opened: each level had the property before, or
was opened in a way that gives it. -/
theorem eachLevel_marked_iff {mem opened : PhysMem} {users grants : List UInt64}
    (h : Marked mem users grants opened) {ok : UInt64 → Prop} {given : List UInt64}
    (hmark : ∀ a entry, ok (mark users grants a entry) ↔ ok entry ∨ a ∈ given)
    (pml4 vaddr : UInt64) :
    EachLevel ok opened pml4 vaddr ↔
      Mapped mem pml4 vaddr ∧ ∀ a ∈ (walk mem pml4 vaddr).entries, ok (mem a) ∨ a ∈ given := by
  rw [EachLevel, Mapped, h.walk_eq, Mapped]
  refine and_congr_right fun _ ↦ forall_congr' fun a ↦ imp_congr_right fun _ ↦ ?_
  rw [h a]
  exact hmark a (mem a)

theorem entryUser_mark {users grants : List UInt64} (h : grants ⊆ users) (a entry : UInt64) :
    EntryUser (mark users grants a entry) ↔ EntryUser entry ∨ a ∈ users := by
  by_cases hgrant : a ∈ grants
  · rw [mark_of_mem_grants hgrant]
    exact iff_of_true (entryUser_grant entry) (Or.inr (h hgrant))
  · rw [mark_of_not_mem_grants hgrant]
    by_cases huser : a ∈ users
    · rw [if_pos huser]
      exact iff_of_true (entryUser_setUser entry) (Or.inr huser)
    · rw [if_neg huser, or_iff_left huser]

theorem entryWritable_mark (users grants : List UInt64) (a entry : UInt64) :
    EntryWritable (mark users grants a entry) ↔ EntryWritable entry ∨ a ∈ grants := by
  by_cases hgrant : a ∈ grants
  · rw [mark_of_mem_grants hgrant]
    exact iff_of_true (entryWritable_grant entry) (Or.inr hgrant)
  · rw [mark_of_not_mem_grants hgrant, or_iff_left hgrant]
    by_cases huser : a ∈ users
    · rw [if_pos huser, entryWritable_setUser]
    · rw [if_neg huser]

theorem entryExecutable_mark (users grants : List UInt64) (a entry : UInt64) :
    EntryExecutable (mark users grants a entry) ↔ EntryExecutable entry ∨ a ∈ grants := by
  by_cases hgrant : a ∈ grants
  · rw [mark_of_mem_grants hgrant]
    exact iff_of_true (entryExecutable_grant entry) (Or.inr hgrant)
  · rw [mark_of_not_mem_grants hgrant, or_iff_left hgrant]
    by_cases huser : a ∈ users
    · rw [if_pos huser, entryExecutable_setUser]
    · rw [if_neg huser]

end Avaria.Ring3
