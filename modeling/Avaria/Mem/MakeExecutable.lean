import Avaria.Ring3.Translation
import Avaria.Ring3.UserAccess

/-!
# Making pages executable

`make_executable` of `mem.rs`: for each page of a range, the entry that maps it becomes writable and
executable. The entries above it stay as they are.

`permission_changes_keep_translation` says that neither this function nor `make_user_accessible`
changes a translation, and `made_executable_iff` when the pages of the range end up writable and
executable.
-/

namespace Avaria.Mem

open Ring3

/-! ## The function -/

/-- The loop body of `make_executable` from the page table on. -/
def executablePt (pt addr : UInt64) (mem : PhysMem) : PhysMem :=
  let a := entryAddr pt (tableIndex addr 12)
  let pte := mem a
  if pte &&& PTE_PRESENT ≠ 0 then Function.update mem a ((pte &&& ~~~PTE_NX) ||| PTE_WRITABLE)
  else mem

/-- The loop body from the page directory on. -/
def executablePd (pd addr : UInt64) (mem : PhysMem) : PhysMem :=
  let a := entryAddr pd (tableIndex addr 21)
  let pde := mem a
  if pde &&& PTE_PRESENT = 0 then mem
  else if pde &&& PTE_LARGE ≠ 0 then
    Function.update mem a ((pde &&& ~~~PTE_NX) ||| PTE_WRITABLE)
  else executablePt (pde &&& ADDR_MASK) addr mem

/-- The loop body from the page directory pointer table on. -/
def executablePdpt (pdpt addr : UInt64) (mem : PhysMem) : PhysMem :=
  let a := entryAddr pdpt (tableIndex addr 30)
  let pdpte := mem a
  if pdpte &&& PTE_PRESENT = 0 then mem
  else if pdpte &&& PTE_LARGE ≠ 0 then
    Function.update mem a ((pdpte &&& ~~~PTE_NX) ||| PTE_WRITABLE)
  else executablePd (pdpte &&& ADDR_MASK) addr mem

/-- The loop body of `make_executable` for the page at an address. -/
def executablePage (pml4 addr : UInt64) (mem : PhysMem) : PhysMem :=
  let a := entryAddr pml4 (tableIndex addr 39)
  let pml4e := mem a
  if pml4e &&& PTE_PRESENT = 0 then mem
  else executablePdpt (pml4e &&& ADDR_MASK) addr mem

/-- The loop of `make_executable`, by the number of pages that are left. -/
def executablePages (pml4 : UInt64) : Nat → UInt64 → PhysMem → PhysMem
  | 0, _, mem => mem
  | left + 1, addr, mem => executablePages pml4 left (addr + 0x1000) (executablePage pml4 addr mem)

/-- `make_executable`. The bounds of the loop are those of `make_user_accessible`. -/
def makeExecutable (cr3 vaddr size : UInt64) (mem : PhysMem) : PhysMem :=
  executablePages (cr3 &&& ~~~0xFFF) (pageCount vaddr size) (firstPage vaddr) mem

/-- The loop is `while addr < end`, one page at a time. -/
theorem executablePages_pagesLeft {addr finish : UInt64} (haddr : addr.toNat % 0x1000 = 0)
    (hfinish : finish.toNat % 0x1000 = 0) (pml4 : UInt64) (mem : PhysMem) :
    executablePages pml4 (pagesLeft addr finish) addr mem =
      if addr < finish then
        executablePages pml4 (pagesLeft (addr + 0x1000) finish) (addr + 0x1000)
          (executablePage pml4 addr mem)
      else mem := by
  by_cases h : addr < finish
  · rw [if_pos h, pagesLeft_eq_succ haddr hfinish h, executablePages]
  · rw [if_neg h, pagesLeft, if_neg h, executablePages]

/-! ## What becomes of the entries -/

/-- The entry with the writable bit, and without the no-execute bit. -/
def allowExec (entry : UInt64) : UInt64 := (entry &&& ~~~PTE_NX) ||| PTE_WRITABLE

/-- `allowExec` leaves the bits of a mask without the two bits that it changes. -/
theorem allowExec_and {mask : UInt64} (hwritable : PTE_WRITABLE &&& mask = 0)
    (hnx : PTE_NX &&& mask = 0) (entry : UInt64) : allowExec entry &&& mask = entry &&& mask := by
  rw [allowExec, or_and_of_disjoint hwritable, and_not_and_of_disjoint hnx]

theorem entryWritable_allowExec (entry : UInt64) : EntryWritable (allowExec entry) :=
  or_and_ne_zero (by decide)

theorem entryExecutable_allowExec (entry : UInt64) : EntryExecutable (allowExec entry) := by
  rw [EntryExecutable, allowExec, or_and_of_disjoint (by decide)]
  exact and_not_and_self

/-- Clearing bits that are clear changes nothing. -/
theorem and_not_of_and_eq_zero {entry bits : UInt64} (h : entry &&& bits = 0) :
    entry &&& ~~~bits = entry := by
  simp only [← UInt64.toBitVec_inj, UInt64.toBitVec_and, UInt64.toBitVec_not] at h ⊢
  ext i hi
  have hbit := congrArg (fun word ↦ word.getLsbD i) h
  simp only [UInt64.toBitVec_zero, BitVec.getLsbD_eq_getElem hi] at hbit
  simp only [BitVec.getElem_and, BitVec.getElem_not] at hbit ⊢
  grind

theorem allowExec_allowExec (entry : UInt64) : allowExec (allowExec entry) = allowExec entry := by
  have hclear : allowExec entry &&& ~~~PTE_NX = allowExec entry :=
    and_not_of_and_eq_zero (entryExecutable_allowExec entry)
  rw [allowExec, hclear, allowExec, UInt64.or_assoc, UInt64.or_self]

/-- One memory is another where the entries of a list were made writable and executable. -/
def Allowed (mem : PhysMem) (leaves : List UInt64) (after : PhysMem) : Prop :=
  ∀ a, after a = if a ∈ leaves then allowExec (mem a) else mem a

namespace Allowed

variable {mem after : PhysMem} {leaves : List UInt64}

theorem refl (mem : PhysMem) : Allowed mem [] mem := fun _ ↦ (if_neg List.not_mem_nil).symm

/-- All other bits stay. -/
theorem agreeOn (h : Allowed mem leaves after) {mask : UInt64}
    (hwritable : PTE_WRITABLE &&& mask = 0) (hnx : PTE_NX &&& mask = 0) :
    AgreeOn mask mem after := by
  intro a
  rw [h a]
  split
  · exact allowExec_and hwritable hnx (mem a)
  · rfl

/-- The bits that translation reads stay. -/
theorem walkBits (h : Allowed mem leaves after) : AgreeOn WALK_MASK mem after :=
  h.agreeOn (by decide) (by decide)

/-- Another entry becomes writable and executable. -/
theorem append (h : Allowed mem leaves after) (a : UInt64) :
    Allowed mem (leaves ++ [a]) (Function.update after a (allowExec (after a))) := by
  intro b
  by_cases heq : b = a
  · subst heq
    rw [Function.update_self, if_pos (List.mem_append_right leaves (List.mem_singleton_self b)),
      h b]
    split
    · exact allowExec_allowExec (mem b)
    · rfl
  · have hmem : b ∈ leaves ++ [a] ↔ b ∈ leaves := by simp [heq]
    rw [Function.update_of_ne heq, h b]
    simp only [hmem]

end Allowed

/-- The walk at one level makes the entry that it ends at writable and executable. -/
def Allows (f : PhysMem → PhysMem) (visited : PhysMem → Walk) : Prop :=
  ∀ mem after leaves, Allowed mem leaves after →
    Allowed mem (leaves ++ (visited mem).leaf.toList) (f after)

theorem allows_executablePt (pt addr : UInt64) :
    Allows (executablePt pt addr) (walkPt · pt addr) := by
  intro mem after leaves h
  unfold executablePt walkPt
  simp only [h.walkBits.present _]
  by_cases habsent : mem (entryAddr pt (tableIndex addr 12)) &&& PTE_PRESENT = 0
  · simpa [habsent] using h
  · simp only [habsent, ne_eq, not_false_eq_true, if_true, if_false]
    exact h.append _

/-- The two levels at which an entry either maps a large page or leads to another table. -/
theorem allows_directory (a : UInt64) {next : UInt64 → PhysMem → PhysMem}
    {visited : UInt64 → PhysMem → Walk} (hnext : ∀ table, Allows (next table) (visited table)) :
    Allows
      (fun mem ↦
        if mem a &&& PTE_PRESENT = 0 then mem
        else if mem a &&& PTE_LARGE ≠ 0 then
          Function.update mem a ((mem a &&& ~~~PTE_NX) ||| PTE_WRITABLE)
        else next (mem a &&& ADDR_MASK) mem)
      (fun mem ↦
        if mem a &&& PTE_PRESENT = 0 then ⟨[], none⟩
        else if mem a &&& PTE_LARGE ≠ 0 then ⟨[a], some a⟩
        else (visited (mem a &&& ADDR_MASK) mem).cons a) := by
  intro mem after leaves h
  simp only [h.walkBits.present _, h.walkBits.large _, h.walkBits.addr _]
  by_cases habsent : mem a &&& PTE_PRESENT = 0
  · simpa [habsent] using h
  · simp only [if_neg habsent]
    by_cases hleaf : mem a &&& PTE_LARGE ≠ 0
    · simp only [if_pos hleaf]
      exact h.append a
    · simp only [if_neg hleaf]
      exact hnext _ mem after leaves h

theorem allows_executablePd (pd addr : UInt64) :
    Allows (executablePd pd addr) (walkPd · pd addr) :=
  allows_directory _ fun pt ↦ allows_executablePt pt addr

theorem allows_executablePdpt (pdpt addr : UInt64) :
    Allows (executablePdpt pdpt addr) (walkPdpt · pdpt addr) :=
  allows_directory _ fun pd ↦ allows_executablePd pd addr

/-- One iteration changes the entry that the walk of its page ends at. -/
theorem allows_executablePage (pml4 addr : UInt64) :
    Allows (executablePage pml4 addr) (walk · pml4 addr) := by
  intro mem after leaves h
  unfold executablePage walk
  simp only [h.walkBits.present _, h.walkBits.addr _]
  by_cases habsent : mem (entryAddr pml4 (tableIndex addr 39)) &&& PTE_PRESENT = 0
  · simpa [habsent] using h
  · simp only [if_neg habsent]
    exact allows_executablePdpt _ addr mem after leaves h

/-- The loop changes the entries that the walks of its pages end at. -/
theorem allowed_executablePages (pml4 : UInt64) {mem after : PhysMem} {leaves : List UInt64}
    (h : Allowed mem leaves after) (left : Nat) (addr : UInt64) :
    Allowed mem (leaves ++ leavesOf mem pml4 (pagesFrom left addr))
      (executablePages pml4 left addr after) := by
  induction left generalizing after leaves addr with
  | zero => simpa [leavesOf, pagesFrom, executablePages] using h
  | succ left ih =>
      have hpage := allows_executablePage pml4 addr mem after leaves h
      have hrest := ih hpage (addr + 0x1000)
      rwa [List.append_assoc] at hrest

/-- `make_executable` makes the entries that map its pages writable and executable, and changes no
other word of the memory. -/
theorem allowed_makeExecutable (mem : PhysMem) (cr3 vaddr size : UInt64) :
    Allowed mem (leavesOf mem (topTable cr3) (rangePages vaddr size))
      (makeExecutable cr3 vaddr size mem) :=
  allowed_executablePages (topTable cr3) (Allowed.refl mem) (pageCount vaddr size) (firstPage vaddr)

/-- `make_executable` and `make_user_accessible` change no translation, whatever the tables look
like, and no bits of any entry but W and NX, and U, W and NX. -/
theorem permission_changes_keep_translation (mem : PhysMem) (cr3 vaddr size : UInt64) :
    (∀ addr, translate (makeExecutable cr3 vaddr size mem) (topTable cr3) addr =
        translate mem (topTable cr3) addr) ∧
      AgreeOn (~~~(PTE_WRITABLE ||| PTE_NX)) mem (makeExecutable cr3 vaddr size mem) ∧
      (∀ addr, translate (makeUserAccessible cr3 vaddr size mem) (topTable cr3) addr =
        translate mem (topTable cr3) addr) ∧
      AgreeOn (~~~(PTE_USER ||| PTE_WRITABLE ||| PTE_NX)) mem
        (makeUserAccessible cr3 vaddr size mem) := by
  have hexecutable := allowed_makeExecutable mem cr3 vaddr size
  have huser := marked_makeUserAccessible mem cr3 vaddr size
  refine ⟨fun addr ↦ ?_, ?_, fun addr ↦ ?_, ?_⟩
  · exact translate_congr hexecutable.walkBits (topTable cr3) addr
  · exact hexecutable.agreeOn (by decide) (by decide)
  · exact translate_congr (huser.agreeOn (by decide) (by decide) (by decide)) (topTable cr3) addr
  · exact huser.agreeOn (by decide) (by decide) (by decide)

/-! ## Writable and executable pages -/

/-- The address is one of `[vaddr, vaddr + size)`. -/
def Covers (vaddr size addr : UInt64) : Prop :=
  vaddr.toNat ≤ addr.toNat ∧ addr.toNat < vaddr.toNat + size.toNat

/-- The mapped pages of the range are writable and executable after `make_executable`. -/
def MadeExecutable (mem : PhysMem) (cr3 vaddr size : UInt64) : Prop :=
  ∀ addr, Canonical addr → Covers vaddr size addr →
    let after := makeExecutable cr3 vaddr size mem
    Mapped after (topTable cr3) addr →
      Writable after (topTable cr3) addr ∧ Executable after (topTable cr3) addr

/-- Rounding the end of the range up to a whole page stays below `2 ^ 64`. -/
def EndRounds (vaddr size : UInt64) : Prop := vaddr.toNat + size.toNat + 0xFFF < 2 ^ 64

/-- Each entry of the walks of the range permits writes and instruction fetches already, or is an
entry that maps a page of the range, and the end of the range can be rounded up. -/
def OnlyLeavesBar (mem : PhysMem) (cr3 vaddr size : UInt64) : Prop :=
  ∀ addr, Canonical addr → Covers vaddr size addr → Mapped mem (topTable cr3) addr →
    ∀ a ∈ (walk mem (topTable cr3) addr).entries,
      (EntryWritable (mem a) ∧ EntryExecutable (mem a)) ∨
        (EndRounds vaddr size ∧
          ∃ other, Covers vaddr size other ∧ (walk mem (topTable cr3) other).leaf = some a)

theorem toNat_nextPage {addr : UInt64} (h : addr.toNat + 0x1000 < 2 ^ 64) :
    (addr + 0x1000).toNat = addr.toNat + 0x1000 := by
  rw [UInt64.toNat_add]
  exact Nat.mod_eq_of_lt h

/-- The pages of a loop, by their numbers. -/
theorem mem_pagesFrom (left : Nat) (addr : UInt64) (h : addr.toNat + left * 0x1000 ≤ 2 ^ 64)
    (page : UInt64) :
    page ∈ pagesFrom left addr ↔ ∃ i < left, page.toNat = addr.toNat + i * 0x1000 := by
  induction left generalizing addr with
  | zero => simp [pagesFrom]
  | succ left ih =>
      rw [pagesFrom, List.mem_cons]
      constructor
      · rintro (rfl | hrest)
        · exact ⟨0, Nat.succ_pos left, rfl⟩
        · cases left with
          | zero => exact absurd hrest List.not_mem_nil
          | succ left =>
              have hnext := toNat_nextPage (show addr.toNat + 0x1000 < 2 ^ 64 by omega)
              obtain ⟨i, hi, hpage⟩ := (ih (addr + 0x1000) (by omega)).mp hrest
              exact ⟨i + 1, Nat.succ_lt_succ hi, by omega⟩
      · rintro ⟨i, hi, hpage⟩
        cases i with
        | zero => exact Or.inl (UInt64.toNat_inj.mp hpage)
        | succ i =>
            have hnext := toNat_nextPage (show addr.toNat + 0x1000 < 2 ^ 64 by omega)
            exact Or.inr ((ih (addr + 0x1000) (by omega)).mpr ⟨i, by omega, by omega⟩)

/-- The pages of a range whose end can be rounded up. -/
theorem mem_rangePages {vaddr size : UInt64} (h : EndRounds vaddr size) (page : UInt64) :
    page ∈ rangePages vaddr size ↔ page.toNat % 0x1000 = 0 ∧ InRange vaddr size page := by
  have hfirst : (firstPage vaddr).toNat = vaddr.toNat / 0x1000 * 0x1000 := toNat_and_not_low vaddr
  have hsum : (vaddr + size + 0xFFF).toNat = vaddr.toNat + size.toNat + 0xFFF := by
    rw [UInt64.toNat_add, UInt64.toNat_add, Nat.mod_add_mod]
    exact Nat.mod_eq_of_lt h
  have hend : ((vaddr + size + 0xFFF) &&& ~~~0xFFF).toNat =
      (vaddr.toNat + size.toNat + 0xFFF) / 0x1000 * 0x1000 := by
    rw [toNat_and_not_low, hsum]
  have hcount : pageCount vaddr size =
      (vaddr.toNat + size.toNat + 0xFFF) / 0x1000 - vaddr.toNat / 0x1000 := by
    rw [pageCount, pagesLeft]
    split
    · rename_i hlt
      rw [UInt64.toNat_sub_of_le _ _ (UInt64.le_of_lt hlt), hfirst, hend]
      omega
    · rename_i hlt
      rw [UInt64.lt_iff_toNat_lt, hfirst, hend] at hlt
      omega
  have hbound : vaddr.toNat + size.toNat + 0xFFF < 2 ^ 64 := h
  rw [rangePages, mem_pagesFrom _ _ (by rw [hfirst, hcount]; omega), hfirst, hcount, InRange]
  constructor
  · rintro ⟨i, hi, hpage⟩
    omega
  · rintro ⟨haligned, hlow, hhigh⟩
    exact ⟨page.toNat / 0x1000 - vaddr.toNat / 0x1000, by omega, by omega⟩

/-- No page is reached if the end of the range wraps around. -/
theorem rangePages_of_not_endRounds {vaddr size : UInt64}
    (hsum : vaddr.toNat + size.toNat ≤ 2 ^ 64) (h : ¬ EndRounds vaddr size) :
    rangePages vaddr size = [] := by
  have hwrap : (vaddr + size + 0xFFF).toNat = vaddr.toNat + size.toNat + 0xFFF - 2 ^ 64 := by
    have hge : 2 ^ 64 ≤ vaddr.toNat + size.toNat + 0xFFF := Nat.le_of_not_lt h
    rw [UInt64.toNat_add, UInt64.toNat_add, Nat.mod_add_mod]
    show (vaddr.toNat + size.toNat + 0xFFF) % 2 ^ 64 = _
    omega
  have hend : ((vaddr + size + 0xFFF) &&& ~~~0xFFF).toNat = 0 := by
    rw [toNat_and_not_low, hwrap]
    omega
  have hcount : pageCount vaddr size = 0 := by
    rw [pageCount, pagesLeft, if_neg]
    rw [UInt64.lt_iff_toNat_lt, hend]
    exact Nat.not_lt_zero _
  rw [rangePages, hcount, pagesFrom]

/-- The entries that `make_executable` changes: those that map a page of the range. -/
theorem mem_leavesOf_rangePages {vaddr size : UInt64}
    (hsum : vaddr.toNat + size.toNat ≤ 2 ^ 64) (hsize : 0 < size.toNat) (mem : PhysMem)
    (pml4 a : UInt64) :
    a ∈ leavesOf mem pml4 (rangePages vaddr size) ↔
      EndRounds vaddr size ∧
        ∃ other, Covers vaddr size other ∧ (walk mem pml4 other).leaf = some a := by
  by_cases hround : EndRounds vaddr size
  · rw [and_iff_right hround, leavesOf, List.mem_flatMap]
    constructor
    · rintro ⟨page, hpage, hleaf⟩
      obtain ⟨haligned, hlow, hhigh⟩ := (mem_rangePages hround page).mp hpage
      -- The first address of the page may lie before the range.
      rcases Nat.lt_or_ge page.toNat vaddr.toNat with hbefore | hafter
      · refine ⟨vaddr, ⟨Nat.le_refl _, by omega⟩, ?_⟩
        rw [walk_congr (show vaddr.toNat / 0x1000 = page.toNat / 0x1000 by omega)]
        exact Option.mem_toList.mp hleaf
      · exact ⟨page, ⟨hafter, by omega⟩, Option.mem_toList.mp hleaf⟩
    · rintro ⟨other, ⟨hlow, hhigh⟩, hleaf⟩
      have hpage : (other &&& ~~~0xFFF).toNat = other.toNat / 0x1000 * 0x1000 :=
        toNat_and_not_low other
      refine ⟨other &&& ~~~0xFFF, (mem_rangePages hround _).mpr ⟨by omega, ?_, ?_⟩, ?_⟩
      · omega
      · omega
      · rw [walk_congr (show (other &&& ~~~0xFFF).toNat / 0x1000 = other.toNat / 0x1000 by omega)]
        exact Option.mem_toList.mpr hleaf
  · rw [rangePages_of_not_endRounds hsum hround]
    exact iff_of_false List.not_mem_nil fun h ↦ hround h.1

/-- Which accesses are permitted after entries were made writable and executable. -/
theorem eachLevel_allowed_iff {mem after : PhysMem} {leaves : List UInt64}
    (h : Allowed mem leaves after) {ok : UInt64 → Prop} (hok : ∀ entry, ok (allowExec entry))
    (pml4 addr : UInt64) :
    EachLevel ok after pml4 addr ↔
      Mapped mem pml4 addr ∧ ∀ a ∈ (walk mem pml4 addr).entries, ok (mem a) ∨ a ∈ leaves := by
  rw [EachLevel, Mapped, h.walkBits.walk_eq, Mapped]
  refine and_congr_right fun _ ↦ forall_congr' fun a ↦ imp_congr_right fun _ ↦ ?_
  rw [h a]
  by_cases hmem : a ∈ leaves
  · rw [if_pos hmem]
    exact iff_of_true (hok (mem a)) (Or.inr hmem)
  · rw [if_neg hmem, or_iff_left hmem]

/-- The mapped pages of a range become writable and executable exactly if nothing above the entries
that map them bars it, and the end of the range does not wrap around. -/
theorem made_executable_iff (mem : PhysMem) (cr3 vaddr size : UInt64)
    (hsum : vaddr.toNat + size.toNat ≤ 2 ^ 64) :
    MadeExecutable mem cr3 vaddr size ↔ OnlyLeavesBar mem cr3 vaddr size := by
  have hallowed := allowed_makeExecutable mem cr3 vaddr size
  refine forall_congr' fun addr ↦ forall₂_congr fun _ hcovers ↦ ?_
  have hsize : 0 < size.toNat := by
    have hlow := hcovers.1
    have hhigh := hcovers.2
    omega
  dsimp only
  rw [Writable, Executable, eachLevel_allowed_iff hallowed entryWritable_allowExec,
    eachLevel_allowed_iff hallowed entryExecutable_allowExec, Mapped,
    hallowed.walkBits.walk_eq, ← Mapped, ← and_and_left]
  refine forall_congr' fun hmapped ↦ ?_
  rw [and_iff_right hmapped, ← forall₂_and]
  refine forall₂_congr fun a _ ↦ ?_
  rw [mem_leavesOf_rangePages hsum hsize, ← and_or_right]

/-- The table entries of a page at `0x5000` that may be neither written nor executed, with the bits
of the entry in the page directory. -/
def barredMem (upper : UInt64) : PhysMem := fun a ↦
  if a = 0x1000 then 0x2003 else if a = 0x2000 then 0x3003
  else if a = 0x3000 then 0x4001 ||| upper else if a = 0x4028 then 0x8000000000005001 else 0

/-- The directory entry permits writes: making the page writable and executable is enough. -/
theorem made_executable_page : MadeExecutable (barredMem PTE_WRITABLE) 0x1000 0x5000 0x1000 := by
  refine (made_executable_iff _ 0x1000 0x5000 0x1000 (by decide)).mpr ?_
  rintro addr - ⟨hlow, hhigh⟩ - a ha
  have hlow' : 0x5000 ≤ addr.toNat := hlow
  have hhigh' : addr.toNat < 0x5000 + 0x1000 := hhigh
  have hpage : addr.toNat / 0x1000 = (0x5000 : UInt64).toNat / 0x1000 := by
    show addr.toNat / 0x1000 = 5
    omega
  have hentries : (walk (barredMem PTE_WRITABLE) (topTable 0x1000) 0x5000).entries =
      [0x1000, 0x2000, 0x3000, 0x4028] := by decide +kernel
  rw [walk_congr hpage, hentries] at ha
  simp only [List.mem_cons, List.not_mem_nil, or_false] at ha
  obtain rfl | rfl | rfl | rfl := ha
  · exact Or.inl ⟨by unfold EntryWritable; decide, by unfold EntryExecutable; decide⟩
  · exact Or.inl ⟨by unfold EntryWritable; decide, by unfold EntryExecutable; decide⟩
  · exact Or.inl ⟨by unfold EntryWritable; decide, by unfold EntryExecutable; decide⟩
  · exact Or.inr ⟨by unfold EndRounds; decide, 0x5000, ⟨by decide, by decide⟩, by decide +kernel⟩

/-- The directory entry forbids instruction fetches, and still does after `make_executable`. -/
theorem page_not_made_executable :
    ¬ MadeExecutable (barredMem (PTE_WRITABLE ||| PTE_NX)) 0x1000 0x5000 0x1000 := by
  intro h
  have hmapped : Mapped (makeExecutable 0x1000 0x5000 0x1000
      (barredMem (PTE_WRITABLE ||| PTE_NX))) (topTable 0x1000) 0x5000 := by
    unfold Mapped
    decide +kernel
  obtain ⟨-, -, hlevels⟩ := h 0x5000 (by decide) ⟨by decide, by decide⟩ hmapped
  have hbars := hlevels 0x3000 (by decide +kernel)
  exact absurd hbars (by unfold EntryExecutable; decide +kernel)

end Avaria.Mem
