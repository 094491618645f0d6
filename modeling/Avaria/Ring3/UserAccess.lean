import Avaria.Ring3.PageTables

/-!
# Opening pages to user mode

`make_user_accessible` of `drv/ring3`: for each page of a range, it sets the user bit on every
present entry of the walk, and grants the entry that maps the page. An entry also serves addresses
outside the range: a large page, or a table whose lower entries have the user bit already.

`marked_makeUserAccessible` says what becomes of every entry, and `user_access_confined_iff` when no
address outside the range gains anything.
-/

namespace Avaria.Ring3

/-- The loop body of `make_user_accessible` from the page table on. -/
def openPt (pt addr : UInt64) (mem : PhysMem) : PhysMem :=
  let a := entryAddr pt (tableIndex addr 12)
  let pte := mem a
  if pte &&& PTE_PRESENT ≠ 0 then
    Function.update mem a ((pte ||| PTE_USER ||| PTE_WRITABLE) &&& ~~~PTE_NX)
  else mem

/-- The loop body from the page directory on. -/
def openPd (pd addr : UInt64) (mem : PhysMem) : PhysMem :=
  let a := entryAddr pd (tableIndex addr 21)
  let pde := mem a
  if pde &&& PTE_PRESENT = 0 then mem
  else
    let mem := Function.update mem a (pde ||| PTE_USER)
    if pde &&& PTE_LARGE ≠ 0 then
      Function.update mem a ((pde ||| PTE_USER ||| PTE_WRITABLE) &&& ~~~PTE_NX)
    else openPt (pde &&& ADDR_MASK) addr mem

/-- The loop body from the page directory pointer table on. -/
def openPdpt (pdpt addr : UInt64) (mem : PhysMem) : PhysMem :=
  let a := entryAddr pdpt (tableIndex addr 30)
  let pdpte := mem a
  if pdpte &&& PTE_PRESENT = 0 then mem
  else
    let mem := Function.update mem a (pdpte ||| PTE_USER)
    if pdpte &&& PTE_LARGE ≠ 0 then
      Function.update mem a ((pdpte ||| PTE_USER ||| PTE_WRITABLE) &&& ~~~PTE_NX)
    else openPd (pdpte &&& ADDR_MASK) addr mem

/-- The loop body of `make_user_accessible` for the page at an address. -/
def openPage (pml4 addr : UInt64) (mem : PhysMem) : PhysMem :=
  let a := entryAddr pml4 (tableIndex addr 39)
  let pml4e := mem a
  if pml4e &&& PTE_PRESENT = 0 then mem
  else
    let mem := Function.update mem a (pml4e ||| PTE_USER)
    openPdpt (pml4e &&& ADDR_MASK) addr mem

/-- The loop of `make_user_accessible`, by the number of pages that are left. -/
def openPages (pml4 : UInt64) : Nat → UInt64 → PhysMem → PhysMem
  | 0, _, mem => mem
  | left + 1, addr, mem => openPages pml4 left (addr + 0x1000) (openPage pml4 addr mem)

/-- The first page of the loop. -/
def firstPage (vaddr : UInt64) : UInt64 := vaddr &&& ~~~0xFFF

/-- The number of iterations of `while addr < end`, which moves on by whole pages. -/
def pagesLeft (addr finish : UInt64) : Nat :=
  if addr < finish then (finish - addr).toNat / 0x1000 else 0

/-- The number of pages that the loop goes through. -/
def pageCount (vaddr size : UInt64) : Nat :=
  pagesLeft (firstPage vaddr) ((vaddr + size + 0xFFF) &&& ~~~0xFFF)

/-- `make_user_accessible`. The sum for the end of the range wraps around. -/
def makeUserAccessible (cr3 vaddr size : UInt64) (mem : PhysMem) : PhysMem :=
  openPages (cr3 &&& ~~~0xFFF) (pageCount vaddr size) (firstPage vaddr) mem

/-- With both ends at page boundaries, each iteration leaves one page less. -/
theorem pagesLeft_eq_succ {addr finish : UInt64} (haddr : addr.toNat % 0x1000 = 0)
    (hfinish : finish.toNat % 0x1000 = 0) (h : addr < finish) :
    pagesLeft addr finish = pagesLeft (addr + 0x1000) finish + 1 := by
  have hlt : addr.toNat < finish.toNat := UInt64.lt_iff_toNat_lt.mp h
  have hbound := finish.toNat_lt
  have hnext : (addr + 0x1000).toNat = addr.toNat + 0x1000 := by
    rw [UInt64.toNat_add]
    exact Nat.mod_eq_of_lt (show addr.toNat + 0x1000 < 2 ^ 64 by omega)
  have hsub : (finish - addr).toNat = finish.toNat - addr.toNat :=
    UInt64.toNat_sub_of_le _ _ (UInt64.le_iff_toNat_le.mpr (Nat.le_of_lt hlt))
  rw [pagesLeft, if_pos h, hsub, pagesLeft]
  by_cases hmore : addr + 0x1000 < finish
  · have hlt' : addr.toNat + 0x1000 < finish.toNat := by
      rw [← hnext]
      exact UInt64.lt_iff_toNat_lt.mp hmore
    rw [if_pos hmore, UInt64.toNat_sub_of_le _ _ (UInt64.le_of_lt hmore), hnext]
    omega
  · have hge : finish.toNat ≤ addr.toNat + 0x1000 := by
      rw [← hnext]
      exact Nat.le_of_not_lt fun hlt' ↦ hmore (UInt64.lt_iff_toNat_lt.mpr hlt')
    rw [if_neg hmore]
    omega

/-- The loop is `while addr < end`, one page at a time. -/
theorem openPages_pagesLeft {addr finish : UInt64} (haddr : addr.toNat % 0x1000 = 0)
    (hfinish : finish.toNat % 0x1000 = 0) (pml4 : UInt64) (mem : PhysMem) :
    openPages pml4 (pagesLeft addr finish) addr mem =
      if addr < finish then
        openPages pml4 (pagesLeft (addr + 0x1000) finish) (addr + 0x1000)
          (openPage pml4 addr mem)
      else mem := by
  by_cases h : addr < finish
  · rw [if_pos h, pagesLeft_eq_succ haddr hfinish h, openPages]
  · rw [if_neg h, pagesLeft, if_neg h, openPages]

/-! ## What becomes of the entries -/

/-- The walk at one level marks what it goes through. -/
def Marks (f : PhysMem → PhysMem) (visited : PhysMem → Walk) : Prop :=
  ∀ mem opened users grants, Marked mem users grants opened →
    Marked mem (users ++ (visited mem).entries) (grants ++ (visited mem).leaf.toList) (f opened)

theorem marks_openPt (pt addr : UInt64) : Marks (openPt pt addr) (walkPt · pt addr) := by
  intro mem opened users grants h
  unfold openPt walkPt
  simp only [h.and_present]
  by_cases hpresent : mem (entryAddr pt (tableIndex addr 12)) &&& PTE_PRESENT = 0
  · simpa [hpresent] using h
  · simp only [hpresent, ne_eq, not_false_eq_true, if_true, if_false]
    exact h.set_grant _

/-- An entry that leads to another table gets the user bit, and the walk goes on there. -/
theorem marks_next {a : UInt64} {mem opened : PhysMem} {users grants : List UInt64}
    {next : PhysMem → PhysMem} {visited : PhysMem → Walk} (hnext : Marks next visited)
    (h : Marked mem users grants opened) :
    Marked mem (users ++ ((visited mem).cons a).entries)
      (grants ++ ((visited mem).cons a).leaf.toList)
      (next (Function.update opened a (opened a ||| PTE_USER))) := by
  have hrest := hnext mem _ _ _ (h.set_user a)
  rwa [List.append_assoc, List.singleton_append] at hrest

/-- The two levels at which an entry either maps a large page or leads to another table. -/
theorem marks_directory (a : UInt64) {next : UInt64 → PhysMem → PhysMem}
    {visited : UInt64 → PhysMem → Walk} (hnext : ∀ table, Marks (next table) (visited table)) :
    Marks
      (fun mem ↦
        if mem a &&& PTE_PRESENT = 0 then mem
        else if mem a &&& PTE_LARGE ≠ 0 then
          Function.update (Function.update mem a (mem a ||| PTE_USER)) a
            ((mem a ||| PTE_USER ||| PTE_WRITABLE) &&& ~~~PTE_NX)
        else next (mem a &&& ADDR_MASK) (Function.update mem a (mem a ||| PTE_USER)))
      (fun mem ↦
        if mem a &&& PTE_PRESENT = 0 then ⟨[], none⟩
        else if mem a &&& PTE_LARGE ≠ 0 then ⟨[a], some a⟩
        else (visited (mem a &&& ADDR_MASK) mem).cons a) := by
  intro mem opened users grants h
  simp only [h.and_present, h.and_large, h.and_addr]
  by_cases hpresent : mem a &&& PTE_PRESENT = 0
  · simpa [hpresent] using h
  · simp only [if_neg hpresent]
    by_cases hlarge : mem a &&& PTE_LARGE ≠ 0
    · simp only [if_pos hlarge, Function.update_idem]
      exact h.set_grant a
    · simp only [if_neg hlarge]
      exact marks_next (hnext _) h

theorem marks_openPd (pd addr : UInt64) : Marks (openPd pd addr) (walkPd · pd addr) :=
  marks_directory _ fun pt ↦ marks_openPt pt addr

theorem marks_openPdpt (pdpt addr : UInt64) : Marks (openPdpt pdpt addr) (walkPdpt · pdpt addr) :=
  marks_directory _ fun pd ↦ marks_openPd pd addr

/-- One iteration marks what the walk of its page goes through. -/
theorem marks_openPage (pml4 addr : UInt64) : Marks (openPage pml4 addr) (walk · pml4 addr) := by
  intro mem opened users grants h
  unfold openPage walk
  simp only [h.and_present, h.and_addr]
  by_cases hpresent : mem (entryAddr pml4 (tableIndex addr 39)) &&& PTE_PRESENT = 0
  · simpa [hpresent] using h
  · simp only [if_neg hpresent]
    exact marks_next (marks_openPdpt _ addr) h

/-- The pages of a loop. -/
def pagesFrom : Nat → UInt64 → List UInt64
  | 0, _ => []
  | left + 1, addr => addr :: pagesFrom left (addr + 0x1000)

/-- The entries that the walks of some pages go through. -/
def entriesOf (mem : PhysMem) (pml4 : UInt64) (pages : List UInt64) : List UInt64 :=
  pages.flatMap fun addr ↦ (walk mem pml4 addr).entries

/-- The entries that map some pages. -/
def leavesOf (mem : PhysMem) (pml4 : UInt64) (pages : List UInt64) : List UInt64 :=
  pages.flatMap fun addr ↦ (walk mem pml4 addr).leaf.toList

/-- The loop marks what the walks of its pages go through. -/
theorem marked_openPages (pml4 : UInt64) {mem opened : PhysMem} {users grants : List UInt64}
    (h : Marked mem users grants opened) (left : Nat) (addr : UInt64) :
    Marked mem (users ++ entriesOf mem pml4 (pagesFrom left addr))
      (grants ++ leavesOf mem pml4 (pagesFrom left addr)) (openPages pml4 left addr opened) := by
  induction left generalizing opened users grants addr with
  | zero => simpa [entriesOf, leavesOf, pagesFrom, openPages] using h
  | succ left ih =>
      have hpage := marks_openPage pml4 addr mem opened users grants h
      have hrest := ih hpage (addr + 0x1000)
      rwa [List.append_assoc, List.append_assoc] at hrest

/-- The top table that `cr3` names. -/
def topTable (cr3 : UInt64) : UInt64 := cr3 &&& ~~~0xFFF

/-- The pages that `make_user_accessible` opens. -/
def rangePages (vaddr size : UInt64) : List UInt64 :=
  pagesFrom (pageCount vaddr size) (firstPage vaddr)

/-- `make_user_accessible` sets the user bit on the entries of the walks of its pages, grants those
that map a page, and changes no other word of the memory. -/
theorem marked_makeUserAccessible (mem : PhysMem) (cr3 vaddr size : UInt64) :
    Marked mem (entriesOf mem (topTable cr3) (rangePages vaddr size))
      (leavesOf mem (topTable cr3) (rangePages vaddr size))
      (makeUserAccessible cr3 vaddr size mem) :=
  marked_openPages (topTable cr3) (Marked.refl mem) (pageCount vaddr size) (firstPage vaddr)

/-- An entry that maps a page is an entry of the walk. -/
theorem leavesOf_subset (mem : PhysMem) (pml4 : UInt64) (pages : List UInt64) :
    leavesOf mem pml4 pages ⊆ entriesOf mem pml4 pages := by
  intro a ha
  obtain ⟨addr, haddr, hleaf⟩ := List.mem_flatMap.mp ha
  exact List.mem_flatMap.mpr ⟨addr, haddr, leaf_mem_entries mem pml4 addr hleaf⟩

/-! ## Confinement -/

/-- The addresses of `[vaddr, vaddr + size)`, with both ends rounded to whole pages outwards. -/
def InRange (vaddr size addr : UInt64) : Prop :=
  vaddr.toNat / 0x1000 * 0x1000 ≤ addr.toNat ∧
    addr.toNat < (vaddr.toNat + size.toNat + 0xFFF) / 0x1000 * 0x1000

/-- No address outside the range becomes accessible from user mode, writable or executable. -/
def Confined (mem : PhysMem) (cr3 vaddr size : UInt64) : Prop :=
  ∀ addr, Canonical addr → ¬ InRange vaddr size addr →
    let after := makeUserAccessible cr3 vaddr size mem
    (UserAccessible after (topTable cr3) addr → UserAccessible mem (topTable cr3) addr) ∧
      (Writable after (topTable cr3) addr → Writable mem (topTable cr3) addr) ∧
      (Executable after (topTable cr3) addr → Executable mem (topTable cr3) addr)

/-- An access to a mapped address that is not permitted is barred by an entry outside a list. -/
def BarredOutside (ok : UInt64 → Prop) (opened : List UInt64) (mem : PhysMem)
    (pml4 addr : UInt64) : Prop :=
  ¬ EachLevel ok mem pml4 addr →
    ∃ a ∈ (walk mem pml4 addr).entries, ¬ ok (mem a) ∧ a ∉ opened

/-- Each access to a mapped address outside the range that is not permitted is barred by an entry
that the range does not open for it: one that no walk of the range goes through, or for writes and
instruction fetches one that maps no page of the range. -/
def RangeApart (mem : PhysMem) (cr3 vaddr size : UInt64) : Prop :=
  ∀ addr, Canonical addr → ¬ InRange vaddr size addr → Mapped mem (topTable cr3) addr →
    let pages := rangePages vaddr size
    BarredOutside EntryUser (entriesOf mem (topTable cr3) pages) mem (topTable cr3) addr ∧
      BarredOutside EntryWritable (leavesOf mem (topTable cr3) pages) mem (topTable cr3) addr ∧
      BarredOutside EntryExecutable (leavesOf mem (topTable cr3) pages) mem (topTable cr3) addr

/-- A property of the entries that opening gives to the entries of a list: an address outside the
range gains nothing exactly if what is not permitted is barred by an entry outside the list. -/
theorem barredOutside_iff {mem after : PhysMem} {users grants given : List UInt64}
    (h : Marked mem users grants after) {ok : UInt64 → Prop}
    (hmark : ∀ a entry, ok (mark users grants a entry) ↔ ok entry ∨ a ∈ given)
    (pml4 addr : UInt64) :
    (EachLevel ok after pml4 addr → EachLevel ok mem pml4 addr) ↔
      (Mapped mem pml4 addr → BarredOutside ok given mem pml4 addr) := by
  rw [eachLevel_marked_iff h hmark, BarredOutside]
  constructor
  · intro hkeep hmapped hnot
    by_contra hnone
    refine hnot (hkeep ⟨hmapped, fun a ha ↦ ?_⟩)
    by_contra hbars
    rw [not_or] at hbars
    exact hnone ⟨a, ha, hbars⟩
  · intro hbarred hafter
    obtain ⟨hmapped, hlevels⟩ := hafter
    by_contra hnot
    obtain ⟨a, ha, hbars, hout⟩ := hbarred hmapped hnot
    exact (hlevels a ha).elim hbars hout

/-- `make_user_accessible` gives away nothing outside the range exactly if no entry that it opens is
the only bar to an address outside. -/
theorem user_access_confined_iff (mem : PhysMem) (cr3 vaddr size : UInt64) :
    Confined mem cr3 vaddr size ↔ RangeApart mem cr3 vaddr size := by
  have hmarked := marked_makeUserAccessible mem cr3 vaddr size
  refine forall_congr' fun addr ↦ forall₂_congr fun _ _ ↦ ?_
  have huser := barredOutside_iff hmarked
    (entryUser_mark (leavesOf_subset mem (topTable cr3) (rangePages vaddr size)))
    (topTable cr3) addr
  have hwritable := barredOutside_iff hmarked (entryWritable_mark _ _) (topTable cr3) addr
  have hexecutable := barredOutside_iff hmarked (entryExecutable_mark _ _) (topTable cr3) addr
  simp only [UserAccessible, Writable, Executable]
  rw [huser, hwritable, hexecutable, ← imp_and, ← imp_and]

/-- The table entries of a 2 MiB page at address 0, which only the kernel may access. -/
def largePageMem : PhysMem := fun a ↦
  if a = 0x1000 then 0x2003 else if a = 0x2000 then 0x3003 else if a = 0x3000 then 0x83 else 0

/-- Opening one 4 KiB page of a 2 MiB page opens all of it. -/
theorem user_access_not_confined : ¬ Confined largePageMem 0x1000 0x5000 0x1000 := by
  intro h
  have hcanonical : Canonical 0x10000 := by decide
  have hout : ¬ InRange 0x5000 0x1000 0x10000 := fun hin ↦ absurd hin.2 (by decide)
  have hafter : UserAccessible (makeUserAccessible 0x1000 0x5000 0x1000 largePageMem)
      (topTable 0x1000) 0x10000 := by decide +kernel
  have hbefore : ¬ UserAccessible largePageMem (topTable 0x1000) 0x10000 := by decide +kernel
  exact hbefore ((h 0x10000 hcanonical hout).1 hafter)

end Avaria.Ring3
