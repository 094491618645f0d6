import Mathlib.Data.Set.Basic
import Avaria.Mm.Pages
import Avaria.Ring3.TableTree
import Avaria.Ring3.UserAccess

/-!
# Mapping device memory

`map_mmio` of `mem.rs`: it maps a range of physical pages at their addresses in the window of
physical memory that begins at `hhdm`. On the way down to each page it links new tables, for which
it takes pages from the allocator; where a large page covers the address already, it goes on.

`map_mmio_correct` says that the range is mapped when a non-zero address is returned, and that no
translation is lost, whichever allocation fails.
-/

namespace Avaria.Mem

open Mm Ring3

variable {σ : Type*} [PageSource σ]

/-! ## The function -/

/-- `PTE_PWT`. -/
def PTE_PWT : UInt64 := (1 : UInt64) <<< 3

/-- `PTE_PCD`. -/
def PTE_PCD : UInt64 := (1 : UInt64) <<< 4

/-- The physical memory and the page allocator. -/
structure MmioState (σ : Type*) where
  mem : PhysMem
  source : σ

/-- `virt_to_phys`, for an address that the allocator returns. -/
def virtToPhys (hhdm : UInt64) (vaddr : Nat) : UInt64 := UInt64.ofNat vaddr - hhdm

/-- An empty entry gets a new, cleared table. The flag is false if there is no page for it. -/
def ensureTable (hhdm a : UInt64) (s : MmioState σ) : MmioState σ × Bool :=
  if s.mem a &&& PTE_PRESENT = 0 then
    match PageSource.allocPages s.source 0 with
    | (some page, source) => (⟨link a (virtToPhys hhdm page) s.mem, source⟩, true)
    | (none, source) => ({ s with source := source }, false)
  else (s, true)

/-- The walk goes on in the table of an entry, which is a new one if the entry was empty. -/
def ensureNext (hhdm a : UInt64) (next : UInt64 → MmioState σ → MmioState σ × Bool)
    (s : MmioState σ) : MmioState σ × Bool :=
  match ensureTable hhdm a s with
  | (s, false) => (s, false)
  | (s, true) => next (s.mem a &&& ADDR_MASK) s

/-- An entry of the two middle levels: a large page is left alone. -/
def mapDirectory (hhdm a : UInt64) (next : UInt64 → MmioState σ → MmioState σ × Bool)
    (s : MmioState σ) : MmioState σ × Bool :=
  if s.mem a &&& PTE_PRESENT ≠ 0 ∧ s.mem a &&& PTE_LARGE ≠ 0 then (s, true)
  else ensureNext hhdm a next s

/-- The entry that maps a physical page for a device: writable, not cached, not executable. -/
def deviceEntry (phys : UInt64) : UInt64 :=
  phys ||| PTE_PRESENT ||| PTE_WRITABLE ||| PTE_PWT ||| PTE_PCD ||| PTE_NX

/-- The loop body of `map_mmio` from the page table on. -/
def mapPt (phys vaddr pt : UInt64) (s : MmioState σ) : MmioState σ × Bool :=
  let a := entryAddr pt (tableIndex vaddr 12)
  if s.mem a &&& PTE_PRESENT = 0 then
    ({ s with mem := Function.update s.mem a (deviceEntry phys) }, true)
  else (s, true)

/-- The loop body from the page directory on. -/
def mapPd (hhdm phys vaddr pd : UInt64) : MmioState σ → MmioState σ × Bool :=
  mapDirectory hhdm (entryAddr pd (tableIndex vaddr 21)) (mapPt phys vaddr)

/-- The loop body from the page directory pointer table on. -/
def mapPdpt (hhdm phys vaddr pdpt : UInt64) : MmioState σ → MmioState σ × Bool :=
  mapDirectory hhdm (entryAddr pdpt (tableIndex vaddr 30)) (mapPd hhdm phys vaddr)

/-- The loop body of `map_mmio` for one page. -/
def mapPage (hhdm pml4 phys : UInt64) : MmioState σ → MmioState σ × Bool :=
  let vaddr := hhdm + phys
  ensureNext hhdm (entryAddr pml4 (tableIndex vaddr 39)) (mapPdpt hhdm phys vaddr)

/-- The physical address of the page that an iteration maps. -/
def pagePhys (physBase : UInt64) (page : Nat) : UInt64 := physBase + UInt64.ofNat page * 0x1000

/-- The loop of `map_mmio` from a page on, by the number of pages that are left. -/
def mapPages (hhdm pml4 physBase : UInt64) : Nat → Nat → MmioState σ → MmioState σ × Bool
  | 0, _, s => (s, true)
  | left + 1, page, s =>
      match mapPage hhdm pml4 (pagePhys physBase page) s with
      | (s, false) => (s, false)
      | (s, true) => mapPages hhdm pml4 physBase left (page + 1) s

/-- `map_mmio`. -/
def mapMmio (hhdm cr3 physBase : UInt64) (numPages : Nat) (s : MmioState σ) :
    MmioState σ × UInt64 :=
  match mapPages hhdm (cr3 &&& ~~~0xFFF) physBase numPages 0 s with
  | (s, false) => (s, 0)
  | (s, true) => (s, hhdm + physBase)

/-! ## The allocator and the window -/

/-- An allocator hands out pages of a set, and none twice: `spare source pages` says that all pages
that it has left are in the set. -/
def Supplies (spare : σ → Set Nat → Prop) : Prop :=
  ∀ source pages page after, spare source pages →
    PageSource.allocPages source 0 = (some page, after) →
    page ∈ pages ∧ spare after (pages \ {page})

/-- The virtual address is that of a physical page in the window at `hhdm`. -/
def HhdmPage (hhdm : UInt64) (page : Nat) : Prop :=
  page % 0x1000 = 0 ∧ hhdm.toNat ≤ page ∧ page < hhdm.toNat + 2 ^ 52 ∧ page < 2 ^ 64

/-- The range of device memory: whole pages below `2 ^ 52`, at addresses in one canonical half. -/
structure Window (hhdm physBase : UInt64) (numPages : Nat) : Prop where
  hhdm_aligned : hhdm.toNat % 0x1000 = 0
  base_aligned : physBase.toNat % 0x1000 = 0
  below : physBase.toNat + numPages * 0x1000 ≤ 2 ^ 52
  half : hhdm.toNat + physBase.toNat + numPages * 0x1000 ≤ 2 ^ 47 ∨
    (2 ^ 64 - 2 ^ 47 ≤ hhdm.toNat + physBase.toNat ∧
      hhdm.toNat + physBase.toNat + numPages * 0x1000 ≤ 2 ^ 64)

/-- The virtual address is one of the window. -/
def InWindow (hhdm physBase : UInt64) (numPages : Nat) (vaddr : UInt64) : Prop :=
  hhdm.toNat + physBase.toNat ≤ vaddr.toNat ∧
    vaddr.toNat < hhdm.toNat + physBase.toNat + numPages * 0x1000

/-- The physical address of a page that the allocator returns is a frame. -/
theorem HhdmPage.toNat_virtToPhys {hhdm : UInt64} {page : Nat} (h : HhdmPage hhdm page) :
    (virtToPhys hhdm page).toNat = page - hhdm.toNat := by
  obtain ⟨-, hle, -, hlt⟩ := h
  have hpage : (UInt64.ofNat page).toNat = page := UInt64.toNat_ofNat_of_lt hlt
  rw [virtToPhys, UInt64.toNat_sub_of_le _ _ (by rwa [UInt64.le_iff_toNat_le, hpage]), hpage]

theorem HhdmPage.frame {hhdm : UInt64} (hhhdm : hhdm.toNat % 0x1000 = 0) {page : Nat}
    (h : HhdmPage hhdm page) : Frame (virtToPhys hhdm page) := by
  have hphys := h.toNat_virtToPhys
  obtain ⟨haligned, hle, hbelow, -⟩ := h
  exact frame_of_toNat (by omega) (by omega)

/-- Different pages have different physical addresses. -/
theorem HhdmPage.virtToPhys_ne {hhdm : UInt64} {page other : Nat} (h : HhdmPage hhdm page)
    (hother : HhdmPage hhdm other) (hne : page ≠ other) :
    virtToPhys hhdm page ≠ virtToPhys hhdm other := by
  intro heq
  have hnat := congrArg UInt64.toNat heq
  rw [h.toNat_virtToPhys, hother.toNat_virtToPhys] at hnat
  exact hne (by have hle := h.2.1; have hle' := hother.2.1; omega)

theorem deviceEntry_present (phys : UInt64) : deviceEntry phys &&& PTE_PRESENT ≠ 0 := by
  rw [deviceEntry, or_and_of_disjoint (by decide), or_and_of_disjoint (by decide),
    or_and_of_disjoint (by decide), or_and_of_disjoint (by decide)]
  exact or_and_ne_zero (by decide)

theorem deviceEntry_addr {phys : UInt64} (h : Frame phys) :
    deviceEntry phys &&& ADDR_MASK = phys := by
  rw [deviceEntry, or_and_of_disjoint (by decide), or_and_of_disjoint (by decide),
    or_and_of_disjoint (by decide), or_and_of_disjoint (by decide), or_and_of_disjoint (by decide)]
  exact h

section Window

variable {hhdm physBase vaddr other : UInt64} {numPages page : Nat}

theorem Window.toNat_pagePhys (h : Window hhdm physBase numPages) (hpage : page < numPages) :
    (pagePhys physBase page).toNat = physBase.toNat + page * 0x1000 := by
  have hbelow := h.below
  have hofNat : (UInt64.ofNat page).toNat = page :=
    UInt64.toNat_ofNat_of_lt (show page < 2 ^ 64 by omega)
  have hmul : (UInt64.ofNat page * 0x1000).toNat = page * 0x1000 := by
    rw [UInt64.toNat_mul, hofNat]
    exact Nat.mod_eq_of_lt (show page * 0x1000 < 2 ^ 64 by omega)
  rw [pagePhys, UInt64.toNat_add, hmul]
  exact Nat.mod_eq_of_lt (show physBase.toNat + page * 0x1000 < 2 ^ 64 by omega)

theorem Window.frame (h : Window hhdm physBase numPages) (hpage : page < numPages) :
    Frame (pagePhys physBase page) := by
  have hphys := h.toNat_pagePhys hpage
  have hbelow := h.below
  have haligned := h.base_aligned
  exact frame_of_toNat (by omega) (by omega)

/-- The addresses of the window do not wrap around. -/
theorem Window.toNat_page (h : Window hhdm physBase numPages) (hpage : page < numPages) :
    (hhdm + pagePhys physBase page).toNat = hhdm.toNat + physBase.toNat + page * 0x1000 := by
  have hphys := h.toNat_pagePhys hpage
  have hhalf := h.half
  rw [UInt64.toNat_add, hphys, ← Nat.add_assoc]
  exact Nat.mod_eq_of_lt
    (show hhdm.toNat + physBase.toNat + page * 0x1000 < 2 ^ 64 by omega)

theorem Window.toNat_addr (h : Window hhdm physBase numPages) (hpage : page < numPages)
    {offset : Nat} (hoffset : offset < 0x1000) :
    (hhdm + physBase + UInt64.ofNat (page * 0x1000 + offset)).toNat =
      hhdm.toNat + physBase.toNat + (page * 0x1000 + offset) := by
  have hhalf := h.half
  have hofNat : (UInt64.ofNat (page * 0x1000 + offset)).toNat = page * 0x1000 + offset :=
    UInt64.toNat_ofNat_of_lt (show page * 0x1000 + offset < 2 ^ 64 by omega)
  rw [UInt64.toNat_add, UInt64.toNat_add, hofNat, Nat.mod_add_mod]
  exact Nat.mod_eq_of_lt
    (show hhdm.toNat + physBase.toNat + (page * 0x1000 + offset) < 2 ^ 64 by omega)

theorem Window.inWindow_page (h : Window hhdm physBase numPages) (hpage : page < numPages) :
    InWindow hhdm physBase numPages (hhdm + pagePhys physBase page) := by
  have haddr := h.toNat_page hpage
  exact ⟨by omega, by omega⟩

/-- In the window, the indices determine the page. -/
theorem Window.page_eq (h : Window hhdm physBase numPages)
    (hvaddr : InWindow hhdm physBase numPages vaddr)
    (hother : InWindow hhdm physBase numPages other)
    (hsame : ∀ level ≤ 3, levelIndex vaddr level = levelIndex other level) :
    vaddr.toNat / 0x1000 = other.toNat / 0x1000 := by
  have hpage := page_of_levelIndex hsame
  have hhalf := h.half
  obtain ⟨hlow, hhigh⟩ := hvaddr
  obtain ⟨hlow', hhigh'⟩ := hother
  omega

/-- What the new entry of a page gives the addresses of the page. -/
theorem Window.pageAddr_deviceEntry (h : Window hhdm physBase numPages) (hpage : page < numPages)
    (hother : InWindow hhdm physBase numPages other)
    (hsame : ∀ level ≤ 3,
      levelIndex (hhdm + pagePhys physBase page) level = levelIndex other level) :
    pageAddr 0 (deviceEntry (pagePhys physBase page)) other = other - hhdm := by
  have hsamePage := h.page_eq (h.inWindow_page hpage) hother hsame
  have haddr := h.toNat_page hpage
  have hphys := h.toNat_pagePhys hpage
  have hhhdm := h.hhdm_aligned
  have hbase := h.base_aligned
  have hle : hhdm ≤ other := UInt64.le_iff_toNat_le.mpr (by have hlow := hother.1; omega)
  rw [← UInt64.toNat_inj, toNat_pageAddr, deviceEntry_addr (h.frame hpage), hphys,
    UInt64.toNat_sub_of_le _ _ hle]
  omega

end Window

/-! ## The invariant -/

/-- What holds before and after each step of `map_mmio`: the tables form a tree, the pages that the
allocator has left are not among them, and the pages of the window that are mapped are so at their
offset from `hhdm`. -/
structure MmioInv (spare : σ → Set Nat → Prop) (hhdm root physBase : UInt64) (numPages : Nat)
    (s : MmioState σ) : Prop where
  tree : Tree s.mem root
  supply : ∃ pages, spare s.source pages ∧ ∀ page ∈ pages, HhdmPage hhdm page ∧
    ∀ vaddr level, ¬ Leads s.mem root vaddr level (virtToPhys hhdm page)
  window : ∀ vaddr, InWindow hhdm physBase numPages vaddr →
    ∀ paddr, translate s.mem root vaddr = some paddr → paddr = vaddr - hhdm

/-- A part of the loop body does its work: the invariant is kept, no entry that is present changes,
and if it did not fail, the address is mapped. -/
structure MapsAddr (spare : σ → Set Nat → Prop) (hhdm root physBase : UInt64) (numPages : Nat)
    (vaddr : UInt64) (s : MmioState σ) (r : MmioState σ × Bool) : Prop where
  inv : MmioInv spare hhdm root physBase numPages r.1
  grows : Grows s.mem root r.1.mem
  mapped : r.2 = true → (translate r.1.mem root vaddr).isSome = true

section Steps

variable {spare : σ → Set Nat → Prop} {hhdm root physBase vaddr table : UInt64} {numPages : Nat}
  {s : MmioState σ}

omit [PageSource σ] in
/-- An entry that maps a page stays as it is. -/
theorem MapsAddr.of_present (hinv : MmioInv spare hhdm root physBase numPages s) {level : Nat}
    (hleads : Leads s.mem root vaddr level table)
    (hpresent : s.mem (slot table vaddr level) &&& PTE_PRESENT ≠ 0)
    (hmaps : MapsPage level (s.mem (slot table vaddr level))) :
    MapsAddr spare hhdm root physBase numPages vaddr s (s, true) where
  inv := hinv
  grows := Grows.refl s.mem root
  mapped := fun _ ↦ Option.isSome_iff_exists.mpr
    ⟨_, translate_eq_some_iff.mpr ⟨level, table, hleads, hpresent, hmaps, rfl⟩⟩

omit [PageSource σ] in
/-- The step before it only added to the tables. -/
theorem MapsAddr.of_grows {middle : MmioState σ} {r : MmioState σ × Bool}
    (hgrows : Grows s.mem root middle.mem)
    (h : MapsAddr spare hhdm root physBase numPages vaddr middle r) :
    MapsAddr spare hhdm root physBase numPages vaddr s r :=
  ⟨h.inv, hgrows.trans h.grows, h.mapped⟩

variable (hsupplies : Supplies spare) (hroot : root.toNat % 0x1000 = 0)
  (hwindow : Window hhdm physBase numPages)

omit [PageSource σ] in
include hroot hwindow in
/-- The page table: an empty entry is filled. -/
theorem mapPt_mapsAddr {page : Nat} (hpage : page < numPages)
    (hinv : MmioInv spare hhdm root physBase numPages s)
    (hleads : Leads s.mem root (hhdm + pagePhys physBase page) 0 table) :
    MapsAddr spare hhdm root physBase numPages (hhdm + pagePhys physBase page) s
      (mapPt (pagePhys physBase page) (hhdm + pagePhys physBase page) table s) := by
  show MapsAddr _ _ _ _ _ _ s (if s.mem (slot table _ 0) &&& PTE_PRESENT = 0 then _ else _)
  split
  · rename_i habsent
    have hfill : Fillable s.mem root (hhdm + pagePhys physBase page) table
        (deviceEntry (pagePhys physBase page)) :=
      ⟨hroot, hinv.tree, hleads, habsent, deviceEntry_present _⟩
    constructor
    · obtain ⟨pages, hspare, hpages⟩ := hinv.supply
      refine ⟨hfill.tree_after, ⟨pages, hspare, fun free hfree ↦ ⟨(hpages free hfree).1, ?_⟩⟩, ?_⟩
      · exact fun other level hother ↦ (hpages free hfree).2 other level (hfill.leads_after hother)
      · intro other hother paddr hpaddr
        rcases hfill.translate_after hpaddr with hold | ⟨hsame, rfl⟩
        · exact hinv.window other hother paddr hold
        · exact hwindow.pageAddr_deviceEntry hpage hother hsame
    · exact hfill.grows
    · exact fun _ ↦ Option.isSome_iff_exists.mpr ⟨_, hfill.translate_page fun _ _ ↦ rfl⟩
  · rename_i hpresent
    exact MapsAddr.of_present hinv hleads hpresent (Or.inl rfl)

include hsupplies hroot hwindow in
/-- The levels above: an empty entry gets a new table, and the walk goes on in the table. -/
theorem ensureNext_mapsAddr {level : Nat} (hinv : MmioInv spare hhdm root physBase numPages s)
    (hleads : Leads s.mem root vaddr (level + 1) table)
    (hmore : s.mem (slot table vaddr (level + 1)) &&& PTE_PRESENT ≠ 0 →
      ¬ MapsPage (level + 1) (s.mem (slot table vaddr (level + 1))))
    {next : UInt64 → MmioState σ → MmioState σ × Bool}
    (hnext : ∀ below after, MmioInv spare hhdm root physBase numPages after →
      Leads after.mem root vaddr level below →
      MapsAddr spare hhdm root physBase numPages vaddr after (next below after)) :
    MapsAddr spare hhdm root physBase numPages vaddr s
      (ensureNext hhdm (slot table vaddr (level + 1)) next s) := by
  unfold ensureNext ensureTable
  by_cases habsent : s.mem (slot table vaddr (level + 1)) &&& PTE_PRESENT = 0
  · rw [if_pos habsent]
    obtain ⟨pages, hspare, hpages⟩ := hinv.supply
    rcases hcall : PageSource.allocPages s.source 0 with ⟨_ | page, source⟩
    · -- The allocation fails: nothing has changed.
      have hsource := PageSource.allocPages_none s.source 0 (congrArg Prod.fst hcall)
      rw [hcall] at hsource
      subst hsource
      exact ⟨hinv, Grows.refl s.mem root, fun h ↦ absurd h Bool.false_ne_true⟩
    · obtain ⟨hpage, hspare'⟩ := hsupplies _ _ _ _ hspare hcall
      obtain ⟨hhhdmPage, hfresh⟩ := hpages page hpage
      have hlink : Linkable s.mem root vaddr level table (virtToPhys hhdm page) :=
        ⟨hroot, hinv.tree, hleads, habsent, hhhdmPage.frame hwindow.hhdm_aligned, hfresh⟩
      have hinv' : MmioInv spare hhdm root physBase numPages
          ⟨hlink.after, source⟩ := by
        refine ⟨hlink.tree_after, ⟨_, hspare', ?_⟩, ?_⟩
        · rintro free ⟨hfree, hne⟩
          obtain ⟨hfreePage, hfreeFresh⟩ := hpages free hfree
          exact ⟨hfreePage, hlink.fresh_after (hfreePage.virtToPhys_ne hhhdmPage hne) hfreeFresh⟩
        · exact fun other hother paddr hpaddr ↦
            hinv.window other hother paddr (hlink.translate_after hpaddr)
      have hnew : Leads hlink.after root vaddr level
          (hlink.after (slot table vaddr (level + 1)) &&& ADDR_MASK) := by
        rw [hlink.after_self, tableEntry_addr hlink.frame]
        exact hlink.leads_new
      exact MapsAddr.of_grows hlink.grows (hnext _ _ hinv' hnew)
  · rw [if_neg habsent]
    exact hnext _ s hinv (hleads.next habsent (hmore habsent))

include hsupplies hroot hwindow in
/-- The two middle levels. -/
theorem mapDirectory_mapsAddr {level : Nat} (hlevel : level + 1 ≤ 2)
    (hinv : MmioInv spare hhdm root physBase numPages s)
    (hleads : Leads s.mem root vaddr (level + 1) table)
    {next : UInt64 → MmioState σ → MmioState σ × Bool}
    (hnext : ∀ below after, MmioInv spare hhdm root physBase numPages after →
      Leads after.mem root vaddr level below →
      MapsAddr spare hhdm root physBase numPages vaddr after (next below after)) :
    MapsAddr spare hhdm root physBase numPages vaddr s
      (mapDirectory hhdm (slot table vaddr (level + 1)) next s) := by
  unfold mapDirectory
  split
  · rename_i hlarge
    exact MapsAddr.of_present hinv hleads hlarge.1 (Or.inr ⟨hlevel, hlarge.2⟩)
  · rename_i hnot
    refine ensureNext_mapsAddr hsupplies hroot hwindow hinv hleads (fun hpresent hmaps ↦ ?_) hnext
    rcases hmaps with hzero | ⟨-, hlarge⟩
    · exact absurd hzero (Nat.succ_ne_zero level)
    · exact hnot ⟨hpresent, hlarge⟩

include hsupplies hroot hwindow in
/-- One iteration of the loop. -/
theorem mapPage_mapsAddr {page : Nat} (hpage : page < numPages)
    (hinv : MmioInv spare hhdm root physBase numPages s) :
    MapsAddr spare hhdm root physBase numPages (hhdm + pagePhys physBase page) s
      (mapPage hhdm root (pagePhys physBase page) s) := by
  refine ensureNext_mapsAddr hsupplies hroot hwindow hinv Leads.top (fun _ hmaps ↦ ?_) ?_
  · exact hmaps.elim (fun hzero ↦ absurd hzero (by decide)) fun hlarge ↦
      absurd hlarge.1 (by decide)
  · intro pdpt s hinv hpdpt
    refine mapDirectory_mapsAddr hsupplies hroot hwindow (by decide) hinv hpdpt ?_
    intro pd s hinv hpd
    refine mapDirectory_mapsAddr hsupplies hroot hwindow (by decide) hinv hpd ?_
    intro pt s hinv hpt
    exact mapPt_mapsAddr hroot hwindow hpage hinv hpt

include hsupplies hroot hwindow in
/-- The loop: if no iteration failed, each page is mapped. -/
theorem mapPages_spec (left page : Nat) (hbound : page + left ≤ numPages)
    (hinv : MmioInv spare hhdm root physBase numPages s) :
    MmioInv spare hhdm root physBase numPages (mapPages hhdm root physBase left page s).1 ∧
      Grows s.mem root (mapPages hhdm root physBase left page s).1.mem ∧
      ((mapPages hhdm root physBase left page s).2 = true → ∀ i, page ≤ i → i < page + left →
        (translate (mapPages hhdm root physBase left page s).1.mem root
          (hhdm + pagePhys physBase i)).isSome = true) := by
  induction left generalizing page s with
  | zero => exact ⟨hinv, Grows.refl s.mem root, fun _ i hle hlt ↦ absurd hle (Nat.not_le_of_lt hlt)⟩
  | succ left ih =>
      have hpage := mapPage_mapsAddr hsupplies hroot hwindow (show page < numPages by omega) hinv
      unfold mapPages
      rcases hcall : mapPage hhdm root (pagePhys physBase page) s with ⟨middle, _ | _⟩
      · rw [hcall] at hpage
        exact ⟨hpage.inv, hpage.grows, fun h ↦ absurd h Bool.false_ne_true⟩
      · rw [hcall] at hpage
        obtain ⟨hinv', hgrows, hmapped⟩ := ih (page + 1) (by omega) hpage.inv
        refine ⟨hinv', hpage.grows.trans hgrows, fun hdone i hle hlt ↦ ?_⟩
        rcases Nat.eq_or_lt_of_le hle with rfl | hlater
        · -- Later iterations keep the translation of this page.
          obtain ⟨paddr, hpaddr⟩ := Option.isSome_iff_exists.mp (hpage.mapped rfl)
          exact Option.isSome_iff_exists.mpr ⟨paddr, hgrows.translate hpaddr⟩
        · exact hmapped hdone i hlater (by omega)

end Steps

/-- Addresses of one page are translated or not alike. -/
theorem isSome_translate_congr {vaddr other : UInt64}
    (h : vaddr.toNat / 0x1000 = other.toNat / 0x1000) (mem : PhysMem) (root : UInt64) :
    (translate mem root vaddr).isSome = (translate mem root other).isSome := by
  rw [isSome_translate, walk_congr h, isSome_translate]

/-- `map_mmio` maps the range at its offset from `hhdm` if it returns a non-zero address, and
whether or not it succeeds, every translation that there was stays. -/
theorem map_mmio_correct {spare : σ → Set Nat → Prop} (hsupplies : Supplies spare)
    {hhdm cr3 physBase : UInt64} {numPages : Nat} (hwindow : Window hhdm physBase numPages)
    {s : MmioState σ} (hinv : MmioInv spare hhdm (topTable cr3) physBase numPages s) :
    let r := mapMmio hhdm cr3 physBase numPages s
    (r.2 ≠ 0 → ∀ i < numPages, ∀ offset < 0x1000,
        translate r.1.mem (topTable cr3) (hhdm + physBase + UInt64.ofNat (i * 0x1000 + offset)) =
          some (physBase + UInt64.ofNat (i * 0x1000 + offset))) ∧
      ∀ vaddr paddr, translate s.mem (topTable cr3) vaddr = some paddr →
        translate r.1.mem (topTable cr3) vaddr = some paddr := by
  have hroot : (topTable cr3).toNat % 0x1000 = 0 := by
    rw [topTable, toNat_and_not_low]
    exact Nat.mul_mod_left _ _
  obtain ⟨hinv', hgrows, hmapped⟩ :=
    mapPages_spec hsupplies hroot hwindow numPages 0 (Nat.le_of_eq (Nat.zero_add _)) hinv
  have hkept (vaddr paddr : UInt64) (h : translate s.mem (topTable cr3) vaddr = some paddr) :
      translate (mapPages hhdm (topTable cr3) physBase numPages 0 s).1.mem (topTable cr3) vaddr =
        some paddr := hgrows.translate h
  unfold mapMmio
  rw [← topTable]
  rcases hcall : mapPages hhdm (topTable cr3) physBase numPages 0 s with ⟨after, _ | _⟩
  · rw [hcall] at hkept
    exact ⟨fun h ↦ absurd rfl h, hkept⟩
  · rw [hcall] at hinv' hmapped hkept
    refine ⟨fun _ i hi offset hoffset ↦ ?_, hkept⟩
    have haddr := hwindow.toNat_addr hi hoffset
    have hsame : (hhdm + physBase + UInt64.ofNat (i * 0x1000 + offset)).toNat / 0x1000 =
        (hhdm + pagePhys physBase i).toNat / 0x1000 := by
      have hhhdm := hwindow.hhdm_aligned
      have hbase := hwindow.base_aligned
      rw [haddr, hwindow.toNat_page hi]
      omega
    have hsome := hmapped rfl i (Nat.zero_le i) (by omega)
    rw [← isSome_translate_congr hsame] at hsome
    obtain ⟨paddr, hpaddr⟩ := Option.isSome_iff_exists.mp hsome
    have hdirect := hinv'.window _ ⟨by omega, by omega⟩ paddr hpaddr
    rw [hpaddr, hdirect, UInt64.add_assoc, UInt64.add_comm hhdm, UInt64.add_sub_cancel]

/-- The pages of a list, one after the other. -/
instance : PageSource (List Nat) where
  allocPages
    | page :: rest, 0 => (some page, rest)
    | source, _ => (none, source)
  freePages source _ _ := source
  allocPages_none source order h := by
    cases source with
    | nil => rfl
    | cons page rest =>
        cases order with
        | zero => exact absurd h (Option.some_ne_none page)
        | succ order => rfl

/-- A list of different pages supplies them. -/
theorem list_supplies :
    Supplies fun (source : List Nat) pages ↦ source.Nodup ∧ ∀ page ∈ source, page ∈ pages := by
  rintro source pages page after ⟨hnodup, hmem⟩ hcall
  cases source with
  | nil => exact absurd (congrArg Prod.fst hcall).symm (Option.some_ne_none page)
  | cons first rest =>
      obtain ⟨hfirst, rfl⟩ := Prod.mk.inj hcall
      obtain rfl := Option.some.inj hfirst
      obtain ⟨hnew, hrest⟩ := List.nodup_cons.mp hnodup
      refine ⟨hmem first List.mem_cons_self, hrest, fun page hpage ↦ ?_⟩
      exact ⟨hmem page (List.mem_cons_of_mem first hpage), fun heq ↦ hnew (heq ▸ hpage)⟩

/-- Without tables, walks come to the root only. -/
theorem leads_zero {root vaddr table : UInt64} {level : Nat}
    (h : Leads (fun _ ↦ 0) root vaddr level table) : level = 3 ∧ table = root := by
  cases h with
  | top => exact ⟨rfl, rfl⟩
  | next h hpresent hmore => exact absurd UInt64.zero_and hpresent

/-- An empty top table at `0x1000`, and three pages for tables. -/
def emptyTables : MmioState (List Nat) :=
  ⟨fun _ ↦ 0, [0xFFFF800000002000, 0xFFFF800000003000, 0xFFFF800000004000]⟩

/-- Two pages of device memory are mapped, with three new tables. -/
theorem map_mmio_two_pages :
    translate (mapMmio 0xFFFF800000000000 0x1000 0xFEBF0000 2 emptyTables).1.mem (topTable 0x1000)
      0xFFFF8000FEBF1010 = some 0xFEBF1010 := by
  have hwindow : Window 0xFFFF800000000000 0xFEBF0000 2 :=
    ⟨by decide, by decide, by decide, Or.inr ⟨by decide, by decide⟩⟩
  have hinv : MmioInv
      (fun (source : List Nat) pages ↦ source.Nodup ∧ ∀ page ∈ source, page ∈ pages)
      0xFFFF800000000000 (topTable 0x1000) 0xFEBF0000 2 emptyTables := by
    refine ⟨?_, ⟨{page | page ∈ emptyTables.source}, ⟨by decide, fun _ h ↦ h⟩, ?_⟩, ?_⟩
    · intro vaddr other level level' table hleads hother
      obtain ⟨rfl, -⟩ := leads_zero hleads
      obtain ⟨rfl, -⟩ := leads_zero hother
      exact ⟨rfl, fun k hk hle ↦ absurd hle (Nat.not_le_of_lt hk)⟩
    · intro page hpage
      have hpage' : page ∈ [0xFFFF800000002000, 0xFFFF800000003000, 0xFFFF800000004000] := hpage
      simp only [List.mem_cons, List.not_mem_nil, or_false] at hpage'
      obtain rfl | rfl | rfl := hpage'
      all_goals
        refine ⟨by unfold HhdmPage; decide, fun vaddr level h ↦ ?_⟩
        exact absurd (leads_zero h).2 (by decide)
    · intro vaddr _ paddr hpaddr
      obtain ⟨level, table, -, hpresent, -⟩ := translate_eq_some_iff.mp hpaddr
      exact absurd UInt64.zero_and hpresent
  exact (map_mmio_correct list_supplies hwindow hinv).1 (by decide +kernel) 1 (by decide) 0x10
    (by decide)

end Avaria.Mem
