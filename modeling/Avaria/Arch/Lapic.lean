import Avaria.Mem.MapMmio

/-!
# Mapping the local APIC

`map_lapic_page` of `lapic.rs` maps the registers of the local APIC at their address in the window
of physical memory, unless the boot loader's tables map that address already. Other than `map_mmio`
it makes no table above the page table.

`map_lapic_page_exact` gives the translation of every address afterwards: what was mapped stays as
it is, and only the page of the registers can be mapped in addition.
-/

namespace Avaria.Ring3

section Exact

variable {mem : PhysMem} {root vaddr table : UInt64} {level : Nat}

/-- Two addresses have the same indices in the tables of all levels. -/
def SamePage (vaddr other : UInt64) : Prop :=
  ∀ level ≤ 3, levelIndex vaddr level = levelIndex other level

instance (vaddr other : UInt64) : Decidable (SamePage vaddr other) :=
  decidable_of_iff (∀ level < 4, levelIndex vaddr level = levelIndex other level)
    ⟨fun h level hle ↦ h level (Nat.lt_succ_of_le hle),
      fun h level hlt ↦ h level (Nat.le_of_lt_succ hlt)⟩

/-- A walk that comes to an empty entry translates nothing. -/
theorem Leads.translate_eq_none (h : Leads mem root vaddr level table)
    (habsent : mem (slot table vaddr level) &&& PTE_PRESENT = 0) :
    translate mem root vaddr = none := by
  rw [h.translate_eq]
  cases level with
  | zero => exact if_pos habsent
  | succ level => exact if_pos habsent

/-- The addresses of a page are translated alike. -/
theorem isSome_translate_of_samePage {other : UInt64} (hsame : SamePage vaddr other)
    (h : (translate mem root vaddr).isSome = true) : (translate mem root other).isSome = true := by
  obtain ⟨paddr, hpaddr⟩ := Option.isSome_iff_exists.mp h
  obtain ⟨level, table, hleads, hpresent, hmaps, -⟩ := translate_eq_some_iff.mp hpaddr
  have hother : Leads mem root other level table := hleads.congr fun k _ hle ↦ hsame k hle
  have hslot : slot table vaddr level = slot table other level := by
    rw [slot, hsame level hleads.level_le, slot]
  rw [hslot] at hpresent hmaps
  exact Option.isSome_iff_exists.mpr
    ⟨_, translate_eq_some_iff.mpr ⟨level, table, hother, hpresent, hmaps, rfl⟩⟩

/-- Linking a new table changes no translation. -/
theorem Linkable.translate_eq {page : UInt64} (h : Linkable mem root vaddr level table page)
    (other : UInt64) : translate h.after root other = translate mem root other :=
  Option.ext fun _ ↦ ⟨h.translate_after, h.grows.translate⟩

/-- The translations after a page was added to those that there were. -/
def WithPage (mem : PhysMem) (root vaddr entry other : UInt64) : Option UInt64 :=
  if (translate mem root other).isSome = true then translate mem root other
  else if SamePage vaddr other then some (pageAddr 0 entry other)
  else none

/-- Filling an entry of a page table adds a page. -/
theorem Fillable.translate_eq {entry : UInt64} (h : Fillable mem root vaddr table entry)
    (other : UInt64) : translate h.after root other = WithPage mem root vaddr entry other := by
  rw [WithPage]
  split
  · rename_i hsome
    obtain ⟨paddr, hpaddr⟩ := Option.isSome_iff_exists.mp hsome
    rw [hpaddr, h.grows.translate hpaddr]
  · rename_i hnone
    split
    · rename_i hsame
      exact h.translate_page hsame
    · rename_i hother
      refine Option.eq_none_iff_forall_ne_some.mpr fun paddr hpaddr ↦ ?_
      rcases h.translate_after hpaddr with hold | ⟨hsame, -⟩
      · exact hnone (hold ▸ rfl)
      · exact hother hsame

/-- Nothing is added to a page that is mapped. -/
theorem withPage_of_mapped (h : (translate mem root vaddr).isSome = true) (entry other : UInt64) :
    translate mem root other = WithPage mem root vaddr entry other := by
  rw [WithPage]
  split
  · rfl
  · rename_i hnone
    rw [if_neg fun hsame ↦ hnone (isSome_translate_of_samePage hsame h)]
    exact Option.not_isSome_iff_eq_none.mp hnone

end Exact

end Avaria.Ring3

namespace Avaria.Arch

open Mem Mm Ring3

/-- `LAPIC_PHYS`. -/
def LAPIC_PHYS : UInt64 := 0xFEE00000

/-- The entry that maps the registers: writable and not cached. -/
def lapicEntry : UInt64 := LAPIC_PHYS ||| PTE_PRESENT ||| PTE_WRITABLE ||| PTE_PWT ||| PTE_PCD

variable {σ : Type*} [PageSource σ]

/-- `map_lapic_page`, from the page directory on. -/
def mapLapicPd (hhdm vaddr pd : UInt64) (s : MmioState σ) : MmioState σ × UInt64 :=
  let a := entryAddr pd (tableIndex vaddr 21)
  let pde := s.mem a
  if pde &&& PTE_PRESENT ≠ 0 ∧ pde &&& PTE_LARGE ≠ 0 then (s, vaddr)
  else if pde &&& PTE_PRESENT = 0 then
    match PageSource.allocPages s.source 0 with
    | (some va, source) =>
        let pt := virtToPhys hhdm va
        let mem := link a pt s.mem
        (⟨Function.update mem (entryAddr pt (tableIndex vaddr 12)) lapicEntry, source⟩, vaddr)
    | (none, source) => ({ s with source }, 0)
  else
    let pt := pde &&& ADDR_MASK
    let a := entryAddr pt (tableIndex vaddr 12)
    let pte := s.mem a
    if pte &&& PTE_PRESENT = 0 then ({ s with mem := Function.update s.mem a lapicEntry }, vaddr)
    else (s, vaddr)

/-- `map_lapic_page`. -/
def mapLapicPage (hhdm cr3 : UInt64) (s : MmioState σ) : MmioState σ × UInt64 :=
  let pml4 := cr3 &&& ~~~0xFFF
  let vaddr := hhdm + LAPIC_PHYS
  let pml4e := s.mem (entryAddr pml4 (tableIndex vaddr 39))
  if pml4e &&& PTE_PRESENT = 0 then (s, 0)
  else
    let pdpt := pml4e &&& ADDR_MASK
    let pdpte := s.mem (entryAddr pdpt (tableIndex vaddr 30))
    if pdpte &&& PTE_PRESENT ≠ 0 ∧ pdpte &&& PTE_LARGE ≠ 0 then (s, vaddr)
    else if pdpte &&& PTE_PRESENT = 0 then (s, 0)
    else mapLapicPd hhdm vaddr (pdpte &&& ADDR_MASK) s

/-- What the function does: it reports failure exactly if the address is not mapped afterwards,
and adds at most the page of the address. -/
structure MapsLapic (root vaddr : UInt64) (s : MmioState σ) (r : MmioState σ × UInt64) : Prop where
  result : r.2 = if (translate r.1.mem root vaddr).isSome = true then vaddr else 0
  exact : ∀ other, translate r.1.mem root other =
    if (translate r.1.mem root vaddr).isSome = true then
      WithPage s.mem root vaddr lapicEntry other
    else translate s.mem root other

section Steps

variable {hhdm root vaddr table : UInt64} {s : MmioState σ} {level : Nat}

omit [PageSource σ] in
/-- The walk comes to an empty entry, and nothing is changed. -/
theorem MapsLapic.of_absent {source : σ} (hleads : Leads s.mem root vaddr level table)
    (habsent : s.mem (slot table vaddr level) &&& PTE_PRESENT = 0) :
    MapsLapic root vaddr s (({ s with source } : MmioState σ), 0) := by
  have hnone := hleads.translate_eq_none habsent
  constructor
  · show 0 = if (translate s.mem root vaddr).isSome = true then vaddr else 0
    rw [hnone]
    rfl
  · intro other
    show translate s.mem root other = if (translate s.mem root vaddr).isSome = true then _ else _
    rw [hnone]
    rfl

omit [PageSource σ] in
/-- The walk comes to an entry that maps the page, and nothing is changed. -/
theorem MapsLapic.of_present (hleads : Leads s.mem root vaddr level table)
    (hpresent : s.mem (slot table vaddr level) &&& PTE_PRESENT ≠ 0)
    (hmaps : MapsPage level (s.mem (slot table vaddr level))) :
    MapsLapic root vaddr s (s, vaddr) := by
  have hsome : (translate s.mem root vaddr).isSome = true := Option.isSome_iff_exists.mpr
    ⟨_, translate_eq_some_iff.mpr ⟨level, table, hleads, hpresent, hmaps, rfl⟩⟩
  exact ⟨(if_pos hsome).symm,
    fun other ↦ (withPage_of_mapped hsome lapicEntry other).trans (if_pos hsome).symm⟩

omit [PageSource σ] in
/-- The entry in a page table is filled, perhaps after the page table was linked. -/
theorem MapsLapic.of_fillable {mem : PhysMem} {source : σ}
    (hfill : Fillable mem root vaddr table lapicEntry)
    (hsame : ∀ other, translate mem root other = translate s.mem root other) :
    MapsLapic root vaddr s (⟨hfill.after, source⟩, vaddr) := by
  have hsome : (translate hfill.after root vaddr).isSome = true := by
    rw [hfill.translate_page fun _ _ ↦ rfl]
    rfl
  refine ⟨(if_pos hsome).symm, fun other ↦ ?_⟩
  show translate hfill.after root other =
    if (translate hfill.after root vaddr).isSome = true then _ else _
  rw [if_pos hsome, hfill.translate_eq, WithPage, WithPage, hsame]

/-- The page that the allocator returns next is one of the window that no walk comes to. -/
def FreshPage (hhdm root : UInt64) (s : MmioState σ) : Prop :=
  ∀ page source, PageSource.allocPages s.source 0 = (some page, source) →
    HhdmPage hhdm page ∧ ∀ other level, ¬ Leads s.mem root other level (virtToPhys hhdm page)

theorem lapicEntry_present : lapicEntry &&& PTE_PRESENT ≠ 0 := by decide

/-- The addresses of the page keep their offset. -/
theorem pageAddr_lapicEntry (other : UInt64) :
    pageAddr 0 lapicEntry other = LAPIC_PHYS ||| (other &&& 0xFFF) := by
  have hbase : lapicEntry &&& ADDR_MASK &&& ~~~(((1 : UInt64) <<< levelShift 0) - 1) =
      LAPIC_PHYS := by
    decide
  have hoffset : ((1 : UInt64) <<< levelShift 0) - 1 = 0xFFF := by decide
  rw [pageAddr, hbase, pageOffset, hoffset]

/-- An entry of the two middle levels that is not large leads to a table. -/
theorem not_mapsPage_succ {entry : UInt64}
    (hpresent : entry &&& PTE_PRESENT ≠ 0)
    (hsmall : ¬ (entry &&& PTE_PRESENT ≠ 0 ∧ entry &&& PTE_LARGE ≠ 0)) :
    ¬ MapsPage (level + 1) entry := by
  rintro (hzero | ⟨-, hlarge⟩)
  · exact absurd hzero (Nat.succ_ne_zero level)
  · exact hsmall ⟨hpresent, hlarge⟩

variable (hroot : root.toNat % 0x1000 = 0) (hhhdm : hhdm.toNat % 0x1000 = 0)
  (htree : Tree s.mem root) (hfresh : FreshPage hhdm root s)

include hroot hhhdm htree hfresh in
/-- From the page directory on. -/
theorem mapLapicPd_mapsLapic (hleads : Leads s.mem root vaddr 1 table) :
    MapsLapic root vaddr s (mapLapicPd hhdm vaddr table s) := by
  rw [mapLapicPd]
  dsimp only
  split
  · rename_i hlarge
    exact MapsLapic.of_present hleads hlarge.1 (Or.inr ⟨by decide, hlarge.2⟩)
  · rename_i hsmall
    split
    · rename_i habsent
      rcases hcall : PageSource.allocPages s.source 0 with ⟨_ | page, source⟩
      · exact MapsLapic.of_absent hleads habsent
      · obtain ⟨hhhdmPage, hnew⟩ := hfresh page source hcall
        have hlink : Linkable s.mem root vaddr 0 table (virtToPhys hhdm page) :=
          ⟨hroot, htree, hleads, habsent, hhhdmPage.frame hhhdm, hnew⟩
        have hfill : Fillable hlink.after root vaddr (virtToPhys hhdm page) lapicEntry :=
          ⟨hroot, hlink.tree_after, hlink.leads_new, by
            rw [hlink.after_new]
            exact UInt64.zero_and, lapicEntry_present⟩
        exact MapsLapic.of_fillable hfill hlink.translate_eq
    · rename_i hpresent
      have hpt := hleads.next hpresent (not_mapsPage_succ hpresent hsmall)
      split
      · rename_i habsent
        have hfill : Fillable s.mem root vaddr _ lapicEntry :=
          ⟨hroot, htree, hpt, habsent, lapicEntry_present⟩
        exact MapsLapic.of_fillable hfill fun _ ↦ rfl
      · rename_i hpte
        exact MapsLapic.of_present hpt hpte (Or.inl rfl)

end Steps

/-- `map_lapic_page` returns the address of the registers if the page tables map it afterwards, and
zero if they do not. Whatever they mapped before is mapped as it was, and if something else is
mapped, it is the page of the registers, to the page at `LAPIC_PHYS`. -/
theorem map_lapic_page_exact {hhdm cr3 : UInt64} {s : MmioState σ}
    (hhhdm : hhdm.toNat % 0x1000 = 0) (htree : Tree s.mem (topTable cr3))
    (hfresh : FreshPage hhdm (topTable cr3) s) :
    let r := mapLapicPage hhdm cr3 s
    let mapped := (translate r.1.mem (topTable cr3) (hhdm + LAPIC_PHYS)).isSome = true
    (r.2 = if mapped then hhdm + LAPIC_PHYS else 0) ∧
      ∀ other, translate r.1.mem (topTable cr3) other =
        if (translate s.mem (topTable cr3) other).isSome = true then
          translate s.mem (topTable cr3) other
        else if mapped ∧ SamePage (hhdm + LAPIC_PHYS) other then
          some (LAPIC_PHYS ||| (other &&& 0xFFF))
        else none := by
  have hroot : (topTable cr3).toNat % 0x1000 = 0 := by
    rw [topTable, toNat_and_not_low]
    exact Nat.mul_mod_left _ _
  have hmaps : MapsLapic (topTable cr3) (hhdm + LAPIC_PHYS) s (mapLapicPage hhdm cr3 s) := by
    show MapsLapic _ _ s
      (if s.mem (slot (topTable cr3) (hhdm + LAPIC_PHYS) 3) &&& PTE_PRESENT = 0 then _ else _)
    split
    · rename_i habsent
      exact MapsLapic.of_absent Leads.top habsent
    · rename_i hpresent
      have htop : ¬ MapsPage 3 (s.mem (slot (topTable cr3) (hhdm + LAPIC_PHYS) 3)) := fun h ↦
        h.elim (fun hzero ↦ absurd hzero (by decide)) fun hlarge ↦ absurd hlarge.1 (by decide)
      have hpdpt := Leads.top.next hpresent htop
      split
      · rename_i hlarge
        exact MapsLapic.of_present hpdpt hlarge.1 (Or.inr ⟨by decide, hlarge.2⟩)
      · rename_i hsmall
        split
        · rename_i habsent
          exact MapsLapic.of_absent hpdpt habsent
        · rename_i hpdpte
          exact mapLapicPd_mapsLapic hroot hhhdm htree hfresh
            (hpdpt.next hpdpte (not_mapsPage_succ hpdpte hsmall))
  refine ⟨hmaps.result, fun other ↦ ?_⟩
  rw [hmaps.exact]
  by_cases hold : (translate s.mem (topTable cr3) other).isSome = true
  · rw [WithPage, if_pos hold, if_pos hold, ite_self]
  · rw [WithPage, if_neg hold, if_neg hold, pageAddr_lapicEntry, ite_and,
      Option.not_isSome_iff_eq_none.mp hold]

/-! ## A page directory without an entry for the registers -/

/-- A top table at `0x1000`, with a pointer table and a page directory on the way to the registers,
and a page for a page table. -/
def directoryTables : MmioState (List Nat) where
  mem := fun a ↦
    if a = entryAddr 0x1000 256 then 0x2003 else if a = entryAddr 0x2000 3 then 0x3003 else 0
  source := [0xFFFF800000004000]

/-- The tables that walks come to. -/
theorem leads_directoryTables {vaddr table : UInt64} {level : Nat}
    (h : Leads directoryTables.mem 0x1000 vaddr level table) :
    (level = 3 ∧ table = 0x1000) ∨
      (level = 2 ∧ table = 0x2000 ∧ levelIndex vaddr 3 = 256) ∨
      (level = 1 ∧ table = 0x3000 ∧ levelIndex vaddr 3 = 256 ∧ levelIndex vaddr 2 = 3) := by
  -- an entry of a table that is present is one of the two
  have hentry {table : UInt64} (htable : table.toNat % 0x1000 = 0) {level : Nat}
      (hpresent : directoryTables.mem (slot table vaddr level) &&& PTE_PRESENT ≠ 0) :
      (table = 0x1000 ∧ levelIndex vaddr level = 256 ∧
          directoryTables.mem (slot table vaddr level) = 0x2003) ∨
        (table = 0x2000 ∧ levelIndex vaddr level = 3 ∧
          directoryTables.mem (slot table vaddr level) = 0x3003) := by
    by_cases hfirst : slot table vaddr level = entryAddr 0x1000 256
    · obtain ⟨rfl, hindex⟩ :=
        entryAddr_inj htable (by decide) (levelIndex_lt _ _) (by decide) hfirst
      exact Or.inl ⟨rfl, hindex, if_pos hfirst⟩
    · by_cases hsecond : slot table vaddr level = entryAddr 0x2000 3
      · obtain ⟨rfl, hindex⟩ :=
          entryAddr_inj htable (by decide) (levelIndex_lt _ _) (by decide) hsecond
        exact Or.inr ⟨rfl, hindex, (if_neg hfirst).trans (if_pos hsecond)⟩
      · have hzero : directoryTables.mem (slot table vaddr level) = 0 :=
          (if_neg hfirst).trans (if_neg hsecond)
        rw [hzero] at hpresent
        exact absurd UInt64.zero_and hpresent
  induction h with
  | top => exact Or.inl ⟨rfl, rfl⟩
  | next h hpresent hmore ih =>
      rcases ih with ⟨hlevel, rfl⟩ | ⟨hlevel, rfl, hindex⟩ | ⟨hlevel, rfl, -⟩
      · obtain rfl := Nat.succ.inj hlevel
        rcases hentry (by decide) hpresent with ⟨-, hindex, hvalue⟩ | ⟨hne, -⟩
        · rw [hvalue]
          exact Or.inr (Or.inl ⟨rfl, by decide, hindex⟩)
        · exact absurd hne (by decide)
      · obtain rfl := Nat.succ.inj hlevel
        rcases hentry (by decide) hpresent with ⟨hne, -⟩ | ⟨-, hindex', hvalue⟩
        · exact absurd hne (by decide)
        · rw [hvalue]
          exact Or.inr (Or.inr ⟨rfl, by decide, hindex, hindex'⟩)
      · rcases hentry (by decide) hpresent with ⟨hne, -⟩ | ⟨hne, -⟩
        · exact absurd hne (by decide)
        · exact absurd hne (by decide)

theorem tree_directoryTables : Tree directoryTables.mem 0x1000 := by
  intro vaddr other level level' table h h'
  rcases leads_directoryTables h with ⟨rfl, rfl⟩ | ⟨rfl, rfl, htop⟩ | ⟨rfl, rfl, htop, hnext⟩
  · rcases leads_directoryTables h' with ⟨rfl, -⟩ | ⟨-, hne, -⟩ | ⟨-, hne, -⟩
    · exact ⟨rfl, fun k hk hle ↦ absurd hle (Nat.not_le_of_lt hk)⟩
    · exact absurd hne (by decide)
    · exact absurd hne (by decide)
  · rcases leads_directoryTables h' with ⟨-, hne⟩ | ⟨rfl, -, htop'⟩ | ⟨-, hne, -⟩
    · exact absurd hne (by decide)
    · refine ⟨rfl, fun k hk hle ↦ ?_⟩
      obtain rfl : k = 3 := by omega
      rw [htop, htop']
    · exact absurd hne (by decide)
  · rcases leads_directoryTables h' with ⟨-, hne⟩ | ⟨-, hne, -⟩ | ⟨rfl, -, htop', hnext'⟩
    · exact absurd hne (by decide)
    · exact absurd hne (by decide)
    · refine ⟨rfl, fun k hk hle ↦ ?_⟩
      obtain rfl | rfl : k = 2 ∨ k = 3 := by omega
      · rw [hnext, hnext']
      · rw [htop, htop']

/-- The registers are mapped with a new page table, and the next page is not. -/
theorem map_lapic_page_directory :
    let r := mapLapicPage 0xFFFF800000000000 0x1000 directoryTables
    r.2 = 0xFFFF8000FEE00000 ∧
      translate r.1.mem (topTable 0x1000) 0xFFFF8000FEE000F0 = some 0xFEE000F0 ∧
      translate r.1.mem (topTable 0x1000) 0xFFFF8000FEE010F0 = none := by
  have hroot : topTable 0x1000 = 0x1000 := by decide
  have hfresh : FreshPage 0xFFFF800000000000 (topTable 0x1000) directoryTables := by
    intro page source hcall
    obtain rfl : 0xFFFF800000004000 = page := Option.some.inj (congrArg Prod.fst hcall)
    refine ⟨by unfold HhdmPage; decide, fun other level h ↦ ?_⟩
    rw [hroot] at h
    rcases leads_directoryTables h with ⟨-, hne⟩ | ⟨-, hne, -⟩ | ⟨-, hne, -⟩
    all_goals exact absurd hne (by decide)
  obtain ⟨hresult, hexact⟩ := map_lapic_page_exact (by decide) (hroot ▸ tree_directoryTables) hfresh
  have hreturned : (mapLapicPage 0xFFFF800000000000 0x1000 directoryTables).2 =
      0xFFFF8000FEE00000 := by decide +kernel
  have hmapped : (translate (mapLapicPage 0xFFFF800000000000 0x1000 directoryTables).1.mem
      (topTable 0x1000) (0xFFFF800000000000 + LAPIC_PHYS)).isSome = true := by
    by_contra hnot
    rw [if_neg hnot, hreturned] at hresult
    exact absurd hresult (by decide)
  refine ⟨hreturned, ?_, ?_⟩
  · rw [hexact, if_neg (by decide +kernel), if_pos ⟨hmapped, by decide +kernel⟩]
    decide
  · rw [hexact, if_neg (by decide +kernel), if_neg fun hsame ↦ absurd hsame.2 (by decide +kernel)]

end Avaria.Arch
