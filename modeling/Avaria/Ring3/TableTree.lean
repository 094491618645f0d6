import Avaria.Ring3.Translation

/-!
# Trees of page tables

The tables that walks come to, and what two changes of the memory do to them: linking a new table
into an empty entry, and filling an empty entry of a page table. With tables that form a tree,
neither changes a translation that exists (`Grows.translate`), and the tables form a tree again.

Scope: a new table is a page that no walk comes to.
-/

namespace Avaria.Ring3

/-- The index of a virtual address in a table of a level. -/
def levelIndex (vaddr : UInt64) (level : Nat) : UInt64 := tableIndex vaddr (levelShift level)

/-- The address of the entry for a virtual address in a table of a level. -/
def slot (table vaddr : UInt64) (level : Nat) : UInt64 := entryAddr table (levelIndex vaddr level)

/-- The walk of a virtual address comes to a table of a level. -/
inductive Leads (mem : PhysMem) (root vaddr : UInt64) : Nat → UInt64 → Prop
  | top : Leads mem root vaddr 3 root
  | next {level : Nat} {table : UInt64} (h : Leads mem root vaddr (level + 1) table)
      (hpresent : mem (slot table vaddr (level + 1)) &&& PTE_PRESENT ≠ 0)
      (hmore : ¬ MapsPage (level + 1) (mem (slot table vaddr (level + 1)))) :
      Leads mem root vaddr level (mem (slot table vaddr (level + 1)) &&& ADDR_MASK)

/-- Two addresses have the same indices in the tables above a level. -/
def SameAbove (level : Nat) (vaddr other : UInt64) : Prop :=
  ∀ k, level < k → k ≤ 3 → levelIndex vaddr k = levelIndex other k

/-- The tables form a tree: each is reached at one level and by one sequence of indices, so no table
is referenced by two entries. -/
def Tree (mem : PhysMem) (root : UInt64) : Prop :=
  ∀ vaddr other level level' table, Leads mem root vaddr level table →
    Leads mem root other level' table → level = level' ∧ SameAbove level vaddr other

/-- The entries of tables that are present in one memory are the same in another. -/
def Grows (mem : PhysMem) (root : UInt64) (after : PhysMem) : Prop :=
  ∀ vaddr level table, Leads mem root vaddr level table →
    mem (slot table vaddr level) &&& PTE_PRESENT ≠ 0 →
    after (slot table vaddr level) = mem (slot table vaddr level)

/-! ## Entries of tables -/

theorem levelIndex_lt (vaddr : UInt64) (level : Nat) : (levelIndex vaddr level).toNat < 512 := by
  rw [levelIndex, tableIndex, UInt64.toNat_and]
  exact Nat.lt_succ_of_le Nat.and_le_right

theorem toNat_levelIndex (vaddr : UInt64) {level : Nat} (h : level ≤ 3) :
    (levelIndex vaddr level).toNat = vaddr.toNat / 2 ^ (12 + 9 * level) % 512 := by
  have hshift : (levelShift level).toNat = 12 + 9 * level :=
    UInt64.toNat_ofNat_of_lt (show 12 + 9 * level < 2 ^ 64 by omega)
  rw [levelIndex, toNat_tableIndex vaddr (by omega), hshift]

/-- The indices of all levels determine the page, up to the upper bits of the address. -/
theorem page_of_levelIndex {vaddr other : UInt64}
    (h : ∀ level ≤ 3, levelIndex vaddr level = levelIndex other level) :
    vaddr.toNat / 0x1000 % 2 ^ 36 = other.toNat / 0x1000 % 2 ^ 36 := by
  have hdigit (level : Nat) (hlevel : level ≤ 3) :
      vaddr.toNat / 2 ^ (12 + 9 * level) % 512 = other.toNat / 2 ^ (12 + 9 * level) % 512 := by
    rw [← toNat_levelIndex vaddr hlevel, h level hlevel, toNat_levelIndex other hlevel]
  have h0 : vaddr.toNat / 0x1000 % 512 = other.toNat / 0x1000 % 512 := hdigit 0 (by decide)
  have h1 : vaddr.toNat / 0x200000 % 512 = other.toNat / 0x200000 % 512 := hdigit 1 (by decide)
  have h2 : vaddr.toNat / 0x40000000 % 512 = other.toNat / 0x40000000 % 512 :=
    hdigit 2 (by decide)
  have h3 : vaddr.toNat / 0x8000000000 % 512 = other.toNat / 0x8000000000 % 512 :=
    hdigit 3 (by decide)
  omega

theorem toNat_and_addr_mask (entry : UInt64) : (entry &&& ADDR_MASK).toNat % 0x1000 = 0 := by
  have hlow : entry &&& ADDR_MASK = (entry &&& ADDR_MASK) &&& ~~~0xFFF := by
    rw [UInt64.and_assoc]
    exact congrArg (entry &&& ·) (by decide)
  rw [hlow, toNat_and_not_low]
  exact Nat.mul_mod_left _ _

section Slots

variable {table other index index' : UInt64}

theorem toNat_entryAddr (htable : table.toNat % 0x1000 = 0) (hindex : index.toNat < 512) :
    (entryAddr table index).toNat = table.toNat + index.toNat * 8 := by
  have hbound := table.toNat_lt
  have hmul : (index * 8).toNat = index.toNat * 8 := by
    rw [UInt64.toNat_mul]
    exact Nat.mod_eq_of_lt (show index.toNat * 8 < 2 ^ 64 by omega)
  rw [entryAddr, UInt64.toNat_add, hmul]
  exact Nat.mod_eq_of_lt (show table.toNat + index.toNat * 8 < 2 ^ 64 by omega)

/-- An entry lies in the page of its table. -/
theorem entryAddr_div (htable : table.toNat % 0x1000 = 0) (hindex : index.toNat < 512) :
    (entryAddr table index).toNat / 0x1000 = table.toNat / 0x1000 := by
  rw [toNat_entryAddr htable hindex]
  omega

/-- Different entries have different addresses. -/
theorem entryAddr_inj (htable : table.toNat % 0x1000 = 0) (hother : other.toNat % 0x1000 = 0)
    (hindex : index.toNat < 512) (hindex' : index'.toNat < 512)
    (h : entryAddr table index = entryAddr other index') : table = other ∧ index = index' := by
  have hnat := congrArg UInt64.toNat h
  rw [toNat_entryAddr htable hindex, toNat_entryAddr hother hindex'] at hnat
  constructor
  · rw [← UInt64.toNat_inj]
    omega
  · rw [← UInt64.toNat_inj]
    omega

end Slots

/-! ## Walks to tables -/

namespace Leads

variable {mem after : PhysMem} {root vaddr other table : UInt64} {level : Nat}

theorem level_le (h : Leads mem root vaddr level table) : level ≤ 3 := by
  induction h with
  | top => exact Nat.le_refl 3
  | next h hpresent hmore ih => exact Nat.le_of_succ_le ih

theorem aligned (hroot : root.toNat % 0x1000 = 0) (h : Leads mem root vaddr level table) :
    table.toNat % 0x1000 = 0 := by
  cases h with
  | top => exact hroot
  | next h hpresent hmore => exact toNat_and_addr_mask _

/-- Translation goes on from each table of the walk. -/
theorem translate_eq (h : Leads mem root vaddr level table) :
    translate mem root vaddr = translateFrom mem vaddr level table := by
  induction h with
  | top => rfl
  | next h hpresent hmore ih =>
      rw [ih, translateFrom]
      exact (if_neg hpresent).trans (if_neg hmore)

/-- Only the indices above a level decide to which table of the level a walk comes. -/
theorem congr (h : Leads mem root vaddr level table) (hsame : SameAbove level vaddr other) :
    Leads mem root other level table := by
  induction h with
  | top => exact top
  | @next level table h hpresent hmore ih =>
      have hslot : slot table vaddr (level + 1) = slot table other (level + 1) := by
        rw [slot, hsame _ (Nat.lt_succ_self level) h.level_le, slot]
      rw [hslot] at hpresent hmore ⊢
      exact next (ih fun k hk ↦ hsame k (Nat.lt_of_succ_lt hk)) hpresent hmore

end Leads

/-- A translation comes from the entry of a table that maps the page. -/
theorem translate_eq_some_iff {mem : PhysMem} {root vaddr paddr : UInt64} :
    translate mem root vaddr = some paddr ↔
      ∃ level table, Leads mem root vaddr level table ∧
        mem (slot table vaddr level) &&& PTE_PRESENT ≠ 0 ∧
        MapsPage level (mem (slot table vaddr level)) ∧
        pageAddr level (mem (slot table vaddr level)) vaddr = paddr := by
  constructor
  · have hfrom (level : Nat) (table : UInt64) (hleads : Leads mem root vaddr level table)
        (h : translateFrom mem vaddr level table = some paddr) :
        ∃ level table, Leads mem root vaddr level table ∧
          mem (slot table vaddr level) &&& PTE_PRESENT ≠ 0 ∧
          MapsPage level (mem (slot table vaddr level)) ∧
          pageAddr level (mem (slot table vaddr level)) vaddr = paddr := by
      induction level generalizing table with
      | zero =>
          obtain ⟨hpresent, hpage⟩ := Option.ite_none_left_eq_some.mp h
          exact ⟨0, table, hleads, hpresent, Or.inl rfl, Option.some.inj hpage⟩
      | succ level ih =>
          obtain ⟨hpresent, hrest⟩ := Option.ite_none_left_eq_some.mp h
          by_cases hmaps : MapsPage (level + 1) (mem (slot table vaddr (level + 1)))
          · exact ⟨level + 1, table, hleads, hpresent, hmaps,
              Option.some.inj ((if_pos hmaps).symm.trans hrest)⟩
          · exact ih _ (hleads.next hpresent hmaps) ((if_neg hmaps).symm.trans hrest)
    exact hfrom 3 root Leads.top
  · rintro ⟨level, table, hleads, hpresent, hmaps, rfl⟩
    rw [hleads.translate_eq]
    cases level with
    | zero => exact if_neg hpresent
    | succ level => exact (if_neg hpresent).trans (if_pos hmaps)

namespace Grows

variable {mem middle after : PhysMem} {root vaddr paddr table : UInt64} {level : Nat}

theorem refl (mem : PhysMem) (root : UInt64) : Grows mem root mem := fun _ _ _ _ _ ↦ rfl

/-- Walks still come to the tables. -/
theorem leads (h : Grows mem root after) (hleads : Leads mem root vaddr level table) :
    Leads after root vaddr level table := by
  induction hleads with
  | top => exact Leads.top
  | next hleads hpresent hmore ih =>
      have hkept := h _ _ _ hleads hpresent
      rw [← hkept] at hpresent hmore ⊢
      exact ih.next hpresent hmore

theorem trans (h : Grows mem root middle) (hafter : Grows middle root after) :
    Grows mem root after := by
  intro vaddr level table hleads hpresent
  have hkept := h vaddr level table hleads hpresent
  rw [← hkept] at hpresent ⊢
  exact hafter vaddr level table (h.leads hleads) hpresent

/-- A translation that exists stays. -/
theorem translate (h : Grows mem root after)
    (hpaddr : Ring3.translate mem root vaddr = some paddr) :
    Ring3.translate after root vaddr = some paddr := by
  obtain ⟨level, table, hleads, hpresent, hmaps, rfl⟩ := translate_eq_some_iff.mp hpaddr
  have hkept := h _ _ _ hleads hpresent
  rw [translate_eq_some_iff]
  refine ⟨level, table, h.leads hleads, ?_⟩
  rw [hkept]
  exact ⟨hpresent, hmaps, rfl⟩

end Grows

/-! ## Linking a new table -/

/-- `write_bytes(page, 0, 4096)`, for the page at a physical address. -/
def zeroPage (page : UInt64) (mem : PhysMem) : PhysMem :=
  fun a ↦ if a.toNat / 0x1000 = page.toNat / 0x1000 then 0 else mem a

/-- A page is cleared and an entry made to lead to it. -/
def link (a page : UInt64) (mem : PhysMem) : PhysMem :=
  Function.update (zeroPage page mem) a (page ||| PTE_PRESENT ||| PTE_WRITABLE)

/-- The address is one that an entry can hold: at a page boundary, and below `2 ^ 52`. -/
def Frame (page : UInt64) : Prop := page &&& ADDR_MASK = page

section Frame

variable {page : UInt64}

theorem Frame.aligned (h : Frame page) : page.toNat % 0x1000 = 0 := by
  rw [← h]
  exact toNat_and_addr_mask page

theorem frame_of_toNat (haligned : page.toNat % 0x1000 = 0) (hbelow : page.toNat < 2 ^ 52) :
    Frame page := by
  have hmask : ADDR_MASK = 0xFFFFFFFFFFFFF &&& ~~~0xFFF := by decide
  have hlow : page &&& 0xFFFFFFFFFFFFF = page := by
    rw [← UInt64.toNat_inj, UInt64.toNat_and]
    exact (Nat.and_two_pow_sub_one_eq_mod _ 52).trans (Nat.mod_eq_of_lt hbelow)
  rw [Frame, hmask, ← UInt64.and_assoc, hlow, ← UInt64.toNat_inj, toNat_and_not_low]
  omega

/-- A frame has no bit outside the mask. -/
theorem Frame.and_eq_zero (h : Frame page) {mask : UInt64} (hmask : ADDR_MASK &&& mask = 0) :
    page &&& mask = 0 := by
  rw [← h, UInt64.and_assoc, hmask, UInt64.and_zero]

theorem tableEntry_present (page : UInt64) :
    (page ||| PTE_PRESENT ||| PTE_WRITABLE) &&& PTE_PRESENT ≠ 0 := by
  rw [or_and_of_disjoint (by decide)]
  exact or_and_ne_zero (by decide)

theorem tableEntry_addr (h : Frame page) :
    (page ||| PTE_PRESENT ||| PTE_WRITABLE) &&& ADDR_MASK = page := by
  rw [or_and_of_disjoint (by decide), or_and_of_disjoint (by decide)]
  exact h

/-- The entry of a new table maps no large page. -/
theorem tableEntry_not_mapsPage (h : Frame page) (level : Nat) :
    ¬ MapsPage (level + 1) (page ||| PTE_PRESENT ||| PTE_WRITABLE) := by
  rintro (hzero | ⟨-, hlarge⟩)
  · exact absurd hzero (Nat.succ_ne_zero level)
  · rw [or_and_of_disjoint (by decide), or_and_of_disjoint (by decide)] at hlarge
    exact hlarge (h.and_eq_zero (by decide))

end Frame

/-- In a tree, an entry serves the addresses that share all indices down to its level. -/
theorem slot_eq_slot {mem : PhysMem} {root vaddr other table table' : UInt64} {level level' : Nat}
    (hroot : root.toNat % 0x1000 = 0) (htree : Tree mem root)
    (hleads : Leads mem root vaddr level table) (hother : Leads mem root other level' table')
    (h : slot table' other level' = slot table vaddr level) :
    level' = level ∧ table' = table ∧ SameAbove level other vaddr ∧
      levelIndex other level = levelIndex vaddr level := by
  obtain ⟨rfl, hindex⟩ := entryAddr_inj (hother.aligned hroot) (hleads.aligned hroot)
    (levelIndex_lt _ _) (levelIndex_lt _ _) h
  obtain ⟨rfl, hsame⟩ := htree _ _ _ _ _ hother hleads
  exact ⟨rfl, rfl, hsame, hindex⟩

/-- A page can be linked as the table of a level for an address: the walk comes to the table above,
where the entry is empty, and no walk comes to the page. -/
structure Linkable (mem : PhysMem) (root vaddr : UInt64) (level : Nat) (table page : UInt64) :
    Prop where
  root_aligned : root.toNat % 0x1000 = 0
  tree : Tree mem root
  leads : Leads mem root vaddr (level + 1) table
  absent : mem (slot table vaddr (level + 1)) &&& PTE_PRESENT = 0
  frame : Frame page
  fresh : ∀ other level', ¬ Leads mem root other level' page

namespace Linkable

variable {mem : PhysMem} {root vaddr table page other table' paddr : UInt64} {level level' : Nat}

/-- The memory after the page was linked. -/
abbrev after (_ : Linkable mem root vaddr level table page) : PhysMem :=
  link (slot table vaddr (level + 1)) page mem

/-- Linking changes one entry of the tables. -/
theorem after_slot (h : Linkable mem root vaddr level table page)
    (hother : Leads mem root other level' table')
    (hne : slot table' other level' ≠ slot table vaddr (level + 1)) :
    h.after (slot table' other level') = mem (slot table' other level') := by
  rw [after, link, Function.update_of_ne hne, zeroPage, if_neg]
  have haligned := hother.aligned h.root_aligned
  have hframe := h.frame.aligned
  rw [slot, entryAddr_div haligned (levelIndex_lt _ _)]
  intro heq
  have hsame : table' = page := by
    rw [← UInt64.toNat_inj]
    omega
  exact h.fresh _ _ (hsame ▸ hother)

theorem after_self (h : Linkable mem root vaddr level table page) :
    h.after (slot table vaddr (level + 1)) = page ||| PTE_PRESENT ||| PTE_WRITABLE :=
  Function.update_self _ _ _

/-- The entries of the new table are empty. -/
theorem after_new (h : Linkable mem root vaddr level table page) (other : UInt64) (level' : Nat) :
    h.after (slot page other level') = 0 := by
  have hne : slot page other level' ≠ slot table vaddr (level + 1) := by
    intro heq
    obtain ⟨rfl, -⟩ := entryAddr_inj h.frame.aligned (h.leads.aligned h.root_aligned)
      (levelIndex_lt _ _) (levelIndex_lt _ _) heq
    exact h.fresh _ _ h.leads
  rw [after, link, Function.update_of_ne hne, zeroPage, if_pos]
  exact entryAddr_div h.frame.aligned (levelIndex_lt _ _)

/-- Linking keeps the entries that are present. -/
theorem grows (h : Linkable mem root vaddr level table page) : Grows mem root h.after := by
  intro other level' table' hother hpresent
  refine h.after_slot hother fun heq ↦ ?_
  rw [heq] at hpresent
  exact hpresent h.absent

/-- The walk of the address comes to the new table. -/
theorem leads_new (h : Linkable mem root vaddr level table page) :
    Leads h.after root vaddr level page := by
  have hnext := (h.grows.leads h.leads).next
  rw [h.after_self, tableEntry_addr h.frame] at hnext
  exact hnext (tableEntry_present page) (tableEntry_not_mapsPage h.frame level)

/-- The walks to tables are the old ones, and those to the new table. -/
theorem leads_after (h : Linkable mem root vaddr level table page)
    (hafter : Leads h.after root other level' table') :
    Leads mem root other level' table' ∨
      (level' = level ∧ table' = page ∧ SameAbove level other vaddr) := by
  induction hafter with
  | top => exact Or.inl Leads.top
  | @next level' table' hafter hpresent hmore ih =>
      rcases ih with hold | ⟨hlevel, rfl, hsame⟩
      · by_cases hslot : slot table' other (level' + 1) = slot table vaddr (level + 1)
        · obtain ⟨hlevel, rfl, hsame, hindex⟩ :=
            slot_eq_slot h.root_aligned h.tree h.leads hold hslot
          refine Or.inr ⟨Nat.succ.inj hlevel, ?_, fun k hk hle ↦ ?_⟩
          · rw [hslot, h.after_self]
            exact tableEntry_addr h.frame
          · rcases Nat.eq_or_lt_of_le hk with rfl | hlt
            · exact hindex
            · exact hsame k hlt hle
        · rw [h.after_slot hold hslot] at hpresent hmore ⊢
          exact Or.inl (hold.next hpresent hmore)
      · rw [h.after_new] at hpresent
        exact absurd UInt64.zero_and hpresent

/-- The tables form a tree again. -/
theorem tree_after (h : Linkable mem root vaddr level table page) : Tree h.after root := by
  intro other other' level' level'' table' hleads hleads'
  rcases h.leads_after hleads with hold | ⟨rfl, rfl, hsame⟩
  · rcases h.leads_after hleads' with hold' | ⟨-, rfl, -⟩
    · exact h.tree _ _ _ _ _ hold hold'
    · exact absurd hold (h.fresh _ _)
  · rcases h.leads_after hleads' with hold' | ⟨rfl, -, hsame'⟩
    · exact absurd hold' (h.fresh _ _)
    · exact ⟨rfl, fun k hk hle ↦ (hsame k hk hle).trans (hsame' k hk hle).symm⟩

/-- No walk comes to a page other than the new table that was not a table before. -/
theorem fresh_after (h : Linkable mem root vaddr level table page) {free : UInt64}
    (hne : free ≠ page) (hfree : ∀ other level', ¬ Leads mem root other level' free)
    (other : UInt64) (level' : Nat) : ¬ Leads h.after root other level' free := by
  intro hleads
  rcases h.leads_after hleads with hold | ⟨-, heq, -⟩
  · exact hfree _ _ hold
  · exact hne heq

/-- Linking maps no page. -/
theorem translate_after (h : Linkable mem root vaddr level table page)
    (hafter : translate h.after root other = some paddr) :
    translate mem root other = some paddr := by
  obtain ⟨level', table', hleads, hpresent, hmaps, hpaddr⟩ := translate_eq_some_iff.mp hafter
  rcases h.leads_after hleads with hold | ⟨-, rfl, -⟩
  · by_cases hslot : slot table' other level' = slot table vaddr (level + 1)
    · obtain ⟨rfl, -⟩ := slot_eq_slot h.root_aligned h.tree h.leads hold hslot
      rw [hslot, h.after_self] at hmaps
      exact absurd hmaps (tableEntry_not_mapsPage h.frame level)
    · rw [h.after_slot hold hslot] at hpresent hmaps hpaddr
      exact translate_eq_some_iff.mpr ⟨level', table', hold, hpresent, hmaps, hpaddr⟩
  · rw [h.after_new] at hpresent
    exact absurd UInt64.zero_and hpresent

end Linkable

/-! ## Filling an entry of a page table -/

/-- An entry of a page table can be filled for an address. -/
structure Fillable (mem : PhysMem) (root vaddr table entry : UInt64) : Prop where
  root_aligned : root.toNat % 0x1000 = 0
  tree : Tree mem root
  leads : Leads mem root vaddr 0 table
  absent : mem (slot table vaddr 0) &&& PTE_PRESENT = 0
  present : entry &&& PTE_PRESENT ≠ 0

namespace Fillable

variable {mem : PhysMem} {root vaddr table entry other table' paddr : UInt64} {level : Nat}

/-- The memory after the entry was filled. -/
abbrev after (_ : Fillable mem root vaddr table entry) : PhysMem :=
  Function.update mem (slot table vaddr 0) entry

/-- The entries above the page tables stay. -/
theorem after_slot (h : Fillable mem root vaddr table entry)
    (hother : Leads mem root other (level + 1) table') :
    h.after (slot table' other (level + 1)) = mem (slot table' other (level + 1)) := by
  refine Function.update_of_ne (fun heq ↦ ?_) _ _
  exact Nat.succ_ne_zero level (slot_eq_slot h.root_aligned h.tree h.leads hother heq).1

/-- The walks to tables stay. -/
theorem leads_after (h : Fillable mem root vaddr table entry)
    (hafter : Leads h.after root other level table') : Leads mem root other level table' := by
  induction hafter with
  | top => exact Leads.top
  | next hafter hpresent hmore ih =>
      rw [h.after_slot ih] at hpresent hmore ⊢
      exact ih.next hpresent hmore

/-- Filling an empty entry keeps the entries that are present. -/
theorem grows (h : Fillable mem root vaddr table entry) : Grows mem root h.after := by
  intro other level table' hother hpresent
  refine Function.update_of_ne (fun heq ↦ ?_) _ _
  rw [heq] at hpresent
  exact hpresent h.absent

theorem tree_after (h : Fillable mem root vaddr table entry) : Tree h.after root :=
  fun _ _ _ _ _ hleads hleads' ↦ h.tree _ _ _ _ _ (h.leads_after hleads) (h.leads_after hleads')

/-- The addresses of the page are mapped by the entry. -/
theorem translate_page (h : Fillable mem root vaddr table entry)
    (hsame : ∀ level ≤ 3, levelIndex vaddr level = levelIndex other level) :
    translate h.after root other = some (pageAddr 0 entry other) := by
  have hleads : Leads h.after root other 0 table :=
    (h.grows.leads h.leads).congr fun level _ hle ↦ hsame level hle
  have hentry : h.after (slot table other 0) = entry := by
    rw [slot, ← hsame 0 (Nat.zero_le 3)]
    exact Function.update_self _ _ _
  rw [translate_eq_some_iff]
  refine ⟨0, table, hleads, ?_⟩
  rw [hentry]
  exact ⟨h.present, Or.inl rfl, rfl⟩

/-- All other translations were there before. -/
theorem translate_after (h : Fillable mem root vaddr table entry)
    (hafter : translate h.after root other = some paddr) :
    translate mem root other = some paddr ∨
      ((∀ level ≤ 3, levelIndex vaddr level = levelIndex other level) ∧
        paddr = pageAddr 0 entry other) := by
  obtain ⟨level, table', hleads, hpresent, hmaps, hpaddr⟩ := translate_eq_some_iff.mp hafter
  have hold := h.leads_after hleads
  by_cases hslot : slot table' other level = slot table vaddr 0
  · obtain ⟨rfl, rfl, hsame, hindex⟩ := slot_eq_slot h.root_aligned h.tree h.leads hold hslot
    rw [hslot, after, Function.update_self] at hpaddr
    refine Or.inr ⟨fun level hle ↦ ?_, hpaddr.symm⟩
    rcases Nat.eq_zero_or_pos level with rfl | hpos
    · exact hindex.symm
    · exact (hsame level hpos hle).symm
  · have hkept : h.after (slot table' other level) = mem (slot table' other level) :=
      Function.update_of_ne hslot _ _
    rw [hkept] at hpresent hmaps hpaddr
    exact Or.inl (translate_eq_some_iff.mpr ⟨level, table', hold, hpresent, hmaps, hpaddr⟩)

end Fillable

end Avaria.Ring3
