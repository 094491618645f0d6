import Mathlib.Algebra.Group.Nat.Defs
import Avaria.Ring3.PageTables

/-!
# Address translation

The physical address that the page tables give a virtual address. A table entry serves a page of
`2 ^ 12`, `2 ^ 21` or `2 ^ 30` bytes, by its level; the levels are counted from the page table up.

Translation depends on the present bit, the large bit and the address of the entries only
(`translate_congr`).
-/

namespace Avaria.Ring3

/-- The number of the low bits of a virtual address that an entry of a level leaves to lower
levels. -/
def levelShift (level : Nat) : UInt64 := UInt64.ofNat (12 + 9 * level)

/-- The offset of a virtual address in a page that an entry of a level maps. -/
def pageOffset (level : Nat) (vaddr : UInt64) : UInt64 :=
  vaddr &&& (((1 : UInt64) <<< levelShift level) - 1)

/-- The physical address of a virtual address in the page that an entry maps. -/
def pageAddr (level : Nat) (entry vaddr : UInt64) : UInt64 :=
  (entry &&& ADDR_MASK &&& ~~~(((1 : UInt64) <<< levelShift level) - 1)) ||| pageOffset level vaddr

/-- An entry of a level maps a page itself: one of a page table always does, one of the top table
never. -/
def MapsPage (level : Nat) (entry : UInt64) : Prop :=
  level = 0 ∨ (level ≤ 2 ∧ entry &&& PTE_LARGE ≠ 0)

instance (level : Nat) (entry : UInt64) : Decidable (MapsPage level entry) :=
  inferInstanceAs (Decidable (_ ∨ _))

/-- The physical address of a virtual address, from a table of a level on. -/
def translateFrom (mem : PhysMem) (vaddr : UInt64) : Nat → UInt64 → Option UInt64
  | 0, table =>
      let entry := mem (entryAddr table (tableIndex vaddr (levelShift 0)))
      if entry &&& PTE_PRESENT = 0 then none else some (pageAddr 0 entry vaddr)
  | level + 1, table =>
      let entry := mem (entryAddr table (tableIndex vaddr (levelShift (level + 1))))
      if entry &&& PTE_PRESENT = 0 then none
      else if MapsPage (level + 1) entry then some (pageAddr (level + 1) entry vaddr)
      else translateFrom mem vaddr level (entry &&& ADDR_MASK)

/-- The physical address of a virtual address. -/
def translate (mem : PhysMem) (pml4 vaddr : UInt64) : Option UInt64 :=
  translateFrom mem vaddr 3 pml4

/-! ## Indices -/

/-- An index is a digit of the address. -/
theorem toNat_tableIndex (vaddr : UInt64) {shift : UInt64} (h : shift.toNat < 64) :
    (tableIndex vaddr shift).toNat = vaddr.toNat / 2 ^ shift.toNat % 512 := by
  rw [tableIndex, UInt64.toNat_and, UInt64.toNat_shiftRight, Nat.mod_eq_of_lt h,
    Nat.shiftRight_eq_div_pow]
  exact Nat.and_two_pow_sub_one_eq_mod _ 9

/-- Addresses in one 4 KiB page have the same indices. -/
theorem tableIndex_congr {vaddr other : UInt64}
    (h : vaddr.toNat / 0x1000 = other.toNat / 0x1000) {shift : UInt64} (hlow : 12 ≤ shift.toNat)
    (hhigh : shift.toNat < 64) : tableIndex vaddr shift = tableIndex other shift := by
  have hsplit (word : Nat) : word / 2 ^ shift.toNat = word / 0x1000 / 2 ^ (shift.toNat - 12) := by
    rw [Nat.div_div_eq_div_mul, show 0x1000 = 2 ^ 12 from rfl, ← Nat.pow_add,
      Nat.add_sub_cancel' hlow]
  rw [← UInt64.toNat_inj, toNat_tableIndex vaddr hhigh, toNat_tableIndex other hhigh, hsplit, h,
    ← hsplit]

/-- Addresses in one 4 KiB page have the same walk. -/
theorem walk_congr {vaddr other : UInt64} (h : vaddr.toNat / 0x1000 = other.toNat / 0x1000)
    (mem : PhysMem) (pml4 : UInt64) : walk mem pml4 vaddr = walk mem pml4 other := by
  have hpt : tableIndex vaddr 12 = tableIndex other 12 := tableIndex_congr h (by decide) (by decide)
  have hpd : tableIndex vaddr 21 = tableIndex other 21 := tableIndex_congr h (by decide) (by decide)
  have hpdpt : tableIndex vaddr 30 = tableIndex other 30 :=
    tableIndex_congr h (by decide) (by decide)
  have hpml4 : tableIndex vaddr 39 = tableIndex other 39 :=
    tableIndex_congr h (by decide) (by decide)
  simp only [walk, walkPdpt, walkPd, walkPt, hpt, hpd, hpdpt, hpml4]

/-- Clearing the low bits rounds down to a page. -/
theorem toNat_and_not_low (word : UInt64) :
    (word &&& ~~~(0xFFF : UInt64)).toNat = word.toNat / 0x1000 * 0x1000 := by
  rw [UInt64.toNat_and]
  show word.toNat &&& (2 ^ 64 - (0xFFF + 1)) = word.toNat / 2 ^ 12 * 2 ^ 12
  refine Nat.eq_of_testBit_eq fun i ↦ ?_
  rw [Nat.testBit_and, Nat.testBit_two_pow_sub_succ (by decide), Nat.testBit_mul_two_pow,
    Nat.testBit_div_two_pow, show 0xFFF = 2 ^ 12 - 1 from rfl, Nat.testBit_two_pow_sub_one]
  by_cases hlow : i < 12
  · simp [hlow, Nat.not_le_of_lt hlow]
  · have hle : 12 ≤ i := Nat.le_of_not_lt hlow
    by_cases hhigh : i < 64
    · simp [hhigh, hle, Nat.sub_add_cancel hle]
    · have hzero : word.toNat.testBit i = false :=
        Nat.testBit_lt_two_pow (Nat.lt_of_lt_of_le word.toNat_lt
          (Nat.pow_le_pow_right (by decide) (Nat.le_of_not_lt hhigh)))
      simp [hzero, Nat.sub_add_cancel hle]

/-- In the page that an entry of a page table maps, an address keeps its offset. -/
theorem toNat_pageAddr (entry vaddr : UInt64) :
    (pageAddr 0 entry vaddr).toNat =
      (entry &&& ADDR_MASK).toNat / 0x1000 * 0x1000 + vaddr.toNat % 0x1000 := by
  have hoffset : (vaddr &&& 0xFFF).toNat = vaddr.toNat % 0x1000 := by
    rw [UInt64.toNat_and]
    exact Nat.and_two_pow_sub_one_eq_mod _ 12
  show (entry &&& ADDR_MASK &&& ~~~(0xFFF : UInt64) ||| vaddr &&& 0xFFF).toNat = _
  rw [UInt64.toNat_or, toNat_and_not_low, hoffset, Nat.mul_comm]
  exact (Nat.two_pow_add_eq_or_of_lt (i := 12) (Nat.mod_lt _ (by decide)) _).symm

/-! ## Translation and walks -/

/-- The tables of the two middle levels: an entry maps a large page or leads to a table. -/
theorem isSome_translateFrom_succ (mem : PhysMem) (vaddr table : UInt64) {level : Nat}
    (hlevel : level + 1 ≤ 2) {visited : UInt64 → Walk}
    (hnext : ∀ next, (translateFrom mem vaddr level next).isSome = (visited next).leaf.isSome) :
    (translateFrom mem vaddr (level + 1) table).isSome =
      (let a := entryAddr table (tableIndex vaddr (levelShift (level + 1)))
      if mem a &&& PTE_PRESENT = 0 then (⟨[], none⟩ : Walk)
      else if mem a &&& PTE_LARGE ≠ 0 then ⟨[a], some a⟩
      else (visited (mem a &&& ADDR_MASK)).cons a).leaf.isSome := by
  rw [translateFrom]
  dsimp only
  split
  · rfl
  · have hmaps (entry : UInt64) : MapsPage (level + 1) entry ↔ entry &&& PTE_LARGE ≠ 0 :=
      (or_iff_right (Nat.succ_ne_zero level)).trans (and_iff_right hlevel)
    simp only [hmaps]
    split
    · rfl
    · exact hnext _

/-- An address is translated exactly if its walk ends at a page. -/
theorem isSome_translate (mem : PhysMem) (pml4 vaddr : UInt64) :
    (translate mem pml4 vaddr).isSome = (walk mem pml4 vaddr).leaf.isSome := by
  have hpt (pt : UInt64) :
      (translateFrom mem vaddr 0 pt).isSome = (walkPt mem pt vaddr).leaf.isSome := by
    show (if mem (entryAddr pt (tableIndex vaddr 12)) &&& PTE_PRESENT = 0 then none
      else some _).isSome = _
    unfold walkPt
    dsimp only
    split <;> rfl
  have hpd (pd : UInt64) :
      (translateFrom mem vaddr 1 pd).isSome = (walkPd mem pd vaddr).leaf.isSome :=
    isSome_translateFrom_succ mem vaddr pd (by decide) hpt
  have hpdpt (pdpt : UInt64) :
      (translateFrom mem vaddr 2 pdpt).isSome = (walkPdpt mem pdpt vaddr).leaf.isSome :=
    isSome_translateFrom_succ mem vaddr pdpt (by decide) hpd
  have htop (entry : UInt64) : ¬ MapsPage 3 entry := fun h ↦
    h.elim (fun hzero ↦ absurd hzero (by decide)) fun hlarge ↦ absurd hlarge.1 (by decide)
  rw [translate, translateFrom, if_neg (htop _)]
  show (if mem (entryAddr pml4 (tableIndex vaddr 39)) &&& PTE_PRESENT = 0 then none
    else translateFrom mem vaddr 2 _).isSome = _
  unfold walk
  dsimp only
  split
  · rfl
  · exact hpdpt _

/-! ## Bits that translation depends on -/

/-- The bits of an entry that translation reads. -/
def WALK_MASK : UInt64 := PTE_PRESENT ||| PTE_LARGE ||| ADDR_MASK

/-- Two memories have the same bits of a mask everywhere. -/
def AgreeOn (mask : UInt64) (mem other : PhysMem) : Prop := ∀ a, other a &&& mask = mem a &&& mask

namespace AgreeOn

variable {mask smaller : UInt64} {mem other : PhysMem}

/-- Fewer bits are the same too. -/
theorem mono (h : AgreeOn mask mem other) (hsub : mask &&& smaller = smaller) :
    AgreeOn smaller mem other := by
  intro a
  rw [← hsub, ← UInt64.and_assoc, ← UInt64.and_assoc, h a]

/-- The three parts of an entry that translation reads. -/
theorem present (h : AgreeOn WALK_MASK mem other) : AgreeOn PTE_PRESENT mem other :=
  h.mono (by decide)

theorem large (h : AgreeOn WALK_MASK mem other) : AgreeOn PTE_LARGE mem other :=
  h.mono (by decide)

theorem addr (h : AgreeOn WALK_MASK mem other) : AgreeOn ADDR_MASK mem other :=
  h.mono (by decide)

end AgreeOn

/-- Opening entries leaves the bits of a mask without U, W and NX. -/
theorem Marked.agreeOn {mem opened : PhysMem} {users grants : List UInt64}
    (h : Marked mem users grants opened) {mask : UInt64} (huser : PTE_USER &&& mask = 0)
    (hwritable : PTE_WRITABLE &&& mask = 0) (hnx : PTE_NX &&& mask = 0) :
    AgreeOn mask mem opened := by
  intro a
  rw [h a, mark_and huser hwritable hnx]

/-- Memories that agree on these bits have the same walks. -/
theorem AgreeOn.walk_eq {mem other : PhysMem} (h : AgreeOn WALK_MASK mem other)
    (pml4 vaddr : UInt64) : walk other pml4 vaddr = walk mem pml4 vaddr := by
  simp only [walk, walkPdpt, walkPd, walkPt, h.present _, h.large _, h.addr _]

/-- Memories that agree on these bits translate alike. -/
theorem translate_congr {mem other : PhysMem} (h : AgreeOn WALK_MASK mem other)
    (pml4 vaddr : UInt64) : translate other pml4 vaddr = translate mem pml4 vaddr := by
  have hfrom (level : Nat) (table : UInt64) :
      translateFrom other vaddr level table = translateFrom mem vaddr level table := by
    induction level generalizing table with
    | zero => simp only [translateFrom, pageAddr, h.present _, h.addr _]
    | succ level ih =>
        rw [translateFrom, translateFrom, h.present]
        refine if_congr Iff.rfl rfl (if_congr ?_ ?_ ?_)
        · rw [MapsPage, MapsPage, h.large]
        · rw [pageAddr, pageAddr, h.addr]
        · rw [h.addr, ih]
  exact hfrom 3 pml4

end Avaria.Ring3
