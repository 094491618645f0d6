import Mathlib.Data.Fin.VecNotation
import Avaria.Lib.PackedBits
import Avaria.Mm.Pages

/-!
# Slab pages

`SlabPage` of `mm/slab.rs`: one 4096-byte page cut into objects of one size class, with a bit per
object. The object size is a parameter of the type, so that a cache can only hold pages of its own
class, and `capacity` is the value that `SlabPage::new` computes from it.

`used` is the flat view of the bitmap. `alloc_eq_some` and `alloc_eq_none` say that `alloc` takes
a clear slot below the capacity and fails only when there is none, which is also what `isFull`
tests (`isFull_iff`).
-/

namespace Avaria.Mm

/-- The index of a size class. -/
abbrev SizeClass := Fin 8

/-- `SLAB_SIZES` of `mm/slab.rs`. -/
def SLAB_SIZES : SizeClass → Nat := ![16, 32, 64, 128, 256, 512, 1024, 2048]

/-- `struct SlabPage`, whose `obj_size` is the size of the class. -/
structure SlabPage (cls : SizeClass) where
  base : Nat
  bitmap : PackedBits.Words 4 64

namespace SlabPage

variable {cls : SizeClass}

/-- The field `obj_size`. -/
def objSize (_ : SlabPage cls) : Nat := SLAB_SIZES cls

/-- The field `capacity` as `SlabPage::new` sets it. -/
def capacity (page : SlabPage cls) : Nat :=
  let capacity := PAGE_SIZE / page.objSize
  if capacity > 256 then 256 else capacity

/-- `SlabPage::new`. -/
def new (cls : SizeClass) (base : Nat) : SlabPage cls := ⟨base, fun _ ↦ 0#64⟩

/-- The loop over the bitmap words in `SlabPage::alloc`. -/
def allocFrom (page : SlabPage cls) : List (Fin 4) → Option (Nat × SlabPage cls)
  | [] => none
  | word :: rest =>
      let free := ~~~ page.bitmap word
      if free ≠ 0#64 then
        let bit := free.ctz.toNat
        let i := word * 64 + bit
        -- `continue`: the clear bits of this word belong to no object
        if i ≥ page.capacity then page.allocFrom rest
        else
          some (usize (page.base + i * page.objSize),
            { page with bitmap := PackedBits.set page.bitmap word bit })
      else page.allocFrom rest

/-- `SlabPage::alloc`: the address of the object and the page after it. -/
def alloc (page : SlabPage cls) : Option (Nat × SlabPage cls) :=
  page.allocFrom (List.finRange 4)

/-- The end of the objects, `self.base + self.capacity * self.obj_size`. -/
def limit (page : SlabPage cls) : Nat := usize (page.base + page.capacity * page.objSize)

theorem capacity_eq (page : SlabPage cls) :
    page.capacity * page.objSize = PAGE_SIZE ∧ 2 ≤ page.capacity ∧ page.capacity ≤ 256 ∧
      0 < page.objSize := by
  unfold capacity objSize
  clear page
  revert cls
  decide

theorem limit_le (page : SlabPage cls) :
    page.limit ≤ page.base + page.capacity * page.objSize := Nat.mod_le _ _

/-- The slot that an address in the page falls into is one of its slots. -/
theorem index_lt (page : SlabPage cls) {ptr : Nat} (h : ¬ (ptr < page.base ∨ ptr ≥ page.limit)) :
    (ptr - page.base) / page.objSize < page.capacity := by
  have hlimit := page.limit_le
  rw [Nat.div_lt_iff_lt_mul page.capacity_eq.2.2.2]
  omega

/-- `SlabPage::free`: whether the address lies in the page, and the page after it. -/
def free (page : SlabPage cls) (ptr : Nat) : Bool × SlabPage cls :=
  if h : ptr < page.base ∨ ptr ≥ page.limit then (false, page)
  else
    let idx := (ptr - page.base) / page.objSize
    have hword : idx / 64 < 4 := by
      have := page.index_lt h
      have := page.capacity_eq
      omega
    (true, { page with bitmap := PackedBits.clear page.bitmap ⟨idx / 64, hword⟩ (idx % 64) })

/-- `SlabPage::is_full`. -/
def isFull (page : SlabPage cls) : Bool :=
  let fullWords := page.capacity / 64
  if (List.finRange 4).any fun w ↦
      decide (w.val < fullWords ∧ page.bitmap w ≠ BitVec.allOnes 64) then false
  else
    let rem := page.capacity % 64
    if h : rem > 0 then
      have hword : fullWords < 4 := by
        have := page.capacity_eq
        omega
      decide (page.bitmap ⟨fullWords, hword⟩ &&& PackedBits.lowMask 64 rem =
        PackedBits.lowMask 64 rem)
    else true

/-- `SlabPage::is_empty`. -/
def isEmpty (page : SlabPage cls) : Bool := decide (∀ w, page.bitmap w = 0#64)

/-- `SlabPage::contains`. -/
def contains (page : SlabPage cls) (ptr : Nat) : Bool :=
  decide (ptr ≥ page.base ∧ ptr < page.limit)

/-! ## Slots -/

/-- The slot is allocated. -/
def used (page : SlabPage cls) (i : Nat) : Bool := PackedBits.bit page.bitmap i

/-- The address of a slot. -/
def slotAddr (page : SlabPage cls) (i : Nat) : Nat := page.base + i * page.objSize

/-- The address range of the page. -/
def extent (page : SlabPage cls) : Extent := ⟨page.base, PAGE_SIZE⟩

theorem div_64_of_lt_capacity (page : SlabPage cls) {i : Nat} (hi : i < page.capacity) :
    i / 64 < 4 := by
  have := page.capacity_eq
  omega

theorem used_word (page : SlabPage cls) (word : Fin 4) {j : Nat} (hj : j < 64) :
    page.used (word * 64 + j) = (page.bitmap word).getLsbD j := by
  have hdiv : (word * 64 + j) / 64 = word := by omega
  have hmod : (word * 64 + j) % 64 = j := by omega
  unfold used
  rw [PackedBits.bit_of_lt (by rw [hdiv]; exact word.isLt)]
  simp only [hdiv, hmod]

theorem used_set (page : SlabPage cls) (word : Fin 4) {j : Nat} (hj : j < 64) (i : Nat) :
    ({ page with bitmap := PackedBits.set page.bitmap word j } : SlabPage cls).used i =
      (decide (i = word * 64 + j) || page.used i) := by
  have hdiv : (word * 64 + j) / 64 = word := by omega
  have hmod : (word * 64 + j) % 64 = j := by omega
  have hword : (word * 64 + j) / 64 < 4 := by rw [hdiv]; exact word.isLt
  have hset := PackedBits.bit_set page.bitmap (by decide) hword i
  simp only [hdiv, hmod] at hset
  exact hset

/-- What the word loop does: it takes a clear slot below the capacity in one of the words, or
finds every slot below the capacity of these words set. -/
theorem allocFrom_cases (page : SlabPage cls) (words : List (Fin 4)) :
    (∃ i after, i < page.capacity ∧ page.used i = false ∧ after.base = page.base ∧
      (∀ j, after.used j = (decide (j = i) || page.used j)) ∧
      page.allocFrom words = some (usize (page.slotAddr i), after)) ∨
    ((∀ word ∈ words, ∀ j < 64, word * 64 + j < page.capacity →
      page.used (word * 64 + j) = true) ∧ page.allocFrom words = none) := by
  induction words with
  | nil => exact Or.inr ⟨fun word hmem ↦ absurd hmem (by simp), rfl⟩
  | cons word rest ih =>
      unfold allocFrom
      by_cases hfree : ~~~ page.bitmap word = 0#64
      · rw [if_neg (not_not.mpr hfree)]
        refine ih.imp_right fun ⟨hall, heq⟩ ↦ ⟨?_, heq⟩
        intro other hmem j hj hcap
        rcases List.mem_cons.mp hmem with rfl | hmem
        · rw [used_word _ _ hj]
          exact PackedBits.getLsbD_of_not_eq_zero hfree hj
        · exact hall other hmem j hj hcap
      · obtain ⟨hlt, hclear⟩ := PackedBits.getLsbD_ctz_not hfree
        rw [if_pos hfree]
        by_cases hcap : word * 64 + (~~~ page.bitmap word).ctz.toNat ≥ page.capacity
        · -- the lowest clear bit lies beyond the capacity, so the slots of this word are taken
          rw [if_pos hcap]
          refine ih.imp_right fun ⟨hall, heq⟩ ↦ ⟨?_, heq⟩
          intro other hmem j hj hother
          rcases List.mem_cons.mp hmem with rfl | hmem
          · rw [used_word _ _ hj]
            exact PackedBits.getLsbD_of_lt_ctz_not (by omega) hj
          · exact hall other hmem j hj hother
        · rw [if_neg hcap]
          refine Or.inl ⟨word * 64 + (~~~ page.bitmap word).ctz.toNat,
            { page with bitmap :=
              PackedBits.set page.bitmap word (~~~ page.bitmap word).ctz.toNat },
            Nat.lt_of_not_le hcap, ?_, rfl, ?_, rfl⟩
          · rw [used_word _ _ hlt]
            exact hclear
          · exact fun j ↦ used_set page word hlt j

/-- `alloc` fails exactly when every slot below the capacity is used. -/
theorem alloc_eq_none {page : SlabPage cls} :
    page.alloc = none ↔ ∀ i < page.capacity, page.used i = true := by
  unfold alloc
  rcases page.allocFrom_cases (List.finRange 4) with
    ⟨i, after, hi, hclear, -, -, heq⟩ | ⟨hall, heq⟩
  · rw [heq]
    constructor
    · intro hcase
      cases hcase
    · intro h
      rw [h i hi] at hclear
      cases hclear
  · rw [heq]
    refine iff_of_true rfl fun i hi ↦ ?_
    have hword := page.div_64_of_lt_capacity hi
    have hsplit : i / 64 * 64 + i % 64 = i := by omega
    have hused := hall ⟨i / 64, hword⟩ (List.mem_finRange _) (i % 64) (by omega)
      (by simpa [hsplit] using hi)
    simpa [hsplit] using hused

/-- `alloc` hands out a clear slot below the capacity and sets its bit only. -/
theorem alloc_eq_some {page after : SlabPage cls} {ptr : Nat} (h : page.alloc = some (ptr, after)) :
    ∃ i < page.capacity, page.used i = false ∧ ptr = usize (page.slotAddr i) ∧
      after.base = page.base ∧ ∀ j, after.used j = (decide (j = i) || page.used j) := by
  unfold alloc at h
  rcases page.allocFrom_cases (List.finRange 4) with
    ⟨i, taken, hi, hclear, hbase, hused, heq⟩ | ⟨-, heq⟩
  · rw [heq] at h
    cases h
    exact ⟨i, hi, hclear, rfl, hbase, hused⟩
  · rw [heq] at h
    cases h

theorem isFull_iff {page : SlabPage cls} :
    page.isFull = true ↔ ∀ i < page.capacity, page.used i = true := by
  have hcapacity := page.capacity_eq
  have hwords : ((List.finRange 4).any fun w ↦
      decide (w.val < page.capacity / 64 ∧ page.bitmap w ≠ BitVec.allOnes 64)) = true ↔
      ¬ ∀ w : Fin 4, w.val < page.capacity / 64 → ∀ j < 64, (page.bitmap w).getLsbD j = true := by
    simp only [List.any_eq_true, List.mem_finRange, true_and, decide_eq_true_eq, not_forall,
      ne_eq, PackedBits.eq_allOnes_iff]
    exact exists_congr fun w ↦ by rw [exists_prop]
  unfold isFull
  simp only [hwords]
  -- the whole words first, then the low bits of the word that the capacity ends in
  by_cases hfull : ∀ w : Fin 4, w.val < page.capacity / 64 → ∀ j < 64,
      (page.bitmap w).getLsbD j = true
  · rw [if_neg (not_not.mpr hfull)]
    have hwhole : ∀ i < page.capacity / 64 * 64, page.used i = true := by
      intro i hi
      have hword : i / 64 < 4 := by omega
      have hbit := hfull ⟨i / 64, hword⟩ (by simp only; omega) (i % 64) (by omega)
      have hsplit : i / 64 * 64 + i % 64 = i := by omega
      rw [← used_word _ _ (by omega)] at hbit
      simpa [hsplit] using hbit
    by_cases hrem : page.capacity % 64 > 0
    · rw [dif_pos hrem, decide_eq_true_eq, PackedBits.and_lowMask_eq_iff (by omega)]
      constructor
      · intro hlow i hi
        by_cases hlt : i < page.capacity / 64 * 64
        · exact hwhole i hlt
        · have hbit := hlow (i - page.capacity / 64 * 64) (by omega)
          rw [← used_word _ _ (by omega)] at hbit
          simpa [Nat.add_sub_cancel' (Nat.le_of_not_lt hlt)] using hbit
      · intro hall j hj
        rw [← used_word _ _ (by omega)]
        exact hall _ (by simp only; omega)
    · rw [dif_neg hrem]
      exact iff_of_true rfl fun i hi ↦ hwhole i (by omega)
  · rw [if_pos hfull]
    refine iff_of_false (by decide) fun hall ↦ hfull fun w hw j hj ↦ ?_
    rw [← used_word _ _ hj]
    exact hall _ (by omega)

/-- A page that is not full has an object to hand out. -/
theorem alloc_ne_none {page : SlabPage cls} (h : page.isFull = false) : page.alloc ≠ none := by
  intro hnone
  rw [isFull_iff.mpr (alloc_eq_none.mp hnone)] at h
  cases h

theorem isEmpty_iff {page : SlabPage cls} : page.isEmpty = true ↔ ∀ i, page.used i = false := by
  unfold isEmpty used
  rw [decide_eq_true_eq, ← PackedBits.eq_zero_iff (by decide), funext_iff]

/-- A full page is not empty. -/
theorem isEmpty_of_isFull {page : SlabPage cls} (h : page.isFull = true) :
    page.isEmpty = false := by
  have hcapacity := page.capacity_eq
  by_contra hempty
  rw [Bool.not_eq_false, isEmpty_iff] at hempty
  have hset := isFull_iff.mp h 0 (by omega)
  rw [hempty] at hset
  cases hset

/-- A page from which an object was just taken is not empty. -/
theorem isEmpty_of_alloc {page after : SlabPage cls} {ptr : Nat}
    (h : page.alloc = some (ptr, after)) : after.isEmpty = false := by
  obtain ⟨i, -, -, -, -, hused⟩ := alloc_eq_some h
  by_contra hempty
  rw [Bool.not_eq_false, isEmpty_iff] at hempty
  simpa [hused] using hempty i

@[simp] theorem used_new (base i : Nat) : (new cls base).used i = false :=
  (PackedBits.eq_zero_iff (by decide)).mp rfl i

/-- A fresh page hands out its first slot. -/
theorem alloc_new_ne_none (cls : SizeClass) (base : Nat) : (new cls base).alloc ≠ none := by
  have hcapacity := (new cls base).capacity_eq
  intro hnone
  simpa using alloc_eq_none.mp hnone 0 (by omega)

@[simp] theorem free_base (page : SlabPage cls) (ptr : Nat) :
    (page.free ptr).2.base = page.base := by
  unfold free
  split <;> rfl

/-- Freeing an address in the page clears the slot that it falls into. -/
theorem used_free {page : SlabPage cls} {ptr : Nat} (h : page.contains ptr = true) (j : Nat) :
    (page.free ptr).2.used j =
      (!decide (j = (ptr - page.base) / page.objSize) && page.used j) := by
  have hcontains : ¬ (ptr < page.base ∨ ptr ≥ page.limit) := by
    simp only [contains, decide_eq_true_eq] at h
    omega
  unfold free
  rw [dif_neg hcontains]
  exact PackedBits.bit_clear _ (by decide) _ _

/-! ## Held objects -/

/-- The address is that of an allocated slot of the page. -/
def Holds (page : SlabPage cls) (addr : Nat) : Prop :=
  ∃ i < page.capacity, page.used i = true ∧ addr = page.slotAddr i

/-- A slot lies inside the page. -/
theorem slot_within (page : SlabPage cls) {i : Nat} (hi : i < page.capacity) :
    Extent.Within ⟨page.slotAddr i, page.objSize⟩ page.extent := by
  have hmul : (i + 1) * page.objSize ≤ page.capacity * page.objSize :=
    Nat.mul_le_mul_right _ hi
  rw [page.capacity_eq.1, Nat.succ_mul] at hmul
  simp only [Extent.Within, slotAddr, extent]
  omega

/-- Different slots share no address. -/
theorem slots_apart (page : SlabPage cls) {i j : Nat} (hne : i ≠ j) :
    Extent.Apart ⟨page.slotAddr i, page.objSize⟩ ⟨page.slotAddr j, page.objSize⟩ := by
  simp only [Extent.Apart, slotAddr]
  rcases Nat.lt_or_gt_of_ne hne with hlt | hlt
  · have hmul : (i + 1) * page.objSize ≤ j * page.objSize := Nat.mul_le_mul_right _ hlt
    rw [Nat.succ_mul] at hmul
    omega
  · have hmul : (j + 1) * page.objSize ≤ i * page.objSize := Nat.mul_le_mul_right _ hlt
    rw [Nat.succ_mul] at hmul
    omega

theorem slotAddr_inj (page : SlabPage cls) {i j : Nat} (h : page.slotAddr i = page.slotAddr j) :
    i = j := by
  by_contra hne
  have hapart := page.slots_apart hne
  rw [h] at hapart
  exact Extent.not_apart_self page.capacity_eq.2.2.2 hapart

/-- A held address lies in the page. -/
theorem Holds.extent_contains {page : SlabPage cls} {addr : Nat} (h : page.Holds addr) :
    page.extent.Contains addr := by
  obtain ⟨i, hi, -, rfl⟩ := h
  have hwithin := page.slot_within hi
  have hpos := page.capacity_eq.2.2.2
  simp only [Extent.Within, Extent.Contains] at hwithin ⊢
  omega

theorem limit_eq {page : SlabPage cls} (hfits : page.base + PAGE_SIZE < 2 ^ 64) :
    page.limit = page.base + PAGE_SIZE := by
  unfold limit
  rw [page.capacity_eq.1, usize_eq hfits]

/-- On a page that ends below the top of the address space, `contains` tests the address range of
the page. -/
theorem contains_iff {page : SlabPage cls} (hfits : page.base + PAGE_SIZE < 2 ^ 64) {ptr : Nat} :
    page.contains ptr = true ↔ page.extent.Contains ptr := by
  simp [contains, limit_eq hfits, Extent.Contains, extent]

/-- `alloc` adds an address that the page did not hold. -/
theorem holds_alloc {page after : SlabPage cls} {ptr : Nat}
    (hfits : page.base + PAGE_SIZE < 2 ^ 64) (h : page.alloc = some (ptr, after)) :
    after.base = page.base ∧ ¬ page.Holds ptr ∧
      ∀ addr, after.Holds addr ↔ page.Holds addr ∨ addr = ptr := by
  obtain ⟨i, hi, hclear, hptr, hbase, hused⟩ := alloc_eq_some h
  have hslot : ∀ j, after.slotAddr j = page.slotAddr j := by
    intro j
    simp [slotAddr, hbase, objSize]
  have hptr' : ptr = page.slotAddr i := by
    have hwithin := page.slot_within hi
    simp only [Extent.Within, extent] at hwithin
    rw [hptr, usize_eq (by omega)]
  refine ⟨hbase, ?_, fun addr ↦ ?_⟩
  · intro hcase
    obtain ⟨j, -, hset, hj⟩ := hcase
    rw [page.slotAddr_inj (hj.symm.trans hptr'), hclear] at hset
    cases hset
  · constructor
    · intro hcase
      obtain ⟨j, hj, hset, rfl⟩ := hcase
      rw [hused, Bool.or_eq_true, decide_eq_true_eq] at hset
      rcases hset with rfl | hset
      · exact Or.inr (by rw [hslot, hptr'])
      · exact Or.inl ⟨j, hj, hset, hslot j⟩
    · intro hcase
      rcases hcase with ⟨j, hj, hset, rfl⟩ | rfl
      · exact ⟨j, hj, by simp [hused, hset], (hslot j).symm⟩
      · exact ⟨i, hi, by simp [hused], by rw [hslot, hptr']⟩

/-- `free` removes the address that it is given. -/
theorem holds_free {page : SlabPage cls} {ptr : Nat} (hfits : page.base + PAGE_SIZE < 2 ^ 64)
    (h : page.Holds ptr) (addr : Nat) :
    (page.free ptr).2.Holds addr ↔ page.Holds addr ∧ addr ≠ ptr := by
  have hcontains := (contains_iff hfits).mpr h.extent_contains
  obtain ⟨i, -, -, hptr⟩ := h
  have hslot : ∀ j, (page.free ptr).2.slotAddr j = page.slotAddr j := by
    intro j
    simp [slotAddr, objSize]
  have hindex : (ptr - page.base) / page.objSize = i := by
    rw [hptr, slotAddr, Nat.add_sub_cancel_left, Nat.mul_div_cancel _ page.capacity_eq.2.2.2]
  have hused := used_free hcontains
  rw [hindex] at hused
  constructor
  · intro hcase
    obtain ⟨j, hj, hset, rfl⟩ := hcase
    rw [hused, Bool.and_eq_true, Bool.not_eq_true', decide_eq_false_iff_not] at hset
    refine ⟨⟨j, hj, hset.2, hslot j⟩, fun heq ↦ hset.1 ?_⟩
    rw [hslot, hptr] at heq
    exact page.slotAddr_inj heq
  · intro hcase
    obtain ⟨⟨j, hj, hset, rfl⟩, hne⟩ := hcase
    have hji : j ≠ i := by
      intro heq
      subst heq
      exact hne hptr.symm
    exact ⟨j, hj, by simp [hused, hji, hset], (hslot j).symm⟩

theorem not_holds_of_isEmpty {page : SlabPage cls} (h : page.isEmpty = true) (addr : Nat) :
    ¬ page.Holds addr := by
  intro hcase
  obtain ⟨i, -, hset, -⟩ := hcase
  rw [isEmpty_iff.mp h] at hset
  cases hset

theorem not_holds_new (base addr : Nat) : ¬ (new cls base).Holds addr := by
  intro hcase
  obtain ⟨i, -, hset, -⟩ := hcase
  simp at hset

end SlabPage

end Avaria.Mm
