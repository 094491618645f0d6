import Mathlib.Algebra.BigOperators.Group.Finset.Basic
import Mathlib.Algebra.BigOperators.Group.Multiset.Basic
import Mathlib.Algebra.Order.Group.Multiset
import Mathlib.Data.Fintype.BigOperators
import Avaria.Lib.Tally
import Avaria.Lib.Transition
import Avaria.Mm.SlabPage

/-!
# Slab caches

`SlabCache` of `mm/slab.rs`: up to sixteen pages of one size class. `alloc` takes an object from
the first page that is not full, or from a fresh page of the page source; `free` clears the object
and gives a page back when it is empty and another page is empty too, closing the gap in the page
array.

`alloc_cases` and `free_cases` list everything that a call can do; `entry_compact` and the lemmas on
`HeldAt` say where each page is afterwards.
-/

namespace Avaria.Mm

open Transition

/-- `MAX_SLABS_PER_SIZE` of `mm/slab.rs`. -/
def MAX_SLABS_PER_SIZE : Nat := 16

/-- The page array of a cache. -/
abbrev PageArray (cls : SizeClass) := Fin MAX_SLABS_PER_SIZE → Option (SlabPage cls)

namespace PageArray

variable {cls : SizeClass}

/-- The page at an index; beyond the array there is none. -/
def entry (pages : PageArray cls) (k : Nat) : Option (SlabPage cls) :=
  if h : k < MAX_SLABS_PER_SIZE then pages ⟨k, h⟩ else none

/-- `self.pages.swap(i, j)`. -/
def swap (pages : PageArray cls) (i j : Nat) : PageArray cls :=
  if h : i < MAX_SLABS_PER_SIZE ∧ j < MAX_SLABS_PER_SIZE then
    pages ∘ Equiv.swap ⟨i, h.1⟩ ⟨j, h.2⟩
  else pages

/-- The loop `while i < self.count - 1` of `compact`, with the number of iterations left. -/
def shiftDown (pages : PageArray cls) : Nat → Nat → PageArray cls
  | 0, _ => pages
  | left + 1, i => (pages.swap i (i + 1)).shiftDown left (i + 1)

/-- The page of an entry as a block of the page source. -/
def entryBlocks (entry : Option (SlabPage cls)) : Multiset Block :=
  entry.elim 0 fun page ↦ {⟨page.base, 0⟩}

/-- The pages of the array, as blocks of the page source. -/
def heldBlocks (pages : PageArray cls) : Multiset Block := ∑ k, entryBlocks (pages k)

theorem entry_val (pages : PageArray cls) (k : Fin MAX_SLABS_PER_SIZE) :
    pages.entry k = pages k := by
  simp [entry, k.isLt]

theorem entry_swap (pages : PageArray cls) {i j : Nat} (hi : i < MAX_SLABS_PER_SIZE)
    (hj : j < MAX_SLABS_PER_SIZE) (k : Nat) :
    (pages.swap i j).entry k =
      if k = i then pages.entry j else if k = j then pages.entry i else pages.entry k := by
  unfold swap entry
  by_cases hk : k < MAX_SLABS_PER_SIZE
  · simp only [hi, hj, hk, and_self, ↓reduceDIte, Function.comp_apply, Equiv.swap_apply_def,
      Fin.mk.injEq]
    split_ifs <;> rfl
  · have hki : k ≠ i := by omega
    have hkj : k ≠ j := by omega
    simp [hk, hki, hkj]

/-- The shift moves every entry above `i` down by one and the entry at `i` to the end. -/
theorem entry_shiftDown (pages : PageArray cls) (left i : Nat)
    (h : i + left < MAX_SLABS_PER_SIZE) (k : Nat) :
    (pages.shiftDown left i).entry k =
      if k < i then pages.entry k else if k < i + left then pages.entry (k + 1)
      else if k = i + left then pages.entry i else pages.entry k := by
  induction left generalizing pages i with
  | zero =>
      unfold shiftDown
      split_ifs with _ _ hk
      · rfl
      · omega
      · rw [hk, Nat.add_zero]
      · rfl
  | succ left ih =>
      have hi : i < MAX_SLABS_PER_SIZE := by omega
      have hnext : i + 1 < MAX_SLABS_PER_SIZE := by omega
      unfold shiftDown
      rw [ih (pages.swap i (i + 1)) (i + 1) (by omega)]
      simp only [entry_swap pages hi hnext]
      rcases Nat.lt_trichotomy k i with hbelow | rfl | habove
      · rw [if_pos (by omega : k < i + 1), if_neg hbelow.ne, if_neg (by omega : k ≠ i + 1),
          if_pos hbelow]
      · rw [if_pos (Nat.lt_succ_self k), if_pos rfl, if_neg (lt_irrefl k), if_pos (by omega)]
      · rw [if_neg (by omega : ¬ k < i + 1), if_neg (by omega : ¬ k < i)]
        by_cases hinside : k < i + 1 + left
        · -- the entry from above was not touched by the first swap
          rw [if_pos hinside, if_neg (by omega : k + 1 ≠ i), if_neg (by omega : k + 1 ≠ i + 1),
            if_pos (by omega)]
        · rw [if_neg hinside, if_neg (by omega : ¬ k < i + (left + 1))]
          by_cases hlast : k = i + 1 + left
          · rw [if_pos hlast, if_neg (by omega : i + 1 ≠ i), if_pos trivial, if_pos (by omega)]
          · rw [if_neg hlast, if_neg habove.ne', if_neg (by omega : k ≠ i + 1), if_neg (by omega)]

theorem heldBlocks_swap (pages : PageArray cls) (i j : Nat) :
    (pages.swap i j).heldBlocks = pages.heldBlocks := by
  unfold swap heldBlocks
  split
  · exact Equiv.sum_comp _ fun k ↦ entryBlocks (pages k)
  · rfl

theorem heldBlocks_shiftDown (pages : PageArray cls) (left i : Nat) :
    (pages.shiftDown left i).heldBlocks = pages.heldBlocks := by
  induction left generalizing pages i with
  | zero => rfl
  | succ left ih => exact (ih _ _).trans (heldBlocks_swap _ _ _)

/-- Replacing an entry exchanges its page for the new one. -/
theorem heldBlocks_update (pages : PageArray cls) (i : Fin MAX_SLABS_PER_SIZE)
    (entry : Option (SlabPage cls)) :
    heldBlocks (Function.update pages i entry) + entryBlocks (pages i) =
      pages.heldBlocks + entryBlocks entry :=
  @Tally.tally_update _ _ _ _ (fun _ ↦ entryBlocks) _ pages i entry

end PageArray

/-- `struct SlabCache`, whose `obj_size` is the size of the class. -/
structure SlabCache (cls : SizeClass) where
  pages : PageArray cls
  count : Nat

namespace SlabCache

variable {cls : SizeClass} {σ : Type*} [PageSource σ]

/-- `SlabCache::new`. -/
def new (cls : SizeClass) : SlabCache cls := ⟨fun _ ↦ none, 0⟩

/-- The field `obj_size`. -/
def objSize (_ : SlabCache cls) : Nat := SLAB_SIZES cls

/-- The loop `for i in 0..self.count` that stops at the first page with a property. -/
def findPage (cache : SlabCache cls) (test : SlabPage cls → Bool) :
    Option (Fin MAX_SLABS_PER_SIZE × SlabPage cls) :=
  (List.finRange MAX_SLABS_PER_SIZE).findSome? fun i ↦
    if i.val < cache.count then ((cache.pages i).filter test).map fun page ↦ (i, page) else none

/-- The assignment `self.pages[i] = entry`. -/
def setPage (cache : SlabCache cls) (i : Fin MAX_SLABS_PER_SIZE)
    (entry : Option (SlabPage cls)) : SlabCache cls :=
  { cache with pages := Function.update cache.pages i entry }

/-- `self.pages[self.count] = Some(slab); self.count += 1`. -/
def push (cache : SlabCache cls) (slab : SlabPage cls) (h : cache.count < MAX_SLABS_PER_SIZE) :
    SlabCache cls where
  pages := Function.update cache.pages ⟨cache.count, h⟩ (some slab)
  count := cache.count + 1

/-- `SlabCache::alloc`. -/
def alloc (cache : SlabCache cls) (buddy : σ) : Option Nat × SlabCache cls × σ :=
  match cache.findPage fun page ↦ !page.isFull with
  | some (i, page) =>
      match page.alloc with
      | some (ptr, after) => (some ptr, cache.setPage i (some after), buddy)
      | none => (none, cache, buddy)
  | none =>
      if h : cache.count ≥ MAX_SLABS_PER_SIZE then (none, cache, buddy)
      else
        match PageSource.allocOne buddy with
        | (none, buddy) => (none, cache, buddy)
        | (some pageAddr, buddy) =>
            let slab := SlabPage.new cls pageAddr
            match slab.alloc with
            | some (ptr, after) => (some ptr, cache.push after (Nat.lt_of_not_le h), buddy)
            | none => (none, cache.push slab (Nat.lt_of_not_le h), buddy)

/-- `has_other_empty` of `SlabCache::free`. -/
def hasOtherEmpty (cache : SlabCache cls) (i : Fin MAX_SLABS_PER_SIZE) : Bool :=
  (List.finRange MAX_SLABS_PER_SIZE).any fun j ↦
    decide (j.val < cache.count ∧ j ≠ i) && (cache.pages j).any SlabPage.isEmpty

/-- `SlabCache::compact`. -/
def compact (cache : SlabCache cls) (removed : Nat) : SlabCache cls where
  pages :=
    if removed < cache.count - 1 then cache.pages.shiftDown (cache.count - 1 - removed) removed
    else cache.pages
  count := cache.count - 1

/-- `SlabCache::free`. -/
def free (cache : SlabCache cls) (ptr : Nat) (buddy : σ) : Bool × SlabCache cls × σ :=
  match cache.findPage fun page ↦ page.contains ptr with
  | none => (false, cache, buddy)
  | some (i, page) =>
      let page := (page.free ptr).2
      let cache := cache.setPage i (some page)
      if page.isEmpty && decide (cache.count > 1) then
        if cache.hasOtherEmpty i then
          (true, (cache.setPage i none).compact i, PageSource.freeOne buddy page.base)
        else (true, cache, buddy)
      else (true, cache, buddy)

/-! ## What a call can do -/

@[simp] theorem setPage_count (cache : SlabCache cls) (i : Fin MAX_SLABS_PER_SIZE)
    (entry : Option (SlabPage cls)) : (cache.setPage i entry).count = cache.count := rfl

theorem findPage_eq_some {cache : SlabCache cls} {test : SlabPage cls → Bool}
    {i : Fin MAX_SLABS_PER_SIZE} {page : SlabPage cls} (h : cache.findPage test = some (i, page)) :
    i.val < cache.count ∧ cache.pages i = some page ∧ test page = true := by
  obtain ⟨k, -, hk⟩ := List.exists_of_findSome?_eq_some h
  simp only [Option.ite_none_right_eq_some, Option.map_eq_some_iff, Option.filter_eq_some_iff,
    Prod.mk.injEq] at hk
  obtain ⟨hlt, found, ⟨hpage, htest⟩, rfl, rfl⟩ := hk
  exact ⟨hlt, hpage, htest⟩

theorem findPage_eq_none {cache : SlabCache cls} {test : SlabPage cls → Bool}
    (h : cache.findPage test = none) {i : Fin MAX_SLABS_PER_SIZE} {page : SlabPage cls}
    (hi : i.val < cache.count) (hpage : cache.pages i = some page) : test page = false := by
  have hall := List.findSome?_eq_none_iff.mp h i (List.mem_finRange i)
  simpa [hi, hpage] using hall

/-- A slab page was taken from the page source because every held page is full. -/
structure Grown (cache : SlabCache cls) (buddy : σ) (ptr : Nat) (next : SlabCache cls × σ) :
    Prop where
  full : ∀ i page, i.val < cache.count → cache.pages i = some page → page.isFull = true
  grows : ∃ (hcount : cache.count < MAX_SLABS_PER_SIZE) (base : Nat) (after : SlabPage cls),
    PageSource.allocOne buddy = (some base, next.2) ∧
      (SlabPage.new cls base).alloc = some (ptr, after) ∧ next.1 = cache.push after hcount

/-- Everything `alloc` can do: take an object from a held page, grow by a page, or fail and change
nothing because every page is full and there is no room or no page for another. -/
theorem alloc_cases (cache : SlabCache cls) (buddy : σ) :
    (∃ i page ptr after, i.val < cache.count ∧ cache.pages i = some page ∧
      page.alloc = some (ptr, after) ∧
      cache.alloc buddy = (some ptr, cache.setPage i (some after), buddy)) ∨
    (∃ ptr next, cache.Grown buddy ptr next ∧ cache.alloc buddy = (some ptr, next)) ∨
    ((∀ i page, i.val < cache.count → cache.pages i = some page → page.isFull = true) ∧
      (cache.count ≥ MAX_SLABS_PER_SIZE ∨ (PageSource.allocOne buddy).1 = none) ∧
      cache.alloc buddy = (none, cache, buddy)) := by
  unfold alloc
  cases hfind : cache.findPage fun page ↦ !page.isFull with
  | some found =>
      obtain ⟨i, page⟩ := found
      obtain ⟨hi, hpage, hfull⟩ := findPage_eq_some hfind
      obtain ⟨⟨ptr, after⟩, halloc⟩ :=
        Option.ne_none_iff_exists'.mp (SlabPage.alloc_ne_none (by simpa using hfull))
      exact Or.inl ⟨i, page, ptr, after, hi, hpage, halloc, by simp [halloc]⟩
  | none =>
      have hfull : ∀ i page, i.val < cache.count → cache.pages i = some page →
          page.isFull = true := by
        intro i page hi hpage
        simpa using findPage_eq_none hfind hi hpage
      refine Or.inr ?_
      by_cases hcount : cache.count ≥ MAX_SLABS_PER_SIZE
      · exact Or.inr ⟨hfull, Or.inl hcount, by simp [hcount]⟩
      · simp only [hcount, ↓reduceDIte]
        rcases hcall : PageSource.allocOne buddy with ⟨_ | base, after⟩
        · have hsame : after = buddy := by
            have hnone := PageSource.allocPages_none buddy 0 (congrArg Prod.fst hcall)
            exact (congrArg Prod.snd hcall).symm.trans hnone
          exact Or.inr ⟨hfull, Or.inr rfl, by rw [hsame]⟩
        · obtain ⟨⟨ptr, slab⟩, halloc⟩ :=
            Option.ne_none_iff_exists'.mp (SlabPage.alloc_new_ne_none cls base)
          refine Or.inl ⟨ptr, (cache.push slab (Nat.lt_of_not_le hcount), after),
            ⟨hfull, Nat.lt_of_not_le hcount, base, slab, hcall, halloc, rfl⟩, ?_⟩
          simp [halloc]

/-- An allocation gives no page back. -/
theorem alloc_returned (cache : SlabCache cls) (log : Logged σ) :
    (cache.alloc log).2.2.returned = log.returned := by
  rcases cache.alloc_cases log with
    ⟨i, page, ptr, after, -, -, -, heq⟩ | ⟨ptr, next, ⟨-, -, base, -, hcall, -⟩, heq⟩ | ⟨-, -, heq⟩
  · rw [heq]
  · rw [heq]
    exact (Logged.allocOne_record hcall).1
  · rw [heq]

/-- Another held page is empty. -/
def OtherEmpty (cache : SlabCache cls) (i : Fin MAX_SLABS_PER_SIZE) : Prop :=
  ∃ j page, j.val < cache.count ∧ j ≠ i ∧ cache.pages j = some page ∧ page.isEmpty = true

theorem hasOtherEmpty_setPage {cache : SlabCache cls} {i : Fin MAX_SLABS_PER_SIZE}
    {entry : Option (SlabPage cls)} :
    (cache.setPage i entry).hasOtherEmpty i = true ↔ cache.OtherEmpty i := by
  unfold hasOtherEmpty OtherEmpty setPage
  simp only [List.any_eq_true, List.mem_finRange, true_and, Bool.and_eq_true, decide_eq_true_eq,
    Option.any_eq_true]
  constructor
  · intro hcase
    obtain ⟨j, ⟨hj, hne⟩, page, hpage, hempty⟩ := hcase
    rw [Function.update_of_ne hne] at hpage
    exact ⟨j, page, hj, hne, hpage, hempty⟩
  · intro hcase
    obtain ⟨j, page, hj, hne, hpage, hempty⟩ := hcase
    exact ⟨j, ⟨hj, hne⟩, page, by rwa [Function.update_of_ne hne], hempty⟩

/-- Everything `free` can do: report that no held page contains the address, clear the slot, or
clear the slot and give the page back because it and another page are empty. -/
theorem free_cases (cache : SlabCache cls) (ptr : Nat) (buddy : σ) :
    ((∀ i page, i.val < cache.count → cache.pages i = some page → page.contains ptr = false) ∧
      cache.free ptr buddy = (false, cache, buddy)) ∨
    ∃ i page, i.val < cache.count ∧ cache.pages i = some page ∧ page.contains ptr = true ∧
      (((page.free ptr).2.isEmpty = true → ¬ cache.OtherEmpty i) ∧
        cache.free ptr buddy = (true, cache.setPage i (some (page.free ptr).2), buddy) ∨
      (page.free ptr).2.isEmpty = true ∧ cache.OtherEmpty i ∧
        cache.free ptr buddy =
          (true, (cache.setPage i none).compact i, PageSource.freeOne buddy page.base)) := by
  unfold free
  cases hfind : cache.findPage fun page ↦ page.contains ptr with
  | none => exact Or.inl ⟨fun i page hi hpage ↦ findPage_eq_none hfind hi hpage, rfl⟩
  | some found =>
      obtain ⟨i, page⟩ := found
      obtain ⟨hi, hpage, hcontains⟩ := findPage_eq_some hfind
      refine Or.inr ⟨i, page, hi, hpage, hcontains, ?_⟩
      -- the release overwrites the entry with the cleared slot
      have hclear : (cache.setPage i (some (page.free ptr).2)).setPage i none =
          cache.setPage i none := by
        simp [setPage]
      by_cases hempty : (page.free ptr).2.isEmpty = true
      · by_cases hother : cache.OtherEmpty i
        · -- another empty page is a second page, so the test of the count passes
          have hcount : (cache.setPage i (some (page.free ptr).2)).count > 1 := by
            obtain ⟨j, q, hj, hne, -, -⟩ := hother
            have hval : j.val ≠ i.val := fun h ↦ hne (Fin.ext h)
            show cache.count > 1
            omega
          refine Or.inr ⟨hempty, hother, ?_⟩
          simp only [hempty, hcount, decide_true, Bool.and_self, ↓reduceIte,
            hasOtherEmpty_setPage.mpr hother, hclear, SlabPage.free_base]
        · have hnone : (cache.setPage i (some (page.free ptr).2)).hasOtherEmpty i = false := by
            rw [Bool.eq_false_iff]
            exact fun h ↦ hother (hasOtherEmpty_setPage.mp h)
          refine Or.inl ⟨fun _ ↦ hother, ?_⟩
          simp [hnone]
      · refine Or.inl ⟨fun h ↦ absurd h hempty, ?_⟩
        simp [hempty]

/-- `compact` closes the gap at `removed`; the entry there ends up behind the others. -/
theorem entry_compact (cache : SlabCache cls) {removed : Nat} (h : removed < cache.count)
    (hcount : cache.count ≤ MAX_SLABS_PER_SIZE) (k : Nat) :
    (cache.compact removed).pages.entry k =
      if k < removed then cache.pages.entry k
      else if k < cache.count - 1 then cache.pages.entry (k + 1)
      else if k = cache.count - 1 then cache.pages.entry removed
      else cache.pages.entry k := by
  unfold compact
  by_cases hlast : removed < cache.count - 1
  · rw [if_pos hlast, PageArray.entry_shiftDown _ _ _ (by omega)]
    split_ifs <;> first | rfl | omega
  · rw [if_neg hlast]
    split_ifs with _ _ hk
    · rfl
    · omega
    · rw [hk, show cache.count - 1 = removed by omega]
    · rfl

theorem heldBlocks_compact (cache : SlabCache cls) (removed : Nat) :
    (cache.compact removed).pages.heldBlocks = cache.pages.heldBlocks := by
  unfold compact
  split
  · exact PageArray.heldBlocks_shiftDown _ _ _
  · rfl

theorem entry_setPage (cache : SlabCache cls) (i : Fin MAX_SLABS_PER_SIZE)
    (value : Option (SlabPage cls)) (k : Nat) :
    (cache.setPage i value).pages.entry k = if k = i then value else cache.pages.entry k := by
  unfold setPage PageArray.entry
  by_cases hk : k < MAX_SLABS_PER_SIZE
  · by_cases hki : k = i.val
    · subst hki
      simp
    · have hne : (⟨k, hk⟩ : Fin MAX_SLABS_PER_SIZE) ≠ i := fun heq ↦ hki (congrArg Fin.val heq)
      simp [hk, hki, Function.update_of_ne hne]
  · have hki : k ≠ i.val := by omega
    simp [hk, hki]

/-! ## Held pages -/

/-- The page is the one held at this index. -/
def HeldAt (cache : SlabCache cls) (i : Fin MAX_SLABS_PER_SIZE) (page : SlabPage cls) : Prop :=
  i.val < cache.count ∧ cache.pages i = some page

theorem heldAt_setPage {cache : SlabCache cls} {i k : Fin MAX_SLABS_PER_SIZE}
    {after page : SlabPage cls} (hi : i.val < cache.count) :
    (cache.setPage i (some after)).HeldAt k page ↔
      if k = i then page = after else cache.HeldAt k page := by
  unfold HeldAt
  split
  · rename_i hk
    subst hk
    simp [setPage, hi, eq_comm]
  · rename_i hk
    simp [setPage, Function.update_of_ne hk]

theorem heldAt_push {cache : SlabCache cls} {slab page : SlabPage cls}
    (h : cache.count < MAX_SLABS_PER_SIZE) {k : Fin MAX_SLABS_PER_SIZE} :
    (cache.push slab h).HeldAt k page ↔
      (k = ⟨cache.count, h⟩ ∧ page = slab) ∨ cache.HeldAt k page := by
  unfold HeldAt push
  by_cases hk : k = ⟨cache.count, h⟩
  · subst hk
    simp [eq_comm]
  · have hval : k.val ≠ cache.count := fun heq ↦ hk (Fin.ext heq)
    simp only [Function.update_of_ne hk, hk, false_and, false_or]
    exact and_congr_left fun _ ↦ by omega

/-- Closing the gap at `i` moves the pages behind it down by one. -/
theorem heldAt_release {cache : SlabCache cls} (hcount : cache.count ≤ MAX_SLABS_PER_SIZE)
    {i k : Fin MAX_SLABS_PER_SIZE} {page : SlabPage cls} (hi : i.val < cache.count)
    (h : ((cache.setPage i none).compact i).HeldAt k page) :
    ∃ old, cache.HeldAt old page ∧ old.val = if k.val < i.val then k.val else k.val + 1 := by
  obtain ⟨hk, hpage⟩ := h
  have hkc : k.val < cache.count - 1 := hk
  rw [← PageArray.entry_val ((cache.setPage i none).compact i).pages k,
    entry_compact (cache.setPage i none) hi hcount] at hpage
  simp only [entry_setPage, setPage_count] at hpage
  by_cases hlt : k.val < i.val
  · rw [if_pos hlt, if_neg (by omega), PageArray.entry_val] at hpage
    exact ⟨k, ⟨by omega, hpage⟩, by rw [if_pos hlt]⟩
  · have hnext : k.val + 1 < MAX_SLABS_PER_SIZE := by omega
    rw [if_neg hlt, if_pos hkc, if_neg (by omega)] at hpage
    refine ⟨⟨k.val + 1, hnext⟩, ⟨by simp only; omega, ?_⟩, by rw [if_neg hlt]⟩
    rwa [← PageArray.entry_val cache.pages ⟨k.val + 1, hnext⟩]

/-- Closing the gap at `i` keeps every other page. -/
theorem heldAt_release_of_ne {cache : SlabCache cls} (hcount : cache.count ≤ MAX_SLABS_PER_SIZE)
    {i old : Fin MAX_SLABS_PER_SIZE} {page : SlabPage cls} (hi : i.val < cache.count)
    (hne : old ≠ i) (h : cache.HeldAt old page) :
    ∃ k, ((cache.setPage i none).compact i).HeldAt k page := by
  obtain ⟨hold, hpage⟩ := h
  have hval : old.val ≠ i.val := fun heq ↦ hne (Fin.ext heq)
  rw [← PageArray.entry_val cache.pages old] at hpage
  have hk : (if old.val < i.val then old.val else old.val - 1) < MAX_SLABS_PER_SIZE := by
    split_ifs <;> omega
  refine ⟨⟨_, hk⟩, ?_, ?_⟩
  · show (if old.val < i.val then old.val else old.val - 1) < cache.count - 1
    split_ifs <;> omega
  · rw [← PageArray.entry_val ((cache.setPage i none).compact i).pages ⟨_, hk⟩,
      entry_compact (cache.setPage i none) hi hcount]
    simp only [entry_setPage, setPage_count]
    by_cases hlt : old.val < i.val
    · simp only [hlt, ↓reduceIte, hval]
      exact hpage
    · have hback : old.val - 1 + 1 = old.val := by omega
      have hnot : ¬ old.val - 1 < i.val := by omega
      have hmid : old.val - 1 < cache.count - 1 := by omega
      simp only [hlt, ↓reduceIte, hnot, hmid, hback, hval]
      exact hpage

/-! ## Held objects -/

/-- The address is that of an allocated slot of a held page. -/
def Holds (cache : SlabCache cls) (addr : Nat) : Prop :=
  ∃ k page, cache.HeldAt k page ∧ page.Holds addr

/-- The address is that of an allocated slot of a held page other than the one at `i`. -/
def HoldsBeside (cache : SlabCache cls) (i : Fin MAX_SLABS_PER_SIZE) (addr : Nat) : Prop :=
  ∃ k page, k ≠ i ∧ cache.HeldAt k page ∧ page.Holds addr

theorem holds_iff {cache : SlabCache cls} {i : Fin MAX_SLABS_PER_SIZE} {page : SlabPage cls}
    (h : cache.HeldAt i page) {addr : Nat} :
    cache.Holds addr ↔ page.Holds addr ∨ cache.HoldsBeside i addr := by
  constructor
  · intro hcase
    obtain ⟨k, p, hk, hp⟩ := hcase
    by_cases hki : k = i
    · subst hki
      obtain rfl : page = p := Option.some.inj (h.2.symm.trans hk.2)
      exact Or.inl hp
    · exact Or.inr ⟨k, p, hki, hk, hp⟩
  · intro hcase
    rcases hcase with hp | ⟨k, p, -, hk, hp⟩
    · exact ⟨i, page, h, hp⟩
    · exact ⟨k, p, hk, hp⟩

theorem holds_setPage {cache : SlabCache cls} {i : Fin MAX_SLABS_PER_SIZE}
    {after : SlabPage cls} (hi : i.val < cache.count) {addr : Nat} :
    (cache.setPage i (some after)).Holds addr ↔ after.Holds addr ∨ cache.HoldsBeside i addr := by
  constructor
  · intro hcase
    obtain ⟨k, p, hk, hp⟩ := hcase
    rw [heldAt_setPage hi] at hk
    split_ifs at hk with hki
    · exact Or.inl (hk ▸ hp)
    · exact Or.inr ⟨k, p, hki, hk, hp⟩
  · intro hcase
    rcases hcase with hp | ⟨k, p, hki, hk, hp⟩
    · exact ⟨i, after, (heldAt_setPage hi).mpr (by rw [if_pos rfl]), hp⟩
    · exact ⟨k, p, (heldAt_setPage hi).mpr (by rwa [if_neg hki]), hp⟩

theorem holds_push {cache : SlabCache cls} {slab : SlabPage cls}
    (h : cache.count < MAX_SLABS_PER_SIZE) {addr : Nat} :
    (cache.push slab h).Holds addr ↔ slab.Holds addr ∨ cache.Holds addr := by
  constructor
  · intro hcase
    obtain ⟨k, p, hk, hp⟩ := hcase
    rcases (heldAt_push h).mp hk with ⟨-, rfl⟩ | hk
    · exact Or.inl hp
    · exact Or.inr ⟨k, p, hk, hp⟩
  · intro hcase
    rcases hcase with hp | ⟨k, p, hk, hp⟩
    · exact ⟨_, slab, (heldAt_push h).mpr (Or.inl ⟨rfl, rfl⟩), hp⟩
    · exact ⟨k, p, (heldAt_push h).mpr (Or.inr hk), hp⟩

theorem holds_release {cache : SlabCache cls} (hcount : cache.count ≤ MAX_SLABS_PER_SIZE)
    {i : Fin MAX_SLABS_PER_SIZE} (hi : i.val < cache.count) {addr : Nat} :
    ((cache.setPage i none).compact i).Holds addr ↔ cache.HoldsBeside i addr := by
  constructor
  · intro hcase
    obtain ⟨k, p, hk, hp⟩ := hcase
    obtain ⟨old, hold, hval⟩ := heldAt_release hcount hi hk
    refine ⟨old, p, ?_, hold, hp⟩
    intro heq
    subst heq
    split_ifs at hval <;> omega
  · intro hcase
    obtain ⟨old, p, hne, hold, hp⟩ := hcase
    obtain ⟨k, hk⟩ := heldAt_release_of_ne hcount hi hne hold
    exact ⟨k, p, hk, hp⟩

end SlabCache

end Avaria.Mm
