import Avaria.Mem.Exhaustion
import Avaria.Mm.SlabAccounting
import Avaria.Mm.SlabLayout
import Mathlib.Logic.Function.Iterate

/-!
# The allocation benchmark

The loops of the module `memtest`, which allocate an object and free it at once. A cache keeps one
empty page, so that such a loop does not take the same page from the page source again and again.

`Sound.round_quiet` and `Sound.round_grow` say what a round does: it leaves the heap as it was, or
it gives the class of the object a page that stays. From them, `memtest_settles`: a million rounds
do what the first ones do.
-/

namespace Avaria.Mm

/-! ## Freeing the last object -/

namespace SlabPage

variable {cls : SizeClass} {page after : SlabPage cls} {ptr : Nat}

/-- Pages at one address with the same slots in use are the same. -/
theorem eq_of_used (hbase : page.base = after.base) (hused : ∀ i, page.used i = after.used i) :
    page = after := by
  obtain ⟨base, bitmap⟩ := page
  obtain ⟨otherBase, other⟩ := after
  obtain rfl : base = otherBase := hbase
  congr 1
  refine funext fun word ↦ BitVec.eq_of_getLsbD_eq fun j hj ↦ ?_
  have hword := hused (word * 64 + j)
  rwa [used_word _ _ hj, used_word _ _ hj] at hword

/-- Freeing the object that was just handed out restores the page. -/
theorem free_alloc (hfits : page.base + PAGE_SIZE < 2 ^ 64)
    (h : page.alloc = some (ptr, after)) :
    after.extent.Contains ptr ∧ (after.free ptr).2 = page := by
  obtain ⟨hbase, hnew, hholds⟩ := holds_alloc hfits h
  obtain ⟨i, hi, hclear, hptr, -, hused⟩ := alloc_eq_some h
  have hptr' : after.Holds ptr := (hholds ptr).mpr (Or.inr rfl)
  have hfits' : after.base + PAGE_SIZE < 2 ^ 64 := by rwa [hbase]
  refine ⟨hptr'.extent_contains, eq_of_used (by rw [free_base, hbase]) fun j ↦ ?_⟩
  have hwithin := page.slot_within hi
  have hindex : (ptr - after.base) / after.objSize = i := by
    simp only [Extent.Within, extent] at hwithin
    rw [hptr, usize_eq (by omega), hbase, slotAddr, Nat.add_sub_cancel_left]
    exact Nat.mul_div_cancel _ page.capacity_eq.2.2.2
  rw [used_free ((contains_iff hfits').mpr hptr'.extent_contains), hindex, hused]
  by_cases hj : j = i
  · simp [hj, hclear]
  · simp [hj]

end SlabPage

/-! ## One empty page in a class -/

namespace SlabCache

variable {cls : SizeClass} {σ : Type*} [PageSource σ]

/-- A cache does the same over a page source that is logged. -/
theorem alloc_logged (cache : SlabCache cls) (log : Logged σ) :
    (cache.alloc log).2.1 = (cache.alloc log.source).2.1 := by
  have hsource : PageSource.allocOne log.source =
      ((PageSource.allocOne log).1, (PageSource.allocOne log).2.source) := log.allocPages_source 0
  unfold alloc
  rw [hsource]
  cases cache.findPage fun page ↦ !page.isFull with
  | some found =>
      dsimp only
      cases found.2.alloc <;> rfl
  | none =>
      dsimp only
      by_cases hcount : cache.count ≥ MAX_SLABS_PER_SIZE
      · rw [dif_pos hcount, dif_pos hcount]
      · rw [dif_neg hcount, dif_neg hcount]
        rcases PageSource.allocOne log with ⟨_ | base, after⟩
        · rfl
        · dsimp only
          cases (SlabPage.new cls base).alloc <;> rfl

theorem free_logged (cache : SlabCache cls) (ptr : Nat) (log : Logged σ) :
    (cache.free ptr log).2.1 = (cache.free ptr log.source).2.1 := by
  unfold free
  split
  · rfl
  · dsimp only
    split
    · split <;> rfl
    · rfl

/-- The cache is one that an account fits: its held pages are the first entries, and at most one of
them is empty. -/
def Accounted (σ : Type*) (cache : SlabCache cls) : Prop :=
  ∃ log : Logged σ, CacheRun.Accounted ⟨cache, log⟩

theorem Accounted.alloc {cache : SlabCache cls} (h : cache.Accounted σ) (buddy : σ) :
    (cache.alloc buddy).2.1.Accounted σ := by
  obtain ⟨log, hlog⟩ := h
  have hmoved : CacheRun.Accounted ⟨cache, { log with source := buddy }⟩ :=
    ⟨hlog.count_le, hlog.filled, hlog.one_empty, hlog.balance⟩
  have hstep : CacheRun.step ⟨cache, { log with source := buddy }⟩ .alloc = some _ := rfl
  have hnext := hmoved.step hstep
  rw [alloc_logged] at hnext
  exact ⟨_, hnext⟩

theorem Accounted.free {cache : SlabCache cls} (h : cache.Accounted σ) (ptr : Nat) (buddy : σ) :
    (cache.free ptr buddy).2.1.Accounted σ := by
  obtain ⟨log, hlog⟩ := h
  have hmoved : CacheRun.Accounted ⟨cache, { log with source := buddy }⟩ :=
    ⟨hlog.count_le, hlog.filled, hlog.one_empty, hlog.balance⟩
  have hstep : CacheRun.step ⟨cache, { log with source := buddy }⟩ (.free ptr) = some _ := rfl
  have hnext := hmoved.step hstep
  rw [free_logged] at hnext
  exact ⟨_, hnext⟩

end SlabCache

namespace SlabAllocator

variable {σ : Type*} [PageSource σ] {slab : SlabAllocator} {cls : SizeClass}

theorem setCache_setCache (slab : SlabAllocator) (cls : SizeClass) (cache other : SlabCache cls) :
    (slab.setCache cls cache).setCache cls other = slab.setCache cls other := by
  rw [setCache, setCache, Function.update_idem, setCache]

/-- The pages are laid out, and each class has at most one that is empty. -/
structure Tidy (σ : Type*) (slab : SlabAllocator) : Prop where
  layout : slab.Layout
  accounted : ∀ cls, (slab.caches cls).Accounted σ

omit [PageSource σ] in
theorem tidy_new (source : σ) : new.Tidy σ :=
  ⟨layout_new, fun _ ↦ ⟨_, CacheRun.accounted_start source⟩⟩

theorem Tidy.alloc (h : slab.Tidy σ) (size : Nat) (buddy : σ)
    (hfresh : slab.FreshPage (PageSource.allocOne buddy).1) :
    (slab.alloc size buddy).2.1.Tidy σ := by
  refine ⟨?_, ?_⟩
  · rcases h.layout.alloc_spec size buddy hfresh with
      heq | ⟨cls, ptr, next, after, -, heq, hallocated⟩ <;> rw [heq]
    · exact h.layout
    · exact hallocated.layout
  · unfold SlabAllocator.alloc
    split
    · exact h.accounted
    · exact forall_setCache (P := fun _ cache ↦ cache.Accounted σ) h.accounted
        ((h.accounted _).alloc buddy)

theorem Tidy.free (h : slab.Tidy σ) (ptr : Nat) (buddy : σ) : (slab.free ptr buddy).2.1.Tidy σ := by
  refine ⟨?_, ?_⟩
  · rcases slab.free_cases ptr buddy with
      ⟨-, heq⟩ | ⟨cls, k, page, hheld, -, heq | ⟨-, heq⟩⟩ <;> rw [heq]
    · exact h.layout
    · exact h.layout.setPage hheld (SlabPage.free_base page ptr)
    · exact h.layout.release hheld.1
  · unfold SlabAllocator.free
    rcases slab.freeFrom_cases ptr buddy (List.finRange 8) with
      ⟨-, heq⟩ | ⟨cls, -, cache, after, hfree, heq⟩ <;> rw [heq]
    · exact h.accounted
    · have hcache := (h.accounted cls).free ptr buddy
      rw [hfree] at hcache
      exact forall_setCache (P := fun _ cache ↦ cache.Accounted σ) h.accounted hcache

/-- An allocation fails for lack of room or of a page. -/
theorem exhausted_of_alloc {size : Nat} (hclass : classFor size = some cls) {buddy : σ}
    (h : (slab.alloc size buddy).1 = none) :
    MAX_SLABS_PER_SIZE ≤ (slab.caches cls).count ∨ (PageSource.allocOne buddy).1 = none := by
  have hcache : ((slab.caches cls).alloc buddy).1 = none := by
    unfold SlabAllocator.alloc at h
    rwa [hclass] at h
  rcases (slab.caches cls).alloc_cases buddy with
    ⟨_, _, _, _, -, -, -, heq⟩ | ⟨_, _, -, heq⟩ | ⟨-, hnone, -⟩
  · rw [heq] at hcache
    cases hcache
  · rw [heq] at hcache
    cases hcache
  · exact hnone

/-- Freeing an address in a held page clears its slot, when the page stays in use or no other page
of its class is empty. -/
theorem Layout.free_held (h : slab.Layout) {k : Fin MAX_SLABS_PER_SIZE} {page : SlabPage cls}
    (hheld : slab.HeldAt k page) {ptr : Nat} (hptr : page.extent.Contains ptr)
    (hkept : (page.free ptr).2.isEmpty = true → ¬ (slab.caches cls).OtherEmpty k) (buddy : σ) :
    slab.free ptr buddy =
      (true, slab.setCache cls ((slab.caches cls).setPage k (some (page.free ptr).2)), buddy) := by
  have hcontains := (SlabPage.contains_iff (h.fits hheld)).mpr hptr
  unfold SlabAllocator.free
  rcases slab.freeFrom_cases ptr buddy (List.finRange 8) with
    ⟨hnone, -⟩ | ⟨found, -, cache, after, hfree, heq⟩
  · rw [hnone cls (List.mem_finRange cls) k page hheld] at hcontains
    cases hcontains
  rcases (slab.caches found).free_cases ptr buddy with
    ⟨-, hcall⟩ | ⟨i, other, hi, hpage, hin, hcall⟩
  · rw [hcall] at hfree
    cases hfree
  -- the page that the search found is the page that contains the address
  obtain ⟨rfl, rfl⟩ := h.unique hheld ⟨hi, hpage⟩ hptr
    ((SlabPage.contains_iff (h.fits ⟨hi, hpage⟩)).mp hin)
  obtain rfl : other = page := Option.some.inj (hpage.symm.trans hheld.2)
  rcases hcall with ⟨-, hcall⟩ | ⟨hempty, hother, -⟩
  · rw [hcall] at hfree
    cases hfree
    exact heq
  · exact absurd hother (hkept hempty)

/-- An object of a held page, freed at once, leaves the allocator as it was. -/
theorem Tidy.free_taken (h : slab.Tidy σ) {k : Fin MAX_SLABS_PER_SIZE} {page after : SlabPage cls}
    {ptr : Nat} (hheld : slab.HeldAt k page) (halloc : page.alloc = some (ptr, after))
    (buddy : σ) :
    (slab.setCache cls ((slab.caches cls).setPage k (some after))).free ptr buddy =
      (true, slab, buddy) := by
  obtain ⟨hin, hrestored⟩ := SlabPage.free_alloc (h.layout.fits hheld) halloc
  obtain ⟨-, -, -, -, hbase, -⟩ := SlabPage.alloc_eq_some halloc
  have hlayout := h.layout.setPage hheld hbase
  have hnext : (slab.setCache cls ((slab.caches cls).setPage k (some after))).HeldAt k after := by
    rw [heldAt_setCache_self, SlabCache.heldAt_setPage hheld.1, if_pos rfl]
  rw [hlayout.free_held hnext hin, hrestored, setCache_self, setCache_setCache]
  · have hcache : ((slab.caches cls).setPage k (some after)).setPage k (some page) =
        slab.caches cls := by
      rw [SlabCache.setPage, SlabCache.setPage, Function.update_idem, ← hheld.2,
        Function.update_eq_self]
    rw [hcache, setCache_caches]
  · -- two empty pages after the free were two empty pages before the allocation
    rw [hrestored, setCache_self]
    intro hempty hother
    obtain ⟨j, other, hj, hne, hpage, hotherEmpty⟩ := hother
    obtain ⟨log, hlog⟩ := h.accounted cls
    have hbefore : (slab.caches cls).pages j = some other :=
      (Function.update_of_ne hne _ _).symm.trans hpage
    exact hne (hlog.one_empty j k other page hbefore hheld.2 hotherEmpty hempty)

/-- The first object of a new page, freed at once, leaves the page in its class. -/
theorem Grown.free_taken (h : slab.Layout) {buddy after : σ} {base ptr : Nat}
    {next : SlabAllocator} (hgrown : slab.Grown cls buddy base ptr next after)
    (hfresh : slab.FreshPage (some base)) :
    ∃ hcount : (slab.caches cls).count < MAX_SLABS_PER_SIZE,
      next.free ptr after =
        (true, slab.setCache cls ((slab.caches cls).push (.new cls base) hcount), after) := by
  obtain ⟨hfull, -, hcount, page, halloc, rfl⟩ := hgrown
  obtain ⟨hin, hrestored⟩ := SlabPage.free_alloc (hfresh base rfl).1 halloc
  obtain ⟨-, -, -, -, hbase, -⟩ := SlabPage.alloc_eq_some halloc
  have hlayout := h.push hbase hfresh hcount
  have hnext : (slab.setCache cls ((slab.caches cls).push page hcount)).HeldAt
      ⟨(slab.caches cls).count, hcount⟩ page := by
    rw [heldAt_setCache_self, SlabCache.heldAt_push]
    exact Or.inl ⟨rfl, rfl⟩
  refine ⟨hcount, ?_⟩
  rw [hlayout.free_held hnext hin, hrestored, setCache_self, setCache_setCache]
  · rw [SlabCache.setPage, SlabCache.push, Function.update_idem]
    rfl
  · -- the other pages of the class are full
    rw [setCache_self]
    intro _ hother
    obtain ⟨j, other, hj, hne, hpage, hempty⟩ := hother
    have hheld : ((slab.caches cls).push page hcount).HeldAt j other := ⟨hj, hpage⟩
    rcases (SlabCache.heldAt_push hcount).mp hheld with ⟨hsame, -⟩ | hold
    · exact hne hsame
    · rw [SlabPage.isEmpty_of_isFull (hfull j other hold)] at hempty
      cases hempty

end SlabAllocator

end Avaria.Mm

namespace Avaria.Mem

open Transition Mm

/-! ## The loops -/

/-- `ITERS`. -/
def ITERS : Nat := 1000000

namespace Heap

/-- The body of the loops: allocate, and free what was allocated. -/
def round (heap : Heap BuddyAllocator) (size : Nat) : Heap BuddyAllocator :=
  let result := heap.kmalloc size
  if result.1 ≠ 0 then result.2.kfree result.1 size else result.2

/-- The loop of `bench_slab`. -/
def benchSlab (heap : Heap BuddyAllocator) (size : Nat) : Heap BuddyAllocator :=
  (fun heap ↦ heap.round size)^[ITERS] heap

/-- The loop of `bench_mixed`. -/
def benchMixed (heap : Heap BuddyAllocator) : Heap BuddyAllocator :=
  (List.range ITERS).foldl (fun heap i ↦ heap.round (16 + i % 8 * 32)) heap

/-- Rounds of some sizes. -/
def rounds (heap : Heap BuddyAllocator) (sizes : List Nat) : Heap BuddyAllocator :=
  sizes.foldl round heap

/-- The first eight sizes of `bench_mixed`. -/
def mixedSizes : List Nat := (List.range 8).map fun i ↦ 16 + i % 8 * 32

/-- The page that the page source hands out next is separate from the slab pages. -/
def FreshNext (heap : Heap BuddyAllocator) : Prop :=
  heap.slab.FreshPage (PageSource.allocOne heap.buddy).1

instance (heap : Heap BuddyAllocator) : Decidable heap.FreshNext :=
  inferInstanceAs (Decidable (SlabAllocator.FreshPage _ _))

/-- The slab allocator serves the size, and its class is not at the limit of its pages. -/
def HasRoom (heap : Heap BuddyAllocator) (size : Nat) : Prop :=
  0 < size ∧ ∃ cls, classFor size = some cls ∧
    (heap.slab.Full cls → (heap.slab.caches cls).count < MAX_SLABS_PER_SIZE)

/-- The slab pages are tidy and in the region. -/
structure Sound (base bytes : Nat) (heap : Heap BuddyAllocator) : Prop where
  region : InRegion base bytes heap
  tidy : heap.slab.Tidy BuddyAllocator

variable {base bytes : Nat} {heap : Heap BuddyAllocator}

theorem Sound.kmalloc (h : Sound base bytes heap) (hregion : base + bytes ≤ 2 ^ 64)
    (hfresh : heap.FreshNext) (size : Nat) : Sound base bytes (heap.kmalloc size).2 := by
  refine ⟨h.region.kmalloc hregion size, ?_⟩
  show (heap.kmallocWith size).2.slab.Tidy BuddyAllocator
  by_cases hzero : size = 0
  · subst hzero
    exact h.tidy
  rcases heap.kmallocWith_cases hzero with ⟨ptr, slab, buddy, -, hcall, heq⟩ | heq <;> rw [heq]
  · have hslab := h.tidy.alloc size heap.buddy hfresh
    rwa [hcall] at hslab
  · rcases heap.allocOrder_cases (orderFor size) with ⟨_, _, -, heq⟩ | ⟨-, heq⟩ <;> rw [heq]
    · exact h.tidy
    · exact h.tidy

theorem Sound.kfree (h : Sound base bytes heap) (ptr size : Nat) :
    Sound base bytes (heap.kfree ptr size) := by
  refine ⟨h.region.kfree ptr size, ?_⟩
  have hslab := h.tidy.free ptr heap.buddy
  unfold Heap.kfree
  split
  · exact h.tidy
  split
  · rcases hcall : heap.slab.free ptr heap.buddy with ⟨_ | _, slab, buddy⟩ <;> rw [hcall] at hslab
    · exact hslab
    · exact hslab
  · exact h.tidy

/-- The invariant holds after calls for which the page source hands out separate pages. -/
theorem sound_of_reachable (hregion : base + bytes ≤ 2 ^ 64)
    (h : Reachable (restrict Heap.serve fun heap _ ↦ heap.FreshNext) (init base bytes) heap) :
    Sound base bytes heap := by
  refine h.invariant (P := Sound base bytes)
    ⟨inRegion_init, SlabAllocator.tidy_new (BuddyAllocator.init base bytes)⟩ ?_
  intro state request next hsound hstep
  obtain ⟨hfresh, hserve⟩ := restrict_eq_some.mp hstep
  cases request with
  | kmalloc size =>
      cases hserve
      exact hsound.kmalloc hregion hfresh size
  | kfree ptr size =>
      cases hserve
      exact hsound.kfree ptr size

/-! ## Rounds -/

/-- A round of the size takes no page: its class has an object, or there is no page. -/
def Quiet (heap : Heap BuddyAllocator) (size : Nat) : Prop :=
  ∃ cls, classFor size = some cls ∧
    (heap.slab.Full cls → (PageSource.allocOne heap.buddy).1 = none)

theorem HasRoom.small {size : Nat} (h : heap.HasRoom size) : size ≤ 2048 := by
  obtain ⟨-, cls, hclass, -⟩ := h
  refine Nat.not_lt.mp fun hlarge ↦ ?_
  rw [classFor_eq_none.mpr hlarge] at hclass
  cases hclass

/-- A round in which the slab allocator hands out an object and takes it back. -/
theorem round_eq {size ptr : Nat} {slab next : SlabAllocator} {buddy after : BuddyAllocator}
    (hroom : heap.HasRoom size) (hptr : ptr ≠ 0)
    (halloc : heap.slab.alloc size heap.buddy = (some ptr, slab, buddy))
    (hfree : slab.free ptr buddy = (true, next, after)) : heap.round size = ⟨next, after⟩ := by
  have hzero : size ≠ 0 := Nat.ne_of_gt hroom.1
  have hkmalloc : heap.kmalloc size = (ptr, ⟨slab, buddy⟩) := by
    simp [Heap.kmalloc, kmallocWith, hzero, hroom.small, halloc, pointer]
  have hnull : ¬ (ptr = 0 ∨ size = 0) := not_or.mpr ⟨hptr, hzero⟩
  rw [round, hkmalloc, if_pos hptr, Heap.kfree, if_neg hnull, if_pos hroom.small]
  dsimp only
  rw [hfree]

/-- A quiet round leaves the heap as it was. -/
theorem Sound.round_quiet (h : Sound base bytes heap) (hbase : base ≠ 0)
    (hregion : base + bytes ≤ 2 ^ 64) {size : Nat} (hroom : heap.HasRoom size)
    (hquiet : heap.Quiet size) : heap.round size = heap := by
  obtain ⟨cls, hclass, hnone⟩ := hquiet
  rcases heap.slab.alloc_cases hclass heap.buddy with
    ⟨k, page, after, ptr, hheld, halloc, heq⟩ |
      ⟨addr, ptr, next, after, hgrown, -⟩ | ⟨hfull, heq⟩
  · obtain ⟨offset, hoffset, hptr⟩ := SlabAllocator.slot_offset halloc
    have hinside := h.region.pages cls k page hheld
    have hne : ptr ≠ 0 := hptr ▸ usize_ne_zero hbase hregion hinside hoffset
    exact round_eq hroom hne heq (h.tidy.free_taken hheld halloc heap.buddy)
  · have hsome := hnone hgrown.full
    rw [hgrown.call] at hsome
    cases hsome
  · -- the request falls back to a page, and there is none
    have hkmalloc := kmalloc_eq_allocOrder (Nat.ne_of_gt hroom.1) fun _ ↦ heq
    have horder : orderFor size = 0 := orderFor_of_le_page (le_trans hroom.small (by decide))
    have hpages : (PageSource.allocPages heap.buddy 0).1 = none := hnone hfull
    rw [horder] at hkmalloc
    rcases heap.allocOrder_cases 0 with ⟨addr, buddy, hcall, -⟩ | ⟨-, hcall⟩
    · rw [hcall] at hpages
      cases hpages
    · rw [hcall] at hkmalloc
      rw [round, hkmalloc]
      rfl

/-- The heap after its class got a page more. -/
def grow (heap : Heap BuddyAllocator) (cls : SizeClass) (addr : Nat) (after : BuddyAllocator)
    (hcount : (heap.slab.caches cls).count < MAX_SLABS_PER_SIZE) : Heap BuddyAllocator :=
  ⟨heap.slab.setCache cls ((heap.slab.caches cls).push (.new cls addr) hcount), after⟩

/-- Any other round gives the class a page, which stays. -/
theorem Sound.round_grow (h : Sound base bytes heap) (hbase : base ≠ 0)
    (hregion : base + bytes ≤ 2 ^ 64) (hfresh : heap.FreshNext) {size : Nat}
    (hroom : heap.HasRoom size) (hquiet : ¬ heap.Quiet size) :
    ∃ cls addr after hcount, classFor size = some cls ∧ heap.slab.Full cls ∧
      (PageSource.allocOne heap.buddy).1 ≠ none ∧
      heap.round size = heap.grow cls addr after hcount := by
  obtain ⟨-, cls, hclass, hcount⟩ := id hroom
  have hcases : heap.slab.Full cls ∧ (PageSource.allocOne heap.buddy).1 ≠ none := by
    by_contra hcase
    exact hquiet ⟨cls, hclass, fun hfull ↦ by_contra fun hsome ↦ hcase ⟨hfull, hsome⟩⟩
  obtain ⟨hfull, hsome⟩ := hcases
  rcases heap.slab.alloc_cases hclass heap.buddy with
    ⟨k, page, after, ptr, hheld, halloc, -⟩ |
      ⟨addr, ptr, next, after, hgrown, heq⟩ | ⟨-, heq⟩
  · have hnone := SlabPage.alloc_eq_none.mpr (SlabPage.isFull_iff.mp (hfull k page hheld))
    rw [hnone] at halloc
    cases halloc
  · have hpage : (PageSource.allocOne heap.buddy).1 = some addr := congrArg Prod.fst hgrown.call
    obtain ⟨hlt, hfree⟩ := hgrown.free_taken h.tidy.layout (hpage ▸ hfresh)
    obtain ⟨-, page, halloc, -⟩ := hgrown.pushed
    obtain ⟨offset, hoffset, hptr⟩ := SlabAllocator.slot_offset halloc
    have hwithin := h.region.within hregion 0 addr hpage
    have hne : ptr ≠ 0 := hptr ▸ usize_ne_zero hbase hregion hwithin hoffset
    exact ⟨cls, addr, after, hlt, hclass, hfull, hsome, round_eq hroom hne heq hfree⟩
  · rcases SlabAllocator.exhausted_of_alloc hclass (congrArg Prod.fst heq) with hlimit | hnone
    · exact absurd (hcount hfull) (Nat.not_lt.mpr hlimit)
    · exact absurd hnone hsome

theorem Sound.round (h : Sound base bytes heap) (hregion : base + bytes ≤ 2 ^ 64)
    (hfresh : heap.FreshNext) (size : Nat) : Sound base bytes (heap.round size) := by
  have hnext := h.kmalloc hregion hfresh size
  unfold Heap.round
  dsimp only
  split
  · exact hnext.kfree _ size
  · exact hnext

/-! ## What rounds keep -/

section Grow

variable {cls : SizeClass} {addr : Nat} {after : BuddyAllocator}
  {hcount : (heap.slab.caches cls).count < MAX_SLABS_PER_SIZE}

/-- The new page has an object. -/
theorem not_full_grow : ¬ (heap.grow cls addr after hcount).slab.Full cls := by
  intro hfull
  have hheld : (heap.grow cls addr after hcount).slab.HeldAt ⟨(heap.slab.caches cls).count, hcount⟩
      (SlabPage.new cls addr) := by
    rw [grow, SlabAllocator.heldAt_setCache_self, SlabCache.heldAt_push]
    exact Or.inl ⟨rfl, rfl⟩
  have hnone := SlabPage.alloc_eq_none.mpr (SlabPage.isFull_iff.mp (hfull _ _ hheld))
  exact SlabPage.alloc_new_ne_none cls addr hnone

theorem caches_grow (addr : Nat) (after : BuddyAllocator)
    (hcount : (heap.slab.caches cls).count < MAX_SLABS_PER_SIZE) (other : SizeClass) :
    (((heap.grow cls addr after hcount).slab.caches other).count =
      if other = cls then (heap.slab.caches other).count + 1
      else (heap.slab.caches other).count) ∧
    (other ≠ cls → ((heap.grow cls addr after hcount).slab.Full other ↔ heap.slab.Full other)) := by
  unfold grow
  by_cases hother : other = cls
  · subst hother
    rw [SlabAllocator.setCache_self, if_pos rfl]
    exact ⟨rfl, fun hne ↦ absurd rfl hne⟩
  · rw [SlabAllocator.setCache_of_ne _ hother, if_neg hother]
    refine ⟨rfl, fun _ ↦ ?_⟩
    unfold SlabAllocator.Full
    simp only [SlabAllocator.heldAt_setCache_of_ne hother]

end Grow

/-- What the rounds that lead from one heap to another keep: rounds that took no page take none, and
a class gets a page when it is full, and not another one. -/
structure Kept (heap next : Heap BuddyAllocator) : Prop where
  quiet : ∀ size, heap.Quiet size → next.Quiet size
  pages : ∀ cls,
    (next.slab.caches cls).count = (heap.slab.caches cls).count ∧
      (next.slab.Full cls → heap.slab.Full cls) ∨
    (next.slab.caches cls).count = (heap.slab.caches cls).count + 1 ∧
      heap.slab.Full cls ∧ ¬ next.slab.Full cls

namespace Kept

variable {next last : Heap BuddyAllocator}

theorem refl (heap : Heap BuddyAllocator) : Kept heap heap :=
  ⟨fun _ h ↦ h, fun _ ↦ Or.inl ⟨rfl, fun h ↦ h⟩⟩

theorem trans (h : Kept heap next) (hlast : Kept next last) : Kept heap last := by
  refine ⟨fun size hquiet ↦ hlast.quiet size (h.quiet size hquiet), fun cls ↦ ?_⟩
  rcases h.pages cls with ⟨hcount, hfull⟩ | ⟨hcount, hfull, hnot⟩ <;>
    rcases hlast.pages cls with ⟨hcount', hfull'⟩ | ⟨hcount', hfull', hnot'⟩
  · exact Or.inl ⟨hcount'.trans hcount, fun hcase ↦ hfull (hfull' hcase)⟩
  · exact Or.inr ⟨by rw [hcount', hcount], hfull hfull', hnot'⟩
  · exact Or.inr ⟨by rw [hcount', hcount], hfull, fun hcase ↦ hnot (hfull' hcase)⟩
  · exact absurd hfull' hnot

theorem hasRoom (h : Kept heap next) {size : Nat} (hroom : heap.HasRoom size) :
    next.HasRoom size := by
  obtain ⟨hpos, cls, hclass, hlt⟩ := hroom
  refine ⟨hpos, cls, hclass, fun hfull ↦ ?_⟩
  rcases h.pages cls with ⟨hcount, hbefore⟩ | ⟨-, -, hnot⟩
  · rw [hcount]
    exact hlt (hbefore hfull)
  · exact absurd hfull hnot

theorem count_le (h : Kept heap next) (cls : SizeClass) :
    (next.slab.caches cls).count ≤ (heap.slab.caches cls).count + 1 := by
  rcases h.pages cls with ⟨hcount, -⟩ | ⟨hcount, -⟩ <;> omega

/-- A class that gets a page. -/
theorem grow {cls : SizeClass} (addr : Nat) (after : BuddyAllocator)
    (hcount : (heap.slab.caches cls).count < MAX_SLABS_PER_SIZE) (hfull : heap.slab.Full cls)
    (hsome : (PageSource.allocOne heap.buddy).1 ≠ none) :
    Kept heap (heap.grow cls addr after hcount) := by
  refine ⟨fun size hquiet ↦ ?_, fun other ↦ ?_⟩
  · obtain ⟨other, hclass, hnone⟩ := hquiet
    have hnot : ¬ heap.slab.Full other := fun hcase ↦ hsome (hnone hcase)
    have hne : other ≠ cls := fun heq ↦ hnot (heq ▸ hfull)
    refine ⟨other, hclass, fun hcase ↦ absurd ?_ hnot⟩
    exact ((caches_grow addr after hcount other).2 hne).mp hcase
  · obtain ⟨hcounts, hothers⟩ := caches_grow addr after hcount other
    by_cases hother : other = cls
    · rw [if_pos hother] at hcounts
      subst hother
      exact Or.inr ⟨hcounts, hfull, not_full_grow⟩
    · rw [if_neg hother] at hcounts
      exact Or.inl ⟨hcounts, (hothers hother).mp⟩

end Kept

/-- After a round, the next one of its size takes no page. -/
theorem Sound.round_kept (h : Sound base bytes heap) (hbase : base ≠ 0)
    (hregion : base + bytes ≤ 2 ^ 64) (hfresh : heap.FreshNext) {size : Nat}
    (hroom : heap.HasRoom size) : Kept heap (heap.round size) ∧ (heap.round size).Quiet size := by
  by_cases hquiet : heap.Quiet size
  · rw [h.round_quiet hbase hregion hroom hquiet]
    exact ⟨Kept.refl heap, hquiet⟩
  · obtain ⟨cls, addr, after, hcount, hclass, hfull, hsome, heq⟩ :=
      h.round_grow hbase hregion hfresh hroom hquiet
    rw [heq]
    exact ⟨Kept.grow addr after hcount hfull hsome, cls, hclass, fun hcase ↦
      absurd hcase not_full_grow⟩

/-! ## Runs of rounds -/

/-- In each of the rounds the page source would hand out a separate page. -/
def FreshThroughout (heap : Heap BuddyAllocator) (sizes : List Nat) : Prop :=
  Throughout (fun heap size ↦ some (round heap size)) (fun heap _ ↦ heap.FreshNext) heap sizes

theorem freshThroughout_cons {size : Nat} {rest : List Nat} :
    heap.FreshThroughout (size :: rest) ↔
      heap.FreshNext ∧ (heap.round size).FreshThroughout rest :=
  and_congr_right fun _ ↦ ⟨fun h ↦ h _ rfl, fun h _ hnext ↦ Option.some.inj hnext ▸ h⟩

/-- The rounds can be followed. -/
instance decidableFreshThroughout : (sizes : List Nat) → (heap : Heap BuddyAllocator) →
    Decidable (heap.FreshThroughout sizes)
  | [], _ => isTrue trivial
  | size :: rest, heap =>
      haveI := decidableFreshThroughout rest (heap.round size)
      decidable_of_iff _ freshThroughout_cons.symm

theorem Sound.rounds_kept (h : Sound base bytes heap) (hbase : base ≠ 0)
    (hregion : base + bytes ≤ 2 ^ 64) {sizes : List Nat}
    (hfresh : heap.FreshThroughout sizes) (hroom : ∀ size ∈ sizes, heap.HasRoom size) :
    Sound base bytes (heap.rounds sizes) ∧ Kept heap (heap.rounds sizes) ∧
      ∀ size ∈ sizes, (heap.rounds sizes).Quiet size := by
  induction sizes generalizing heap with
  | nil => exact ⟨h, Kept.refl heap, by simp⟩
  | cons size rest ih =>
      obtain ⟨hfirst, hrest⟩ := hfresh
      obtain ⟨hhead, htail⟩ := List.forall_mem_cons.mp hroom
      obtain ⟨hkept, hquiet⟩ := h.round_kept hbase hregion hfirst hhead
      obtain ⟨hsound, hlast, hall⟩ := ih (h.round hregion hfirst size) (hrest _ rfl)
        fun other hother ↦ hkept.hasRoom (htail other hother)
      refine ⟨hsound, hkept.trans hlast, List.forall_mem_cons.mpr ⟨?_, hall⟩⟩
      exact hlast.quiet size hquiet

/-- Quiet rounds leave the heap as it was. -/
theorem Sound.rounds_quiet (h : Sound base bytes heap) (hbase : base ≠ 0)
    (hregion : base + bytes ≤ 2 ^ 64) {sizes : List Nat}
    (hsizes : ∀ size ∈ sizes, heap.HasRoom size ∧ heap.Quiet size) : heap.rounds sizes = heap := by
  induction sizes with
  | nil => rfl
  | cons size rest ih =>
      obtain ⟨⟨hroom, hquiet⟩, hrest⟩ := List.forall_mem_cons.mp hsizes
      rw [rounds, List.foldl_cons, h.round_quiet hbase hregion hroom hquiet]
      exact ih hrest

/-- Rounds of sizes that all had a round before change nothing any more. -/
theorem Sound.rounds_settle (h : Sound base bytes heap) (hbase : base ≠ 0)
    (hregion : base + bytes ≤ 2 ^ 64) {sizes later : List Nat}
    (hfresh : heap.FreshThroughout sizes) (hroom : ∀ size ∈ sizes, heap.HasRoom size)
    (hlater : ∀ size ∈ later, size ∈ sizes) :
    heap.rounds (sizes ++ later) = heap.rounds sizes := by
  obtain ⟨hsound, hkept, hquiet⟩ := h.rounds_kept hbase hregion hfresh hroom
  rw [rounds, List.foldl_append]
  refine hsound.rounds_quiet hbase hregion fun size hsize ↦ ?_
  exact ⟨hkept.hasRoom (hroom size (hlater size hsize)), hquiet size (hlater size hsize)⟩

/-- The sizes of `bench_mixed` repeat after the first eight. -/
theorem mixed_sizes (i : Nat) : 16 + i % 8 * 32 ∈ mixedSizes := by
  refine List.mem_map.mpr ⟨i % 8, List.mem_range.mpr (Nat.mod_lt i (by decide)), ?_⟩
  rw [Nat.mod_mod]

/-- From any heap that calls lead to, the million rounds of `bench_slab` do what one round does, and
those of `bench_mixed` what the first eight do; these give each class one page at most. The classes
have room for it, and the page source hands out separate pages. -/
theorem memtest_settles (hbase : base ≠ 0) (hregion : base + bytes ≤ 2 ^ 64)
    (h : Reachable (restrict Heap.serve fun heap _ ↦ heap.FreshNext) (init base bytes) heap) :
    (∀ size, heap.HasRoom size → heap.FreshNext → heap.benchSlab size = heap.round size) ∧
      ((∀ size ∈ mixedSizes, heap.HasRoom size) → heap.FreshThroughout mixedSizes →
        heap.benchMixed = heap.rounds mixedSizes ∧
        ∀ cls, (heap.benchMixed.slab.caches cls).count ≤ (heap.slab.caches cls).count + 1) := by
  have hsound := sound_of_reachable hregion h
  refine ⟨fun size hroom hfresh ↦ ?_, fun hroom hfresh ↦ ?_⟩
  · have hall : ∀ other ∈ [size], heap.HasRoom other := by simpa using hroom
    have hthroughout : heap.FreshThroughout [size] := ⟨hfresh, fun _ _ ↦ trivial⟩
    have hsettle : heap.rounds ([size] ++ [size]) = heap.rounds [size] :=
      hsound.rounds_settle hbase hregion hthroughout hall fun _ hmem ↦ hmem
    show (fun heap ↦ heap.round size)^[999999 + 1] heap = heap.round size
    rw [Function.iterate_succ_apply]
    exact Function.iterate_fixed hsettle 999999
  · have hsplit : (List.range ITERS).map (fun i ↦ 16 + i % 8 * 32) =
        mixedSizes ++ (List.range 999992).map fun i ↦ 16 + (8 + i) % 8 * 32 := by
      rw [show ITERS = 8 + 999992 from rfl, List.range_add, List.map_append, List.map_map]
      rfl
    have hmixed : heap.benchMixed = heap.rounds mixedSizes := by
      rw [benchMixed, ← List.foldl_map, hsplit]
      refine hsound.rounds_settle hbase hregion hfresh hroom fun size hsize ↦ ?_
      obtain ⟨i, -, rfl⟩ := List.mem_map.mp hsize
      exact mixed_sizes (8 + i)
    rw [hmixed]
    exact ⟨rfl, (hsound.rounds_kept hbase hregion hfresh hroom).2.1.count_le⟩

/-- The benchmark right after boot. -/
theorem memtest_settles_boot :
    (init 0x100000 0x10000).benchSlab 64 = (init 0x100000 0x10000).round 64 ∧
      (init 0x100000 0x10000).benchMixed = (init 0x100000 0x10000).rounds mixedSizes := by
  have hempty : ∀ cls, ((init 0x100000 0x10000).slab.caches cls).count = 0 := fun _ ↦ rfl
  have hroom : ∀ size ∈ 64 :: mixedSizes, (init 0x100000 0x10000).HasRoom size := by
    intro size hsize
    have hbounds : ∀ size ∈ 64 :: mixedSizes, 0 < size ∧ size ≤ 2048 := by decide
    obtain ⟨cls, hclass⟩ := exists_classFor (hbounds size hsize).2
    exact ⟨(hbounds size hsize).1, cls, hclass, fun _ ↦ by rw [hempty]; decide⟩
  obtain ⟨hslab, hmixed⟩ := memtest_settles (by decide) (by decide)
    (Reachable.refl (init 0x100000 0x10000))
  exact ⟨hslab 64 (hroom 64 List.mem_cons_self) (by decide +kernel),
    (hmixed (fun size hsize ↦ hroom size (List.mem_cons_of_mem _ hsize)) (by decide +kernel)).1⟩

end Heap

end Avaria.Mem
