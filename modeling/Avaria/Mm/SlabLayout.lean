import Avaria.Mm.Slab

/-!
# The layout of the slab pages

`Layout` is the invariant of the page arrays: the held pages lie below the top of the address space
and are pairwise separate. Under it `alloc_spec` and `free_spec` describe a call by its effect on
the allocated addresses alone, and `Outside` follows an address range that no held page touches.
-/

namespace Avaria.Mm

namespace SlabAllocator

variable {σ : Type*} [PageSource σ]

/-- No held page shares an address with the range. -/
def Outside (slab : SlabAllocator) (range : Extent) : Prop :=
  ∀ (cls : SizeClass) (k : Fin MAX_SLABS_PER_SIZE) (page : SlabPage cls), slab.HeldAt k page →
    range.Apart page.extent

instance (slab : SlabAllocator) (range : Extent) : Decidable (slab.Outside range) :=
  decidable_of_iff (∀ cls (k : Fin MAX_SLABS_PER_SIZE), k.val < (slab.caches cls).count →
      ∀ page ∈ (slab.caches cls).pages k, range.Apart page.extent)
    ⟨fun h cls k page hpage ↦ h cls k hpage.1 page hpage.2,
      fun h cls k hk page hpage ↦ h cls k page ⟨hk, hpage⟩⟩

/-- The answer of the page source is a page whose end does not wrap around the address space and
that is separate from every held page. -/
def FreshPage (slab : SlabAllocator) (answer : Option Nat) : Prop :=
  ∀ base ∈ answer, base + PAGE_SIZE < 2 ^ 64 ∧ slab.Outside ⟨base, PAGE_SIZE⟩

instance (slab : SlabAllocator) (answer : Option Nat) : Decidable (slab.FreshPage answer) :=
  inferInstanceAs (Decidable (∀ base ∈ answer, _ ∧ _))

/-- The page arrays are in bounds, and the held pages lie in the address space and are pairwise
separate. -/
structure Layout (slab : SlabAllocator) : Prop where
  count_le : ∀ cls, (slab.caches cls).count ≤ MAX_SLABS_PER_SIZE
  fits : ∀ {cls k} {page : SlabPage cls}, slab.HeldAt k page → page.base + PAGE_SIZE < 2 ^ 64
  apart : ∀ {cls cls' k k'} {page : SlabPage cls} {page' : SlabPage cls'}, slab.HeldAt k page →
    slab.HeldAt k' page' → (cls, k) ≠ (cls', k') → page.extent.Apart page'.extent

theorem layout_new : new.Layout where
  count_le := fun _ ↦ Nat.zero_le _
  fits := fun h ↦ absurd h.1 (Nat.not_lt_zero _)
  apart := fun h ↦ absurd h.1 (Nat.not_lt_zero _)

/-- An address lies in at most one held page. -/
theorem Layout.unique {slab : SlabAllocator} (h : slab.Layout) {cls cls' : SizeClass}
    {k k' : Fin MAX_SLABS_PER_SIZE} {page : SlabPage cls} {page' : SlabPage cls'}
    (hpage : slab.HeldAt k page) (hpage' : slab.HeldAt k' page') {addr : Nat}
    (haddr : page.extent.Contains addr) (haddr' : page'.extent.Contains addr) :
    cls = cls' ∧ k = k' := by
  by_contra hne
  have hkey : (cls, k) ≠ (cls', k') := fun heq ↦ hne (Prod.mk.inj heq)
  exact (h.apart hpage hpage' hkey).not_contains haddr haddr'

/-- An address is allocated in at most one class. -/
theorem Layout.class_unique {slab : SlabAllocator} (h : slab.Layout) {cls cls' : SizeClass}
    {addr : Nat} (haddr : slab.AllocatedIn cls addr) (haddr' : slab.AllocatedIn cls' addr) :
    cls = cls' := by
  obtain ⟨k, page, hk, hpage⟩ := haddr
  obtain ⟨k', page', hk', hpage'⟩ := haddr'
  exact (h.unique hk hk' hpage.extent_contains hpage'.extent_contains).1

/-- The layout survives a change of one cache that keeps its pages in the address space, separate
from each other and from the pages of the other caches. -/
theorem Layout.setCache {slab : SlabAllocator} (h : slab.Layout) {cls : SizeClass}
    {cache : SlabCache cls} (hcount : cache.count ≤ MAX_SLABS_PER_SIZE)
    (hfits : ∀ k page, cache.HeldAt k page → page.base + PAGE_SIZE < 2 ^ 64)
    (hinner : ∀ k k' page page', cache.HeldAt k page → cache.HeldAt k' page' → k ≠ k' →
      page.extent.Apart page'.extent)
    (houter : ∀ k page, cache.HeldAt k page → ∀ other ≠ cls, ∀ k' (page' : SlabPage other),
      slab.HeldAt k' page' → page.extent.Apart page'.extent) :
    (slab.setCache cls cache).Layout where
  count_le := InBounds.setCache h.count_le hcount
  fits := by
    intro other k page
    have hpages : slab.PagesAt fun base ↦ base + PAGE_SIZE < 2 ^ 64 := fun _ _ _ ↦ h.fits
    exact hpages.setCache hfits other k page
  apart := by
    intro first second k k' page page' hpage hpage' hne
    by_cases hfirst : first = cls <;> by_cases hsecond : second = cls
    · subst hfirst
      subst hsecond
      refine hinner k k' page page' (by simpa using hpage) (by simpa using hpage') ?_
      intro heq
      subst heq
      exact hne rfl
    · subst hfirst
      exact houter k page (by simpa using hpage) second hsecond k' page'
        (by simpa [hsecond] using hpage')
    · subst hsecond
      exact (houter k' page' (by simpa using hpage') first hfirst k page
        (by simpa [hfirst] using hpage)).symm
    · exact h.apart (by simpa [hfirst] using hpage) (by simpa [hsecond] using hpage') hne

/-- The layout survives a change of one cache in which every page stays where it was, at a possibly
different index. -/
theorem Layout.moved {slab : SlabAllocator} (h : slab.Layout) {cls : SizeClass}
    {cache : SlabCache cls} (hcount : cache.count ≤ MAX_SLABS_PER_SIZE) (index : Nat → Nat)
    (hindex : Function.Injective index)
    (hold : ∀ k page, cache.HeldAt k page → ∃ (old : Fin MAX_SLABS_PER_SIZE)
      (before : SlabPage cls), slab.HeldAt old before ∧ before.base = page.base ∧
        old.val = index k.val) :
    (slab.setCache cls cache).Layout := by
  have hextent : ∀ {page before : SlabPage cls}, before.base = page.base →
      page.extent = before.extent := by
    intro page before hbase
    simp [SlabPage.extent, hbase]
  refine h.setCache hcount ?_ ?_ ?_
  · intro k page hpage
    obtain ⟨old, before, hbefore, hbase, -⟩ := hold k page hpage
    rw [← hbase]
    exact h.fits hbefore
  · intro k k' page page' hpage hpage' hne
    obtain ⟨old, before, hbefore, hbase, hval⟩ := hold k page hpage
    obtain ⟨old', before', hbefore', hbase', hval'⟩ := hold k' page' hpage'
    rw [hextent hbase, hextent hbase']
    refine h.apart hbefore hbefore' fun heq ↦ hne (Fin.ext (hindex ?_))
    rw [← hval, ← hval', (Prod.mk.inj heq).2]
  · intro k page hpage other hother k' page' hpage'
    obtain ⟨old, before, hbefore, hbase, -⟩ := hold k page hpage
    rw [hextent hbase]
    exact h.apart hbefore hpage' fun heq ↦ hother (Prod.mk.inj heq).1.symm

theorem Layout.setPage {slab : SlabAllocator} (h : slab.Layout) {cls : SizeClass}
    {i : Fin MAX_SLABS_PER_SIZE} {page after : SlabPage cls} (hpage : slab.HeldAt i page)
    (hbase : after.base = page.base) :
    (slab.setCache cls ((slab.caches cls).setPage i (some after))).Layout := by
  refine h.moved (h.count_le cls) id Function.injective_id fun k p hp ↦ ?_
  rw [SlabCache.heldAt_setPage hpage.1] at hp
  split_ifs at hp with hk
  · subst hk
    exact ⟨k, page, hpage, by rw [hp, hbase], rfl⟩
  · exact ⟨k, p, hp, rfl, rfl⟩

theorem Layout.release {slab : SlabAllocator} (h : slab.Layout) {cls : SizeClass}
    {i : Fin MAX_SLABS_PER_SIZE} (hi : i.val < (slab.caches cls).count) :
    (slab.setCache cls (((slab.caches cls).setPage i none).compact i)).Layout := by
  have hcount := h.count_le cls
  refine h.moved ?_ (fun k ↦ if k < i.val then k else k + 1) ?_ fun k p hp ↦ ?_
  · exact le_trans (Nat.sub_le _ _) hcount
  · intro a b hab
    simp only at hab
    split_ifs at hab <;> omega
  · obtain ⟨old, hold, hval⟩ := SlabCache.heldAt_release hcount hi hp
    exact ⟨old, p, hold, rfl, hval⟩

theorem Layout.push {slab : SlabAllocator} (h : slab.Layout) {cls : SizeClass}
    {base : Nat} {after : SlabPage cls} (hbase : after.base = base)
    (hfresh : slab.FreshPage (some base)) (hcount : (slab.caches cls).count < MAX_SLABS_PER_SIZE) :
    (slab.setCache cls ((slab.caches cls).push after hcount)).Layout := by
  obtain ⟨hfits, hapart⟩ := hfresh base rfl
  have hnew : ∀ {other k} {page : SlabPage other}, slab.HeldAt k page →
      after.extent.Apart page.extent := by
    intro other k page hpage
    rw [SlabPage.extent, hbase]
    exact hapart other k page hpage
  refine h.setCache hcount ?_ ?_ ?_
  · intro k page hpage
    rcases (SlabCache.heldAt_push hcount).mp hpage with ⟨-, rfl⟩ | hpage
    · rwa [hbase]
    · exact h.fits hpage
  · intro k k' page page' hpage hpage' hne
    rcases (SlabCache.heldAt_push hcount).mp hpage with ⟨hk, rfl⟩ | hpage <;>
      rcases (SlabCache.heldAt_push hcount).mp hpage' with ⟨hk', hpage'⟩ | hpage'
    · exact absurd (hk.trans hk'.symm) hne
    · exact hnew hpage'
    · rw [hpage']
      exact (hnew hpage).symm
    · exact h.apart hpage hpage' fun heq ↦ hne (Prod.mk.inj heq).2
  · intro k page hpage other hother k' page' hpage'
    rcases (SlabCache.heldAt_push hcount).mp hpage with ⟨-, rfl⟩ | hpage
    · exact hnew hpage'
    · exact h.apart hpage hpage' fun heq ↦ hother (Prod.mk.inj heq).1.symm

/-! ## What a call does to the allocated addresses -/

/-- The call that changed `slab` into `next` allocated this address in this class. -/
structure Allocated (slab next : SlabAllocator) (cls : SizeClass) (ptr : Nat) : Prop where
  layout : next.Layout
  fresh : ∀ other, ¬ slab.AllocatedIn other ptr
  effect : ∀ other addr, next.AllocatedIn other addr ↔
    slab.AllocatedIn other addr ∨ (other = cls ∧ addr = ptr)

/-- A cache that holds one more address, which no page held, allocates this address. -/
theorem Layout.allocated {slab : SlabAllocator} {cls : SizeClass} {cache : SlabCache cls}
    {ptr : Nat} (hlayout : (slab.setCache cls cache).Layout)
    (hfresh : ¬ slab.AllocatedIn cls ptr)
    (hcache : ∀ addr, cache.Holds addr ↔ slab.AllocatedIn cls addr ∨ addr = ptr) :
    slab.Allocated (slab.setCache cls cache) cls ptr where
  layout := hlayout
  fresh := by
    intro other hother
    have hnew : (slab.setCache cls cache).AllocatedIn cls ptr := by simp [hcache]
    by_cases hne : other = cls
    · subst hne
      exact hfresh hother
    · exact hne (hlayout.class_unique (by simpa [hne] using hother) hnew)
  effect := by
    intro other addr
    by_cases hne : other = cls
    · subst hne
      simp [hcache]
    · simp [hne]

/-- `alloc` fails and changes nothing, or allocates an address in the class that serves the
size. -/
theorem Layout.alloc_spec {slab : SlabAllocator} (h : slab.Layout) (size : Nat) (buddy : σ)
    (hfresh : slab.FreshPage (PageSource.allocOne buddy).1) :
    slab.alloc size buddy = (none, slab, buddy) ∨
      ∃ cls ptr next after, classFor size = some cls ∧
        slab.alloc size buddy = (some ptr, next, after) ∧ slab.Allocated next cls ptr := by
  cases hclass : classFor size with
  | none => exact Or.inl (alloc_of_classFor_eq_none hclass buddy)
  | some cls =>
      rcases slab.alloc_cases hclass buddy with
        ⟨i, page, after, ptr, hheld, halloc, heq⟩ |
          ⟨base, ptr, next, after, ⟨-, hcall, hcount, taken, halloc, rfl⟩, heq⟩ | ⟨-, heq⟩
      · -- an object of a page that the cache holds
        obtain ⟨hbase, hnew, hholds⟩ := SlabPage.holds_alloc (h.fits hheld) halloc
        refine Or.inr ⟨cls, ptr, _, buddy, rfl, heq, ?_⟩
        refine Layout.allocated (h.setPage hheld hbase) ?_ ?_
        · intro hcase
          obtain ⟨k, other, hk, hother⟩ := hcase
          have hin : page.extent.Contains ptr := by
            have hmem := ((hholds ptr).mpr (Or.inr rfl)).extent_contains
            rwa [SlabPage.extent, hbase] at hmem
          obtain ⟨-, rfl⟩ := h.unique hk hheld hother.extent_contains hin
          obtain rfl : other = page := Option.some.inj (hk.2.symm.trans hheld.2)
          exact hnew hother
        · intro addr
          rw [SlabCache.holds_setPage hheld.1, hholds, AllocatedIn, SlabCache.holds_iff hheld]
          exact or_right_comm
      · -- the first object of a fresh page
        rw [hcall] at hfresh
        obtain ⟨hfits, hapart⟩ := hfresh base rfl
        have hnew : (SlabPage.new cls base).base + PAGE_SIZE < 2 ^ 64 := hfits
        obtain ⟨hbase, -, hholds⟩ := SlabPage.holds_alloc hnew halloc
        refine Or.inr ⟨cls, ptr, _, after, rfl, heq, ?_⟩
        refine Layout.allocated (h.push hbase hfresh hcount) ?_ ?_
        · intro hcase
          obtain ⟨k, other, hk, hother⟩ := hcase
          have hin := ((hholds ptr).mpr (Or.inr rfl)).extent_contains
          rw [SlabPage.extent, hbase] at hin
          exact (hapart cls k other hk).not_contains hin hother.extent_contains
        · intro addr
          rw [SlabCache.holds_push hcount, hholds, or_iff_right (SlabPage.not_holds_new base addr)]
          exact or_comm
      · exact Or.inl heq

/-- The page source after a free: unchanged, or it was given the page that held this address and
no other. -/
def GivesBack (slab : SlabAllocator) (ptr : Nat) (buddy after : σ) : Prop :=
  after = buddy ∨ ∃ (cls : SizeClass) (k : Fin MAX_SLABS_PER_SIZE) (page : SlabPage cls),
    slab.HeldAt k page ∧ page.extent.Contains ptr ∧
      (∀ other addr, slab.AllocatedIn other addr → page.extent.Contains addr → addr = ptr) ∧
      after = PageSource.freeOne buddy page.base

/-- Freeing an allocated address succeeds, releases this address only, and gives a page back only
when it held nothing else. -/
theorem Layout.free_spec {slab : SlabAllocator} (h : slab.Layout) {cls : SizeClass} {ptr : Nat}
    (hptr : slab.AllocatedIn cls ptr) (buddy : σ) :
    ∃ next after, slab.free ptr buddy = (true, next, after) ∧ next.Layout ∧
      (∀ other addr, next.AllocatedIn other addr ↔ slab.AllocatedIn other addr ∧ addr ≠ ptr) ∧
      slab.GivesBack ptr buddy after := by
  obtain ⟨i, page, hheld, hpage⟩ := hptr
  have hcontains := (SlabPage.contains_iff (h.fits hheld)).mpr hpage.extent_contains
  rcases slab.free_cases ptr buddy with
    ⟨hnone, -⟩ | ⟨found, j, other, hheld', hin, hcall⟩
  · rw [hnone cls i page hheld] at hcontains
    cases hcontains
  -- the page that the search found is the page that holds the object
  obtain ⟨rfl, rfl⟩ := h.unique hheld hheld' hpage.extent_contains
    ((SlabPage.contains_iff (h.fits hheld')).mp hin)
  obtain rfl : other = page := Option.some.inj (hheld'.2.symm.trans hheld.2)
  have hholds := SlabPage.holds_free (h.fits hheld) hpage
  have hbeside : ∀ addr, (slab.caches cls).HoldsBeside i addr → addr ≠ ptr := by
    intro addr hcase heq
    obtain ⟨k, p, hk, hp, haddr⟩ := hcase
    subst heq
    exact hk (h.unique hp hheld haddr.extent_contains hpage.extent_contains).2
  have heffect : ∀ cache' : SlabCache cls,
      (∀ addr, cache'.Holds addr ↔ (other.free ptr).2.Holds addr ∨
        (slab.caches cls).HoldsBeside i addr) → ∀ c addr,
      (slab.setCache cls cache').AllocatedIn c addr ↔ slab.AllocatedIn c addr ∧ addr ≠ ptr := by
    intro cache' hcache c addr
    by_cases hc : c = cls
    · subst hc
      rw [allocatedIn_setCache_self, hcache, hholds, AllocatedIn, SlabCache.holds_iff hheld,
        or_and_right, and_iff_left_of_imp (hbeside addr)]
    · rw [allocatedIn_setCache_of_ne hc]
      refine (and_iff_left_of_imp ?_).symm
      intro haddr heq
      subst heq
      exact hc (h.class_unique haddr ⟨i, other, hheld, hpage⟩)
  rcases hcall with heq | ⟨hempty, heq⟩
  · refine ⟨_, buddy, heq, h.setPage hheld (SlabPage.free_base other ptr), ?_, Or.inl rfl⟩
    exact heffect _ fun addr ↦ SlabCache.holds_setPage hheld.1
  · refine ⟨_, _, heq, h.release hheld.1, ?_, Or.inr ⟨cls, i, other, hheld,
      hpage.extent_contains, ?_, rfl⟩⟩
    · refine heffect _ fun addr ↦ ?_
      rw [SlabCache.holds_release (h.count_le cls) hheld.1,
        or_iff_right (SlabPage.not_holds_of_isEmpty hempty addr)]
    · intro c addr hcase haddr
      obtain ⟨k, p, hk, hp⟩ := hcase
      obtain ⟨rfl, rfl⟩ := h.unique hk hheld hp.extent_contains haddr
      obtain rfl : p = other := Option.some.inj (hk.2.symm.trans hheld.2)
      by_contra hne
      exact SlabPage.not_holds_of_isEmpty hempty addr ((hholds addr).mpr ⟨hp, hne⟩)

/-! ## Ranges outside the held pages -/

theorem outside_iff {slab : SlabAllocator} {range : Extent} :
    slab.Outside range ↔ slab.PagesAt fun base ↦ range.Apart ⟨base, PAGE_SIZE⟩ := Iff.rfl

/-- An allocation keeps a range outside the held pages, provided that the page that it may take is
separate from it. -/
theorem Outside.alloc {slab : SlabAllocator} {range : Extent} (h : slab.Outside range)
    (size : Nat) (buddy : σ)
    (hsource : ∀ base ∈ (PageSource.allocOne buddy).1, range.Apart ⟨base, PAGE_SIZE⟩) :
    (slab.alloc size buddy).2.1.Outside range :=
  outside_iff.mpr ((outside_iff.mp h).alloc size buddy hsource)

/-- A free keeps a range outside the held pages. -/
theorem Outside.free {slab : SlabAllocator} {range : Extent} (h : slab.Outside range)
    (hlayout : slab.Layout) (ptr : Nat) (buddy : σ) :
    (slab.free ptr buddy).2.1.Outside range :=
  outside_iff.mpr ((outside_iff.mp h).free hlayout.count_le ptr buddy)

/-- Freeing an address outside the held pages reports that no page contains it and changes
nothing. -/
theorem Outside.free_eq {slab : SlabAllocator} {range : Extent} (h : slab.Outside range)
    (hlayout : slab.Layout) {ptr : Nat} (hptr : range.Contains ptr) (buddy : σ) :
    slab.free ptr buddy = (false, slab, buddy) := by
  have hclaims : ¬ slab.Claims ptr := by
    intro hclaimed
    obtain ⟨cls, i, page, hheld, hcontains⟩ := hclaimed
    rw [SlabPage.contains_iff (hlayout.fits hheld)] at hcontains
    exact absurd hcontains ((h cls i page hheld).not_contains hptr)
  exact free_of_not_claims hclaims buddy

end SlabAllocator

end Avaria.Mm
