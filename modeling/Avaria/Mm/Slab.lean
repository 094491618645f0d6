import Avaria.Mm.SlabCache

/-!
# The slab allocator

`SlabAllocator` of `mm/slab.rs`: one cache for each size class. `alloc` asks the cache of the first
class that is large enough; `free` does not know the class of the object and offers the address to
one cache after the other. `alloc_cases` and `free_cases` say what a call can do.

`PagesAt` says where the held pages are, and `AllocatedIn` is the abstract view of the caches: the
addresses that are allocated in each class.
-/

namespace Avaria.Mm

/-- `struct SlabAllocator`. -/
structure SlabAllocator where
  caches : (cls : SizeClass) → SlabCache cls

/-- The class that serves a request: the first one whose objects are large enough. -/
def classFor (size : Nat) : Option SizeClass :=
  (List.finRange 8).find? fun cls ↦ decide (SLAB_SIZES cls ≥ size)

/-- The bytes of the slot that serves a request. -/
def slotSize (size : Nat) : Nat := (classFor size).elim 0 SLAB_SIZES

theorem classFor_eq_some {size : Nat} {cls : SizeClass} (h : classFor size = some cls) :
    size ≤ SLAB_SIZES cls := by
  simpa using List.find?_some h

/-- A class is found exactly for the sizes up to 2048. -/
theorem classFor_eq_none {size : Nat} : classFor size = none ↔ 2048 < size := by
  simp only [classFor, List.find?_eq_none, List.mem_finRange, decide_eq_true_eq, true_implies,
    not_le]
  constructor
  · exact fun h ↦ h 7
  · intro h cls
    have hmax : SLAB_SIZES cls ≤ 2048 := by
      revert cls
      decide
    omega

theorem exists_classFor {size : Nat} (h : size ≤ 2048) : ∃ cls, classFor size = some cls := by
  rw [← Option.ne_none_iff_exists', ne_eq, classFor_eq_none]
  exact Nat.not_lt.mpr h

theorem le_slotSize {size : Nat} (h : size ≤ 2048) : size ≤ slotSize size := by
  obtain ⟨cls, hclass⟩ := exists_classFor h
  unfold slotSize
  rw [hclass]
  exact classFor_eq_some hclass

namespace SlabAllocator

variable {σ : Type*} [PageSource σ]

/-- `SlabAllocator::new`. -/
def new : SlabAllocator := ⟨fun cls ↦ SlabCache.new cls⟩

/-- The allocator after a call of one of its caches. -/
def setCache (slab : SlabAllocator) (cls : SizeClass) (cache : SlabCache cls) : SlabAllocator :=
  ⟨Function.update slab.caches cls cache⟩

/-- `SlabAllocator::alloc`. -/
def alloc (slab : SlabAllocator) (size : Nat) (buddy : σ) : Option Nat × SlabAllocator × σ :=
  match classFor size with
  | none => (none, slab, buddy)
  | some cls =>
      let result := (slab.caches cls).alloc buddy
      (result.1, slab.setCache cls result.2.1, result.2.2)

/-- The loop over the caches in `SlabAllocator::free`. -/
def freeFrom (slab : SlabAllocator) (ptr : Nat) (buddy : σ) :
    List SizeClass → Bool × SlabAllocator × σ
  | [] => (false, slab, buddy)
  | cls :: rest =>
      match (slab.caches cls).free ptr buddy with
      | (true, cache, buddy) => (true, slab.setCache cls cache, buddy)
      | (false, cache, buddy) => (slab.setCache cls cache).freeFrom ptr buddy rest

/-- `SlabAllocator::free`. -/
def free (slab : SlabAllocator) (ptr : Nat) (buddy : σ) : Bool × SlabAllocator × σ :=
  slab.freeFrom ptr buddy (List.finRange 8)

/-! ## Held pages and objects -/

/-- The page is the one that the cache of its class holds at this index. -/
def HeldAt (slab : SlabAllocator) {cls : SizeClass} (k : Fin MAX_SLABS_PER_SIZE)
    (page : SlabPage cls) : Prop := (slab.caches cls).HeldAt k page

/-- The address is that of an allocated slot in a page of the class. -/
def AllocatedIn (slab : SlabAllocator) (cls : SizeClass) (addr : Nat) : Prop :=
  (slab.caches cls).Holds addr

@[simp] theorem setCache_self (slab : SlabAllocator) (cls : SizeClass) (cache : SlabCache cls) :
    (slab.setCache cls cache).caches cls = cache := Function.update_self ..

@[simp] theorem setCache_of_ne (slab : SlabAllocator) {cls other : SizeClass} (h : other ≠ cls)
    (cache : SlabCache cls) : (slab.setCache cls cache).caches other = slab.caches other :=
  Function.update_of_ne h ..

@[simp] theorem heldAt_setCache_self {slab : SlabAllocator} {cls : SizeClass}
    {cache : SlabCache cls} {k : Fin MAX_SLABS_PER_SIZE} {page : SlabPage cls} :
    (slab.setCache cls cache).HeldAt k page ↔ cache.HeldAt k page := by
  simp [HeldAt]

@[simp] theorem heldAt_setCache_of_ne {slab : SlabAllocator} {cls other : SizeClass}
    (h : other ≠ cls) {cache : SlabCache cls} {k : Fin MAX_SLABS_PER_SIZE}
    {page : SlabPage other} : (slab.setCache cls cache).HeldAt k page ↔ slab.HeldAt k page := by
  simp [HeldAt, h]

@[simp] theorem setCache_caches (slab : SlabAllocator) (cls : SizeClass) :
    slab.setCache cls (slab.caches cls) = slab := by
  simp [setCache]

/-- What holds of every cache still holds after one of them is replaced by a cache of which it
holds. -/
theorem forall_setCache {slab : SlabAllocator} {cls : SizeClass} {cache : SlabCache cls}
    {P : (cls : SizeClass) → SlabCache cls → Prop} (h : ∀ other, P other (slab.caches other))
    (hcache : P cls cache) (other : SizeClass) :
    P other ((slab.setCache cls cache).caches other) := by
  by_cases hother : other = cls
  · subst hother
    rwa [setCache_self]
  · rw [setCache_of_ne slab hother]
    exact h other

@[simp] theorem allocatedIn_setCache_self {slab : SlabAllocator} {cls : SizeClass}
    {cache : SlabCache cls} {addr : Nat} :
    (slab.setCache cls cache).AllocatedIn cls addr ↔ cache.Holds addr := by
  simp [AllocatedIn]

@[simp] theorem allocatedIn_setCache_of_ne {slab : SlabAllocator} {cls other : SizeClass}
    (h : other ≠ cls) {cache : SlabCache cls} {addr : Nat} :
    (slab.setCache cls cache).AllocatedIn other addr ↔ slab.AllocatedIn other addr := by
  simp [AllocatedIn, h]

/-- Every held page of the class is full. -/
def Full (slab : SlabAllocator) (cls : SizeClass) : Prop :=
  ∀ k (page : SlabPage cls), slab.HeldAt k page → page.isFull = true

/-- The answer of the page source gave the class a page more, whose first object was handed out. -/
structure Grown (slab : SlabAllocator) (cls : SizeClass) (buddy : σ) (base ptr : Nat)
    (next : SlabAllocator) (after : σ) : Prop where
  full : slab.Full cls
  call : PageSource.allocOne buddy = (some base, after)
  pushed : ∃ (hcount : (slab.caches cls).count < MAX_SLABS_PER_SIZE) (page : SlabPage cls),
    (SlabPage.new cls base).alloc = some (ptr, page) ∧
      next = slab.setCache cls ((slab.caches cls).push page hcount)

/-- Everything `alloc` can do with a size that a class serves: take an object from a held page, grow
the class by a page, or fail and change nothing because every page is full and there is no room or
no page for another. -/
theorem alloc_cases (slab : SlabAllocator) {size : Nat} {cls : SizeClass}
    (hclass : classFor size = some cls) (buddy : σ) :
    (∃ k, ∃ page after : SlabPage cls, ∃ ptr, slab.HeldAt k page ∧ page.alloc = some (ptr, after) ∧
      slab.alloc size buddy =
        (some ptr, slab.setCache cls ((slab.caches cls).setPage k (some after)), buddy)) ∨
    (∃ base ptr next after, slab.Grown cls buddy base ptr next after ∧
      slab.alloc size buddy = (some ptr, next, after)) ∨
    slab.Full cls ∧ slab.alloc size buddy = (none, slab, buddy) := by
  unfold alloc
  rw [hclass]
  simp only
  rcases (slab.caches cls).alloc_cases buddy with
    ⟨k, page, ptr, after, hk, hpage, halloc, heq⟩ |
      ⟨ptr, next, ⟨hfull, hcount, base, after, hcall, halloc, hnext⟩, heq⟩ | ⟨hfull, -, heq⟩
  · exact Or.inl ⟨k, page, after, ptr, ⟨hk, hpage⟩, halloc, by rw [heq]⟩
  · exact Or.inr (Or.inl ⟨base, ptr, _, next.2, ⟨fun k page hk ↦ hfull k page hk.1 hk.2, hcall,
      hcount, after, halloc, rfl⟩, by rw [heq, hnext]⟩)
  · exact Or.inr (Or.inr ⟨fun k page hk ↦ hfull k page hk.1 hk.2, by simp [heq]⟩)

theorem alloc_of_classFor_eq_none {slab : SlabAllocator} {size : Nat} (h : classFor size = none)
    (buddy : σ) : slab.alloc size buddy = (none, slab, buddy) := by
  unfold alloc
  rw [h]

/-- An allocation that fails changes neither the caches nor the page source. -/
theorem alloc_eq_none {slab next : SlabAllocator} {size : Nat} {buddy after : σ}
    (h : slab.alloc size buddy = (none, next, after)) : slab = next ∧ buddy = after := by
  cases hclass : classFor size with
  | none =>
      rw [alloc_of_classFor_eq_none hclass] at h
      cases h
      exact ⟨rfl, rfl⟩
  | some cls =>
      rcases slab.alloc_cases hclass buddy with
        ⟨_, _, _, _, -, -, heq⟩ | ⟨_, _, _, _, -, heq⟩ | ⟨-, heq⟩ <;> rw [heq] at h <;> cases h
      exact ⟨rfl, rfl⟩

/-- What `free` does: no held page contains the address, or the first cache with a page that
contains it frees the slot. -/
theorem freeFrom_cases (slab : SlabAllocator) (ptr : Nat) (buddy : σ) (classes : List SizeClass) :
    ((∀ cls ∈ classes, ∀ k (page : SlabPage cls), slab.HeldAt k page →
        page.contains ptr = false) ∧ slab.freeFrom ptr buddy classes = (false, slab, buddy)) ∨
    ∃ cls ∈ classes, ∃ cache after, (slab.caches cls).free ptr buddy = (true, cache, after) ∧
      slab.freeFrom ptr buddy classes = (true, slab.setCache cls cache, after) := by
  induction classes with
  | nil => exact Or.inl ⟨fun cls hmem ↦ absurd hmem (by simp), rfl⟩
  | cons cls rest ih =>
      unfold freeFrom
      rcases (slab.caches cls).free_cases ptr buddy with
        ⟨hnone, heq⟩ | ⟨i, page, -, -, -, ⟨-, heq⟩ | ⟨-, -, heq⟩⟩
      · simp only [heq, setCache_caches]
        rcases ih with ⟨hall, hrest⟩ | ⟨other, hmem, cache, after, hfree, hrest⟩
        · refine Or.inl ⟨fun other hmem k page hk ↦ ?_, hrest⟩
          rcases List.mem_cons.mp hmem with rfl | hmem
          · exact hnone k page hk.1 hk.2
          · exact hall other hmem k page hk
        · exact Or.inr ⟨other, List.mem_cons_of_mem _ hmem, cache, after, hfree, hrest⟩
      · simp only [heq]
        exact Or.inr ⟨cls, List.mem_cons_self .., _, _, heq, rfl⟩
      · simp only [heq]
        exact Or.inr ⟨cls, List.mem_cons_self .., _, _, heq, rfl⟩

/-- Everything `free` can do: report that no held page contains the address, clear the slot, or
clear the slot and give the page back because it and another page of its class are empty. -/
theorem free_cases (slab : SlabAllocator) (ptr : Nat) (buddy : σ) :
    ((∀ (cls : SizeClass) k (page : SlabPage cls), slab.HeldAt k page →
        page.contains ptr = false) ∧ slab.free ptr buddy = (false, slab, buddy)) ∨
    ∃ cls k, ∃ page : SlabPage cls, slab.HeldAt k page ∧ page.contains ptr = true ∧
      (slab.free ptr buddy = (true,
          slab.setCache cls ((slab.caches cls).setPage k (some (page.free ptr).2)), buddy) ∨
      (page.free ptr).2.isEmpty = true ∧
        slab.free ptr buddy = (true,
          slab.setCache cls (((slab.caches cls).setPage k none).compact k),
          PageSource.freeOne buddy page.base)) := by
  unfold free
  rcases slab.freeFrom_cases ptr buddy (List.finRange 8) with
    ⟨hnone, heq⟩ | ⟨cls, -, cache, after, hfree, heq⟩
  · exact Or.inl ⟨fun cls ↦ hnone cls (List.mem_finRange cls), heq⟩
  · rcases (slab.caches cls).free_cases ptr buddy with
      ⟨-, hcall⟩ | ⟨k, page, hk, hpage, hcontains, hcall⟩
    · rw [hcall] at hfree
      cases hfree
    · refine Or.inr ⟨cls, k, page, ⟨hk, hpage⟩, hcontains, ?_⟩
      rcases hcall with ⟨-, hcall⟩ | ⟨hempty, -, hcall⟩ <;> rw [hcall] at hfree <;> cases hfree
      · exact Or.inl heq
      · exact Or.inr ⟨hempty, heq⟩

/-- Some held page contains the address, so that `free` takes it for an object. -/
def Claims (slab : SlabAllocator) (ptr : Nat) : Prop :=
  ∃ cls k, ∃ page : SlabPage cls, slab.HeldAt k page ∧ page.contains ptr = true

/-- `free` turns down an address that no held page contains. -/
theorem free_of_not_claims {slab : SlabAllocator} {ptr : Nat} (h : ¬ slab.Claims ptr) (buddy : σ) :
    slab.free ptr buddy = (false, slab, buddy) := by
  rcases slab.free_cases ptr buddy with ⟨-, heq⟩ | ⟨cls, k, page, hheld, hcontains, -⟩
  · exact heq
  · exact absurd ⟨cls, k, page, hheld, hcontains⟩ h

/-- `free` takes an address that some held page contains, and either the page source stays as it was
or a held page is gone. -/
theorem free_of_claims {slab : SlabAllocator} {ptr : Nat} (h : slab.Claims ptr) (buddy : σ) :
    ∃ next after, slab.free ptr buddy = (true, next, after) ∧ (after = buddy ∨ next ≠ slab) := by
  obtain ⟨cls, k, page, hheld, hcontains⟩ := h
  rcases slab.free_cases ptr buddy with ⟨hnone, -⟩ | ⟨found, j, other, hother, -, heq | ⟨-, heq⟩⟩
  · rw [hnone cls k page hheld] at hcontains
    cases hcontains
  · exact ⟨_, _, heq, Or.inl rfl⟩
  · refine ⟨_, _, heq, Or.inr fun hsame ↦ ?_⟩
    have hcount : (slab.caches found).count - 1 = (slab.caches found).count := by
      have hcache := congrArg (fun slab ↦ (slab.caches found).count) hsame
      rwa [setCache_self] at hcache
    have hlt : j.val < (slab.caches found).count := hother.1
    omega

/-! ## Where the held pages are -/

/-- No cache counts more pages than its array has. -/
def InBounds (slab : SlabAllocator) : Prop :=
  ∀ cls, (slab.caches cls).count ≤ MAX_SLABS_PER_SIZE

/-- The held pages are at addresses with this property. -/
def PagesAt (slab : SlabAllocator) (ok : Nat → Prop) : Prop :=
  ∀ (cls : SizeClass) (k : Fin MAX_SLABS_PER_SIZE) (page : SlabPage cls), slab.HeldAt k page →
    ok page.base

theorem inBounds_new : new.InBounds := fun _ ↦ Nat.zero_le _

theorem pagesAt_new (ok : Nat → Prop) : new.PagesAt ok :=
  fun _ _ _ h ↦ absurd h.1 (Nat.not_lt_zero _)

theorem InBounds.setCache {slab : SlabAllocator} (h : slab.InBounds) {cls : SizeClass}
    {cache : SlabCache cls} (hcount : cache.count ≤ MAX_SLABS_PER_SIZE) :
    (slab.setCache cls cache).InBounds :=
  forall_setCache (P := fun _ cache ↦ cache.count ≤ MAX_SLABS_PER_SIZE) h hcount

theorem InBounds.alloc {slab : SlabAllocator} (h : slab.InBounds) (size : Nat) (buddy : σ) :
    (slab.alloc size buddy).2.1.InBounds := by
  cases hclass : classFor size with
  | none => rwa [alloc_of_classFor_eq_none hclass]
  | some cls =>
      rcases slab.alloc_cases hclass buddy with
        ⟨k, page, after, ptr, -, -, heq⟩ | ⟨base, ptr, next, after, hgrown, heq⟩ | ⟨-, heq⟩ <;>
        rw [heq]
      · exact h.setCache (h cls)
      · obtain ⟨hcount, page, -, rfl⟩ := hgrown.pushed
        exact h.setCache hcount
      · exact h

theorem InBounds.free {slab : SlabAllocator} (h : slab.InBounds) (ptr : Nat) (buddy : σ) :
    (slab.free ptr buddy).2.1.InBounds := by
  rcases slab.free_cases ptr buddy with
    ⟨-, heq⟩ | ⟨cls, k, page, -, -, heq | ⟨-, heq⟩⟩ <;> rw [heq]
  · exact h
  · exact h.setCache (h cls)
  · exact h.setCache (le_trans (Nat.sub_le _ _) (h cls))

variable {slab : SlabAllocator} {ok : Nat → Prop}

theorem PagesAt.setCache (h : slab.PagesAt ok) {cls : SizeClass} {cache : SlabCache cls}
    (hcache : ∀ k page, cache.HeldAt k page → ok page.base) :
    (slab.setCache cls cache).PagesAt ok :=
  forall_setCache (P := fun _ cache ↦ ∀ k page, cache.HeldAt k page → ok page.base) h hcache

theorem PagesAt.setPage (h : slab.PagesAt ok) {cls : SizeClass} {i : Fin MAX_SLABS_PER_SIZE}
    {page after : SlabPage cls} (hpage : slab.HeldAt i page) (hbase : after.base = page.base) :
    (slab.setCache cls ((slab.caches cls).setPage i (some after))).PagesAt ok := by
  refine h.setCache fun k p hp ↦ ?_
  rw [SlabCache.heldAt_setPage hpage.1] at hp
  split_ifs at hp with hk
  · rw [hp, hbase]
    exact h cls i page hpage
  · exact h cls k p hp

/-- An allocation keeps the pages at such addresses, provided that the page that it may take is at
one. -/
theorem PagesAt.alloc (h : slab.PagesAt ok) (size : Nat) (buddy : σ)
    (hsource : ∀ base ∈ (PageSource.allocOne buddy).1, ok base) :
    (slab.alloc size buddy).2.1.PagesAt ok := by
  cases hclass : classFor size with
  | none => rwa [alloc_of_classFor_eq_none hclass]
  | some cls =>
      rcases slab.alloc_cases hclass buddy with
        ⟨k, page, after, ptr, hpage, halloc, heq⟩ | ⟨base, ptr, next, after, hgrown, heq⟩ |
          ⟨-, heq⟩ <;> rw [heq]
      · obtain ⟨-, -, -, -, hbase, -⟩ := SlabPage.alloc_eq_some halloc
        exact h.setPage hpage hbase
      · obtain ⟨hcount, page, halloc, rfl⟩ := hgrown.pushed
        obtain ⟨-, -, -, -, hbase, -⟩ := SlabPage.alloc_eq_some halloc
        refine h.setCache fun k p hp ↦ ?_
        rcases (SlabCache.heldAt_push hcount).mp hp with ⟨-, rfl⟩ | hp
        · rw [hbase]
          exact hsource base (by rw [hgrown.call]; rfl)
        · exact h cls k p hp
      · exact h

/-- A free moves no page. -/
theorem PagesAt.free (h : slab.PagesAt ok) (hbounds : slab.InBounds) (ptr : Nat) (buddy : σ) :
    (slab.free ptr buddy).2.1.PagesAt ok := by
  rcases slab.free_cases ptr buddy with
    ⟨-, heq⟩ | ⟨cls, k, page, hpage, -, heq | ⟨-, heq⟩⟩ <;> rw [heq]
  · exact h
  · exact h.setPage hpage (SlabPage.free_base page ptr)
  · refine h.setCache fun j p hp ↦ ?_
    obtain ⟨old, hold, -⟩ := SlabCache.heldAt_release (hbounds cls) hpage.1 hp
    exact h cls old p hold

end SlabAllocator

end Avaria.Mm
