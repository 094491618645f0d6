import Avaria.Mm.Buddy
import Avaria.Mm.SlabCache

/-!
# Page accounting of a slab cache

A cache is driven through an arbitrary history of `alloc` and `free` calls: frees may repeat,
point into the middle of an object or name addresses that the cache never handed out, and between
two calls other clients may move the page source to any state. The page source is logged, so the
pages that the cache obtained and returned are known.

`Accounted` is the invariant: the held pages are exactly the first `count` entries, at most one of
them is empty, and the pages held together with the pages returned are the pages obtained.
-/

namespace Avaria.Mm

open Transition PageArray

/-- A cache together with the logged page source that it draws from. -/
structure CacheRun (cls : SizeClass) (σ : Type*) where
  cache : SlabCache cls
  log : Logged σ

/-- A call of the cache, or a move of the page source by another client. -/
inductive CacheCall (σ : Type*) where
  | alloc
  | free (ptr : Nat)
  | other (source : σ)

namespace CacheRun

variable {cls : SizeClass} {σ : Type*}

/-- The empty cache with an empty log. -/
def start (cls : SizeClass) (source : σ) : CacheRun cls σ :=
  ⟨SlabCache.new cls, ⟨source, [], []⟩⟩

/-- The accounting invariant. -/
structure Accounted (state : CacheRun cls σ) : Prop where
  count_le : state.cache.count ≤ MAX_SLABS_PER_SIZE
  filled : ∀ k, (state.cache.pages k).isSome = true ↔ k.val < state.cache.count
  one_empty : ∀ i j p q, state.cache.pages i = some p → state.cache.pages j = some q →
    p.isEmpty = true → q.isEmpty = true → i = j
  balance : state.cache.pages.heldBlocks + state.log.returned = state.log.obtained

theorem accounted_start (source : σ) : Accounted (start cls source) where
  count_le := Nat.zero_le _
  filled := by simp [start, SlabCache.new]
  one_empty := by simp [start, SlabCache.new]
  balance := by simp [start, SlabCache.new, heldBlocks, entryBlocks]

/-- A held page lies below the count. -/
theorem Accounted.lt_count {state : CacheRun cls σ} (h : state.Accounted)
    {i : Fin MAX_SLABS_PER_SIZE} {page : SlabPage cls} (hpage : state.cache.pages i = some page) :
    i.val < state.cache.count := by
  rw [← h.filled, hpage]
  rfl

/-- Replacing a held page by a state of the same page keeps the account, provided that an empty
replacement leaves no other page empty. -/
theorem Accounted.setPage {state : CacheRun cls σ} (h : state.Accounted)
    {i : Fin MAX_SLABS_PER_SIZE} {page after : SlabPage cls}
    (hpage : state.cache.pages i = some page) (hbase : after.base = page.base)
    (hempty : after.isEmpty = true → ¬ state.cache.OtherEmpty i) :
    Accounted ⟨state.cache.setPage i (some after), state.log⟩ where
  count_le := h.count_le
  filled := by
    intro k
    have hfilled := h.filled k
    by_cases hk : k = i
    · subst hk
      simpa [SlabCache.setPage, hpage] using hfilled
    · simpa [SlabCache.setPage, Function.update_of_ne hk] using hfilled
  one_empty := by
    intro j k p q hp hq hpe hqe
    simp only [SlabCache.setPage] at hp hq
    by_cases hj : j = i <;> by_cases hk : k = i
    · rw [hj, hk]
    · subst hj
      rw [Function.update_self, Option.some.injEq] at hp
      rw [Function.update_of_ne hk] at hq
      subst hp
      exact absurd ⟨k, q, h.lt_count hq, hk, hq, hqe⟩ (hempty hpe)
    · subst hk
      rw [Function.update_self, Option.some.injEq] at hq
      rw [Function.update_of_ne hj] at hp
      subst hq
      exact absurd ⟨j, p, h.lt_count hp, hj, hp, hpe⟩ (hempty hqe)
    · rw [Function.update_of_ne hj] at hp
      rw [Function.update_of_ne hk] at hq
      exact h.one_empty j k p q hp hq hpe hqe
  balance := by
    have hupdate := heldBlocks_update state.cache.pages i (some after)
    simp only [hpage, entryBlocks, Option.elim_some, hbase] at hupdate
    rw [← h.balance]
    exact congrArg (· + _) (add_right_cancel hupdate)

variable [PageSource σ]

/-- One call. -/
def step (state : CacheRun cls σ) : CacheCall σ → Option (CacheRun cls σ)
  | .alloc =>
      let result := state.cache.alloc state.log
      some ⟨result.2.1, result.2.2⟩
  | .free ptr =>
      let result := state.cache.free ptr state.log
      some ⟨result.2.1, result.2.2⟩
  | .other source => some { state with log := { state.log with source } }

/-- Growing by a page that is in use keeps the account, because every other page is full. -/
theorem Accounted.grow {state : CacheRun cls σ} (h : state.Accounted) {ptr : Nat}
    {next : SlabCache cls × Logged σ} (hgrown : state.cache.Grown state.log ptr next) :
    Accounted ⟨next.1, next.2⟩ := by
  obtain ⟨hfull, hcount, base, after, hcall, halloc, hnext⟩ := hgrown
  have hnone : state.cache.pages ⟨state.cache.count, hcount⟩ = none := by
    rw [← Option.not_isSome_iff_eq_none, h.filled]
    exact lt_irrefl _
  obtain ⟨-, -, -, -, hbase, -⟩ := SlabPage.alloc_eq_some halloc
  have hnotEmpty := SlabPage.isEmpty_of_alloc halloc
  have hold : ∀ k p, state.cache.pages k = some p → p.isEmpty = false :=
    fun k p hp ↦ SlabPage.isEmpty_of_isFull (hfull k p (h.lt_count hp) hp)
  rw [hnext]
  refine ⟨hcount, ?_, ?_, ?_⟩
  · intro k
    simp only [SlabCache.push]
    by_cases hk : k = ⟨state.cache.count, hcount⟩
    · subst hk
      simp
    · have hval : k.val ≠ state.cache.count := fun heq ↦ hk (Fin.ext heq)
      rw [Function.update_of_ne hk, h.filled]
      omega
  · -- the new page holds an object and every old page is full, so no page is empty
    intro j k p q hp _ hpe _
    simp only [SlabCache.push] at hp
    by_cases hj : j = ⟨state.cache.count, hcount⟩
    · subst hj
      rw [Function.update_self, Option.some.injEq] at hp
      rw [← hp, hnotEmpty] at hpe
      cases hpe
    · rw [Function.update_of_ne hj] at hp
      rw [hold j p hp] at hpe
      cases hpe
  · have hupdate := heldBlocks_update state.cache.pages ⟨state.cache.count, hcount⟩ (some after)
    simp only [hnone, entryBlocks, Option.elim_none, Option.elim_some, add_zero, hbase,
      SlabPage.new] at hupdate
    obtain ⟨hreturned, hobtained⟩ := Logged.allocOne_record hcall
    simp only [SlabCache.push, hupdate, hreturned, hobtained]
    rw [add_right_comm, h.balance, add_comm, Multiset.singleton_add, Multiset.cons_coe]

/-- Giving back a page while another page is empty keeps the account. -/
theorem Accounted.release {state : CacheRun cls σ} (h : state.Accounted)
    {i : Fin MAX_SLABS_PER_SIZE} {page : SlabPage cls} (hpage : state.cache.pages i = some page) :
    Accounted ⟨(state.cache.setPage i none).compact i, PageSource.freeOne state.log page.base⟩ := by
  have hi := h.lt_count hpage
  have hcount := h.count_le
  -- the array after the gap at `i` is closed
  have hentry : ∀ k, ((state.cache.setPage i none).compact i).pages.entry k =
      if k < i.val then state.cache.pages.entry k
      else if k < state.cache.count - 1 then state.cache.pages.entry (k + 1) else none := by
    intro k
    have hbeyond : state.cache.count ≤ k → state.cache.pages.entry k = none := by
      intro hk
      unfold PageArray.entry
      split
      · rw [← Option.not_isSome_iff_eq_none, h.filled]
        exact Nat.not_lt.mpr hk
      · rfl
    rw [SlabCache.entry_compact (state.cache.setPage i none) hi hcount]
    simp only [SlabCache.entry_setPage, SlabCache.setPage_count]
    split_ifs <;> first | rfl | omega | exact hbeyond (by omega)
  have hfilled : ∀ k : Fin MAX_SLABS_PER_SIZE,
      (((state.cache.setPage i none).compact i).pages k).isSome = true ↔
        k.val < state.cache.count - 1 := by
    intro k
    have hsome : ∀ k, k < state.cache.count → (state.cache.pages.entry k).isSome = true := by
      intro k hk
      have hlt : k < MAX_SLABS_PER_SIZE := by omega
      rw [PageArray.entry, dif_pos hlt, h.filled]
      exact hk
    rw [← entry_val ((state.cache.setPage i none).compact i).pages k, hentry]
    split_ifs with hlt hmid
    · exact iff_of_true (hsome _ (by omega)) (by omega)
    · exact iff_of_true (hsome _ (by omega)) hmid
    · exact iff_of_false (by simp) hmid
  have hheld : ∀ k p, ((state.cache.setPage i none).compact i).pages k = some p →
      ((state.cache.setPage i none).compact i).HeldAt k p :=
    fun k p hp ↦ ⟨(hfilled k).mp (by rw [hp]; rfl), hp⟩
  refine ⟨le_trans (Nat.sub_le _ _) hcount, hfilled, ?_, ?_⟩
  · -- two empty pages after the release were two empty pages before it
    intro j k p q hp hq hpe hqe
    obtain ⟨j', ⟨-, hj'⟩, hjv⟩ := SlabCache.heldAt_release hcount hi (hheld j p hp)
    obtain ⟨k', ⟨-, hk'⟩, hkv⟩ := SlabCache.heldAt_release hcount hi (hheld k q hq)
    have heq := congrArg Fin.val (h.one_empty j' k' p q hj' hk' hpe hqe)
    apply Fin.ext
    rw [hjv, hkv] at heq
    split_ifs at heq <;> omega
  · have hupdate := heldBlocks_update state.cache.pages i none
    simp only [hpage, entryBlocks, Option.elim_none, Option.elim_some, add_zero] at hupdate
    simp only [SlabCache.heldBlocks_compact, SlabCache.setPage]
    show _ + ((⟨page.base, 0⟩ :: state.log.returned : List Block) : Multiset Block) =
      (state.log.obtained : Multiset Block)
    rw [← Multiset.cons_coe, ← Multiset.singleton_add, ← add_assoc, hupdate, h.balance]

/-- Every call keeps the account. -/
theorem Accounted.step {state next : CacheRun cls σ} {call : CacheCall σ} (h : state.Accounted)
    (hstep : state.step call = some next) : next.Accounted := by
  cases call with
  | alloc =>
      cases hstep
      rcases state.cache.alloc_cases state.log with
        ⟨i, page, ptr, after, hi, hpage, halloc, heq⟩ | ⟨ptr, grown, hgrown, heq⟩ | ⟨-, -, heq⟩
      · obtain ⟨-, -, -, -, hbase, -⟩ := SlabPage.alloc_eq_some halloc
        rw [heq]
        refine h.setPage hpage hbase fun hempty ↦ ?_
        rw [SlabPage.isEmpty_of_alloc halloc] at hempty
        cases hempty
      · rw [heq]
        exact h.grow hgrown
      · rw [heq]
        exact h
  | free ptr =>
      cases hstep
      rcases state.cache.free_cases ptr state.log with
        ⟨-, heq⟩ | ⟨i, page, hi, hpage, -, ⟨hempty, heq⟩ | ⟨-, -, heq⟩⟩
      · rw [heq]
        exact h
      · rw [heq]
        exact h.setPage hpage (SlabPage.free_base page ptr) hempty
      · rw [heq]
        exact h.release hpage
  | other source =>
      cases hstep
      exact ⟨h.count_le, h.filled, h.one_empty, h.balance⟩

/-- A call returns no page, or it is a free that clears the last object of the page that contains
the address and returns that page. -/
theorem step_returned {state next : CacheRun cls σ} {call : CacheCall σ}
    (hstep : state.step call = some next) :
    next.log.returned = state.log.returned ∨
      ∃ ptr i page, call = .free ptr ∧ state.cache.pages i = some page ∧
        page.contains ptr = true ∧ (page.free ptr).2.bitmap = (fun _ ↦ 0#64) ∧
        next.log.returned = ⟨page.base, 0⟩ :: state.log.returned := by
  cases call with
  | alloc =>
      cases hstep
      exact Or.inl (state.cache.alloc_returned state.log)
  | free ptr =>
      cases hstep
      rcases state.cache.free_cases ptr state.log with
        ⟨-, heq⟩ | ⟨i, page, hi, hpage, hcontains, ⟨-, heq⟩ | ⟨hempty, -, heq⟩⟩
      · exact Or.inl (by rw [heq])
      · exact Or.inl (by rw [heq])
      · refine Or.inr ⟨ptr, i, page, rfl, hpage, hcontains, ?_, by rw [heq]; rfl⟩
        exact funext (by simpa [SlabPage.isEmpty] using hempty)
  | other source =>
      cases hstep
      exact Or.inl rfl

/-- In every history of allocations and frees, misuse included: the held pages are exactly the
entries below `count`, at most one of them is empty, the pages held and the pages returned are
together the pages obtained, and a page is returned only when its bitmap is all zero. -/
theorem page_accounting {source : σ} {state : CacheRun cls σ}
    (h : Reachable step (start cls source) state) :
    (state.cache.count ≤ MAX_SLABS_PER_SIZE ∧
      ∀ k, (state.cache.pages k).isSome = true ↔ k.val < state.cache.count) ∧
    (∀ i j p q, state.cache.pages i = some p → state.cache.pages j = some q →
      p.isEmpty = true → q.isEmpty = true → i = j) ∧
    state.cache.pages.heldBlocks + state.log.returned = state.log.obtained ∧
    ∀ call next, state.step call = some next → next.log.returned = state.log.returned ∨
      ∃ ptr i page, call = .free ptr ∧ state.cache.pages i = some page ∧
        page.contains ptr = true ∧ (page.free ptr).2.bitmap = (fun _ ↦ 0#64) ∧
        next.log.returned = ⟨page.base, 0⟩ :: state.log.returned := by
  have haccounted := h.invariant (accounted_start source) fun _ _ _ h hstep ↦ h.step hstep
  exact ⟨⟨haccounted.count_le, haccounted.filled⟩, haccounted.one_empty, haccounted.balance,
    fun _ _ ↦ step_returned⟩

/-- A run in which the second page becomes empty after the first and is returned. -/
theorem page_accounting_release :
    ∃ state, run step (start 7 (BuddyAllocator.init 0x100000 0x4000))
        [.alloc, .alloc, .alloc, .free 0x100000, .free 0x100800, .free 0x101000] = some state ∧
      state.log.returned = [⟨0x101000, 0⟩] ∧
      state.cache.pages.heldBlocks + state.log.returned = state.log.obtained := by
  have hreturned : (run step (start 7 (BuddyAllocator.init 0x100000 0x4000))
      [.alloc, .alloc, .alloc, .free 0x100000, .free 0x100800, .free 0x101000]).map
        (fun state ↦ state.log.returned) = some [⟨0x101000, 0⟩] := by decide +kernel
  obtain ⟨state, hrun, hstate⟩ := Option.map_eq_some_iff.mp hreturned
  exact ⟨state, hrun, hstate, (page_accounting ⟨_, hrun⟩).2.2.1⟩

end CacheRun

end Avaria.Mm
