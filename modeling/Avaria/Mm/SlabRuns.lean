import Avaria.Mm.Buddy
import Avaria.Mm.SlabLayout

/-!
# Runs of the slab allocator

The slab allocator is driven through an arbitrary sequence of allocations of any sizes and frees of
live objects, over a page source whose answers are fresh pages: other clients may move the source
to any state in between, as long as the next page that it hands out is separate from every held
page.

`Safe` relates the allocator to the list of live objects. The steps keep it (`Safe.alloc`,
`Safe.free`), and `slab_safety` reads the run-level result off it.
-/

namespace Avaria.Mm

open Transition

/-- An object that was handed out, with the size that was asked for. -/
structure Obj where
  ptr : Nat
  size : Nat
  deriving DecidableEq, Repr

/-- The slot of an object: as long as the objects of the class that serves its size. -/
def Obj.slot (obj : Obj) : Extent := ⟨obj.ptr, slotSize obj.size⟩

/-- The live objects are allocated in the class of their size, at different addresses. -/
structure Safe (slab : SlabAllocator) (live : List Obj) : Prop where
  layout : slab.Layout
  placed : ∀ obj ∈ live, ∃ cls, classFor obj.size = some cls ∧ slab.AllocatedIn cls obj.ptr
  distinct : live.Pairwise fun a b ↦ a.ptr ≠ b.ptr

namespace Safe

variable {σ : Type*} [PageSource σ] {slab : SlabAllocator} {live : List Obj}

theorem new : Safe SlabAllocator.new [] where
  layout := SlabAllocator.layout_new
  placed := fun obj hmem ↦ absurd hmem (by simp)
  distinct := List.Pairwise.nil

/-- An allocated address joins the live objects. -/
theorem alloc (h : Safe slab live) {next : SlabAllocator} {cls : SizeClass} {ptr size : Nat}
    (hclass : classFor size = some cls) (halloc : slab.Allocated next cls ptr) :
    Safe next (⟨ptr, size⟩ :: live) where
  layout := halloc.layout
  placed := by
    intro obj hmem
    rcases List.mem_cons.mp hmem with rfl | hmem
    · exact ⟨cls, hclass, (halloc.effect _ _).mpr (Or.inr ⟨rfl, rfl⟩)⟩
    · obtain ⟨other, hother, hplaced⟩ := h.placed obj hmem
      exact ⟨other, hother, (halloc.effect _ _).mpr (Or.inl hplaced)⟩
  distinct := by
    refine List.pairwise_cons.mpr ⟨fun obj hmem heq ↦ ?_, h.distinct⟩
    obtain ⟨other, -, hplaced⟩ := h.placed obj hmem
    rw [← heq] at hplaced
    exact halloc.fresh other hplaced

/-- Forgetting an object leaves the others safe. -/
theorem tail (h : Safe slab live) {obj : Obj} {rest : List Obj} (hlive : live = obj :: rest) :
    Safe slab rest where
  layout := h.layout
  placed := fun other hmem ↦ h.placed other (hlive ▸ List.mem_cons_of_mem obj hmem)
  distinct := (List.pairwise_cons.mp (hlive ▸ h.distinct)).2

/-- The order of the live objects does not matter. -/
theorem perm (h : Safe slab live) {other : List Obj} (hperm : live.Perm other) :
    Safe slab other where
  layout := h.layout
  placed := fun obj hmem ↦ h.placed obj (hperm.mem_iff.mpr hmem)
  distinct := (hperm.pairwise_iff fun hne ↦ Ne.symm hne).mp h.distinct

/-- A live object and the others have different addresses. -/
theorem ptr_ne (h : Safe slab live) {obj other : Obj} (hobj : obj ∈ live)
    (hother : other ∈ live.erase obj) : other.ptr ≠ obj.ptr := by
  have hperm := (List.perm_cons_erase hobj).pairwise_iff (fun hne ↦ Ne.symm hne) |>.mp h.distinct
  exact ((List.pairwise_cons.mp hperm).1 other hother).symm

/-- A slab that releases exactly the address of one live object keeps the others. -/
theorem erase (h : Safe slab live) {next : SlabAllocator} {obj : Obj} (hobj : obj ∈ live)
    (hlayout : next.Layout) (heffect : ∀ cls addr, next.AllocatedIn cls addr ↔
      slab.AllocatedIn cls addr ∧ addr ≠ obj.ptr) : Safe next (live.erase obj) where
  layout := hlayout
  placed := by
    intro other hother
    obtain ⟨cls, hclass, hplaced⟩ := h.placed other (List.mem_of_mem_erase hother)
    exact ⟨cls, hclass, (heffect _ _).mpr ⟨hplaced, h.ptr_ne hobj hother⟩⟩
  distinct := h.distinct.sublist List.erase_sublist

/-- Every live object lies in a slot of exactly one held page, whose objects are large enough. -/
theorem located (h : Safe slab live) {obj : Obj} (hobj : obj ∈ live) :
    ∃ (cls : SizeClass) (k : Fin MAX_SLABS_PER_SIZE) (page : SlabPage cls) (i : Nat),
      obj.size ≤ SLAB_SIZES cls ∧ slab.HeldAt k page ∧ i < page.capacity ∧ page.used i = true ∧
        obj.slot = ⟨page.base + i * SLAB_SIZES cls, SLAB_SIZES cls⟩ ∧
        obj.slot.Within page.extent ∧
        ∀ (other : SizeClass) (k' : Fin MAX_SLABS_PER_SIZE) (page' : SlabPage other),
          slab.HeldAt k' page' → page'.extent.Contains obj.ptr → other = cls ∧ k' = k := by
  obtain ⟨cls, hclass, k, page, hk, i, hi, hused, hptr⟩ := h.placed obj hobj
  have hslot : obj.slot = ⟨page.slotAddr i, page.objSize⟩ := by
    simp [Obj.slot, slotSize, hclass, hptr, SlabPage.objSize]
  refine ⟨cls, k, page, i, classFor_eq_some hclass, hk, hi, hused, hslot,
    hslot ▸ page.slot_within hi, ?_⟩
  intro other k' page' hk' hin
  have hholds : page.Holds obj.ptr := ⟨i, hi, hused, hptr⟩
  exact h.layout.unique hk' hk hin hholds.extent_contains

/-- Live objects share no address, not even within the slots that they leave unused. -/
theorem pairwise_apart (h : Safe slab live) : live.Pairwise fun a b ↦ a.slot.Apart b.slot := by
  refine h.distinct.imp_of_mem fun {a b} ha hb hne ↦ ?_
  obtain ⟨cls, k, page, i, -, hk, hi, -, hslot, hwithin, -⟩ := h.located ha
  obtain ⟨cls', k', page', i', -, hk', hi', -, hslot', hwithin', -⟩ := h.located hb
  by_cases hkey : (cls, k) = (cls', k')
  · obtain ⟨rfl, rfl⟩ := Prod.mk.inj hkey
    obtain rfl : page = page' := Option.some.inj (hk.2.symm.trans hk'.2)
    rw [hslot, hslot']
    refine page.slots_apart ?_
    intro heq
    subst heq
    exact hne (congrArg Extent.start (hslot.trans hslot'.symm))
  · exact (h.layout.apart hk hk' hkey).mono hwithin hwithin'

/-- A page that is given back is separate from every other live object. -/
theorem apart_of_givesBack (h : Safe slab live) {obj : Obj} (hobj : obj ∈ live)
    {cls : SizeClass} {k : Fin MAX_SLABS_PER_SIZE} {page : SlabPage cls}
    (hpage : slab.HeldAt k page)
    (honly : ∀ other addr, slab.AllocatedIn other addr → page.extent.Contains addr →
      addr = obj.ptr) {other : Obj} (hother : other ∈ live.erase obj) :
    other.slot.Apart page.extent := by
  have hmem := List.mem_of_mem_erase hother
  obtain ⟨cls', k', page', i, -, hk', hi, hused, hslot, hwithin, -⟩ := h.located hmem
  by_cases hkey : (cls', k') = (cls, k)
  · obtain ⟨rfl, rfl⟩ := Prod.mk.inj hkey
    obtain rfl : page' = page := Option.some.inj (hk'.2.symm.trans hpage.2)
    have hholds : page'.Holds other.ptr := ⟨i, hi, hused, congrArg Extent.start hslot⟩
    exact absurd (honly _ _ ⟨k', page', hk', hholds⟩ hholds.extent_contains)
      (h.ptr_ne hobj hother)
  · exact (h.layout.apart hk' hpage hkey).mono hwithin (Extent.Within.refl _)

end Safe

/-- The slab allocator, the logged page source that it draws from and the live objects. -/
structure SlabRun (σ : Type*) where
  slab : SlabAllocator
  log : Logged σ
  live : List Obj

/-- A call of the slab allocator, or a move of the page source by another client. -/
inductive SlabCall (σ : Type*) where
  | alloc (size : Nat)
  | free (obj : Obj)
  | other (source : σ)

namespace SlabRun

variable {σ : Type*} [PageSource σ]

/-- The allocator as `SlabAllocator::new` leaves it. -/
def start (source : σ) : SlabRun σ := ⟨SlabAllocator.new, ⟨source, [], []⟩, []⟩

/-- One call. -/
def call (state : SlabRun σ) : SlabCall σ → Option (SlabRun σ)
  | .alloc size =>
      let result := state.slab.alloc size state.log
      some ⟨result.2.1, result.2.2,
        (result.1.map fun ptr ↦ ⟨ptr, size⟩).toList ++ state.live⟩
  | .free obj =>
      let result := state.slab.free obj.ptr state.log
      some ⟨result.2.1, result.2.2, state.live.erase obj⟩
  | .other source => some { state with log := { state.log with source } }

/-- A page that the source hands out is fresh, and a free names a live object. -/
def Allowed (state : SlabRun σ) : SlabCall σ → Prop
  | .alloc _ => state.slab.FreshPage (PageSource.allocOne state.log).1
  | .free obj => obj ∈ state.live
  | .other _ => True

instance (state : SlabRun σ) (call : SlabCall σ) : Decidable (Allowed state call) := by
  cases call <;> unfold Allowed <;> infer_instance

/-- An allowed call. -/
def step : SlabRun σ → SlabCall σ → Option (SlabRun σ) := restrict call Allowed

/-- Every allowed call keeps the live objects safe. -/
theorem safe_step {state next : SlabRun σ} {action : SlabCall σ}
    (h : Safe state.slab state.live) (hstep : step state action = some next) :
    Safe next.slab next.live := by
  obtain ⟨hallowed, hcall⟩ := restrict_eq_some.mp hstep
  cases action with
  | alloc size =>
      cases hcall
      rcases h.layout.alloc_spec size state.log hallowed with
        heq | ⟨cls, ptr, slab, after, hclass, heq, halloc⟩
      · simpa [heq] using h
      · simpa [heq] using h.alloc hclass halloc
  | free obj =>
      cases hcall
      obtain ⟨cls, -, hplaced⟩ := h.placed obj hallowed
      obtain ⟨slab, after, heq, hlayout, heffect, -⟩ := h.layout.free_spec hplaced state.log
      simpa [heq] using h.erase hallowed hlayout heffect
  | other source =>
      cases hcall
      exact h

/-- What an allowed free of a live object does: it returns true, releases this object only, and
passes to the page source at most the page of the object, when no live object is left in it. -/
theorem free_live {state next : SlabRun σ} {obj : Obj} (h : Safe state.slab state.live)
    (hstep : step state (.free obj) = some next) :
    (state.slab.free obj.ptr state.log).1 = true ∧
      (∀ cls addr, next.slab.AllocatedIn cls addr ↔
        state.slab.AllocatedIn cls addr ∧ addr ≠ obj.ptr) ∧
      (next.log.returned = state.log.returned ∨
        ∃ (cls : SizeClass) (k : Fin MAX_SLABS_PER_SIZE) (page : SlabPage cls),
          state.slab.HeldAt k page ∧ next.log.returned = ⟨page.base, 0⟩ :: state.log.returned ∧
            ∀ other ∈ next.live, other.slot.Apart page.extent) := by
  obtain ⟨hlive, hcall⟩ := restrict_eq_some.mp hstep
  cases hcall
  obtain ⟨cls, -, hplaced⟩ := h.placed obj hlive
  obtain ⟨slab, after, heq, -, heffect, hback⟩ := h.layout.free_spec hplaced state.log
  refine ⟨by rw [heq], by simpa [heq] using heffect, ?_⟩
  simp only [heq]
  rcases hback with rfl | ⟨cls', k, page, hpage, -, honly, rfl⟩
  · exact Or.inl rfl
  · exact Or.inr ⟨cls', k, page, hpage, rfl,
      fun other hother ↦ h.apart_of_givesBack hlive hpage honly hother⟩

/-- An allocation passes no page to the page source. -/
theorem alloc_returned {state next : SlabRun σ} {size : Nat}
    (hstep : step state (.alloc size) = some next) :
    next.log.returned = state.log.returned := by
  obtain ⟨-, hcall⟩ := restrict_eq_some.mp hstep
  cases hcall
  unfold SlabAllocator.alloc
  cases classFor size with
  | none => rfl
  | some cls => exact (state.slab.caches cls).alloc_returned state.log

/-- In every run in which the source hands out fresh pages and every free names a live object:
each live object lies at `base + i * obj_size` in exactly one page, held by exactly one cache whose
objects are large enough; live objects are pairwise separate; a free of a live object returns true
and releases exactly this object; and no page goes back to the source while it contains a live
object. -/
theorem slab_safety {source : σ} {state : SlabRun σ} (h : Reachable step (start source) state) :
    (∀ obj ∈ state.live,
      ∃ (cls : SizeClass) (k : Fin MAX_SLABS_PER_SIZE) (page : SlabPage cls) (i : Nat),
        obj.size ≤ SLAB_SIZES cls ∧ state.slab.HeldAt k page ∧ i < page.capacity ∧
          page.used i = true ∧ obj.slot = ⟨page.base + i * SLAB_SIZES cls, SLAB_SIZES cls⟩ ∧
          obj.slot.Within page.extent ∧
          ∀ (other : SizeClass) (k' : Fin MAX_SLABS_PER_SIZE) (page' : SlabPage other),
            state.slab.HeldAt k' page' → page'.extent.Contains obj.ptr →
              other = cls ∧ k' = k) ∧
    (state.live.Pairwise fun a b ↦ a.slot.Apart b.slot) ∧
    (∀ obj ∈ state.live, ∃ next, step state (.free obj) = some next ∧
      (state.slab.free obj.ptr state.log).1 = true ∧ next.live = state.live.erase obj ∧
        ∀ cls addr, next.slab.AllocatedIn cls addr ↔
          state.slab.AllocatedIn cls addr ∧ addr ≠ obj.ptr) ∧
    ∀ action next, step state action = some next →
      next.log.returned = state.log.returned ∨
        ∃ (cls : SizeClass) (k : Fin MAX_SLABS_PER_SIZE) (page : SlabPage cls),
          state.slab.HeldAt k page ∧ next.log.returned = ⟨page.base, 0⟩ :: state.log.returned ∧
            ∀ obj ∈ next.live, obj.slot.Apart page.extent := by
  have hsafe : Safe state.slab state.live :=
    h.invariant (P := fun state ↦ Safe state.slab state.live) Safe.new
      fun _ _ _ hsafe hstep ↦ safe_step hsafe hstep
  refine ⟨fun obj hobj ↦ hsafe.located hobj, hsafe.pairwise_apart, ?_, ?_⟩
  · intro obj hobj
    have hstep : step state (.free obj) = call state (.free obj) := if_pos hobj
    obtain ⟨htrue, heffect, -⟩ := free_live hsafe hstep
    exact ⟨_, hstep, htrue, rfl, heffect⟩
  · intro action next hstep
    cases action with
    | alloc size => exact Or.inl (alloc_returned hstep)
    | free obj => exact (free_live hsafe hstep).2.2
    | other source =>
        obtain ⟨-, hcall⟩ := restrict_eq_some.mp hstep
        cases hcall
        exact Or.inl rfl

/-- A run over two classes in which the last free gives a page back. -/
theorem slab_safety_release :
    ∃ state, run step (start (BuddyAllocator.init 0x100000 0x10000))
        [.alloc 2000, .alloc 1025, .alloc 2048, .alloc 100, .free ⟨0x100000, 2000⟩,
          .free ⟨0x100800, 1025⟩, .free ⟨0x101000, 2048⟩] = some state ∧
      state.live = [⟨0x102000, 100⟩] ∧ state.log.returned = [⟨0x101000, 0⟩] ∧
      state.live.Pairwise fun a b ↦ a.slot.Apart b.slot := by
  have hfields : (run step (start (BuddyAllocator.init 0x100000 0x10000))
      [.alloc 2000, .alloc 1025, .alloc 2048, .alloc 100, .free ⟨0x100000, 2000⟩,
        .free ⟨0x100800, 1025⟩, .free ⟨0x101000, 2048⟩]).map
          (fun state ↦ (state.live, state.log.returned)) =
        some ([⟨0x102000, 100⟩], [⟨0x101000, 0⟩]) := by decide +kernel
  obtain ⟨state, hrun, hstate⟩ := Option.map_eq_some_iff.mp hfields
  obtain ⟨hlive, hreturned⟩ := Prod.mk.inj hstate
  exact ⟨state, hrun, hlive, hreturned, (slab_safety ⟨_, hrun⟩).2.1⟩

end SlabRun

end Avaria.Mm
