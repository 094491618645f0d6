import Avaria.Mem.Kmalloc
import Avaria.Mm.SlabRuns

/-!
# The owner of a block

`kfree` is not told which layer produced a block: it offers small ones to the slab allocator and
passes the rest to the page source with an order that it computes from the size. Over every run of
`kmalloc`, `kmalloc_aligned` with alignments up to a page, and `kfree` of live blocks, this agrees
with what the allocation did, as long as the page source hands out blocks that are separate from
the live blocks and the slab pages.

`Owned` is the invariant: slab objects are allocated in the slab allocator, blocks of the page
source lie outside its pages, and their order is the one that `kfree` computes.
-/

namespace Avaria.Mem

open Transition Mm

/-- A live block: its address, the size it was requested with, and the layer that produced it. -/
structure Allocation where
  ptr : Nat
  size : Nat
  owner : Owner
  deriving DecidableEq, Repr

namespace Allocation

/-- The slab object of an allocation. -/
def obj (a : Allocation) : Option Obj :=
  match a.owner with
  | .slab _ => some ⟨a.ptr, a.size⟩
  | .buddy _ => none

/-- The block of the page source of an allocation. -/
def block (a : Allocation) : Option Block :=
  match a.owner with
  | .slab _ => none
  | .buddy order => some ⟨a.ptr, order⟩

end Allocation

/-- The allocation that the caller receives; a null pointer is none. -/
def adopt (size : Nat) (result : Option (Nat × Owner)) : List Allocation :=
  ((result.filter fun found ↦ found.1 ≠ 0).map fun found ↦ ⟨found.1, size, found.2⟩).toList

theorem adopt_some {size ptr : Nat} (hptr : ptr ≠ 0) (owner : Owner) :
    adopt size (some (ptr, owner)) = [⟨ptr, size, owner⟩] := by
  simp [adopt, Option.filter, hptr]

/-- The allocation that the caller receives has the address and the owner of the result. -/
theorem mem_adopt {size : Nat} {result : Option (Nat × Owner)} {a : Allocation}
    (h : a ∈ adopt size result) :
    a.ptr ≠ 0 ∧ a.size = size ∧ result = some (a.ptr, a.owner) := by
  simp only [adopt, Option.mem_toList, Option.map_eq_some_iff, Option.filter_eq_some_iff,
    decide_eq_true_eq] at h
  obtain ⟨found, ⟨rfl, hne⟩, rfl⟩ := h
  exact ⟨hne, rfl, rfl⟩

section Invariant

variable {σ : Type*} [PageSource σ]

/-- The block that the page source would hand out lies in the address space, separate from every
live block and every slab page. -/
def FreshBlock (heap : Heap σ) (live : List Allocation) (order : Nat) : Prop :=
  ∀ addr ∈ (PageSource.allocPages heap.buddy order).1,
    addr + PAGE_SIZE * 2 ^ order < 2 ^ 64 ∧ heap.slab.Outside (Block.extent ⟨addr, order⟩) ∧
      ∀ a ∈ live, ∀ block ∈ a.block, (Block.extent ⟨addr, order⟩).Apart block.extent

instance (heap : Heap σ) (live : List Allocation) (order : Nat) :
    Decidable (FreshBlock heap live order) :=
  inferInstanceAs (Decidable (∀ addr ∈ (PageSource.allocPages heap.buddy order).1, _ ∧ _ ∧ _))

/-- The live blocks and the layers that produced them fit together. -/
structure Owned (heap : Heap σ) (live : List Allocation) : Prop where
  safe : Safe heap.slab (live.filterMap Allocation.obj)
  outside : ∀ a ∈ live, ∀ block ∈ a.block, heap.slab.Outside block.extent
  order : ∀ a ∈ live, ∀ block ∈ a.block, block.order = orderFor a.size
  nonzero : ∀ a ∈ live, a.ptr ≠ 0 ∧ a.size ≠ 0

/-- A fresh block of order 0 is a fresh page for the slab allocator. -/
theorem FreshBlock.freshPage {heap : Heap σ} {live : List Allocation}
    (h : FreshBlock heap live 0) : heap.slab.FreshPage (PageSource.allocOne heap.buddy).1 := by
  intro base hbase
  obtain ⟨hfits, houtside, -⟩ := h base hbase
  exact ⟨hfits, houtside⟩

namespace Owned

variable {heap : Heap σ} {live : List Allocation}

omit [PageSource σ] in
/-- A block that the caller receives joins the live blocks. -/
theorem join (h : Owned heap live) {size : Nat} (hsize : size ≠ 0) {result : Option (Nat × Owner)}
    {next : Heap σ} (hsafe : Safe next.slab ((adopt size result ++ live).filterMap Allocation.obj))
    (hold : ∀ a ∈ live, ∀ block ∈ a.block, next.slab.Outside block.extent)
    (hnew : ∀ a ∈ adopt size result, ∀ block ∈ a.block,
      next.slab.Outside block.extent ∧ block.order = orderFor a.size) :
    Owned next (adopt size result ++ live) where
  safe := hsafe
  outside := fun a ha block hblock ↦
    (List.mem_append.mp ha).elim (fun ha ↦ (hnew a ha block hblock).1) fun ha ↦
      hold a ha block hblock
  order := fun a ha block hblock ↦
    (List.mem_append.mp ha).elim (fun ha ↦ (hnew a ha block hblock).2) fun ha ↦
      h.order a ha block hblock
  nonzero := by
    intro a ha
    rcases List.mem_append.mp ha with ha | ha
    · obtain ⟨hptr, rfl, -⟩ := mem_adopt ha
      exact ⟨hptr, hsize⟩
    · exact h.nonzero a ha

/-- A slab object that the caller receives joins the live blocks. -/
theorem slabAlloc (h : Owned heap live) {size ptr : Nat} {slab : SlabAllocator} {buddy : σ}
    (hsize : size ≠ 0) (hfresh : FreshBlock heap live 0)
    (hcall : heap.slab.alloc size heap.buddy = (some ptr, slab, buddy)) :
    Owned ⟨slab, buddy⟩ (adopt size (some (ptr, .slab (slotSize size))) ++ live) := by
  rcases h.safe.layout.alloc_spec size heap.buddy hfresh.freshPage with
    heq | ⟨cls, addr, next, after, hclass, heq, halloc⟩ <;> rw [hcall] at heq <;> cases heq
  have hsafe := h.safe.alloc hclass halloc
  refine h.join hsize ?_ ?_ ?_
  · by_cases hptr : ptr = 0
    · -- the caller takes an object at address 0 for a failure and drops it
      subst hptr
      exact hsafe.tail rfl
    · rw [adopt_some hptr]
      exact hsafe
  · intro a ha block hblock
    have hkeep := (h.outside a ha block hblock).alloc size heap.buddy fun base hbase ↦ by
      obtain ⟨-, -, hblocks⟩ := hfresh base hbase
      exact (hblocks a ha block hblock).symm
    rwa [hcall] at hkeep
  · intro a ha block hblock
    obtain ⟨-, -, hresult⟩ := mem_adopt ha
    obtain ⟨addr, asked, owner⟩ := a
    cases hresult
    cases hblock

/-- A block of the page source that the caller receives joins the live blocks. -/
theorem buddyAlloc (h : Owned heap live) {size order : Nat} (hsize : size ≠ 0)
    (hfresh : FreshBlock heap live order) (horder : order = orderFor size) :
    Owned (heap.allocOrder order).2 (adopt size (heap.allocOrder order).1 ++ live) := by
  rcases heap.allocOrder_cases order with ⟨addr, buddy, hcall, heq⟩ | ⟨-, heq⟩
  · rw [heq]
    have hnew : ∀ a ∈ adopt size (some (addr, Owner.buddy order)),
        a.size = size ∧ a.obj = none ∧ a.block = some ⟨addr, order⟩ := by
      intro a ha
      obtain ⟨-, hsize, hresult⟩ := mem_adopt ha
      obtain ⟨ptr, _, owner⟩ := a
      cases hresult
      exact ⟨hsize, rfl, rfl⟩
    obtain ⟨-, houtside, -⟩ := hfresh addr (by rw [hcall]; rfl)
    refine h.join hsize ?_ h.outside ?_
    · have hobjs : (adopt size (some (addr, Owner.buddy order))).filterMap Allocation.obj = [] :=
        List.filterMap_eq_nil_iff.mpr fun a ha ↦ (hnew a ha).2.1
      rw [List.filterMap_append, hobjs]
      exact h.safe
    · intro a ha block hblock
      obtain ⟨hasked, -, hown⟩ := hnew a ha
      rw [hown] at hblock
      cases hblock
      exact ⟨houtside, by rw [hasked, horder]⟩
  · rw [heq]
    exact h

/-- A live slab object is freed by the slab allocator, which releases this object only, and
nothing else is passed to the page source. -/
theorem kfree_slab (h : Owned heap live) {a : Allocation} (ha : a ∈ live) {objSize : Nat}
    (howner : a.owner = .slab objSize) :
    ∃ slab buddy, heap.slab.free a.ptr heap.buddy = (true, slab, buddy) ∧
      heap.kfree a.ptr a.size = ⟨slab, buddy⟩ ∧ slab.Layout ∧
      (∀ cls addr, slab.AllocatedIn cls addr ↔
        heap.slab.AllocatedIn cls addr ∧ addr ≠ a.ptr) ∧
      heap.slab.GivesBack a.ptr heap.buddy buddy := by
  have hobj : (⟨a.ptr, a.size⟩ : Obj) ∈ live.filterMap Allocation.obj :=
    List.mem_filterMap.mpr ⟨a, ha, by simp [Allocation.obj, howner]⟩
  obtain ⟨cls, hclass, hplaced⟩ := h.safe.placed _ hobj
  obtain ⟨slab, buddy, hfree, hlayout, heffect, hback⟩ :=
    h.safe.layout.free_spec hplaced heap.buddy
  have hsmall : a.size ≤ 2048 := by
    by_contra hlarge
    rw [classFor_eq_none.mpr (Nat.lt_of_not_le hlarge)] at hclass
    cases hclass
  refine ⟨slab, buddy, hfree, ?_, hlayout, heffect, hback⟩
  have hnonzero := h.nonzero a ha
  have hcall : heap.slab.free a.ptr heap.buddy = (true, slab, buddy) := hfree
  unfold Heap.kfree
  rw [if_neg (by tauto), if_pos hsmall, hcall]

/-- A live block of the page source is passed to `free_pages` with its order, and the slab
allocator stays as it was. -/
theorem kfree_buddy (h : Owned heap live) {a : Allocation} (ha : a ∈ live) {order : Nat}
    (howner : a.owner = .buddy order) :
    heap.kfree a.ptr a.size =
      ⟨heap.slab, PageSource.freePages heap.buddy a.ptr order⟩ := by
  have hblock : (⟨a.ptr, order⟩ : Block) ∈ a.block := by simp [Allocation.block, howner]
  have horder : order = orderFor a.size := h.order a ha _ hblock
  have hcontains : (Block.extent ⟨a.ptr, order⟩).Contains a.ptr :=
    ⟨le_rfl, Nat.lt_add_of_pos_right (Block.extent_length_pos _)⟩
  -- a small block is offered to the slab allocator first, which finds it in none of its pages
  have hfree := (h.outside a ha _ hblock).free_eq h.safe.layout hcontains heap.buddy
  have hnonzero := h.nonzero a ha
  unfold Heap.kfree
  rw [if_neg (by tauto), hfree, ← horder]
  split <;> rfl

/-- Freeing a live block keeps the others in order. -/
theorem kfree (h : Owned heap live) {a : Allocation} (ha : a ∈ live) :
    Owned (heap.kfree a.ptr a.size) (live.erase a) := by
  have hperm := List.perm_cons_erase ha
  have hobjs := hperm.filterMap Allocation.obj
  have hmem : ∀ other ∈ live.erase a, other ∈ live := fun _ ↦ List.mem_of_mem_erase
  cases howner : a.owner with
  | slab objSize =>
      obtain ⟨slab, buddy, hfree, heq, hlayout, heffect, -⟩ := h.kfree_slab ha howner
      rw [heq]
      have hobj : a.obj = some ⟨a.ptr, a.size⟩ := by simp [Allocation.obj, howner]
      rw [List.filterMap_cons_some hobj] at hobjs
      refine ⟨?_, ?_, fun other hother ↦ h.order other (hmem other hother),
        fun other hother ↦ h.nonzero other (hmem other hother)⟩
      · have hlive : (⟨a.ptr, a.size⟩ : Obj) ∈ live.filterMap Allocation.obj :=
          List.mem_filterMap.mpr ⟨a, ha, hobj⟩
        have herase := hobjs.erase (⟨a.ptr, a.size⟩ : Obj)
        rw [List.erase_cons_head] at herase
        exact (h.safe.erase hlive hlayout heffect).perm herase
      · intro other hother block hblock
        have hkeep := (h.outside other (hmem other hother) block hblock).free h.safe.layout
          a.ptr heap.buddy
        rwa [hfree] at hkeep
  | buddy order =>
      rw [h.kfree_buddy ha howner]
      have hobj : a.obj = none := by simp [Allocation.obj, howner]
      rw [List.filterMap_cons_none hobj] at hobjs
      exact ⟨h.safe.perm hobjs, fun other hother ↦ h.outside other (hmem other hother),
        fun other hother ↦ h.order other (hmem other hother),
        fun other hother ↦ h.nonzero other (hmem other hother)⟩

end Owned

end Invariant

/-! ## Runs -/

/-- The heap over a logged page source, with the live blocks. -/
structure HeapRun (σ : Type*) where
  heap : Heap (Logged σ)
  live : List Allocation

/-- A call of an entry point, or a move of the page source by another client. -/
inductive HeapCall (σ : Type*) where
  | kmalloc (size : Nat)
  | kmallocAligned (size align : Nat)
  | kfree (a : Allocation)
  | other (source : σ)

namespace HeapRun

variable {σ : Type*}

/-- The heap before the first call. -/
def start (source : σ) : HeapRun σ := ⟨⟨SlabAllocator.new, ⟨source, [], []⟩⟩, []⟩

theorem owned_start (source : σ) : Owned (start source).heap (start source).live where
  safe := Safe.new
  outside := fun a ha ↦ absurd ha (by simp [start])
  order := fun a ha ↦ absurd ha (by simp [start])
  nonzero := fun a ha ↦ absurd ha (by simp [start])

variable [PageSource σ]

/-- One call. -/
def call (state : HeapRun σ) : HeapCall σ → Option (HeapRun σ)
  | .kmalloc size =>
      let result := state.heap.kmallocWith size
      some ⟨result.2, adopt size result.1 ++ state.live⟩
  | .kmallocAligned size align =>
      let result := state.heap.kmallocAlignedWith size align
      some ⟨result.2, adopt size result.1 ++ state.live⟩
  | .kfree a => some ⟨state.heap.kfree a.ptr a.size, state.live.erase a⟩
  | .other source =>
      some { state with heap := { state.heap with buddy := { state.heap.buddy with source } } }

/-- The block that the call asks the page source for is fresh, alignments are at most a page, and
`kfree` names a live block with its size. -/
def Allowed (state : HeapRun σ) : HeapCall σ → Prop
  | .kmalloc size => FreshBlock state.heap state.live (orderFor size)
  | .kmallocAligned size align =>
      align ≤ PAGE_SIZE ∧
        FreshBlock state.heap state.live (orderFor (Heap.alignedSize size align))
  | .kfree a => a ∈ state.live
  | .other _ => True

instance (state : HeapRun σ) (call : HeapCall σ) : Decidable (Allowed state call) := by
  cases call <;> unfold Allowed <;> infer_instance

/-- An allowed call. -/
def step : HeapRun σ → HeapCall σ → Option (HeapRun σ) := restrict call Allowed

/-- Every allowed call keeps the invariant. -/
theorem owned_step {state next : HeapRun σ} {action : HeapCall σ}
    (h : Owned state.heap state.live) (hstep : step state action = some next) :
    Owned next.heap next.live := by
  obtain ⟨hallowed, hcall⟩ := restrict_eq_some.mp hstep
  cases action with
  | kmalloc size =>
      cases hcall
      by_cases hzero : size = 0
      · subst hzero
        exact h
      · rcases state.heap.kmallocWith_cases hzero with
          ⟨ptr, slab, buddy, hsmall, halloc, heq⟩ | heq
        · -- a small request asks for a block of order 0, the order of a slab page
          have hpage : orderFor size = 0 := orderFor_of_le_page (le_trans hsmall (by decide))
          have hfresh : FreshBlock state.heap state.live 0 := hpage ▸ hallowed
          rw [heq]
          exact h.slabAlloc hzero hfresh halloc
        · rw [heq]
          exact h.buddyAlloc hzero hallowed rfl
  | kmallocAligned size align =>
      cases hcall
      obtain ⟨halign, hfresh⟩ := hallowed
      unfold Heap.kmallocAlignedWith
      split
      · exact h
      · rename_i hzero
        exact h.buddyAlloc hzero hfresh (orderFor_alignedSize halign)
  | kfree a =>
      cases hcall
      exact h.kfree hallowed
  | other source =>
      cases hcall
      exact ⟨h.safe, h.outside, h.order, h.nonzero⟩

/-- In every run in which the page source hands out fresh blocks and `kfree` is given live blocks
with their sizes, `kfree` gives a block back to the layer that produced it. A slab object is
released in the slab allocator, and the page source receives nothing, or the slab page of the
object when it held no other. A block of the page source is passed to `free_pages` with the order
it was allocated with, and the slab allocator stays as it was. -/
theorem kfree_agrees {source : σ} {state : HeapRun σ} (h : Reachable step (start source) state)
    {a : Allocation} (ha : a ∈ state.live) :
    (∀ objSize, a.owner = .slab objSize →
      ∃ slab log, state.heap.slab.free a.ptr state.heap.buddy = (true, slab, log) ∧
        state.heap.kfree a.ptr a.size = ⟨slab, log⟩ ∧
        (∀ cls addr, slab.AllocatedIn cls addr ↔
          state.heap.slab.AllocatedIn cls addr ∧ addr ≠ a.ptr) ∧
        (log.returned = state.heap.buddy.returned ∨
          ∃ (cls : SizeClass) (k : Fin MAX_SLABS_PER_SIZE) (page : SlabPage cls),
            state.heap.slab.HeldAt k page ∧ page.extent.Contains a.ptr ∧
              (∀ other addr, slab.AllocatedIn other addr → ¬ page.extent.Contains addr) ∧
              log.returned = ⟨page.base, 0⟩ :: state.heap.buddy.returned)) ∧
    (∀ order, a.owner = .buddy order →
      state.heap.kfree a.ptr a.size =
        ⟨state.heap.slab, PageSource.freePages state.heap.buddy a.ptr order⟩) := by
  have howned : Owned state.heap state.live :=
    h.invariant (P := fun state ↦ Owned state.heap state.live) (owned_start source)
      fun _ _ _ howned hstep ↦ owned_step howned hstep
  refine ⟨fun objSize howner ↦ ?_, fun order howner ↦ howned.kfree_buddy ha howner⟩
  obtain ⟨slab, log, hfree, heq, -, heffect, hback⟩ := howned.kfree_slab ha howner
  refine ⟨slab, log, hfree, heq, heffect, ?_⟩
  rcases hback with rfl | ⟨cls, k, page, hpage, hcontains, honly, rfl⟩
  · exact Or.inl rfl
  · refine Or.inr ⟨cls, k, page, hpage, hcontains, fun other addr haddr hin ↦ ?_, rfl⟩
    obtain ⟨hbefore, hne⟩ := (heffect other addr).mp haddr
    exact hne (honly other addr hbefore hin)

/-- A slab object and an aligned block of the same size go back to different layers. -/
theorem kfree_agrees_aligned :
    ∃ state, run step (start (BuddyAllocator.init 0x100000 0x10000))
        [.kmalloc 100, .kmallocAligned 100 4096] = some state ∧
      state.live = [⟨0x101000, 100, .buddy 0⟩, ⟨0x100000, 100, .slab 128⟩] ∧
      (∃ slab log, state.heap.slab.free 0x100000 state.heap.buddy = (true, slab, log)) ∧
      state.heap.kfree 0x101000 100 =
        ⟨state.heap.slab, PageSource.freePages state.heap.buddy 0x101000 0⟩ := by
  have hfields : (run step (start (BuddyAllocator.init 0x100000 0x10000))
      [.kmalloc 100, .kmallocAligned 100 4096]).map (fun state ↦ state.live) =
        some [⟨0x101000, 100, .buddy 0⟩, ⟨0x100000, 100, .slab 128⟩] := by decide +kernel
  obtain ⟨state, hrun, hlive⟩ := Option.map_eq_some_iff.mp hfields
  have haligned : (⟨0x101000, 100, .buddy 0⟩ : Allocation) ∈ state.live := by simp [hlive]
  have hobject : (⟨0x100000, 100, .slab 128⟩ : Allocation) ∈ state.live := by simp [hlive]
  obtain ⟨slab, log, hfree, -⟩ := (kfree_agrees ⟨_, hrun⟩ hobject).1 128 rfl
  exact ⟨state, hrun, hlive, ⟨slab, log, hfree⟩, (kfree_agrees ⟨_, hrun⟩ haligned).2 0 rfl⟩

end HeapRun

end Avaria.Mem
