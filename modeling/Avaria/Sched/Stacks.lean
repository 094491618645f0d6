import Avaria.Lib.Tally
import Avaria.Sched.RoundRobin

/-!
# Task stacks

The stacks that `spawn` obtains from the page source, and where they are recorded. The runs are
observed by a `StackRecord`: the addresses of the stacks obtained and not given back, read off the
requests that a call of `spawn` makes to its page source, and the stack that the last `spawn` into a
slot obtained.

Two properties of all runs are studied. `stacks_accounted_iff`: the outstanding stacks are those of
the used entries of the table exactly as long as every `spawn` fills an empty slot, because a reused
slot loses the stack of the exited task. `rsp0_valid_iff`: the stack pointer of the task state
segment is the top of a real stack exactly as long as no tick dispatches task 0, whose entry has no
stack.
-/

namespace Avaria.Sched

open Transition Mm

/-- The stacks that `spawn` obtained and did not give back, and the last one of each slot. -/
structure StackRecord where
  outstanding : Multiset UInt64
  allocated : TaskId → Option UInt64

/-- The record at boot. -/
def StackRecord.start : StackRecord := ⟨0, fun _ ↦ none⟩

/-- The addresses of the blocks that have the order of a stack. -/
def stackAddrs (blocks : List Block) : List UInt64 :=
  (blocks.filter fun block ↦ block.order = TASK_STACK_ORDER).map fun block ↦
    UInt64.ofNat block.addr

/-- The stack of a used entry. Slot 0 has none: `spawn` never fills it, and task 0 stays on the
stack that the kernel was started on. -/
def ownedStack (t : TaskId) (task : Task) : Multiset UInt64 :=
  if t = 0 ∨ task.state = .empty then 0 else {task.stackBase}

/-- The stacks of the used entries of the table. -/
def Scheduler.ownedStacks (s : Scheduler) : Multiset UInt64 := Tally.tally ownedStack s.tasks

namespace Kernel

variable {σ : Type*} [PageSource σ]

/-- The requests that a call of `spawn` makes to the page source. -/
def spawnLog (image : Image) (k : Kernel σ) (entry api : UInt64) (name : List UInt8) : Logged σ :=
  (k.sched.spawn image (⟨k.pages, [], []⟩ : Logged σ) entry api name).2.2

/-- The record after an action. -/
def recordStacks (image : Image) (k : Kernel σ) (action : Action σ) (record : StackRecord) :
    StackRecord :=
  match action with
  | .spawn entry api name =>
      let log := k.spawnLog image entry api name
      { outstanding := record.outstanding + stackAddrs log.obtained - stackAddrs log.returned
        allocated :=
          match k.sched.findSlot, log.obtained with
          | some i, block :: _ =>
              Function.update record.allocated i (some (UInt64.ofNat block.addr))
          | _, _ => record.allocated }
  | _ => record

/-- The kernel together with the record of its stacks. -/
def stackStep (image : Image) :
    Kernel σ × StackRecord → Action σ → Option (Kernel σ × StackRecord) :=
  observe (step image) (recordStacks image)

/-- The kernel at boot, with an empty record. -/
def stackStart (image : Image) (pages : σ) : Kernel σ × StackRecord :=
  (boot image pages, StackRecord.start)

/-- The outstanding stacks are those of the used entries, one each. -/
def StacksAccounted (state : Kernel σ × StackRecord) : Prop :=
  state.2.outstanding = state.1.sched.ownedStacks

/-- A `spawn` that gets a stack puts it into a slot that was never used. -/
def FillsEmpty (state : Kernel σ × StackRecord) : Action σ → Prop
  | .spawn _ _ _ => state.1.AtCall → ∀ i, state.1.sched.findSlot = some i →
      (PageSource.allocPages state.1.pages TASK_STACK_ORDER).1 ≠ none →
      (state.1.sched.tasks i).state = .empty
  | _ => True

/-- The field `rsp0` is the top of `KERNEL_STACK`, or the top of the 16 KiB stack that `spawn`
obtained for the current task. -/
def Rsp0Valid (image : Image) (state : Kernel σ × StackRecord) : Prop :=
  state.1.sched.rsp0 = image.kernelStack + 0x4000 ∨
    ∃ base ∈ state.2.allocated state.1.sched.current, state.1.sched.rsp0 = base + 0x4000

instance (image : Image) (state : Kernel σ × StackRecord) : Decidable (Rsp0Valid image state) :=
  inferInstanceAs (Decidable (_ ∨ _))

/-! ## What a step does to the stacks -/

/-- Two entries with the same stack, both used or both empty. -/
structure SameStack (first second : Task) : Prop where
  stackBase_eq : first.stackBase = second.stackBase
  stackSize_eq : first.stackSize = second.stackSize
  empty_iff : first.state = .empty ↔ second.state = .empty

theorem SameStack.refl (task : Task) : SameStack task task := ⟨rfl, rfl, Iff.rfl⟩

theorem SameStack.trans {first second third : Task} (h : SameStack first second)
    (h' : SameStack second third) : SameStack first third :=
  ⟨h.stackBase_eq.trans h'.stackBase_eq, h.stackSize_eq.trans h'.stackSize_eq,
    h.empty_iff.trans h'.empty_iff⟩

theorem SameStack.ownedStack_eq {first second : Task} (h : SameStack first second) (t : TaskId) :
    ownedStack t first = ownedStack t second := by
  unfold ownedStack
  rw [h.stackBase_eq]
  simp only [h.empty_iff]

/-- A change between used states keeps the stack. -/
theorem SameStack.setState {task : Task} {state : TaskState} (hstate : state ≠ .empty)
    (htask : task.state ≠ .empty) : SameStack (task.setState state) task :=
  ⟨rfl, rfl, iff_of_false hstate htask⟩

theorem SameStack.preempt (task : Task) (ctx : IsrContext) :
    SameStack (task.preempt ctx) task := by
  refine ⟨?_, ?_, ?_⟩
  · unfold Task.preempt
    dsimp only
    split <;> rfl
  · unfold Task.preempt
    dsimp only
    split <;> rfl
  · rw [state_preempt]
    split
    · rename_i hrunning
      rw [hrunning]
      exact iff_of_false (by decide) (by decide)
    · exact Iff.rfl

/-- A tick moves no stack. -/
theorem sameStack_timerTick {s : Scheduler} (hwell : WellScheduled s) (ctx : IsrContext)
    (t : TaskId) : SameStack ((s.timerTick ctx).1.tasks t) (s.tasks t) := by
  cases hsuppressed : s.suppressed with
  | true =>
      rw [Scheduler.timerTick_suppressed hsuppressed]
      exact .refl _
  | false =>
      have hsave : SameStack ((s.afterSave ctx).tasks t) (s.tasks t) := by
        by_cases ht : t = s.current
        · subst ht
          rw [Scheduler.afterSave_self]
          exact .preempt _ _
        · rw [Scheduler.afterSave_of_ne ht]
          exact .refl _
      obtain ⟨hready, heq⟩ := hwell.timerTick_eq ctx hsuppressed
      rw [heq, Scheduler.dispatch_tasks]
      split
      · rename_i htarget
        subst htarget
        refine SameStack.trans (.setState (by decide) ?_) hsave
        rw [hready]
        decide
      · exact hsave

/-- What a successful `spawn` does: an empty or exited slot other than slot 0 and the current one
gets a new task with the stack that the page source handed out. -/
structure Spawned (image : Image) (state next : Kernel σ × StackRecord) (i : TaskId)
    (base : UInt64) : Prop where
  call : state.1.AtCall
  slot : state.1.sched.findSlot = some i
  pages : (PageSource.allocPages state.1.pages TASK_STACK_ORDER).1 ≠ none
  ne_current : i ≠ state.1.sched.current
  table : ∃ entry api name, next.1.sched =
    state.1.sched.setTask i (Scheduler.newTask image i base entry api name)
  outstanding : next.2.outstanding = state.2.outstanding + {base}
  allocated : next.2.allocated = Function.update state.2.allocated i (some base)

/-- Everything a step can do to the stacks: a successful `spawn` obtains one, and nothing else
obtains one, gives one back or moves one. -/
theorem stackStep_cases {image : Image} {state next : Kernel σ × StackRecord} {action : Action σ}
    (hwell : WellScheduled state.1.sched) (hstep : stackStep image state action = some next) :
    (∃ entry api name i base, action = .spawn entry api name ∧ Spawned image state next i base) ∨
    ((∀ t, SameStack (next.1.sched.tasks t) (state.1.sched.tasks t)) ∧ next.2 = state.2 ∧
      FillsEmpty state action) := by
  obtain ⟨hkernel, hrecord⟩ := observe_eq_some.mp hstep
  obtain ⟨k, record⟩ := state
  obtain ⟨after, afterRecord⟩ := next
  simp only at hkernel hrecord hwell ⊢
  subst hrecord
  cases step_cases hkernel with
  | @spawned entry api name i stackBase pages hcall hslot hpages =>
      refine Or.inl ⟨entry, api, name, i, UInt64.ofNat stackBase, rfl, ?_⟩
      have hlog : k.spawnLog image entry api name =
          ⟨pages, [⟨stackBase, TASK_STACK_ORDER⟩], []⟩ := by
        have hsource : PageSource.allocPages (⟨k.pages, [], []⟩ : Logged σ) TASK_STACK_ORDER =
            (some stackBase, ⟨pages, [⟨stackBase, TASK_STACK_ORDER⟩], []⟩) := by
          show Logged.allocPages _ _ = _
          simp [Logged.allocPages, hpages]
        simp [spawnLog, Scheduler.spawn, hslot, hsource]
      refine ⟨hcall, hslot, by simp [hpages], WellScheduled.findSlot_ne_current hcall.1 hslot,
        ⟨entry, api, name, rfl⟩, ?_, ?_⟩
      · simp [recordStacks, hlog, stackAddrs]
      · simp [recordStacks, hlog, hslot]
  | @spawnFailed entry api name hcall hfull =>
      have hlog : k.spawnLog image entry api name = ⟨k.pages, [], []⟩ := by
        rcases k.sched.spawn_cases image (⟨k.pages, [], []⟩ : Logged σ) entry api name with
          ⟨i, stackBase, after, hslot, hpages, -⟩ | ⟨-, heq⟩
        · have hsource := Logged.allocPages_source (⟨k.pages, [], []⟩ : Logged σ) TASK_STACK_ORDER
          rw [hpages] at hsource
          rw [hslot, hsource] at hfull
          rcases hfull with hfull | hfull <;> cases hfull
        · rw [spawnLog, heq]
      refine Or.inr ⟨fun t ↦ .refl _, ?_, ?_⟩
      · obtain ⟨outstanding, allocated⟩ := record
        cases hslot : k.sched.findSlot <;> simp [recordStacks, hlog, stackAddrs, hslot]
      · intro _ i hslot hpages
        rcases hfull with hfull | hfull
        · simp only [hslot] at hfull
          cases hfull
        · exact absurd hfull hpages
  | exit hcall hidle =>
      refine Or.inr ⟨fun t ↦ ?_, rfl, trivial⟩
      by_cases ht : t = k.sched.current
      · subst ht
        simp only [Scheduler.taskExit, Scheduler.setTask_self]
        exact .setState (by decide) (by rw [hcall.1]; decide)
      · simp only [Scheduler.taskExit, Scheduler.setTask_of_ne ht]
        exact .refl _
  | tick => exact Or.inr ⟨sameStack_timerTick hwell _, rfl, trivial⟩
  | start | disableStore | enableStore | disableLoad | enableTested | enableSkipped | enableLoad |
      memory => exact Or.inr ⟨fun t ↦ .refl _, rfl, trivial⟩

/-- The table is well scheduled after every observed step. -/
theorem wellScheduled_stackStep {image : Image} {state next : Kernel σ × StackRecord}
    {action : Action σ} (hwell : WellScheduled state.1.sched)
    (hstep : stackStep image state action = some next) : WellScheduled next.1.sched :=
  wellScheduled_step hwell (observe_eq_some.mp hstep).1

/-! ## No stack is lost -/

/-- A slot that `spawn` fills owns the new stack instead of its old one. -/
theorem Spawned.stacks_add {image : Image} {state next : Kernel σ × StackRecord} {i : TaskId}
    {base : UInt64} (h : Spawned image state next i base) :
    next.1.sched.ownedStacks + ownedStack i (state.1.sched.tasks i) =
      state.1.sched.ownedStacks + {base} := by
  obtain ⟨entry, api, name, htable⟩ := h.table
  have hidle : i ≠ 0 := (Scheduler.findSlot_eq_some h.slot).1
  rw [htable]
  exact (Tally.tally_update _ _ _).trans
    (by simp [ownedStack, hidle, Scheduler.newTask, Scheduler.ownedStacks])

/-- A step keeps the account exactly when a `spawn` fills an empty slot. -/
theorem stacksAccounted_step {image : Image} {state next : Kernel σ × StackRecord}
    {action : Action σ} (hwell : WellScheduled state.1.sched) (h : StacksAccounted state)
    (hstep : stackStep image state action = some next) :
    StacksAccounted next ↔ FillsEmpty state action := by
  unfold StacksAccounted at *
  rcases stackStep_cases hwell hstep with
    ⟨entry, api, name, i, base, rfl, hspawned⟩ | ⟨hsame, hrecord, hfills⟩
  · have hadd := hspawned.stacks_add
    have hidle : i ≠ 0 := (Scheduler.findSlot_eq_some hspawned.slot).1
    rw [hspawned.outstanding, h, ← hadd]
    have hempty : FillsEmpty state (.spawn entry api name : Action σ) ↔
        (state.1.sched.tasks i).state = .empty := by
      constructor
      · intro hfills
        exact hfills hspawned.call i hspawned.slot hspawned.pages
      · intro hstate _ j hj _
        obtain rfl : i = j := Option.some.inj (hspawned.slot.symm.trans hj)
        exact hstate
    -- the old stack of the slot is the difference between the two sides
    rw [hempty, add_eq_left]
    simp [ownedStack, hidle]
  · rw [hrecord, h]
    exact iff_of_true (Tally.tally_congr fun t ↦ ((hsame t).ownedStack_eq t).symm) hfills

omit [PageSource σ] in
theorem stacksAccounted_start (image : Image) (pages : σ) :
    StacksAccounted (stackStart image pages) := by
  refine (Tally.tally_eq_zero fun t ↦ ?_).symm
  unfold ownedStack
  split
  · rfl
  · rename_i hnot
    rw [not_or] at hnot
    refine absurd ?_ hnot.2
    show ((Scheduler.boot image).tasks t).state = .empty
    rw [Scheduler.boot_of_ne image hnot.1]
    rfl

/-- The table never owns more than one stack for each slot that `spawn` fills. -/
theorem card_stacks_le (s : Scheduler) : s.ownedStacks.card ≤ 15 := by
  refine Tally.card_tally_le (Finset.univ.erase (0 : TaskId)) ?_ ?_
  · intro t _
    unfold ownedStack
    split <;> simp
  · intro t ht
    have hidle : t = 0 := by simpa using ht
    simp [ownedStack, hidle]

/-- Along a run, the stacks obtained and not given back are those of the used entries of the table
exactly when every `spawn` that gets a stack fills a slot that was never used. As long as they are,
no more than 15 stacks are outstanding, however many tasks were spawned. -/
theorem stacks_accounted_iff (image : Image) (pages : σ) (actions : List (Action σ)) :
    (Along (stackStep image) StacksAccounted (stackStart image pages) actions ↔
      Throughout (stackStep image) FillsEmpty (stackStart image pages) actions) ∧
    (Along (stackStep image) StacksAccounted (stackStart image pages) actions →
      ∀ final, run (stackStep image) (stackStart image pages) actions = some final →
        final.2.outstanding.card ≤ 15) := by
  constructor
  · refine along_iff_throughout_of_invariant (I := fun state ↦ WellScheduled state.1.sched)
      (fun _ _ _ ↦ wellScheduled_stackStep) (fun _ _ _ ↦ stacksAccounted_step) ?_
      (WellScheduled.boot image) (stacksAccounted_start image pages) actions
    intro state action hstuck
    cases action with
    | spawn entry api name =>
        intro hcall
        simp [stackStep, observe, step, hcall] at hstuck
    | _ => trivial
  · intro halong final hrun
    have hfinal : StacksAccounted final := halong.final hrun
    rw [hfinal]
    exact card_stacks_le _

/-- A task is spawned, dispatched and exits, and task 0 resumes. -/
def spawnExitCycle {σ : Type*} : List (Action σ) :=
  [.spawn 0 0 [], .tick default, .exit, .tick default]

/-- The second `spawn` reuses the slot of the exited task and loses its stack. -/
theorem stacks_leaked :
    ¬ Along (stackStep ⟨0x1000, 0x2000⟩) StacksAccounted
      (stackStart ⟨0x1000, 0x2000⟩ (BuddyAllocator.init 0x100000 0x8000))
      (.start :: spawnExitCycle ++ spawnExitCycle) := by
  intro halong
  have hcounts : (run (stackStep ⟨0x1000, 0x2000⟩)
      (stackStart ⟨0x1000, 0x2000⟩ (BuddyAllocator.init 0x100000 0x8000))
      (.start :: spawnExitCycle ++ spawnExitCycle)).map
        (fun state ↦ (state.2.outstanding.card, state.1.sched.ownedStacks.card)) = some (2, 1) := by
    decide +kernel
  obtain ⟨final, hrun, hcard⟩ := Option.map_eq_some_iff.mp hcounts
  have haccounted : StacksAccounted final := halong.final hrun
  rw [haccounted] at hcard
  cases (Prod.mk.inj hcard).1.symm.trans (Prod.mk.inj hcard).2

/-! ## The stack of the task state segment -/

/-- The used entries other than slot 0 hold the stacks that `spawn` obtained for them, and slot 0
holds none. -/
structure StacksRecorded (state : Kernel σ × StackRecord) : Prop where
  idle : (state.1.sched.tasks 0).stackBase = 0 ∧ (state.1.sched.tasks 0).stackSize = 0
  idle_allocated : state.2.allocated 0 = none
  recorded : ∀ t, t ≠ 0 → (state.1.sched.tasks t).state ≠ .empty →
    state.2.allocated t = some (state.1.sched.tasks t).stackBase ∧
      (state.1.sched.tasks t).stackSize = 0x4000

omit [PageSource σ] in
theorem stacksRecorded_start (image : Image) (pages : σ) :
    StacksRecorded (stackStart image pages) where
  idle := ⟨rfl, rfl⟩
  idle_allocated := rfl
  recorded := by
    intro t ht hused
    refine absurd ?_ hused
    show ((Scheduler.boot image).tasks t).state = .empty
    rw [Scheduler.boot_of_ne image ht]
    rfl

/-- Every step keeps the record of the stacks. -/
theorem stacksRecorded_step {image : Image} {state next : Kernel σ × StackRecord}
    {action : Action σ} (hwell : WellScheduled state.1.sched) (h : StacksRecorded state)
    (hstep : stackStep image state action = some next) : StacksRecorded next := by
  rcases stackStep_cases hwell hstep with
    ⟨entry, api, name, i, base, -, hspawned⟩ | ⟨hsame, hrecord, -⟩
  · have hidle : i ≠ 0 := (Scheduler.findSlot_eq_some hspawned.slot).1
    obtain ⟨entry, api, name, htable⟩ := hspawned.table
    refine ⟨?_, ?_, ?_⟩
    · rw [htable, Scheduler.setTask_of_ne hidle.symm]
      exact h.idle
    · rw [hspawned.allocated, Function.update_of_ne hidle.symm]
      exact h.idle_allocated
    · intro t ht hused
      rw [htable] at hused ⊢
      rw [hspawned.allocated]
      by_cases hti : t = i
      · subst hti
        rw [Scheduler.setTask_self, Function.update_self]
        exact ⟨rfl, rfl⟩
      · rw [Scheduler.setTask_of_ne hti] at hused ⊢
        rw [Function.update_of_ne hti]
        exact h.recorded t ht hused
  · refine ⟨?_, ?_, ?_⟩
    · rw [(hsame 0).stackBase_eq, (hsame 0).stackSize_eq]
      exact h.idle
    · rw [hrecord]
      exact h.idle_allocated
    · intro t ht hused
      rw [(hsame t).stackBase_eq, (hsame t).stackSize_eq, hrecord]
      exact h.recorded t ht fun hempty ↦ hused ((hsame t).empty_iff.mpr hempty)

/-- The dispatch of a task loads the end of its stack. -/
theorem rsp0_dispatch (s : Scheduler) (next : TaskId) (ctx : IsrContext) :
    (s.dispatch next ctx).1.rsp0 = (s.tasks next).stackBase + (s.tasks next).stackSize := by
  show ((s.setTask next _).tasks next).stackBase + ((s.setTask next _).tasks next).stackSize = _
  rw [Scheduler.setTask_self]
  rfl

/-- Only a tick that dispatches a task changes the current task or `rsp0`. -/
theorem step_rsp0 {image : Image} {k next : Kernel σ} {action : Action σ}
    (hstep : step image k action = some next) :
    (∃ ctx, action = .tick ctx ∧ k.sched.suppressed = false ∧
      next.sched = (k.sched.timerTick ctx).1) ∨
    ((∀ t, ¬ Dispatches t k action) ∧ next.sched.rsp0 = k.sched.rsp0 ∧
      next.sched.current = k.sched.current) := by
  cases step_cases hstep with
  | @tick ctx =>
      cases hsuppressed : k.sched.suppressed with
      | true =>
          refine Or.inr ⟨fun t hcase ↦ ?_, ?_⟩
          · rw [Dispatches, hsuppressed] at hcase
            cases hcase.1
          · rw [Scheduler.timerTick_suppressed hsuppressed]
            exact ⟨rfl, rfl⟩
      | false => exact Or.inl ⟨ctx, rfl, rfl, rfl⟩
  | _ => exact Or.inr ⟨fun t hcase ↦ hcase, rfl, rfl⟩

/-- A step keeps `rsp0` valid exactly when it does not dispatch task 0. -/
theorem rsp0Valid_step {image : Image} (hstack : image.kernelStack + 0x4000 ≠ 0)
    {state next : Kernel σ × StackRecord} {action : Action σ}
    (hinv : WellScheduled state.1.sched ∧ StacksRecorded state) (h : Rsp0Valid image state)
    (hstep : stackStep image state action = some next) :
    Rsp0Valid image next ↔ ¬ Dispatches 0 state.1 action := by
  obtain ⟨hwell, hrecorded⟩ := hinv
  have hnext := stacksRecorded_step hwell hrecorded hstep
  rcases step_rsp0 (observe_eq_some.mp hstep).1 with
    ⟨ctx, rfl, hsuppressed, hsched⟩ | ⟨hnot, hrsp0, hcurrent⟩
  · obtain ⟨hready, heq⟩ := hwell.timerTick_eq ctx hsuppressed
    have hrun := hwell.timerTick ctx
    rw [heq] at hsched
    have hrsp0 : next.1.sched.rsp0 = (next.1.sched.tasks next.1.sched.current).stackBase +
        (next.1.sched.tasks next.1.sched.current).stackSize := by
      rw [hsched, rsp0_dispatch, Scheduler.dispatch_current, Scheduler.dispatch_tasks, if_pos rfl,
        Task.setState_stackBase, Task.setState_stackSize]
    have hdispatches : Dispatches 0 state.1 (.tick ctx : Action σ) ↔
        next.1.sched.current = 0 := by
      rw [Dispatches, and_iff_right hsuppressed, hsched, heq]
    rw [hdispatches]
    by_cases hzero : next.1.sched.current = 0
    · -- slot 0 has no stack, so the sum is 0
      refine iff_of_false ?_ (not_not.mpr hzero)
      unfold Rsp0Valid
      rw [hrsp0, hzero, hnext.idle.1, hnext.idle.2, hnext.idle_allocated]
      intro hcase
      rcases hcase with hkernel | ⟨base, hbase, -⟩
      · exact hstack hkernel.symm
      · cases hbase
    · refine iff_of_true ?_ hzero
      have hlive : (next.1.sched.tasks next.1.sched.current).state ≠ .empty := by
        rw [hsched, Scheduler.dispatch_current, Scheduler.dispatch_tasks, if_pos rfl]
        exact TaskState.noConfusion
      obtain ⟨hbase, hsize⟩ := hnext.recorded _ hzero hlive
      exact Or.inr ⟨_, hbase, by rw [hrsp0, hsize]⟩
  · refine iff_of_true ?_ (hnot 0)
    unfold Rsp0Valid at h ⊢
    rw [hrsp0, hcurrent]
    refine h.imp_right fun hcase ↦ ?_
    obtain ⟨base, hbase, htop⟩ := hcase
    refine ⟨base, ?_, htop⟩
    rcases stackStep_cases hwell hstep with
      ⟨entry, api, name, i, new, -, hspawned⟩ | ⟨-, hrecord, -⟩
    · rw [hspawned.allocated, Function.update_of_ne hspawned.ne_current.symm]
      exact hbase
    · rw [hrecord]
      exact hbase

/-- Along a run, the stack pointer for entries to ring 0 is the top of a real stack in every state
exactly when no tick dispatches task 0. -/
theorem rsp0_valid_iff (image : Image) (hstack : image.kernelStack + 0x4000 ≠ 0) (pages : σ)
    (actions : List (Action σ)) :
    Along (stackStep image) (Rsp0Valid image) (stackStart image pages) actions ↔
      Throughout (stackStep image) (fun state action ↦ ¬ Dispatches 0 state.1 action)
        (stackStart image pages) actions := by
  refine along_iff_throughout_of_invariant
    (I := fun state ↦ WellScheduled state.1.sched ∧ StacksRecorded state)
    (fun _ _ _ hinv hstep ↦ ⟨wellScheduled_stackStep hinv.1 hstep,
      stacksRecorded_step hinv.1 hinv.2 hstep⟩)
    (fun _ _ _ ↦ rsp0Valid_step hstack) ?_
    ⟨WellScheduled.boot image, stacksRecorded_start image pages⟩ (Or.inl rfl) actions
  intro state action hstuck hcase
  cases action with
  | tick ctx => cases hstuck
  | _ => exact hcase

/-- An instance of `rsp0_valid_iff` at a run that dispatches a spawned task only. -/
theorem rsp0_valid_spawned :
    Along (stackStep ⟨0x1000, 0x2000⟩) (Rsp0Valid ⟨0x1000, 0x2000⟩)
      (stackStart ⟨0x1000, 0x2000⟩ (BuddyAllocator.init 0x100000 0x10000))
      [.spawn 0 0 [], .start, .tick default] :=
  (rsp0_valid_iff ⟨0x1000, 0x2000⟩ (by decide) _ _).mpr (by decide +kernel)

/-- A tick that finds no other task ready dispatches task 0 and loads 0. -/
theorem rsp0_zero :
    ¬ Along (stackStep ⟨0x1000, 0x2000⟩) (Rsp0Valid ⟨0x1000, 0x2000⟩)
      (stackStart ⟨0x1000, 0x2000⟩ (BuddyAllocator.init 0x100000 0x10000))
      [.start, .tick default] := by
  decide +kernel

end Kernel

end Avaria.Sched
