import Avaria.Lib.CyclicScan
import Avaria.Mm.Pages
import Avaria.Sched.Task

/-!
# The scheduler

The statics of `sched.rs` and the functions on them: `init`, `spawn`, `task_exit`, `timer_tick`,
`start`, and the loads and stores of `preempt_disable` and `preempt_enable`. The stack of a new task
comes from a page source.

`timerTick_cases` lists everything a tick can do, and `spawn_cases` everything `spawn` can do; the
invariants of the following modules use these two only.
-/

namespace Avaria.Sched

open Mm

/-- The link-time addresses that the scheduler stores: `task_trampoline` and the stack
`KERNEL_STACK` of `tss.rs`. -/
structure Image where
  taskTrampoline : UInt64
  kernelStack : UInt64

/-- The statics of `sched.rs`, and the field `rsp0` of the task state segment. -/
structure Scheduler where
  tasks : TaskId → Task
  current : TaskId
  active : Bool
  tickCount : UInt64
  preemptCount : UInt32
  rsp0 : UInt64

namespace Scheduler

/-- The statics as the image initialises them. -/
def static : Scheduler where
  tasks := fun _ ↦ Task.empty
  current := 0
  active := false
  tickCount := 0
  preemptCount := 0
  rsp0 := 0

/-- The assignment `TASKS[i] = task`. -/
def setTask (s : Scheduler) (i : TaskId) (task : Task) : Scheduler :=
  { s with tasks := Function.update s.tasks i task }

/-- `tss::set_kernel_stack`. -/
def setKernelStack (s : Scheduler) (rsp0 : UInt64) : Scheduler := { s with rsp0 }

/-- `tss::init`. -/
def tssInit (image : Image) (s : Scheduler) : Scheduler :=
  s.setKernelStack (image.kernelStack + 0x4000)

/-- `name[..copy_len].copy_from_slice(&bytes[..copy_len])`. -/
def copyName (name : Fin 16 → UInt8) (bytes : List UInt8) (copyLen : Nat) : Fin 16 → UInt8 :=
  fun j ↦ if j.val < copyLen then bytes.getD j 0 else name j

/-- `init`. -/
def init (s : Scheduler) : Scheduler :=
  s.setTask 0 { s.tasks 0 with
    state := .running
    id := 0
    name := copyName (s.tasks 0).name [105, 100, 108, 101] 4 }

/-- The scheduler after `tss::init` and `sched::init`. -/
def boot (image : Image) : Scheduler := (static.tssInit image).init

/-! ## spawn and task_exit -/

/-- The loop of `spawn` that looks for a free slot. -/
def findSlot (s : Scheduler) : Option TaskId :=
  (List.finRange MAX_TASKS).find? fun i ↦
    decide (1 ≤ i.val) && (decide ((s.tasks i).state = .empty) ||
      decide ((s.tasks i).state = .exited))

/-- The entry that `spawn` writes. -/
def newTask (image : Image) (i : TaskId) (stackBase entry api : UInt64) (name : List UInt8) :
    Task :=
  { Task.empty with
    id := UInt16.ofNat i
    state := .ready
    stackBase
    stackSize := TASK_STACK_SIZE
    name := copyName Task.empty.name name (min name.length 15)
    rip := image.taskTrampoline
    rsp := stackBase + TASK_STACK_SIZE - 8
    rflags := 0x202
    rdi := entry
    rsi := api }

/-- `spawn`. -/
def spawn {σ : Type*} [PageSource σ] (image : Image) (s : Scheduler) (pages : σ)
    (entry api : UInt64) (name : List UInt8) : Option UInt16 × Scheduler × σ :=
  match s.findSlot with
  | none => (none, s, pages)
  | some i =>
      match PageSource.allocPages pages TASK_STACK_ORDER with
      | (none, pages) => (none, s, pages)
      | (some stackBase, pages) =>
          (some (UInt16.ofNat i),
            s.setTask i (newTask image i (UInt64.ofNat stackBase) entry api name), pages)

/-- The state change of `task_exit`; the loop that follows it only halts. -/
def taskExit (s : Scheduler) : Scheduler :=
  s.setTask s.current ((s.tasks s.current).setState .exited)

/-- The state change of `start`; the loop that follows it only halts. -/
def start (s : Scheduler) : Scheduler := { s with active := true }

/-! ## timer_tick -/

/-- The test at the head of `timer_tick`. -/
def suppressed (s : Scheduler) : Bool := !s.active || decide (s.preemptCount > 0)

/-- Save the interrupted context; a running task becomes ready. -/
def preemptCurrent (s : Scheduler) (ctx : IsrContext) : Scheduler :=
  s.setTask s.current ((s.tasks s.current).preempt ctx)

/-- The task has state `Ready`. -/
def isReady (s : Scheduler) (t : TaskId) : Bool := decide ((s.tasks t).state = .ready)

/-- The last block of `timer_tick`. -/
def dispatch (s : Scheduler) (next : TaskId) (ctx : IsrContext) : Scheduler × IsrContext :=
  let s := s.setTask next ((s.tasks next).setState .running)
  let s := { s with current := next }
  let task := s.tasks next
  (s.setKernelStack (task.stackBase + task.stackSize), loadCtx task ctx)

/-- `timer_tick`. -/
def timerTick (s : Scheduler) (ctx : IsrContext) : Scheduler × IsrContext :=
  let s := { s with tickCount := s.tickCount + 1 }
  if s.suppressed then (s, ctx)
  else
    let cur := s.current
    let s := s.preemptCurrent ctx
    let next := CyclicScan.scan s.isReady MAX_TASKS cur
    if (s.tasks next).state ≠ .ready then
      -- no task is ready: fall back to task 0 unless it has exited
      if (s.tasks 0).state = .exited then (s, ctx)
      else s.dispatch 0 ctx
    else s.dispatch next ctx

/-! ## Frame lemmas -/

section Frame

variable {s : Scheduler}

@[simp] theorem setTask_self (i : TaskId) (task : Task) : (s.setTask i task).tasks i = task :=
  Function.update_self ..

@[simp] theorem setTask_of_ne {i t : TaskId} (h : t ≠ i) (task : Task) :
    (s.setTask i task).tasks t = s.tasks t := Function.update_of_ne h ..

@[simp] theorem setTask_current (i : TaskId) (task : Task) :
    (s.setTask i task).current = s.current := rfl

/-- At boot every slot but slot 0 is empty. -/
theorem boot_of_ne (image : Image) {t : TaskId} (h : t ≠ 0) : (boot image).tasks t = Task.empty :=
  setTask_of_ne h _

@[simp] theorem dispatch_current (next : TaskId) (ctx : IsrContext) :
    (s.dispatch next ctx).1.current = next := rfl

theorem dispatch_tasks (next t : TaskId) (ctx : IsrContext) :
    (s.dispatch next ctx).1.tasks t =
      if t = next then (s.tasks next).setState .running else s.tasks t := by
  show (s.setTask next _).tasks t = _
  split
  · rename_i h
    subst h
    exact setTask_self ..
  · rename_i h
    exact setTask_of_ne h _

@[simp] theorem frame_dispatch (next : TaskId) (ctx : IsrContext) :
    (s.dispatch next ctx).2.frame = (s.tasks next).frame := by
  show (loadCtx ((s.setTask next _).tasks next) ctx).frame = _
  rw [frame_loadCtx, setTask_self]
  rfl

theorem preemptCurrent_of_ne {t : TaskId} (h : t ≠ s.current) (ctx : IsrContext) :
    (s.preemptCurrent ctx).tasks t = s.tasks t := setTask_of_ne h _

@[simp] theorem isReady_iff {t : TaskId} : s.isReady t = true ↔ (s.tasks t).state = .ready :=
  decide_eq_true_iff

end Frame

/-! ## What spawn and a tick can do -/

theorem findSlot_eq_some {s : Scheduler} {i : TaskId} (h : s.findSlot = some i) :
    i ≠ 0 ∧ ((s.tasks i).state = .empty ∨ (s.tasks i).state = .exited) := by
  have htest := List.find?_some h
  simp only [Bool.and_eq_true, Bool.or_eq_true, decide_eq_true_eq] at htest
  refine ⟨?_, htest.2⟩
  intro heq
  subst heq
  exact absurd htest.1 (by decide)

/-- A free slot other than slot 0 makes the search end there or before. -/
theorem findSlot_le {s : Scheduler} {t : TaskId} (ht : t ≠ 0)
    (hfree : (s.tasks t).state = .empty ∨ (s.tasks t).state = .exited) :
    ∃ i ≤ t, s.findSlot = some i := by
  have hpos : 1 ≤ t.val := Nat.one_le_iff_ne_zero.mpr fun hzero ↦ ht (Fin.ext hzero)
  cases hslot : s.findSlot with
  | none =>
      have htest := List.find?_eq_none.mp hslot t (List.mem_finRange t)
      simp [hpos, hfree] at htest
  | some i =>
      refine ⟨i, ?_, rfl⟩
      obtain ⟨-, before, after, hsplit, hskipped⟩ := List.find?_eq_some_iff_append.mp hslot
      have hmem : t ∈ before ++ i :: after := hsplit ▸ List.mem_finRange t
      have hsorted := List.pairwise_lt_finRange MAX_TASKS
      rw [hsplit, List.pairwise_append] at hsorted
      rcases List.mem_append.mp hmem with hbefore | htail
      · have htest := hskipped t hbefore
        rcases hfree with hfree | hfree <;> simp [hpos, hfree] at htest
      · rcases List.mem_cons.mp htail with rfl | hafter
        · exact Fin.le_refl _
        · exact Fin.le_of_lt ((List.pairwise_cons.mp hsorted.2.1).1 t hafter)

/-- Everything `spawn` can do: fill an empty or exited slot, other than slot 0, with a new task
whose stack the page source handed out, or change nothing for lack of a slot or a stack. -/
theorem spawn_cases {σ : Type*} [PageSource σ] (image : Image) (s : Scheduler) (pages : σ)
    (entry api : UInt64) (name : List UInt8) :
    (∃ i stackBase after, s.findSlot = some i ∧
      PageSource.allocPages pages TASK_STACK_ORDER = (some stackBase, after) ∧
      s.spawn image pages entry api name = (some (UInt16.ofNat i),
        s.setTask i (newTask image i (UInt64.ofNat stackBase) entry api name), after)) ∨
    ((s.findSlot = none ∨ (PageSource.allocPages pages TASK_STACK_ORDER).1 = none) ∧
      s.spawn image pages entry api name = (none, s, pages)) := by
  unfold spawn
  cases hslot : s.findSlot with
  | none => exact Or.inr ⟨Or.inl rfl, rfl⟩
  | some i =>
      have hsource := PageSource.allocPages_none pages TASK_STACK_ORDER
      rcases hcall : PageSource.allocPages pages TASK_STACK_ORDER with ⟨_ | stackBase, after⟩
      · rw [hcall] at hsource
        have hsame : after = pages := hsource rfl
        exact Or.inr ⟨Or.inr rfl, by rw [hsame]⟩
      · exact Or.inl ⟨i, stackBase, after, rfl, rfl, rfl⟩

/-- The scheduler between the save and the search of a tick. -/
def afterSave (s : Scheduler) (ctx : IsrContext) : Scheduler :=
  { s with tickCount := s.tickCount + 1 }.preemptCurrent ctx

theorem afterSave_of_ne {s : Scheduler} {t : TaskId} (h : t ≠ s.current) (ctx : IsrContext) :
    (s.afterSave ctx).tasks t = s.tasks t :=
  preemptCurrent_of_ne (s := { s with tickCount := s.tickCount + 1 }) h ctx

theorem afterSave_self (s : Scheduler) (ctx : IsrContext) :
    (s.afterSave ctx).tasks s.current = (s.tasks s.current).preempt ctx :=
  setTask_self (s := { s with tickCount := s.tickCount + 1 }) ..

/-- The state of a task after the save: the current task is ready if it was running. -/
theorem afterSave_state (s : Scheduler) (ctx : IsrContext) (t : TaskId) :
    ((s.afterSave ctx).tasks t).state =
      if t = s.current ∧ (s.tasks t).state = .running then .ready else (s.tasks t).state := by
  by_cases ht : t = s.current
  · subst ht
    rw [afterSave_self, state_preempt]
    simp
  · rw [afterSave_of_ne ht]
    simp [ht]

/-- The task that the search of a tick ends at. -/
def target (s : Scheduler) (ctx : IsrContext) : TaskId :=
  CyclicScan.scan (s.afterSave ctx).isReady MAX_TASKS s.current

/-- A suppressed tick only counts. -/
theorem timerTick_suppressed {s : Scheduler} (h : s.suppressed = true) (ctx : IsrContext) :
    s.timerTick ctx = ({ s with tickCount := s.tickCount + 1 }, ctx) := if_pos h

/-- Everything a tick can do: nothing but count when it is suppressed, dispatch the first ready
task after the current one, or take the fallback branch because no task is ready. -/
theorem timerTick_cases (s : Scheduler) (ctx : IsrContext) :
    (s.suppressed = true ∧ s.timerTick ctx = ({ s with tickCount := s.tickCount + 1 }, ctx)) ∨
    (s.suppressed = false ∧ ((s.afterSave ctx).tasks (s.target ctx)).state = .ready ∧
      s.timerTick ctx = (s.afterSave ctx).dispatch (s.target ctx) ctx) ∨
    (s.suppressed = false ∧ ∀ t, ((s.afterSave ctx).tasks t).state ≠ .ready) := by
  by_cases hsuppressed : s.suppressed = true
  · exact Or.inl ⟨hsuppressed, timerTick_suppressed hsuppressed ctx⟩
  · rw [Bool.not_eq_true] at hsuppressed
    refine Or.inr ?_
    by_cases hready : ((s.afterSave ctx).tasks (s.target ctx)).state = .ready
    · refine Or.inl ⟨hsuppressed, hready, ?_⟩
      unfold timerTick
      rw [if_neg (by rw [Bool.not_eq_true]; exact hsuppressed)]
      exact if_neg (not_not.mpr hready)
    · refine Or.inr ⟨hsuppressed, fun t ht ↦ hready ?_⟩
      -- the scan goes once around the table, so it ends at a ready task if there is one
      exact isReady_iff.mp (CyclicScan.scan_first (isReady_iff.mpr ht) s.current).1

end Scheduler

end Avaria.Sched
