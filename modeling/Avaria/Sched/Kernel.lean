import Avaria.Lib.Transition
import Avaria.Mm.Buddy
import Avaria.Sched.Scheduler

/-!
# Runs of the scheduler

The kernel as the scheduler sees it: the current task calls `spawn`, `task_exit`, `start`,
`preempt_disable` and `preempt_enable`, the timer interrupts it at any point, and other code moves
the page source. The calls of `preempt_disable` and `preempt_enable` are split at their loads and
stores of `PREEMPT_COUNT`, so a tick can fall between any two of them; `spawn` and `task_exit` run
with interrupts disabled and are single steps.

`WellScheduled` is the invariant of the task table, and `scheduler_invariant` what it gives for
every run: in particular the branch of `timer_tick` that forces task 0 is never taken.
-/

namespace Avaria.Sched

open Transition Mm

/-- The program point of a task in `preempt_disable` and `preempt_enable`, with the value that it
has loaded: between two calls, before the store of the increment, after the test, and before the
store of the decrement. -/
inductive PreemptPc where
  | idle
  | adding (value : UInt32)
  | tested
  | subtracting (value : UInt32)
  deriving DecidableEq, Repr

/-- The statics, the page source and the program points of the tasks. -/
structure Kernel (σ : Type*) where
  sched : Scheduler
  pages : σ
  pc : TaskId → PreemptPc

/-- A step of the current task, a timer tick, or a move of the page source by other code. -/
inductive Action (σ : Type*) where
  | spawn (entry api : UInt64) (name : List UInt8)
  | exit
  | start
  | disableLoad
  | disableStore
  | enableTest
  | enableLoad
  | enableStore
  | tick (ctx : IsrContext)
  | memory (pages : σ)

namespace Kernel

variable {σ : Type*}

/-- The kernel after `tss::init` and `sched::init`. -/
def boot (image : Image) (pages : σ) : Kernel σ :=
  ⟨Scheduler.boot image, pages, fun _ ↦ .idle⟩

/-- The current task is running and between two calls. -/
def AtCall (k : Kernel σ) : Prop :=
  (k.sched.tasks k.sched.current).state = .running ∧ k.pc k.sched.current = .idle

instance (k : Kernel σ) : Decidable k.AtCall := inferInstanceAs (Decidable (_ ∧ _))

/-- The current task moves to another program point. -/
def setPc (k : Kernel σ) (pc : PreemptPc) : Kernel σ :=
  { k with pc := Function.update k.pc k.sched.current pc }

/-- The store to `PREEMPT_COUNT`. -/
def storeCount (k : Kernel σ) (value : UInt32) : Kernel σ :=
  { k with sched := { k.sched with preemptCount := value } }

/-- One step. A task exits between two calls, so the slot that `spawn` fills is at `idle`. -/
def step [PageSource σ] (image : Image) (k : Kernel σ) : Action σ → Option (Kernel σ)
  | .spawn entry api name =>
      if k.AtCall then
        let result := k.sched.spawn image k.pages entry api name
        some { k with sched := result.2.1, pages := result.2.2 }
      else none
  | .exit =>
      if k.AtCall ∧ k.sched.current ≠ 0 then some { k with sched := k.sched.taskExit } else none
  | .start => if k.AtCall then some { k with sched := k.sched.start } else none
  | .disableLoad => if k.AtCall then some (k.setPc (.adding k.sched.preemptCount)) else none
  | .disableStore =>
      match k.pc k.sched.current with
      | .adding value => some ((k.storeCount (value + 1)).setPc .idle)
      | _ => none
  | .enableTest =>
      if k.AtCall then some (if k.sched.preemptCount > 0 then k.setPc .tested else k) else none
  | .enableLoad =>
      match k.pc k.sched.current with
      | .tested => some (k.setPc (.subtracting k.sched.preemptCount))
      | _ => none
  | .enableStore =>
      match k.pc k.sched.current with
      | .subtracting value => some ((k.storeCount (value - 1)).setPc .idle)
      | _ => none
  | .tick ctx => some { k with sched := (k.sched.timerTick ctx).1 }
  | .memory pages => some { k with pages }

/-- What each action does, with the condition under which it does it. -/
inductive Step [PageSource σ] (image : Image) (k : Kernel σ) : Action σ → Kernel σ → Prop
  | spawned {entry api name i stackBase after} (hcall : k.AtCall)
      (hslot : k.sched.findSlot = some i)
      (hpages : PageSource.allocPages k.pages TASK_STACK_ORDER = (some stackBase, after)) :
      Step image k (.spawn entry api name)
        { k with
          sched := k.sched.setTask i
            (Scheduler.newTask image i (UInt64.ofNat stackBase) entry api name)
          pages := after }
  | spawnFailed {entry api name} (hcall : k.AtCall)
      (hfull : k.sched.findSlot = none ∨
        (PageSource.allocPages k.pages TASK_STACK_ORDER).1 = none) :
      Step image k (.spawn entry api name) k
  | exit (hcall : k.AtCall) (hidle : k.sched.current ≠ 0) :
      Step image k .exit { k with sched := k.sched.taskExit }
  | start (hcall : k.AtCall) : Step image k .start { k with sched := k.sched.start }
  | disableLoad (hcall : k.AtCall) :
      Step image k .disableLoad (k.setPc (.adding k.sched.preemptCount))
  | disableStore {value} (hpc : k.pc k.sched.current = .adding value) :
      Step image k .disableStore ((k.storeCount (value + 1)).setPc .idle)
  | enableTested (hcall : k.AtCall) (hcount : k.sched.preemptCount > 0) :
      Step image k .enableTest (k.setPc .tested)
  | enableSkipped (hcall : k.AtCall) (hcount : ¬ k.sched.preemptCount > 0) :
      Step image k .enableTest k
  | enableLoad (hpc : k.pc k.sched.current = .tested) :
      Step image k .enableLoad (k.setPc (.subtracting k.sched.preemptCount))
  | enableStore {value} (hpc : k.pc k.sched.current = .subtracting value) :
      Step image k .enableStore ((k.storeCount (value - 1)).setPc .idle)
  | tick {ctx} : Step image k (.tick ctx) { k with sched := (k.sched.timerTick ctx).1 }
  | memory {pages} : Step image k (.memory pages) { k with pages }

/-- Every step is one of these. -/
theorem step_cases [PageSource σ] {image : Image} {k next : Kernel σ} {action : Action σ}
    (h : step image k action = some next) : Step image k action next := by
  cases action with
  | spawn entry api name =>
      simp only [step] at h
      split at h <;> cases h
      rename_i hcall
      rcases k.sched.spawn_cases image k.pages entry api name with
        ⟨i, stackBase, after, hslot, hpages, heq⟩ | ⟨hfull, heq⟩
      · simp only [heq]
        exact .spawned hcall hslot hpages
      · simp only [heq]
        exact .spawnFailed hcall hfull
  | exit =>
      simp only [step] at h
      split at h <;> cases h
      rename_i hcall
      exact .exit hcall.1 hcall.2
  | start =>
      simp only [step] at h
      split at h <;> cases h
      exact .start ‹_›
  | disableLoad =>
      simp only [step] at h
      split at h <;> cases h
      exact .disableLoad ‹_›
  | disableStore =>
      simp only [step] at h
      split at h <;> cases h
      exact .disableStore ‹_›
  | enableTest =>
      simp only [step] at h
      split at h <;> cases h
      split
      · exact .enableTested ‹_› ‹_›
      · exact .enableSkipped ‹_› ‹_›
  | enableLoad =>
      simp only [step] at h
      split at h <;> cases h
      exact .enableLoad ‹_›
  | enableStore =>
      simp only [step] at h
      split at h <;> cases h
      exact .enableStore ‹_›
  | tick ctx =>
      cases h
      exact .tick
  | memory pages =>
      cases h
      exact .memory

end Kernel

/-! ## The task table -/

/-- At most the current task is running, the current task is running or has exited, and task 0 is
running or ready. -/
structure WellScheduled (s : Scheduler) : Prop where
  one_running : ∀ t, (s.tasks t).state = .running → t = s.current
  current_live : (s.tasks s.current).state = .running ∨ (s.tasks s.current).state = .exited
  idle_live : (s.tasks 0).state = .running ∨ (s.tasks 0).state = .ready

namespace WellScheduled

variable {s : Scheduler}

theorem boot (image : Image) : WellScheduled (Scheduler.boot image) where
  one_running := by
    intro t ht
    by_contra hne
    rw [Scheduler.boot_of_ne image hne] at ht
    cases ht
  current_live := Or.inl rfl
  idle_live := Or.inl rfl

/-- The invariant only reads the task table and the current task. -/
theorem congr {s' : Scheduler} (h : WellScheduled s) (htasks : s'.tasks = s.tasks)
    (hcurrent : s'.current = s.current) : WellScheduled s' where
  one_running := by simpa only [htasks, hcurrent] using h.one_running
  current_live := by simpa only [htasks, hcurrent] using h.current_live
  idle_live := by simpa only [htasks] using h.idle_live

/-- After the save no task is running. -/
theorem afterSave_ne_running (h : WellScheduled s) (ctx : IsrContext) (t : TaskId) :
    ((s.afterSave ctx).tasks t).state ≠ .running := by
  rw [Scheduler.afterSave_state]
  split
  · decide
  · rename_i hnot
    exact fun hrunning ↦ hnot ⟨h.one_running t hrunning, hrunning⟩

/-- After the save task 0 is ready. -/
theorem afterSave_idle (h : WellScheduled s) (ctx : IsrContext) :
    ((s.afterSave ctx).tasks 0).state = .ready := by
  rw [Scheduler.afterSave_state]
  split
  · rfl
  · rename_i hnot
    rcases h.idle_live with hrunning | hready
    · exact absurd ⟨h.one_running 0 hrunning, hrunning⟩ hnot
    · exact hready

/-- A tick that is not suppressed dispatches the first ready task; it never takes the fallback
branch. -/
theorem timerTick_eq (h : WellScheduled s) (ctx : IsrContext) (hsuppressed : s.suppressed = false) :
    ((s.afterSave ctx).tasks (s.target ctx)).state = .ready ∧
      s.timerTick ctx = (s.afterSave ctx).dispatch (s.target ctx) ctx := by
  rcases s.timerTick_cases ctx with ⟨htrue, -⟩ | ⟨-, hready, heq⟩ | ⟨-, hnone⟩
  · rw [hsuppressed] at htrue
    cases htrue
  · exact ⟨hready, heq⟩
  · exact absurd (h.afterSave_idle ctx) (hnone 0)

/-- A tick keeps the invariant. -/
theorem timerTick (h : WellScheduled s) (ctx : IsrContext) :
    WellScheduled (s.timerTick ctx).1 := by
  cases hsuppressed : s.suppressed with
  | true =>
      rw [Scheduler.timerTick_suppressed hsuppressed]
      exact h.congr rfl rfl
  | false =>
      obtain ⟨-, heq⟩ := h.timerTick_eq ctx hsuppressed
      rw [heq]
      refine ⟨?_, Or.inl ?_, ?_⟩
      · -- the save leaves no task running, so the dispatched task is the only one
        intro t ht
        rw [Scheduler.dispatch_tasks] at ht
        split at ht
        · assumption
        · exact absurd ht (h.afterSave_ne_running ctx t)
      · rw [Scheduler.dispatch_current, Scheduler.dispatch_tasks, if_pos rfl]
        rfl
      · rw [Scheduler.dispatch_tasks]
        split
        · exact Or.inl rfl
        · exact Or.inr (h.afterSave_idle ctx)

/-- Writing a ready task to a slot that is neither current nor slot 0 keeps the invariant. -/
theorem setTask (h : WellScheduled s) {i : TaskId} {task : Task} (hcurrent : i ≠ s.current)
    (hidle : i ≠ 0) (hready : task.state = .ready) : WellScheduled (s.setTask i task) where
  one_running := by
    intro t ht
    by_cases hti : t = i
    · subst hti
      rw [Scheduler.setTask_self, hready] at ht
      cases ht
    · rw [Scheduler.setTask_of_ne hti] at ht
      exact h.one_running t ht
  current_live := by
    rw [Scheduler.setTask_current, Scheduler.setTask_of_ne hcurrent.symm]
    exact h.current_live
  idle_live := by
    rw [Scheduler.setTask_of_ne hidle.symm]
    exact h.idle_live

/-- The exit of a current task other than task 0 keeps the invariant. -/
theorem taskExit (h : WellScheduled s) (hidle : s.current ≠ 0) : WellScheduled s.taskExit where
  one_running := by
    intro t ht
    by_cases hcurrent : t = s.current
    · exact hcurrent
    · rw [Scheduler.taskExit, Scheduler.setTask_of_ne hcurrent] at ht
      exact h.one_running t ht
  current_live := by
    refine Or.inr ?_
    show ((s.setTask s.current _).tasks s.current).state = .exited
    rw [Scheduler.setTask_self]
    rfl
  idle_live := by
    rw [Scheduler.taskExit, Scheduler.setTask_of_ne hidle.symm]
    exact h.idle_live

/-- The slot that `spawn` finds while the current task runs is not the current one. -/
theorem findSlot_ne_current (hrunning : (s.tasks s.current).state = .running) {i : TaskId}
    (hslot : s.findSlot = some i) : i ≠ s.current := by
  obtain ⟨-, hfree⟩ := Scheduler.findSlot_eq_some hslot
  intro heq
  subst heq
  rw [hrunning] at hfree
  rcases hfree with hfree | hfree <;> cases hfree

end WellScheduled

namespace Kernel

variable {σ : Type*} [PageSource σ] {image : Image}

/-- Every step keeps the table well scheduled. -/
theorem wellScheduled_step {k next : Kernel σ} {action : Action σ} (h : WellScheduled k.sched)
    (hstep : step image k action = some next) : WellScheduled next.sched := by
  cases step_cases hstep with
  | spawned hcall hslot hpages =>
      exact h.setTask (WellScheduled.findSlot_ne_current hcall.1 hslot)
        (Scheduler.findSlot_eq_some hslot).1 rfl
  | exit hcall hidle => exact h.taskExit hidle
  | tick => exact h.timerTick _
  | start | disableStore | enableStore => exact h.congr rfl rfl
  | spawnFailed | disableLoad | enableTested | enableSkipped | enableLoad | memory => exact h

/-- The table is well scheduled in every reachable state. -/
theorem wellScheduled {pages : σ} {k : Kernel σ}
    (h : Reachable (step image) (boot image pages) k) : WellScheduled k.sched :=
  h.invariant (P := fun k ↦ WellScheduled k.sched) (WellScheduled.boot image)
    fun _ _ _ hwell hstep ↦ wellScheduled_step hwell hstep

/-- In every run, with ticks at any point: at most one task is running, and it is the current one;
the current task is running or has exited; task 0 is running or ready; a tick that is not
suppressed dispatches a task that is ready at that moment, and not through the fallback branch; and
`spawn` changes neither the current slot nor that of a ready task. -/
theorem scheduler_invariant {pages : σ} {k : Kernel σ}
    (h : Reachable (step image) (boot image pages) k) :
    (∀ t, (k.sched.tasks t).state = .running → t = k.sched.current) ∧
    ((k.sched.tasks k.sched.current).state = .running ∨
      (k.sched.tasks k.sched.current).state = .exited) ∧
    ((k.sched.tasks 0).state = .running ∨ (k.sched.tasks 0).state = .ready) ∧
    (∀ ctx, k.sched.suppressed = false → ∃ t,
      ((k.sched.afterSave ctx).tasks t).state = .ready ∧
        ((k.sched.tasks t).state = .ready ∨
          t = k.sched.current ∧ (k.sched.tasks t).state = .running) ∧
        t = CyclicScan.scan (k.sched.afterSave ctx).isReady MAX_TASKS k.sched.current ∧
        k.sched.timerTick ctx = (k.sched.afterSave ctx).dispatch t ctx) ∧
    ∀ entry api name next, step image k (.spawn entry api name) = some next →
      next.sched.tasks k.sched.current = k.sched.tasks k.sched.current ∧
        ∀ t, (k.sched.tasks t).state = .ready → next.sched.tasks t = k.sched.tasks t := by
  have hwell := wellScheduled h
  refine ⟨hwell.one_running, hwell.current_live, hwell.idle_live, ?_, ?_⟩
  · intro ctx hsuppressed
    obtain ⟨hready, heq⟩ := hwell.timerTick_eq ctx hsuppressed
    refine ⟨k.sched.target ctx, hready, ?_, rfl, heq⟩
    rw [Scheduler.afterSave_state] at hready
    split at hready
    · rename_i hcurrent
      exact Or.inr hcurrent
    · exact Or.inl hready
  · intro entry api name next hstep
    cases step_cases hstep with
    | spawned hcall hslot hpages =>
        refine ⟨Scheduler.setTask_of_ne
          (WellScheduled.findSlot_ne_current hcall.1 hslot).symm _, fun t ht ↦ ?_⟩
        refine Scheduler.setTask_of_ne ?_ _
        intro heq
        subst heq
        obtain ⟨-, hfree⟩ := Scheduler.findSlot_eq_some hslot
        rw [ht] at hfree
        rcases hfree with hfree | hfree <;> cases hfree
    | spawnFailed => exact ⟨rfl, fun _ _ ↦ rfl⟩

/-- A run in which a spawned task is dispatched and exits, and task 0 is resumed. -/
theorem scheduler_invariant_exit :
    ∃ k, run (step ⟨0x1000, 0x2000⟩)
        (boot ⟨0x1000, 0x2000⟩ (BuddyAllocator.init 0x100000 0x10000))
        [.spawn 0 0 [], .start, .tick default, .exit, .tick default] = some k ∧
      k.sched.current = 0 ∧ (k.sched.tasks 1).state = .exited ∧
      ∀ t, (k.sched.tasks t).state = .running → t = k.sched.current := by
  have hfields : (run (step ⟨0x1000, 0x2000⟩)
      (boot ⟨0x1000, 0x2000⟩ (BuddyAllocator.init 0x100000 0x10000))
      [.spawn 0 0 [], .start, .tick default, .exit, .tick default]).map
        (fun k ↦ (k.sched.current, (k.sched.tasks 1).state)) = some (0, .exited) := by
    decide +kernel
  obtain ⟨k, hrun, hstate⟩ := Option.map_eq_some_iff.mp hfields
  obtain ⟨hcurrent, hexited⟩ := Prod.mk.inj hstate
  exact ⟨k, hrun, hcurrent, hexited, (scheduler_invariant ⟨_, hrun⟩).1⟩

end Kernel

end Avaria.Sched
