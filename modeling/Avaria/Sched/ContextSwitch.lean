import Avaria.Sched.Kernel

/-!
# Context switches

A task that a tick dispatches resumes with the registers it was interrupted with, however many
other saves, exits and slot reuses lie in between. The runs are observed by a history that records,
for each slot, the frame of the tick that preempted it last, the frame that `spawn` built for it
last, and whether it has been dispatched since. The history follows the source's notion of the
events only; it never looks at the saved registers.

`Faithful` relates the task table to the history, and `context_fidelity` is the result.
-/

namespace Avaria.Sched

open Transition Mm

/-- What happened to the slots so far. -/
structure History where
  preempted : TaskId → Option Frame
  spawned : TaskId → Option Frame
  ran : TaskId → Bool

/-- The frame in which a spawned task starts: the trampoline with `entry` and `api` as arguments,
eight bytes below the top of its stack. -/
def initialFrame (image : Image) (stackBase entry api : UInt64) : Frame where
  rip := image.taskTrampoline
  rsp := stackBase + 0x4000 - 8
  rflags := 0x202
  rax := 0
  rbx := 0
  rcx := 0
  rdx := 0
  rsi := api
  rdi := entry
  rbp := 0
  r8 := 0
  r9 := 0
  r10 := 0
  r11 := 0
  r12 := 0
  r13 := 0
  r14 := 0
  r15 := 0

namespace History

/-- At boot, only task 0 has run. -/
def start : History := ⟨fun _ ↦ none, fun _ ↦ none, fun t ↦ decide (t = 0)⟩

/-- The task is preempted with these registers. -/
def preempt (history : History) (t : TaskId) (frame : Frame) : History :=
  { history with preempted := Function.update history.preempted t (some frame) }

/-- The task is dispatched. -/
def dispatch (history : History) (t : TaskId) : History :=
  { history with ran := Function.update history.ran t true }

/-- The slot is filled by `spawn`. -/
def spawn (history : History) (t : TaskId) (frame : Frame) : History :=
  { history with
    spawned := Function.update history.spawned t (some frame)
    ran := Function.update history.ran t false }

/-- The frame in which the task has to resume: that of its last preemption, or the initial frame
if it has not run since its slot was spawned. -/
def resume (history : History) (t : TaskId) : Option Frame :=
  if history.ran t then history.preempted t else history.spawned t

variable {history : History} {t other : TaskId} {frame : Frame}

theorem resume_preempt_self (hran : history.ran t = true) :
    (history.preempt t frame).resume t = some frame := by
  simp [resume, preempt, hran]

theorem resume_preempt_of_ne (h : other ≠ t) :
    (history.preempt t frame).resume other = history.resume other := by
  simp [resume, preempt, Function.update_of_ne h]

theorem resume_dispatch_of_ne (h : other ≠ t) :
    (history.dispatch t).resume other = history.resume other := by
  simp [resume, dispatch, Function.update_of_ne h]

theorem resume_spawn_self : (history.spawn t frame).resume t = some frame := by
  simp [resume, spawn]

theorem resume_spawn_of_ne (h : other ≠ t) :
    (history.spawn t frame).resume other = history.resume other := by
  simp [resume, spawn, Function.update_of_ne h]

end History

namespace Kernel

variable {σ : Type*} [PageSource σ] {image : Image}

/-- The history after an action. -/
def record (image : Image) (k : Kernel σ) (action : Action σ) (history : History) : History :=
  match action with
  | .spawn entry api _ =>
      match k.sched.findSlot, (PageSource.allocPages k.pages TASK_STACK_ORDER).1 with
      | some i, some stackBase =>
          history.spawn i (initialFrame image (UInt64.ofNat stackBase) entry api)
      | _, _ => history
  | .tick ctx =>
      if k.sched.suppressed then history
      else
        (history.preempt k.sched.current ctx.frame).dispatch (k.sched.timerTick ctx).1.current
  | _ => history

/-- The kernel together with its history. -/
def observedStep (image : Image) :
    Kernel σ × History → Action σ → Option (Kernel σ × History) :=
  observe (step image) (record image)

end Kernel

/-- Every ready task that is not current has the registers saved in which it has to resume, and
the current task has run. -/
structure Faithful (s : Scheduler) (history : History) : Prop where
  saved : ∀ t, t ≠ s.current → (s.tasks t).state = .ready →
    history.resume t = some (s.tasks t).frame
  current_ran : history.ran s.current = true

namespace Faithful

variable {s : Scheduler} {history : History}

theorem boot (image : Image) : Faithful (Scheduler.boot image) History.start where
  saved := by
    intro t ht hready
    rw [Scheduler.boot_of_ne image ht] at hready
    cases hready
  current_ran := rfl

theorem congr {s' : Scheduler} (h : Faithful s history) (htasks : s'.tasks = s.tasks)
    (hcurrent : s'.current = s.current) : Faithful s' history where
  saved := by simpa only [htasks, hcurrent] using h.saved
  current_ran := by simpa only [hcurrent] using h.current_ran

/-- After the save of a tick, every ready task has the registers saved in which it has to
resume. -/
theorem afterSave (h : Faithful s history) (ctx : IsrContext) {t : TaskId}
    (hready : ((s.afterSave ctx).tasks t).state = .ready) :
    (history.preempt s.current ctx.frame).resume t = some ((s.afterSave ctx).tasks t).frame := by
  by_cases ht : t = s.current
  · subst ht
    rw [Scheduler.afterSave_self, frame_preempt]
    exact History.resume_preempt_self h.current_ran
  · rw [Scheduler.afterSave_of_ne ht] at hready ⊢
    rw [History.resume_preempt_of_ne ht]
    exact h.saved t ht hready

/-- A dispatched task is current and has run; the others keep their frames. -/
theorem dispatch (h : ∀ t, (s.tasks t).state = .ready → history.resume t = some (s.tasks t).frame)
    (next : TaskId) (ctx : IsrContext) :
    Faithful (s.dispatch next ctx).1 (history.dispatch next) where
  saved := by
    intro t ht hready
    rw [Scheduler.dispatch_current] at ht
    rw [Scheduler.dispatch_tasks, if_neg ht] at hready ⊢
    rw [History.resume_dispatch_of_ne ht]
    exact h t hready
  current_ran := by simp [History.dispatch]

/-- `spawn` builds the initial frame in a slot that is not current. -/
theorem spawn (h : Faithful s history) {image : Image} {i : TaskId} (hi : i ≠ s.current)
    (stackBase entry api : UInt64) (name : List UInt8) :
    Faithful (s.setTask i (Scheduler.newTask image i stackBase entry api name))
      (history.spawn i (initialFrame image stackBase entry api)) where
  saved := by
    intro t ht hready
    by_cases hti : t = i
    · subst hti
      rw [Scheduler.setTask_self, History.resume_spawn_self]
      rfl
    · rw [Scheduler.setTask_of_ne hti] at hready ⊢
      rw [History.resume_spawn_of_ne hti]
      exact h.saved t ht hready
  current_ran := by
    simp only [Scheduler.setTask_current, History.spawn, Function.update_of_ne hi.symm]
    exact h.current_ran

/-- The exit of the current task touches no other. -/
theorem taskExit (h : Faithful s history) : Faithful s.taskExit history where
  saved := by
    intro t ht hready
    change t ≠ s.current at ht
    rw [Scheduler.taskExit, Scheduler.setTask_of_ne ht] at hready ⊢
    exact h.saved t ht hready
  current_ran := h.current_ran

end Faithful

namespace Kernel

variable {σ : Type*} [PageSource σ] {image : Image}

/-- Every step keeps the registers of the waiting tasks. -/
theorem faithful_step {state next : Kernel σ × History} {action : Action σ}
    (hwell : WellScheduled state.1.sched) (h : Faithful state.1.sched state.2)
    (hstep : observedStep image state action = some next) : Faithful next.1.sched next.2 := by
  obtain ⟨hkernel, hrecord⟩ := observe_eq_some.mp hstep
  obtain ⟨k, history⟩ := state
  obtain ⟨after, afterHistory⟩ := next
  simp only at hkernel hrecord hwell h ⊢
  subst hrecord
  cases hcases : step_cases hkernel with
  | spawned hcall hslot hpages =>
      simp only [record, hslot, hpages]
      exact h.spawn (WellScheduled.findSlot_ne_current hcall.1 hslot) _ _ _ _
  | spawnFailed hcall hfull =>
      -- the history does not record a failed call either
      simp only [record]
      split
      · rename_i hslot hpages
        rw [hslot, hpages] at hfull
        rcases hfull with hfull | hfull <;> cases hfull
      · exact h
  | tick =>
      rename_i ctx
      simp only [record]
      cases hsuppressed : k.sched.suppressed with
      | true =>
          rw [Scheduler.timerTick_suppressed hsuppressed]
          exact h.congr rfl rfl
      | false =>
          obtain ⟨-, heq⟩ := hwell.timerTick_eq ctx hsuppressed
          rw [if_neg (by decide), heq]
          exact Faithful.dispatch (fun t ↦ h.afterSave ctx) _ _
  | exit => exact h.taskExit
  | start | disableStore | enableStore => exact h.congr rfl rfl
  | disableLoad | enableTested | enableSkipped | enableLoad | memory => exact h

/-- In every run, a tick that is not suppressed leaves in the interrupt context the registers in
which the task that it dispatches has to resume: those of the tick that preempted this task last,
possibly this very tick, or the frame that `spawn` built if the task has not run since. A
suppressed tick leaves the context unchanged. -/
theorem context_fidelity {pages : σ} {k : Kernel σ} {history : History}
    (h : Reachable (observedStep image) (boot image pages, History.start) (k, history))
    (ctx : IsrContext) :
    (k.sched.suppressed = false →
      some (k.sched.timerTick ctx).2.frame =
        (history.preempt k.sched.current ctx.frame).resume (k.sched.timerTick ctx).1.current) ∧
    (k.sched.suppressed = true → (k.sched.timerTick ctx).2 = ctx) := by
  have hwell : WellScheduled k.sched := wellScheduled h.of_observe
  have hfaithful : Faithful k.sched history :=
    h.induct (P := fun state ↦ Faithful state.1.sched state.2) (Faithful.boot image)
      fun _ _ _ hreach hstate hstep ↦
        faithful_step (wellScheduled hreach.of_observe) hstate hstep
  constructor
  · intro hsuppressed
    obtain ⟨hready, heq⟩ := hwell.timerTick_eq ctx hsuppressed
    rw [heq, Scheduler.frame_dispatch, Scheduler.dispatch_current]
    exact (hfaithful.afterSave ctx hready).symm
  · intro hsuppressed
    rw [Scheduler.timerTick_suppressed hsuppressed]

/-- Task 0 is preempted with `rax = 7`, the new task is dispatched in its initial frame, and task 0
resumes with `rax = 7`. -/
theorem context_fidelity_resume :
    ∃ k history,
      run (observedStep ⟨0x1000, 0x2000⟩)
        (boot ⟨0x1000, 0x2000⟩ (BuddyAllocator.init 0x100000 0x10000), History.start)
        [.spawn 5 6 [], .start, .tick { (default : IsrContext) with rax := 7 }, .exit] =
          some (k, history) ∧
      (k.sched.timerTick default).1.current = 0 ∧
      (k.sched.timerTick default).2.frame.rax = 7 := by
  have hfields : (run (observedStep ⟨0x1000, 0x2000⟩)
      (boot ⟨0x1000, 0x2000⟩ (BuddyAllocator.init 0x100000 0x10000), History.start)
      [.spawn 5 6 [], .start, .tick { (default : IsrContext) with rax := 7 }, .exit]).map
        (fun state ↦ (state.1.sched.suppressed, state.1.sched.current,
          (state.1.sched.timerTick default).1.current,
          (state.2.resume 0).map Frame.rax)) = some (false, 1, 0, some 7) := by decide +kernel
  obtain ⟨⟨k, history⟩, hrun, hstate⟩ := Option.map_eq_some_iff.mp hfields
  simp only [Prod.mk.injEq, Option.map_eq_some_iff] at hstate
  obtain ⟨hsuppressed, hcurrent, hnext, frame, hframe, hrax⟩ := hstate
  refine ⟨k, history, hrun, hnext, ?_⟩
  have hresume := (context_fidelity ⟨_, hrun⟩ default).1 hsuppressed
  rw [hnext, hcurrent, History.resume_preempt_of_ne (by decide), hframe] at hresume
  rw [Option.some.inj hresume, hrax]

end Kernel

end Avaria.Sched
