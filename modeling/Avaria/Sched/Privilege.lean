import Avaria.Sched.System

/-!
# Privilege levels across preemption

`save_ctx` does not save `cs` and `ss`, and `load_ctx` sets both to the selectors of the kernel. The
runs are observed by the selectors with which each task was last interrupted. A run in which every
tick interrupts code with the selectors of the kernel resumes each task with its own selectors
(`selectors_kept`); and whenever a tick can interrupt a user program, further ticks resume that
program in ring 0, because its task stays ready and so is reached by the scan.
-/

namespace Avaria.Sched

open Transition Mm Kxvm

/-- The selectors with which each task was last interrupted, since it was spawned. -/
abbrev Interrupted := TaskId → Option Selectors

namespace System

variable {σ : Type*} [PageSource σ]

/-- The interruptions after an action. A tick that is not suppressed interrupts the current task,
and a new task was not interrupted yet. -/
def recordInterrupt (sys : System σ) (action : SystemAction σ) (interrupted : Interrupted) :
    Interrupted :=
  match action with
  | .tick ctx =>
      if sys.kernel.sched.suppressed then interrupted
      else Function.update interrupted sys.kernel.sched.current (some (selectorsOf ctx))
  | .call (.spawn _ _ _) =>
      match sys.kernel.sched.findSlot,
          (PageSource.allocPages sys.kernel.pages TASK_STACK_ORDER).1 with
      | some i, some _ => Function.update interrupted i none
      | _, _ => interrupted
  | _ => interrupted

/-- The system together with the record of the interruptions. -/
def interruptStep (image : Image) (calls : SyscallImage) :
    System σ × Interrupted → SystemAction σ → Option (System σ × Interrupted) :=
  observe (step image calls) recordInterrupt

/-- The system at boot; no task was interrupted. -/
def interruptStart (image : Image) (pages : σ) : System σ × Interrupted :=
  (boot image pages, fun _ ↦ none)

/-- The task that a tick dispatches gets the selectors with which it was last interrupted, and a
task that was never interrupted those of the kernel. -/
def SelectorsKept (state : System σ × Interrupted) : SystemAction σ → Prop
  | .tick ctx => selectorsOf ctx = state.1.selectors →
      ∀ t, Kernel.Dispatches t state.1.kernel (.tick ctx : Action σ) →
        selectorsOf (state.1.kernel.sched.timerTick ctx).2 =
          (state.1.recordInterrupt (.tick ctx) state.2 t).getD kernelSelectors
  | _ => True

/-- A tick that is not suppressed interrupts code with the selectors of the kernel. -/
def InterruptsRing0 (state : System σ × Interrupted) : SystemAction σ → Prop
  | .tick _ => state.1.kernel.sched.suppressed = false → state.1.selectors = kernelSelectors
  | _ => True

/-- Every interruption so far was one of code with the selectors of the kernel. -/
def AllRing0 (interrupted : Interrupted) : Prop :=
  ∀ t, (interrupted t).getD kernelSelectors = kernelSelectors

theorem AllRing0.update {interrupted : Interrupted} (h : AllRing0 interrupted) {t : TaskId}
    {recorded : Option Selectors} (hrecorded : recorded.getD kernelSelectors = kernelSelectors) :
    AllRing0 (Function.update interrupted t recorded) := by
  intro u
  by_cases hu : u = t
  · subst hu
    rw [Function.update_self]
    exact hrecorded
  · rw [Function.update_of_ne hu]
    exact h u

/-- An action that interrupts ring 0 only keeps the record. -/
theorem allRing0_recordInterrupt {sys : System σ} {interrupted : Interrupted}
    (h : AllRing0 interrupted) {action : SystemAction σ}
    (hcond : InterruptsRing0 (sys, interrupted) action)
    (henabled : ∀ ctx, action = .tick ctx → selectorsOf ctx = sys.selectors) :
    AllRing0 (sys.recordInterrupt action interrupted) := by
  unfold recordInterrupt
  split
  · rename_i ctx
    split
    · exact h
    · rename_i hsuppressed
      refine h.update ?_
      rw [henabled ctx rfl]
      exact hcond (Bool.eq_false_iff.mpr hsuppressed)
  · split
    · exact h.update rfl
    · exact h
  · exact h

/-- A step that interrupts ring 0 only keeps the record. -/
theorem allRing0_step {image : Image} {calls : SyscallImage}
    {state next : System σ × Interrupted} {action : SystemAction σ} (h : AllRing0 state.2)
    (hcond : InterruptsRing0 state action)
    (hstep : interruptStep image calls state action = some next) : AllRing0 next.2 := by
  obtain ⟨hsystem, hrecord⟩ := observe_eq_some.mp hstep
  rw [hrecord]
  refine allRing0_recordInterrupt h hcond ?_
  intro ctx haction
  subst haction
  by_contra hne
  rw [step, if_neg hne] at hsystem
  cases hsystem

/-- As long as ring 0 is interrupted only, a tick resumes a task with its own selectors. -/
theorem selectorsKept_of_ring0 {state : System σ × Interrupted} {action : SystemAction σ}
    (hcoherent : Coherent state.1) (h : AllRing0 state.2) (hcond : InterruptsRing0 state action) :
    SelectorsKept state action := by
  cases action with
  | tick ctx =>
      intro hctx t hdispatches
      rw [selectorsOf_timerTick hcoherent.wellScheduled ctx hdispatches.1]
      refine (allRing0_recordInterrupt h hcond ?_ t).symm
      intro ctx' heq
      cases heq
      exact hctx
  | call | memory | enterRing3 | syscall => trivial

/-! ## A user program that is interrupted -/

/-- A tick that dispatches a task whose last interruption was outside ring 0 does not keep its
selectors. -/
theorem not_selectorsKept {state : System σ × Interrupted} (hcoherent : Coherent state.1)
    {ctx : IsrContext} {t : TaskId} {sel : Selectors}
    (hctx : selectorsOf ctx = state.1.selectors)
    (hdispatches : Kernel.Dispatches t state.1.kernel (.tick ctx : Action σ))
    (hrecord : state.1.recordInterrupt (.tick ctx) state.2 t = some sel)
    (hsel : sel ≠ kernelSelectors) : ¬ SelectorsKept state (.tick ctx) := by
  intro hkept
  have hkept := hkept hctx t hdispatches
  rw [hrecord, selectorsOf_timerTick hcoherent.wellScheduled ctx hdispatches.1] at hkept
  exact hsel hkept.symm

/-- What a tick that is not suppressed leaves of a task that it does not dispatch. -/
theorem timerTick_other {s : Scheduler} (hwell : WellScheduled s) (ctx : IsrContext)
    (hsuppressed : s.suppressed = false) {t : TaskId} (hnot : (s.timerTick ctx).1.current ≠ t) :
    ((s.timerTick ctx).1.tasks t) = (s.afterSave ctx).tasks t ∧
      (s.timerTick ctx).1.suppressed = false := by
  obtain ⟨-, heq⟩ := hwell.timerTick_eq ctx hsuppressed
  rw [heq] at hnot ⊢
  rw [Scheduler.dispatch_tasks, if_neg fun heq ↦ hnot heq.symm]
  exact ⟨rfl, hsuppressed⟩

/-- A tick can come at any time, with the selectors that are loaded. -/
theorem step_contextOf (image : Image) (calls : SyscallImage) (system : System σ) :
    step image calls system (.tick (contextOf system.selectors)) =
      some (system.timerTick (contextOf system.selectors)) :=
  if_pos (selectorsOf_contextOf _)

theorem interruptStep_contextOf (image : Image) (calls : SyscallImage)
    (state : System σ × Interrupted) :
    interruptStep image calls state (.tick (contextOf state.1.selectors)) =
      some (state.1.timerTick (contextOf state.1.selectors),
        state.1.recordInterrupt (.tick (contextOf state.1.selectors)) state.2) :=
  observe_eq_some.mpr ⟨step_contextOf image calls state.1, rfl⟩

/-- A ready task whose last interruption was outside ring 0 is reached by the scan after finitely
many ticks, since each tick comes nearer to it, and does not get its selectors back. -/
theorem exists_ticks_not_kept (image : Image) (calls : SyscallImage) (distance : Nat)
    (state : System σ × Interrupted) (hcoherent : Coherent state.1)
    (hsuppressed : state.1.kernel.sched.suppressed = false) {t : TaskId} {sel : Selectors}
    (hne : t ≠ state.1.kernel.sched.current)
    (hready : (state.1.kernel.sched.tasks t).state = .ready)
    (hrecord : state.2 t = some sel) (hsel : sel ≠ kernelSelectors)
    (hdistance : CyclicScan.distance state.1.kernel.sched.current t = distance) :
    ∃ ticks, ¬ Throughout (interruptStep image calls) SelectorsKept state ticks := by
  induction distance using Nat.strong_induction_on generalizing state with
  | _ distance ih =>
      let ctx := contextOf state.1.selectors
      have hkeep : state.1.recordInterrupt (.tick ctx) state.2 t = some sel := by
        simp [recordInterrupt, hsuppressed, Function.update_of_ne hne, hrecord]
      by_cases hdispatched : (state.1.kernel.sched.timerTick ctx).1.current = t
      · refine ⟨[.tick ctx], fun hkept ↦ ?_⟩
        exact not_selectorsKept hcoherent (selectorsOf_contextOf _) ⟨hsuppressed, hdispatched⟩
          hkeep hsel hkept.1
      · have hstep := step_contextOf image calls state.1
        have hobserved := interruptStep_contextOf image calls state
        have hbefore := Kernel.target_ahead hready hsuppressed hdispatched
        have hnearer : CyclicScan.distance (state.1.timerTick ctx).kernel.sched.current t <
            distance := by
          rw [← hdistance]
          refine lt_of_eq_of_lt (CyclicScan.distance_sub hbefore) ?_
          omega
        obtain ⟨htask, hactive⟩ :=
          timerTick_other hcoherent.wellScheduled ctx hsuppressed hdispatched
        have hstill : ((state.1.timerTick ctx).kernel.sched.tasks t).state = .ready := by
          refine (congrArg Task.state htask).trans ?_
          rw [Scheduler.afterSave_of_ne hne]
          exact hready
        obtain ⟨ticks, hnot⟩ := ih _ hnearer
          (state.1.timerTick ctx, state.1.recordInterrupt (.tick ctx) state.2)
          (coherent_step hcoherent hstep) hactive (Ne.symm hdispatched) hstill hkeep rfl
        exact ⟨.tick ctx :: ticks, fun hkept ↦ hnot (hkept.2 _ hobserved)⟩

/-- A tick that interrupts code outside ring 0 starts ticks that do not keep its selectors. -/
theorem exists_ticks_of_interrupted (image : Image) (calls : SyscallImage)
    {state : System σ × Interrupted} (hcoherent : Coherent state.1)
    (hsuppressed : state.1.kernel.sched.suppressed = false)
    (hsel : state.1.selectors ≠ kernelSelectors) :
    ∃ ticks, ¬ Throughout (interruptStep image calls) SelectorsKept state ticks := by
  let ctx := contextOf state.1.selectors
  have hrecord : state.1.recordInterrupt (.tick ctx) state.2 state.1.kernel.sched.current =
      some state.1.selectors := by
    simp [recordInterrupt, hsuppressed, ctx, selectorsOf_contextOf]
  by_cases hdispatched :
      (state.1.kernel.sched.timerTick ctx).1.current = state.1.kernel.sched.current
  · refine ⟨[.tick ctx], fun hkept ↦ ?_⟩
    exact not_selectorsKept hcoherent (selectorsOf_contextOf _) ⟨hsuppressed, hdispatched⟩
      hrecord hsel hkept.1
  · have hstep := step_contextOf image calls state.1
    have hobserved := interruptStep_contextOf image calls state
    obtain ⟨htask, hactive⟩ := timerTick_other hcoherent.wellScheduled ctx hsuppressed hdispatched
    -- the interrupted task was running, so the save left it ready
    have hready : ((state.1.timerTick ctx).kernel.sched.tasks
        state.1.kernel.sched.current).state = .ready := by
      refine (congrArg Task.state htask).trans ?_
      rw [Scheduler.afterSave_state, if_pos ⟨rfl, hcoherent.running_of_selectors hsel⟩]
    obtain ⟨ticks, hnot⟩ := exists_ticks_not_kept image calls _
      (state.1.timerTick ctx, state.1.recordInterrupt (.tick ctx) state.2)
      (coherent_step hcoherent hstep) hactive (Ne.symm hdispatched) hready hrecord hsel rfl
    exact ⟨.tick ctx :: ticks, fun hkept ↦ hnot (hkept.2 _ hobserved)⟩

/-- In every run whose ticks interrupt ring 0 only, a tick that dispatches a task leaves the
selectors with which the task was last interrupted, and those of the kernel for a new task. From
every reachable state in which a tick can interrupt a user program, some ticks do not. -/
theorem selectors_kept (image : Image) (calls : SyscallImage) (pages : σ)
    (actions : List (SystemAction σ)) :
    (Throughout (interruptStep image calls) InterruptsRing0 (interruptStart image pages) actions →
      Throughout (interruptStep image calls) SelectorsKept (interruptStart image pages) actions) ∧
    (∀ state, run (interruptStep image calls) (interruptStart image pages) actions = some state →
      state.1.kernel.sched.suppressed = false → state.1.selectors ≠ kernelSelectors →
        ∃ ticks, ¬ Throughout (interruptStep image calls) SelectorsKept state ticks) := by
  constructor
  · refine Throughout.mono (I := fun state ↦ Coherent state.1 ∧ AllRing0 state.2) ?_ ?_
      ⟨coherent_boot image pages, fun _ ↦ rfl⟩
    · intro state action next hinv hcond hstep
      exact ⟨coherent_step hinv.1 (observe_eq_some.mp hstep).1, allRing0_step hinv.2 hcond hstep⟩
    · intro state action hinv hcond
      exact selectorsKept_of_ring0 hinv.1 hinv.2 hcond
  · intro state hrun hsuppressed hsel
    have hreach : Reachable (interruptStep image calls) (interruptStart image pages) state :=
      ⟨actions, hrun⟩
    exact exists_ticks_of_interrupted image calls (coherent hreach.of_observe) hsuppressed hsel

/-- A spawned task enters ring 3, is interrupted there, and the second tick after that resumes it
in ring 0. -/
theorem selectors_escalated :
    ¬ Throughout (interruptStep ⟨0x1000, 0x2000⟩ ⟨0x3000, 0x4000⟩) SelectorsKept
      (interruptStart ⟨0x1000, 0x2000⟩ (BuddyAllocator.init 0x100000 0x10000))
      ([.call (.spawn 0x5000 0 []), .call .start, .tick (contextOf kernelSelectors),
        .enterRing3 0x400000 0x500000,
        .tick (contextOf userSelectors)] ++
        [.tick (contextOf kernelSelectors)]) := by
  have hfields : (run (interruptStep ⟨0x1000, 0x2000⟩ ⟨0x3000, 0x4000⟩)
      (interruptStart ⟨0x1000, 0x2000⟩ (BuddyAllocator.init 0x100000 0x10000))
      [.call (.spawn 0x5000 0 []), .call .start, .tick (contextOf kernelSelectors),
        .enterRing3 0x400000 0x500000,
        .tick (contextOf userSelectors)]).map (fun state ↦
          (state.1.selectors, state.1.kernel.sched.suppressed,
            (state.1.kernel.sched.timerTick (contextOf kernelSelectors)).1.current,
            selectorsOf (state.1.kernel.sched.timerTick (contextOf kernelSelectors)).2,
            state.1.recordInterrupt (.tick (contextOf kernelSelectors)) state.2 1)) =
        some (kernelSelectors, false, 1, kernelSelectors,
          some userSelectors) := by
    decide +kernel
  obtain ⟨state, hrun, hstate⟩ := Option.map_eq_some_iff.mp hfields
  simp only [Prod.mk.injEq] at hstate
  obtain ⟨hselectors, hsuppressed, hcurrent, hafter, hrecord⟩ := hstate
  intro hkept
  have hlast := hkept.at_prefix hrun hselectors.symm 1 ⟨hsuppressed, hcurrent⟩
  rw [hafter, hrecord] at hlast
  exact absurd hlast (by decide)

end System

end Avaria.Sched
