import Avaria.Lib.Extent
import Avaria.Sched.Stacks
import Avaria.Sched.System

/-!
# How tasks end

A task ends by `task_exit`, when it returns from its entry function, or by the system call
`SYS_EXIT`. The runs are observed by the stacks that `spawn` obtained and by the stacks on which the
ended tasks execute: a task that exits stays on its own stack, and `SYS_EXIT` moves the interrupted
code to the one static stack `RETURN_STACK`.

Both ways agree along a run exactly if no task other than task 0 ends by `SYS_EXIT`
(`task_ends_agree`): the system call leaves the slot running, so the task keeps being dispatched,
its slot is lost, and a second such task executes on the same stack.
-/

namespace Avaria.Sched

open Transition Mm Kxvm

/-- The stacks that `spawn` obtained, and those on which the ended tasks other than task 0
execute. -/
structure TaskEnds where
  obtained : List Extent
  graves : List Extent

/-- The stack of a task. -/
def Task.stack (task : Task) : Extent := ⟨task.stackBase.toNat, task.stackSize.toNat⟩

/-- The stack that a successful `spawn` obtains. -/
def obtainedStack (stackBase : Nat) : Extent :=
  ⟨(UInt64.ofNat stackBase).toNat, TASK_STACK_SIZE.toNat⟩

/-- The entry is used and the task has not exited. -/
def Task.Alive (task : Task) : Prop := task.state ≠ .empty ∧ task.state ≠ .exited

namespace System

variable {σ : Type*} [PageSource σ]

/-- The record after an action. -/
def recordEnds (calls : SyscallImage) (sys : System σ) (action : SystemAction σ)
    (ends : TaskEnds) : TaskEnds :=
  match action with
  | .call .exit =>
      { ends with
        graves := (sys.kernel.sched.tasks sys.kernel.sched.current).stack :: ends.graves }
  | .call (.spawn _ _ _) =>
      match sys.kernel.sched.findSlot,
          (PageSource.allocPages sys.kernel.pages TASK_STACK_ORDER).1 with
      | some _, some stackBase => { ends with obtained := obtainedStack stackBase :: ends.obtained }
      | _, _ => ends
  | .syscall ctx =>
      if ctx.rax = SYS_EXIT ∧ sys.kernel.sched.current ≠ 0 then
        { ends with graves := ⟨calls.returnStack.toNat, 0x2000⟩ :: ends.graves }
      else ends
  | _ => ends

/-- The system together with the record of the ended tasks. -/
def endStep (image : Image) (calls : SyscallImage) :
    System σ × TaskEnds → SystemAction σ → Option (System σ × TaskEnds) :=
  observe (step image calls) (recordEnds calls)

/-- The system at boot; no task has ended. -/
def endStart (image : Image) (pages : σ) : System σ × TaskEnds := (boot image pages, ⟨[], []⟩)

/-- The slot of every ended task other than task 0 has exited and is not dispatched, `spawn` finds a
slot and looks no further than it, and no two ended tasks execute on the same stack. -/
structure EndsAgree (state : System σ × TaskEnds) : Prop where
  exited : ∀ t, t ≠ 0 → state.1.code t = .halted →
    (state.1.kernel.sched.tasks t).state = .exited
  not_dispatched : ∀ t, t ≠ 0 → state.1.code t = .halted → ∀ ctx,
    ¬ Kernel.Dispatches t state.1.kernel (.tick ctx : Action σ)
  available : ∀ t, t ≠ 0 → state.1.code t = .halted →
    ∃ i ≤ t, state.1.kernel.sched.findSlot = some i
  separate : state.2.graves.Pairwise Extent.Apart

/-- No task other than task 0 issues `SYS_EXIT`. -/
def NoSysExit (state : System σ × TaskEnds) : SystemAction σ → Prop
  | .syscall ctx => state.1.kernel.AtCall → state.1.currentCode ≠ .halted →
      selectorsOf ctx = state.1.selectors → ctx.rax = SYS_EXIT →
      state.1.kernel.sched.current = 0
  | _ => True

/-- A `spawn` is handed a stack that is separate from all stacks handed out before. -/
def FreshStack (state : System σ × TaskEnds) : SystemAction σ → Prop
  | .call (.spawn _ _ _) => ∀ stackBase,
      (PageSource.allocPages state.1.kernel.pages TASK_STACK_ORDER).1 = some stackBase →
      ∀ stack ∈ state.2.obtained, (obtainedStack stackBase).Apart stack
  | _ => True

/-! ## What a step does to the tasks -/

omit [PageSource σ] in
/-- A tick ends no task and revives none. -/
theorem exited_timerTick {s : Scheduler} (hwell : WellScheduled s) (ctx : IsrContext) (t : TaskId) :
    ((s.timerTick ctx).1.tasks t).state = .exited ↔ (s.tasks t).state = .exited := by
  have hsave : ((s.afterSave ctx).tasks t).state = .exited ↔ (s.tasks t).state = .exited := by
    rw [Scheduler.afterSave_state]
    split
    · rename_i hrunning
      rw [hrunning.2]
      decide
    · rfl
  cases hsuppressed : s.suppressed with
  | true => rw [Scheduler.timerTick_suppressed hsuppressed]
  | false =>
      obtain ⟨hready, heq⟩ := hwell.timerTick_eq ctx hsuppressed
      rw [heq, Scheduler.dispatch_tasks]
      split
      · rename_i htarget
        subst htarget
        rw [← hsave, hready]
        exact iff_of_false TaskState.noConfusion TaskState.noConfusion
      · exact hsave

/-- A step that ends no task and starts none. -/
structure Quiet (state next : System σ × TaskEnds) : Prop where
  sameStack : ∀ t, Kernel.SameStack (next.1.kernel.sched.tasks t) (state.1.kernel.sched.tasks t)
  exited_iff : ∀ t, (next.1.kernel.sched.tasks t).state = .exited ↔
    (state.1.kernel.sched.tasks t).state = .exited
  halted : ∀ t, next.1.code t = .halted → state.1.code t = .halted
  record : next.2 = state.2

/-- A successful `spawn` in this setting. -/
structure Started (image : Image) (state next : System σ × TaskEnds) (i : TaskId)
    (stackBase : Nat) : Prop where
  slot : state.1.kernel.sched.findSlot = some i
  pages : (PageSource.allocPages state.1.kernel.pages TASK_STACK_ORDER).1 = some stackBase
  table : ∃ entry api name, next.1.kernel.sched =
    state.1.kernel.sched.setTask i
      (Scheduler.newTask image i (UInt64.ofNat stackBase) entry api name)
  code : next.1.code = Function.update state.1.code i .kernel
  record : next.2 = { state.2 with obtained := obtainedStack stackBase :: state.2.obtained }

/-- The exit of the current task. -/
structure Exited (state next : System σ × TaskEnds) : Prop where
  running : (state.1.kernel.sched.tasks state.1.kernel.sched.current).state = .running
  idle : state.1.kernel.sched.current ≠ 0
  table : next.1.kernel.sched = state.1.kernel.sched.taskExit
  code : next.1.code = Function.update state.1.code state.1.kernel.sched.current .halted
  record : next.2 = { state.2 with
    graves := (state.1.kernel.sched.tasks state.1.kernel.sched.current).stack :: state.2.graves }

/-- The system call `SYS_EXIT` of the current task. -/
structure SysExited (calls : SyscallImage) (state next : System σ × TaskEnds) : Prop where
  running : (state.1.kernel.sched.tasks state.1.kernel.sched.current).state = .running
  table : next.1.kernel = state.1.kernel
  code : next.1.code = Function.update state.1.code state.1.kernel.sched.current .halted
  record : next.2 = if state.1.kernel.sched.current = 0 then state.2 else
    { state.2 with graves := ⟨calls.returnStack.toNat, 0x2000⟩ :: state.2.graves }

/-- Everything a step can do to the tasks. -/
inductive EndCase (image : Image) (calls : SyscallImage) (state next : System σ × TaskEnds) :
    SystemAction σ → Prop
  | started {entry api name i stackBase} (h : Started image state next i stackBase) :
      EndCase image calls state next (.call (.spawn entry api name))
  | exited (h : Exited state next) : EndCase image calls state next (.call .exit)
  | sysExited {ctx} (h : SysExited calls state next) (hcall : state.1.kernel.AtCall)
      (hcode : state.1.currentCode ≠ .halted) (hctx : selectorsOf ctx = state.1.selectors)
      (hrax : ctx.rax = SYS_EXIT) : EndCase image calls state next (.syscall ctx)
  | quiet {action} (h : Quiet state next) : EndCase image calls state next action

omit [PageSource σ] in
/-- A call that leaves the table, the code and the record as they are is quiet. -/
theorem Quiet.of_tasks {state next : System σ × TaskEnds}
    (htasks : next.1.kernel.sched.tasks = state.1.kernel.sched.tasks)
    (hcode : next.1.code = state.1.code) (hrecord : next.2 = state.2) : Quiet state next where
  sameStack := by
    intro t
    rw [htasks]
    exact .refl _
  exited_iff := by
    intro t
    rw [htasks]
  halted := by
    intro t
    rw [hcode]
    exact id
  record := hrecord

variable {image : Image} {calls : SyscallImage}

/-- Every step is one of these. -/
theorem endStep_cases {state next : System σ × TaskEnds} {action : SystemAction σ}
    (hwell : WellScheduled state.1.kernel.sched)
    (hstep : endStep image calls state action = some next) :
    EndCase image calls state next action := by
  obtain ⟨hsystem, hrecord⟩ := observe_eq_some.mp hstep
  obtain ⟨sys, ends⟩ := state
  obtain ⟨after, afterEnds⟩ := next
  simp only at hsystem hrecord hwell
  subst hrecord
  cases step_cases hsystem with
  | call hcall hcode hkernel =>
      cases Kernel.step_cases hkernel with
      | spawned hat hslot hpages =>
          have hpages' := congrArg Prod.fst hpages
          refine .started ⟨hslot, hpages', ⟨_, _, _, rfl⟩, ?_, ?_⟩
          · simp [callCode, hslot, hpages']
          · simp [recordEnds, hslot, hpages']
      | spawnFailed hat hfull =>
          refine .quiet (.of_tasks rfl ?_ ?_)
          · rcases hfull with hfull | hfull <;> simp [callCode, hfull]
          · rcases hfull with hfull | hfull <;> simp [recordEnds, hfull]
      | exit hat hidle => exact .exited ⟨hat.1, hidle, rfl, rfl, rfl⟩
      | tick | memory => cases hcall
      | start | disableLoad | disableStore | enableTested | enableSkipped | enableLoad |
          enableStore => exact .quiet (.of_tasks rfl rfl rfl)
  | tick hctx =>
      exact .quiet ⟨Kernel.sameStack_timerTick hwell _, exited_timerTick hwell _, fun _ ↦ id, rfl⟩
  | memory => exact .quiet (.of_tasks rfl rfl rfl)
  | enterRing3 hat hcode =>
      refine .quiet ⟨fun _ ↦ .refl _, fun _ ↦ Iff.rfl, fun t hhalted ↦ ?_, rfl⟩
      change Function.update sys.code sys.kernel.sched.current .user t = .halted at hhalted
      by_cases ht : t = sys.kernel.sched.current
      · subst ht
        rw [Function.update_self] at hhalted
        cases hhalted
      · rwa [Function.update_of_ne ht] at hhalted
  | sysExit hat hcode hctx hrax =>
      refine .sysExited ⟨hat.1, rfl, rfl, ?_⟩ hat hcode hctx hrax
      by_cases hidle : sys.kernel.sched.current = 0 <;> simp [recordEnds, hrax, hidle]
  | syscall hat hcode hctx hrax =>
      refine .quiet (.of_tasks rfl rfl ?_)
      simp [recordEnds, hrax]

/-! ## While nobody issues `SYS_EXIT` -/

/-- Ended tasks have exited, the stacks of the tasks alive and those of the ended ones were obtained
by `spawn`, and they are separate. -/
structure Buried (state : System σ × TaskEnds) : Prop where
  wellScheduled : WellScheduled state.1.kernel.sched
  exited : ∀ t, t ≠ 0 → state.1.code t = .halted →
    (state.1.kernel.sched.tasks t).state = .exited
  stack_obtained : ∀ t, t ≠ 0 → (state.1.kernel.sched.tasks t).Alive →
    (state.1.kernel.sched.tasks t).stack ∈ state.2.obtained
  grave_obtained : ∀ grave ∈ state.2.graves, grave ∈ state.2.obtained
  alive_separate : ∀ t u, t ≠ 0 → u ≠ 0 → t ≠ u → (state.1.kernel.sched.tasks t).Alive →
    (state.1.kernel.sched.tasks u).Alive →
    (state.1.kernel.sched.tasks t).stack.Apart (state.1.kernel.sched.tasks u).stack
  grave_separate : ∀ t, t ≠ 0 → (state.1.kernel.sched.tasks t).Alive →
    ∀ grave ∈ state.2.graves, (state.1.kernel.sched.tasks t).stack.Apart grave
  separate : state.2.graves.Pairwise Extent.Apart

namespace Buried

variable {state next : System σ × TaskEnds}

omit [PageSource σ] in
theorem boot (image : Image) (pages : σ) : Buried (endStart image pages) := by
  have hdead : ∀ t, t ≠ 0 → ¬ ((Scheduler.boot image).tasks t).Alive := by
    intro t ht halive
    rw [Scheduler.boot_of_ne image ht] at halive
    exact halive.1 rfl
  refine ⟨WellScheduled.boot image, ?_, ?_, ?_, ?_, ?_, .nil⟩
  · intro t _ hhalted
    cases hhalted
  · exact fun t ht halive ↦ absurd halive (hdead t ht)
  · intro grave hgrave
    cases hgrave
  · exact fun t _ ht _ _ halive ↦ absurd halive (hdead t ht)
  · exact fun t ht halive ↦ absurd halive (hdead t ht)

omit [PageSource σ] in
/-- A quiet step keeps the stacks of the tasks alive. -/
theorem quiet (h : Buried state) (hquiet : Quiet state next)
    (hwell : WellScheduled next.1.kernel.sched) : Buried next := by
  have halive : ∀ t, (next.1.kernel.sched.tasks t).Alive →
      (state.1.kernel.sched.tasks t).Alive := fun t hnext ↦
    ⟨fun hempty ↦ hnext.1 ((hquiet.sameStack t).empty_iff.mpr hempty),
      fun hexited ↦ hnext.2 ((hquiet.exited_iff t).mpr hexited)⟩
  have hstack : ∀ t, (next.1.kernel.sched.tasks t).stack =
      (state.1.kernel.sched.tasks t).stack := by
    intro t
    rw [Task.stack, (hquiet.sameStack t).stackBase_eq, (hquiet.sameStack t).stackSize_eq]
    rfl
  refine ⟨hwell, ?_, ?_, ?_, ?_, ?_, ?_⟩
  · exact fun t ht hhalted ↦ (hquiet.exited_iff t).mpr (h.exited t ht (hquiet.halted t hhalted))
  · intro t ht hnext
    rw [hstack, hquiet.record]
    exact h.stack_obtained t ht (halive t hnext)
  · rw [hquiet.record]
    exact h.grave_obtained
  · intro t u ht hu hne hnext hnext'
    rw [hstack, hstack]
    exact h.alive_separate t u ht hu hne (halive t hnext) (halive u hnext')
  · intro t ht hnext
    rw [hstack, hquiet.record]
    exact h.grave_separate t ht (halive t hnext)
  · rw [hquiet.record]
    exact h.separate

/-- A new task gets a stack that is separate from all others. -/
theorem started (h : Buried state) {i : TaskId} {stackBase : Nat}
    (hstarted : Started image state next i stackBase)
    (hfresh : ∀ stack ∈ state.2.obtained, (obtainedStack stackBase).Apart stack)
    (hwell : WellScheduled next.1.kernel.sched) : Buried next := by
  obtain ⟨entry, api, name, htable⟩ := hstarted.table
  have hnew : (next.1.kernel.sched.tasks i).stack = obtainedStack stackBase := by
    rw [htable, Scheduler.setTask_self]
    rfl
  have hold : ∀ t, t ≠ i → next.1.kernel.sched.tasks t = state.1.kernel.sched.tasks t := by
    intro t ht
    rw [htable, Scheduler.setTask_of_ne ht]
  refine ⟨hwell, ?_, ?_, ?_, ?_, ?_, ?_⟩
  · intro t ht hhalted
    rw [hstarted.code] at hhalted
    by_cases hti : t = i
    · subst hti
      rw [Function.update_self] at hhalted
      cases hhalted
    · rw [Function.update_of_ne hti] at hhalted
      rw [hold t hti]
      exact h.exited t ht hhalted
  · intro t ht halive
    rw [hstarted.record]
    by_cases hti : t = i
    · subst hti
      rw [hnew]
      exact List.mem_cons_self
    · rw [hold t hti] at halive ⊢
      exact List.mem_cons_of_mem _ (h.stack_obtained t ht halive)
  · intro grave hgrave
    rw [hstarted.record] at hgrave ⊢
    exact List.mem_cons_of_mem _ (h.grave_obtained grave hgrave)
  · intro t u ht hu hne halive halive'
    by_cases hti : t = i
    · subst hti
      rw [hold u hne.symm] at halive' ⊢
      rw [hnew]
      exact hfresh _ (h.stack_obtained u hu halive')
    · rw [hold t hti] at halive ⊢
      by_cases hui : u = i
      · subst hui
        rw [hnew]
        exact (hfresh _ (h.stack_obtained t ht halive)).symm
      · rw [hold u hui] at halive' ⊢
        exact h.alive_separate t u ht hu hne halive halive'
  · intro t ht halive grave hgrave
    rw [hstarted.record] at hgrave
    by_cases hti : t = i
    · subst hti
      rw [hnew]
      exact hfresh grave (h.grave_obtained grave hgrave)
    · rw [hold t hti] at halive ⊢
      exact h.grave_separate t ht halive grave hgrave
  · rw [hstarted.record]
    exact h.separate

omit [PageSource σ] in
/-- A task that exits leaves its stack to the graves. -/
theorem exit (h : Buried state) (hexited : Exited state next)
    (hwell : WellScheduled next.1.kernel.sched) : Buried next := by
  have hcurrent : (state.1.kernel.sched.tasks state.1.kernel.sched.current).Alive := by
    rw [Task.Alive, hexited.running]
    decide
  have hself : (next.1.kernel.sched.tasks state.1.kernel.sched.current).state = .exited := by
    rw [hexited.table, Scheduler.taskExit, Scheduler.setTask_self]
    rfl
  have hold : ∀ t, t ≠ state.1.kernel.sched.current →
      next.1.kernel.sched.tasks t = state.1.kernel.sched.tasks t := by
    intro t ht
    rw [hexited.table, Scheduler.taskExit, Scheduler.setTask_of_ne ht]
  have hne : ∀ t, (next.1.kernel.sched.tasks t).Alive → t ≠ state.1.kernel.sched.current := by
    intro t halive heq
    subst heq
    exact halive.2 hself
  refine ⟨hwell, ?_, ?_, ?_, ?_, ?_, ?_⟩
  · intro t ht hhalted
    by_cases hti : t = state.1.kernel.sched.current
    · subst hti
      exact hself
    · rw [hexited.code, Function.update_of_ne hti] at hhalted
      rw [hold t hti]
      exact h.exited t ht hhalted
  · intro t ht halive
    have hti := hne t halive
    rw [hold t hti] at halive ⊢
    rw [hexited.record]
    exact h.stack_obtained t ht halive
  · intro grave hgrave
    rw [hexited.record] at hgrave ⊢
    rcases List.mem_cons.mp hgrave with rfl | hgrave
    · exact h.stack_obtained _ hexited.idle hcurrent
    · exact h.grave_obtained grave hgrave
  · intro t u ht hu htu halive halive'
    have hti := hne t halive
    have hui := hne u halive'
    rw [hold t hti] at halive ⊢
    rw [hold u hui] at halive' ⊢
    exact h.alive_separate t u ht hu htu halive halive'
  · intro t ht halive grave hgrave
    have hti := hne t halive
    rw [hold t hti] at halive ⊢
    rw [hexited.record] at hgrave
    rcases List.mem_cons.mp hgrave with rfl | hgrave
    · exact h.alive_separate t _ ht hexited.idle hti halive hcurrent
    · exact h.grave_separate t ht halive grave hgrave
  · rw [hexited.record]
    exact .cons (h.grave_separate _ hexited.idle hcurrent) h.separate

omit [PageSource σ] in
/-- Task 0 may issue `SYS_EXIT`; it counts for nothing here. -/
theorem sysExit (h : Buried state) (hexited : SysExited calls state next)
    (hidle : state.1.kernel.sched.current = 0) : Buried next := by
  obtain ⟨after, ends⟩ := next
  obtain ⟨kernel, sel, code⟩ := after
  obtain ⟨-, rfl, rfl, hrecord⟩ := hexited
  rw [if_pos hidle] at hrecord
  subst hrecord
  refine ⟨h.wellScheduled, ?_, h.stack_obtained, h.grave_obtained, h.alive_separate,
    h.grave_separate, h.separate⟩
  intro t ht hhalted
  have hcode : state.1.code t = .halted := by
    rwa [← Function.update_of_ne (hidle ▸ ht) TaskCode.halted state.1.code]
  exact h.exited t ht hcode

end Buried

/-- While no task other than task 0 issues `SYS_EXIT` and the stacks are fresh, every step keeps the
invariant. -/
theorem buried_step {state next : System σ × TaskEnds} {action : SystemAction σ}
    (h : Buried state) (hexit : NoSysExit state action) (hfresh : FreshStack state action)
    (hstep : endStep image calls state action = some next) : Buried next := by
  have hwell := wellScheduled_step h.wellScheduled (observe_eq_some.mp hstep).1
  cases endStep_cases h.wellScheduled hstep with
  | started hstarted => exact h.started hstarted (hfresh _ hstarted.pages) hwell
  | exited hexited => exact h.exit hexited hwell
  | sysExited hexited hcall hcode hctx hrax => exact h.sysExit hexited (hexit hcall hcode hctx hrax)
  | quiet hquiet => exact h.quiet hquiet hwell

omit [PageSource σ] in
/-- The invariant gives what both ways to end must ensure. -/
theorem Buried.endsAgree {state : System σ × TaskEnds} (h : Buried state) : EndsAgree state where
  exited := h.exited
  not_dispatched := by
    intro t ht hhalted ctx hdispatches
    obtain ⟨hsuppressed, hcurrent⟩ := hdispatches
    obtain ⟨hready, heq⟩ := h.wellScheduled.timerTick_eq ctx hsuppressed
    rw [heq, Scheduler.dispatch_current] at hcurrent
    rw [hcurrent, Scheduler.afterSave_state, h.exited t ht hhalted] at hready
    simp at hready
  available := fun t ht hhalted ↦ Scheduler.findSlot_le ht (Or.inr (h.exited t ht hhalted))
  separate := h.separate

/-- Along every run in which no task other than task 0 issues `SYS_EXIT` and every `spawn` is handed
a fresh stack, every ended task has exited, is not dispatched and leaves its slot to `spawn`, and no
two ended tasks execute on the same stack. Conversely such a run has no `SYS_EXIT` of a task other
than task 0. -/
theorem task_ends_agree (image : Image) (calls : SyscallImage) (pages : σ)
    (actions : List (SystemAction σ)) :
    (Throughout (endStep image calls)
        (fun state action ↦ NoSysExit state action ∧ FreshStack state action)
        (endStart image pages) actions →
      Along (endStep image calls) EndsAgree (endStart image pages) actions) ∧
    (Along (endStep image calls) EndsAgree (endStart image pages) actions →
      Throughout (endStep image calls) NoSysExit (endStart image pages) actions) := by
  constructor
  · intro hthroughout
    have hburied : Along (endStep image calls) Buried (endStart image pages) actions :=
      hthroughout.along (fun _ _ _ hburied hcond ↦ buried_step hburied hcond.1 hcond.2)
        (Buried.boot image pages)
    exact hburied.mono fun _ ↦ Buried.endsAgree
  · refine Along.throughout ?_ ?_
    · intro state action next _ hagree hstep
      cases action with
      | syscall ctx =>
          intro hcall hcode hctx hrax
          by_contra hidle
          -- the system call leaves the slot running, although its task has ended
          obtain ⟨after, ends⟩ := next
          cases step_cases (observe_eq_some.mp hstep).1 with
          | sysExit =>
              have hexited := hagree.exited state.1.kernel.sched.current hidle
                (Function.update_self ..)
              cases hcall.1.symm.trans hexited
          | syscall _ _ _ hother => exact hother hrax
      | call | tick | memory | enterRing3 => trivial
    · intro state action hstuck
      cases action with
      | syscall ctx =>
          intro hcall hcode hctx _
          simp [endStep, observe, step, hcall, hcode, hctx] at hstuck
      | call | tick | memory | enterRing3 => trivial

/-- A tick that interrupts kernel code. -/
def kernelTick {σ : Type*} : SystemAction σ := .tick (contextOf kernelSelectors)

/-- Two spawned tasks enter ring 3 and issue `SYS_EXIT`. -/
def twoSysExits {σ : Type*} : List (SystemAction σ) :=
  [.call (.spawn 0x5000 0 []), .call (.spawn 0x6000 0 []), .call .start, kernelTick,
    .enterRing3 0x400000 0x500000, .syscall (contextOf userSelectors), kernelTick,
    .enterRing3 0x600000 0x700000, .syscall (contextOf userSelectors), kernelTick, kernelTick]

/-- After `SYS_EXIT` of two tasks both slots are in use, the first task is dispatched again, and
both execute on `RETURN_STACK`. -/
theorem task_ends_differ :
    ¬ Along (endStep ⟨0x1000, 0x2000⟩ ⟨0x3000, 0x4000⟩) EndsAgree
      (endStart ⟨0x1000, 0x2000⟩ (BuddyAllocator.init 0x100000 0x10000)) twoSysExits := by
  intro halong
  have hfields : (run (endStep ⟨0x1000, 0x2000⟩ ⟨0x3000, 0x4000⟩)
      (endStart ⟨0x1000, 0x2000⟩ (BuddyAllocator.init 0x100000 0x10000)) twoSysExits).map
        (fun state ↦ (state.1.kernel.sched.current, state.1.code 1,
          (state.1.kernel.sched.tasks 1).state, state.2.graves)) =
        some (1, .halted, .running, [⟨0x4000, 0x2000⟩, ⟨0x4000, 0x2000⟩]) := by
    decide +kernel
  obtain ⟨final, hrun, hstate⟩ := Option.map_eq_some_iff.mp hfields
  simp only [Prod.mk.injEq] at hstate
  obtain ⟨-, hhalted, hrunning, -⟩ := hstate
  have hagree : EndsAgree final := halong.final hrun
  cases hrunning.symm.trans (hagree.exited 1 (by decide) hhalted)

end System

end Avaria.Sched
