import Avaria.Arch.InterruptEntry
import Avaria.Sched.ContextSwitch

/-!
# Task switches of the processor

The scheduler and the processor together. Between two interrupts the current task computes, which
may change all registers, and calls the scheduler; a timer interrupt pushes a frame, runs the stub
of vector 32 and the compiled dispatcher, and pops what these leave, on any stack and with any
contents of the memory.

`preempted_task_resumes` says that the processor goes on, after a timer interrupt, with the
registers that it had when the dispatched task was preempted last.
-/

namespace Avaria.Arch

open Transition StackMachine Mm Sched

/-- `TIMER_VECTOR` of `sched.rs`. -/
def TIMER_VECTOR : Nat := 32

/-- `timer_tick` as the handler that `sched::init` registers. -/
def timerHandler : CtxHandler Scheduler := fun ctx s ↦ ((s.timerTick ctx).2, (s.timerTick ctx).1)

/-- The eighteen registers of a frame. -/
def Cpu.frame (cpu : Cpu) : Frame := (ctxOf cpu 0 0).frame

/-- The processor and the kernel. -/
structure Node (σ : Type*) where
  cpu : Cpu
  kernel : Kernel σ

/-- The current task computes, the current task or other code calls the kernel, or the timer
interrupts. -/
inductive NodeAction (σ : Type*) where
  | compute (cpu : Cpu)
  | call (action : Action σ)
  | timer (rsp0 : UInt64) (memory : UInt64 → UInt64)

namespace Node

variable {σ : Type*} [PageSource σ] (image : Image) (tables : Vectors Scheduler)
  (compiled : Scheduler → Machine Reg → Machine Reg)

/-- The context of a timer interrupt, which has no error code. -/
def timerCtx (node : Node σ) : IsrContext := ctxOf node.cpu (UInt64.ofNat TIMER_VECTOR) 0

/-- The timer interrupt: the processor runs the compiled dispatcher, and the kernel changes as the
dispatcher says. -/
def timer (node : Node σ) (rsp0 : UInt64) (memory : UInt64 → UInt64) : Node σ where
  cpu := interrupt (compiled node.kernel.sched) rsp0 memory node.cpu TIMER_VECTOR none
  kernel := { node.kernel with
    sched := (interruptDispatch tables node.timerCtx node.kernel.sched).kernel }

/-- One step. Ticks come from the timer only. -/
def step (node : Node σ) : NodeAction σ → Option (Node σ)
  | .compute cpu => some { node with cpu }
  | .call (.tick _) => none
  | .call action => (node.kernel.step image action).map fun kernel ↦ { node with kernel }
  | .timer rsp0 memory => some (node.timer tables compiled rsp0 memory)

/-- The history after a step. -/
def record (image : Image) (node : Node σ) (action : NodeAction σ) (history : History) : History :=
  match action with
  | .compute _ => history
  | .call action => node.kernel.record image action history
  | .timer _ _ => node.kernel.record image (.tick node.timerCtx) history

/-- The processor and the kernel at boot; the processor runs the idle task. -/
def boot (image : Image) (cpu : Cpu) (pages : σ) : Node σ := ⟨cpu, Kernel.boot image pages⟩

/-- The node together with its history. -/
def observedStep : Node σ × History → NodeAction σ → Option (Node σ × History) :=
  observe (step image tables compiled) (record image)

variable {image tables compiled}

/-- The dispatcher hands vector 32 to `timer_tick`. -/
def TimerRegistered (tables : Vectors Scheduler) : Prop :=
  ∀ ctx s, ctx.vector = UInt64.ofNat TIMER_VECTOR →
    interruptDispatch tables ctx s = ⟨(s.timerTick ctx).2, (s.timerTick ctx).1, []⟩

/-- `sched::init` registers `timer_tick`, and it stays if no other handler for the context is
registered for the vector. -/
theorem timerRegistered (stubs : Nat → UInt64) {calls : List (VectorCall Scheduler)}
    (h : LastWrite.last (VectorCall.ctxHandler ⟨TIMER_VECTOR, by decide⟩) calls =
      some timerHandler) : TimerRegistered (Vectors.after stubs calls) := by
  intro ctx s hvector
  rw [Vectors.interruptDispatch_after stubs calls ⟨TIMER_VECTOR, by decide⟩ hvector, h]
  rfl

/-- The compiled dispatcher does to the context what the dispatcher does. -/
def Compiled (tables : Vectors Scheduler) (compiled : Scheduler → Machine Reg → Machine Reg) :
    Prop :=
  ∀ s, Implements (compiled s) fun ctx ↦ (interruptDispatch tables ctx s).ctx

omit [PageSource σ] in
/-- A timer interrupt is a tick whose context is the processor. -/
theorem timer_eq (hregistered : TimerRegistered tables) (hcompiled : Compiled tables compiled)
    (node : Node σ) (rsp0 : UInt64) (memory : UInt64 → UInt64) :
    node.timer tables compiled rsp0 memory =
      ⟨cpuOf (node.kernel.sched.timerTick node.timerCtx).2,
        { node.kernel with sched := (node.kernel.sched.timerTick node.timerCtx).1 }⟩ := by
  have hagree : CodesAgree TIMER_VECTOR none := by decide
  have hdispatch := hregistered node.timerCtx node.kernel.sched rfl
  have hcpu : interrupt (compiled node.kernel.sched) rsp0 memory node.cpu TIMER_VECTOR none =
      cpuOf (interruptDispatch tables node.timerCtx node.kernel.sched).ctx := by
    rw [interrupt_eq (hcompiled node.kernel.sched), seenCtx_of_agree hagree]
    rfl
  rw [timer, hcpu, hdispatch]

/-- A call is a step of the kernel. -/
theorem kernel_of_call {node next : Node σ} {action : Action σ}
    (h : node.step image tables compiled (.call action) = some next) :
    node.kernel.step image action = some next.kernel := by
  cases action with
  | tick ctx => cases h
  | spawn | exit | start | disableLoad | disableStore | enableTest | enableLoad | enableStore
    | memory =>
      simp only [step, Option.map_eq_some_iff] at h
      obtain ⟨kernel, hkernel, heq⟩ := h
      rw [← heq]
      exact hkernel

/-- The kernel of a node moves as the kernel alone does. -/
theorem kernel_reachable (hregistered : TimerRegistered tables)
    (hcompiled : Compiled tables compiled) {cpu : Cpu} {pages : σ} {node : Node σ}
    {history : History}
    (h : Reachable (observedStep image tables compiled) (boot image cpu pages, History.start)
      (node, history)) :
    Reachable (Kernel.observedStep image) (Kernel.boot image pages, History.start)
      (node.kernel, history) := by
  refine h.project (fun state ↦ (state.1.kernel, state.2)) ?_
  intro state action next hstep
  obtain ⟨hnode, hrecord⟩ := observe_eq_some.mp hstep
  cases action with
  | compute cpu =>
      have hnext : { state.1 with cpu } = next.1 := Option.some.inj hnode
      exact Or.inl (Prod.ext (by rw [← hnext]) hrecord)
  | call action =>
      exact Or.inr ⟨action, observe_eq_some.mpr ⟨kernel_of_call hnode, hrecord⟩⟩
  | timer rsp0 memory =>
      have hnext : state.1.timer tables compiled rsp0 memory = next.1 := Option.some.inj hnode
      refine Or.inr ⟨.tick state.1.timerCtx, observe_eq_some.mpr ⟨?_, hrecord⟩⟩
      rw [← hnext, timer_eq hregistered hcompiled]
      rfl

/-- In every run of the processor and the kernel, a timer interrupt that is not suppressed continues
with the registers that the processor had at the last timer interrupt that preempted the task it
dispatches, or with the initial frame of a new task, in ring 0; a suppressed one continues with the
interrupted registers. The stack, the contents of the memory and what the compiled dispatcher does
to registers and memory outside the context do not matter. -/
theorem preempted_task_resumes (hregistered : TimerRegistered tables)
    (hcompiled : Compiled tables compiled) {cpu : Cpu} {pages : σ} {node : Node σ}
    {history : History}
    (h : Reachable (observedStep image tables compiled) (boot image cpu pages, History.start)
      (node, history)) (rsp0 : UInt64) (memory : UInt64 → UInt64) :
    let next := node.timer tables compiled rsp0 memory
    (node.kernel.sched.suppressed = false →
      some next.cpu.frame = (history.preempt node.kernel.sched.current node.cpu.frame).resume
        next.kernel.sched.current ∧ next.cpu.cs = 0x08 ∧ next.cpu.ss = 0x10) ∧
    (node.kernel.sched.suppressed = true → next.cpu = node.cpu) := by
  have hkernel := kernel_reachable hregistered hcompiled h
  have hwell : WellScheduled node.kernel.sched := Kernel.wellScheduled hkernel.of_observe
  have hfaithful : Faithful node.kernel.sched history :=
    hkernel.induct (P := fun state ↦ Faithful state.1.sched state.2) (Faithful.boot image)
      fun _ _ _ hreach hstate hstep ↦
        Kernel.faithful_step (Kernel.wellScheduled hreach.of_observe) hstate hstep
  rw [timer_eq hregistered hcompiled]
  constructor
  · intro hsuppressed
    obtain ⟨hready, heq⟩ := hwell.timerTick_eq node.timerCtx hsuppressed
    rw [heq]
    refine ⟨?_, rfl, rfl⟩
    show some ((node.kernel.sched.afterSave node.timerCtx).dispatch _ node.timerCtx).2.frame = _
    rw [Scheduler.frame_dispatch, Scheduler.dispatch_current]
    exact (hfaithful.afterSave node.timerCtx hready).symm
  · intro hsuppressed
    rw [Scheduler.timerTick_suppressed hsuppressed]
    exact cpuOf_ctxOf node.cpu _ _

/-- The tables once `sched::init` has registered the timer. -/
def timerTables : Vectors Scheduler :=
  Vectors.after (fun _ ↦ 0) [.registerCtxHandler TIMER_VECTOR timerHandler]

/-- A compiled dispatcher for these tables. -/
def timerCode (s : Scheduler) : Machine Reg → Machine Reg :=
  rewriteCtx fun ctx ↦ (interruptDispatch timerTables ctx s).ctx

/-- The node after boot, with no history. -/
def timerStart : Node BuddyAllocator × History :=
  (boot ⟨0x1000, 0x2000⟩ (cpuOf default) (BuddyAllocator.init 0x100000 0x10000), History.start)

/-- A task is spawned and the scheduler started; the idle task computes 7 in `rax`, is preempted,
and the new task exits. -/
def timerActions : List (NodeAction BuddyAllocator) :=
  [.call (.spawn 5 6 []), .call .start,
    .compute (cpuOf { (default : IsrContext) with rax := 7 }), .timer 0 fun _ ↦ 0, .call .exit]

/-- The idle task is preempted with 7 in `rax`, and resumes with 7 in `rax`. -/
theorem preempted_task_resumes_idle :
    ∃ node history,
      run (observedStep ⟨0x1000, 0x2000⟩ timerTables timerCode) timerStart timerActions =
        some (node, history) ∧
      (node.timer timerTables timerCode 0 fun _ ↦ 0).kernel.sched.current = 0 ∧
      (node.timer timerTables timerCode 0 fun _ ↦ 0).cpu.frame.rax = 7 := by
  have hfields : (run (observedStep ⟨0x1000, 0x2000⟩ timerTables timerCode) timerStart
      timerActions).map (fun state ↦
        (state.1.kernel.sched.suppressed, state.1.kernel.sched.current,
          (state.1.timer timerTables timerCode 0 fun _ ↦ 0).kernel.sched.current,
          (state.2.resume 0).map Frame.rax)) = some (false, 1, 0, some 7) := by
    decide +kernel
  obtain ⟨⟨node, history⟩, hrun, hstate⟩ := Option.map_eq_some_iff.mp hfields
  simp only [Prod.mk.injEq, Option.map_eq_some_iff] at hstate
  obtain ⟨hsuppressed, hcurrent, hnext, frame, hframe, hrax⟩ := hstate
  refine ⟨node, history, hrun, hnext, ?_⟩
  have hregistered : TimerRegistered timerTables := timerRegistered _ rfl
  have hcompiled : Compiled timerTables timerCode := fun s ↦ implements_rewriteCtx _
  have hresume := ((preempted_task_resumes hregistered hcompiled ⟨_, hrun⟩ 0 fun _ ↦ 0).1
    hsuppressed).1
  rw [hnext, hcurrent, History.resume_preempt_of_ne (by decide), hframe] at hresume
  rw [Option.some.inj hresume, hrax]

end Node

end Avaria.Arch
