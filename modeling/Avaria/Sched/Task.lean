import Mathlib.Algebra.GroupWithZero.Nat
import Mathlib.Data.Fin.Basic

/-!
# Tasks and interrupt contexts

The records of `sched.rs` and `idt.rs` that a context switch copies between: the task table entry
and the interrupt context on the stack. `Frame` collects the eighteen registers that both have;
`frame_saveCtx` and `frame_loadCtx` say that the copies lose none of them.
-/

namespace Avaria.Sched

/-- `MAX_TASKS` of `sched.rs`. -/
abbrev MAX_TASKS : Nat := 16

instance : NeZero MAX_TASKS := ⟨Nat.succ_ne_zero 15⟩

/-- `TASK_STACK_SIZE` of `sched.rs`. -/
def TASK_STACK_SIZE : UInt64 := 0x4000

/-- `TASK_STACK_ORDER` of `sched.rs`. -/
def TASK_STACK_ORDER : Nat := 2

/-- The index of a task in the table. -/
abbrev TaskId := Fin MAX_TASKS

/-- `enum TaskState`. -/
inductive TaskState where
  | empty
  | ready
  | running
  | exited
  deriving DecidableEq, Repr

/-- `struct Task`. -/
structure Task where
  rip : UInt64
  rsp : UInt64
  rflags : UInt64
  rax : UInt64
  rbx : UInt64
  rcx : UInt64
  rdx : UInt64
  rsi : UInt64
  rdi : UInt64
  rbp : UInt64
  r8 : UInt64
  r9 : UInt64
  r10 : UInt64
  r11 : UInt64
  r12 : UInt64
  r13 : UInt64
  r14 : UInt64
  r15 : UInt64
  state : TaskState
  id : UInt16
  stackBase : UInt64
  stackSize : UInt64
  name : Fin 16 → UInt8

/-- `Task::empty`. -/
def Task.empty : Task where
  rip := 0
  rsp := 0
  rflags := 0
  rax := 0
  rbx := 0
  rcx := 0
  rdx := 0
  rsi := 0
  rdi := 0
  rbp := 0
  r8 := 0
  r9 := 0
  r10 := 0
  r11 := 0
  r12 := 0
  r13 := 0
  r14 := 0
  r15 := 0
  state := .empty
  id := 0
  stackBase := 0
  stackSize := 0
  name := fun _ ↦ 0

/-- `struct IsrContext` of `idt.rs`. -/
structure IsrContext where
  r15 : UInt64
  r14 : UInt64
  r13 : UInt64
  r12 : UInt64
  r11 : UInt64
  r10 : UInt64
  r9 : UInt64
  r8 : UInt64
  rbp : UInt64
  rdi : UInt64
  rsi : UInt64
  rdx : UInt64
  rcx : UInt64
  rbx : UInt64
  rax : UInt64
  vector : UInt64
  errorCode : UInt64
  rip : UInt64
  cs : UInt64
  rflags : UInt64
  rsp : UInt64
  ss : UInt64
  deriving DecidableEq, Repr, Inhabited

/-- `save_ctx`. -/
def saveCtx (task : Task) (ctx : IsrContext) : Task :=
  { task with
    rip := ctx.rip
    rsp := ctx.rsp
    rflags := ctx.rflags
    rax := ctx.rax
    rbx := ctx.rbx
    rcx := ctx.rcx
    rdx := ctx.rdx
    rsi := ctx.rsi
    rdi := ctx.rdi
    rbp := ctx.rbp
    r8 := ctx.r8
    r9 := ctx.r9
    r10 := ctx.r10
    r11 := ctx.r11
    r12 := ctx.r12
    r13 := ctx.r13
    r14 := ctx.r14
    r15 := ctx.r15 }

/-- `load_ctx`. -/
def loadCtx (task : Task) (ctx : IsrContext) : IsrContext :=
  { ctx with
    rip := task.rip
    rsp := task.rsp
    rflags := task.rflags
    rax := task.rax
    rbx := task.rbx
    rcx := task.rcx
    rdx := task.rdx
    rsi := task.rsi
    rdi := task.rdi
    rbp := task.rbp
    r8 := task.r8
    r9 := task.r9
    r10 := task.r10
    r11 := task.r11
    r12 := task.r12
    r13 := task.r13
    r14 := task.r14
    r15 := task.r15
    cs := 0x08
    ss := 0x10 }

/-- The assignment `task.state = state`. -/
def Task.setState (task : Task) (state : TaskState) : Task := { task with state }

@[simp] theorem Task.setState_stackBase (task : Task) (state : TaskState) :
    (task.setState state).stackBase = task.stackBase := rfl

@[simp] theorem Task.setState_stackSize (task : Task) (state : TaskState) :
    (task.setState state).stackSize = task.stackSize := rfl

/-- The entry of an interrupted task: its context is saved, and it is ready if it was running. -/
def Task.preempt (task : Task) (ctx : IsrContext) : Task :=
  let task := saveCtx task ctx
  if task.state = .running then task.setState .ready else task

/-! ## Register frames -/

/-- The instruction pointer, the stack pointer, the flags and the fifteen general registers. -/
structure Frame where
  rip : UInt64
  rsp : UInt64
  rflags : UInt64
  rax : UInt64
  rbx : UInt64
  rcx : UInt64
  rdx : UInt64
  rsi : UInt64
  rdi : UInt64
  rbp : UInt64
  r8 : UInt64
  r9 : UInt64
  r10 : UInt64
  r11 : UInt64
  r12 : UInt64
  r13 : UInt64
  r14 : UInt64
  r15 : UInt64
  deriving DecidableEq, Repr

/-- The registers saved in a task. -/
def Task.frame (task : Task) : Frame where
  rip := task.rip
  rsp := task.rsp
  rflags := task.rflags
  rax := task.rax
  rbx := task.rbx
  rcx := task.rcx
  rdx := task.rdx
  rsi := task.rsi
  rdi := task.rdi
  rbp := task.rbp
  r8 := task.r8
  r9 := task.r9
  r10 := task.r10
  r11 := task.r11
  r12 := task.r12
  r13 := task.r13
  r14 := task.r14
  r15 := task.r15

/-- The registers in an interrupt context. -/
def IsrContext.frame (ctx : IsrContext) : Frame where
  rip := ctx.rip
  rsp := ctx.rsp
  rflags := ctx.rflags
  rax := ctx.rax
  rbx := ctx.rbx
  rcx := ctx.rcx
  rdx := ctx.rdx
  rsi := ctx.rsi
  rdi := ctx.rdi
  rbp := ctx.rbp
  r8 := ctx.r8
  r9 := ctx.r9
  r10 := ctx.r10
  r11 := ctx.r11
  r12 := ctx.r12
  r13 := ctx.r13
  r14 := ctx.r14
  r15 := ctx.r15

@[simp] theorem frame_saveCtx (task : Task) (ctx : IsrContext) :
    (saveCtx task ctx).frame = ctx.frame := rfl

@[simp] theorem frame_loadCtx (task : Task) (ctx : IsrContext) :
    (loadCtx task ctx).frame = task.frame := rfl

@[simp] theorem frame_preempt (task : Task) (ctx : IsrContext) :
    (task.preempt ctx).frame = ctx.frame := by
  unfold Task.preempt
  dsimp only
  split <;> exact frame_saveCtx task ctx

@[simp] theorem state_preempt (task : Task) (ctx : IsrContext) :
    (task.preempt ctx).state = if task.state = .running then .ready else task.state := by
  show (if task.state = .running then _ else _ : Task).state = _
  split <;> rfl

end Avaria.Sched
