import Avaria.Sched.Task

/-!
# Privilege levels and system calls

The segment selectors of `gdt.rs`, the frame with which `enter_ring3` of `drv/ring3` leaves the
kernel, and `syscall_dispatch` of `kxvm/syscall.rs`, the handler of `int 0x80`. The handler changes
the interrupt context only; in particular `SYS_EXIT` redirects the interrupted code to a halt loop
on a static stack and does not touch the task table.
-/

namespace Avaria.Kxvm

open Sched

/-- `KERNEL_CS` of `gdt.rs`. -/
def KERNEL_CS : UInt16 := 0x08

/-- `KERNEL_DS` of `gdt.rs`. -/
def KERNEL_DS : UInt16 := 0x10

/-- `USER_DS` of `gdt.rs`. -/
def USER_DS : UInt16 := 0x18 ||| 3

/-- `USER_CS` of `gdt.rs`. -/
def USER_CS : UInt16 := 0x20 ||| 3

/-- The code and stack selectors, which fix the privilege level. -/
structure Selectors where
  cs : UInt64
  ss : UInt64
  deriving DecidableEq, Repr

/-- The selectors of kernel code, which `gdt::init` loads. -/
def kernelSelectors : Selectors := ⟨KERNEL_CS.toUInt64, KERNEL_DS.toUInt64⟩

/-- The selectors of a user program, which `enter_ring3` loads. -/
def userSelectors : Selectors := ⟨USER_CS.toUInt64, USER_DS.toUInt64⟩

/-- The selectors in an interrupt context. -/
def selectorsOf (ctx : IsrContext) : Selectors := ⟨ctx.cs, ctx.ss⟩

/-- A context with given selectors and all registers 0. -/
def contextOf (sel : Selectors) : IsrContext :=
  { (default : IsrContext) with cs := sel.cs, ss := sel.ss }

theorem selectorsOf_contextOf (sel : Selectors) : selectorsOf (contextOf sel) = sel := rfl

/-- Whatever a task was interrupted with, `load_ctx` resumes it with the kernel's selectors. -/
@[simp] theorem selectorsOf_loadCtx (task : Task) (ctx : IsrContext) :
    selectorsOf (loadCtx task ctx) = kernelSelectors := rfl

/-! ## enter_ring3 -/

/-- `struct InterruptFrame` of `idt.rs`. -/
structure InterruptFrame where
  rip : UInt64
  cs : UInt64
  rflags : UInt64
  rsp : UInt64
  ss : UInt64

/-- `USER_STACK_SIZE` of `drv/ring3`. -/
def USER_STACK_SIZE : UInt64 := 0x4000

/-- The frame that `enter_ring3` pushes for its `iretq`, once it has a user stack. -/
def enterRing3 (entry userStackPtr : UInt64) : InterruptFrame where
  rip := entry
  cs := USER_CS.toUInt64
  rflags := 0x202
  rsp := userStackPtr + USER_STACK_SIZE
  ss := USER_DS.toUInt64

/-- The selectors of the code that an `iretq` of the frame continues with. -/
def InterruptFrame.selectors (frame : InterruptFrame) : Selectors := ⟨frame.cs, frame.ss⟩

/-! ## syscall_dispatch -/

/-- The link-time addresses that the handler stores: `hlt_trampoline` and the static
`RETURN_STACK`. -/
structure SyscallImage where
  hltTrampoline : UInt64
  returnStack : UInt64

/-- `SYS_EXIT`. -/
def SYS_EXIT : UInt64 := 0

/-- `SYS_SERIAL_WRITE`. -/
def SYS_SERIAL_WRITE : UInt64 := 1

/-- `syscall_dispatch`. The text that `SYS_SERIAL_WRITE` prints is left out. -/
def syscallDispatch (image : SyscallImage) (ctx : IsrContext) : IsrContext :=
  let nr := ctx.rax
  if nr = SYS_EXIT then
    { ctx with
      cs := 0x08
      ss := 0x10
      rip := image.hltTrampoline
      rflags := 0x202
      rsp := image.returnStack + 0x2000 }
  else if nr = SYS_SERIAL_WRITE then { ctx with rax := 0 }
  else { ctx with rax := 0xFFFFFFFFFFFFFFFF }

/-- A system call other than `SYS_EXIT` returns to the code that made it. -/
theorem syscallDispatch_of_ne {image : SyscallImage} {ctx : IsrContext} (h : ctx.rax ≠ SYS_EXIT) :
    syscallDispatch image ctx = { ctx with rax := (syscallDispatch image ctx).rax } := by
  unfold syscallDispatch
  simp only [h, ↓reduceIte]
  split <;> rfl

end Avaria.Kxvm
