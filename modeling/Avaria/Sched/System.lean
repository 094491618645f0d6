import Avaria.Kxvm.Syscall
import Avaria.Sched.RoundRobin

/-!
# Kernel tasks and user programs

The runs of the scheduler with privilege levels. Kernel code makes the calls of `Kernel`; it can
leave through `enter_ring3`, and from then on the task executes a user program, which reaches the
kernel by `int 0x80` and by timer ticks only. The state keeps the segment selectors of the code that
runs, so an interrupt context carries exactly these, and what a handler leaves in the context is
what the processor continues with.

`Coherent` is the invariant: kernel code runs with the selectors of the kernel, and other selectors
belong to a running task.
-/

namespace Avaria.Sched

open Transition Mm Kxvm

/-- What a task executes: kernel code, the program that `enter_ring3` jumped to, or the halt loop
of `task_exit` or `hlt_trampoline`. -/
inductive TaskCode where
  | kernel
  | user
  | halted
  deriving DecidableEq, Repr

/-- The kernel, the selectors of the code that runs, and what each task executes. -/
structure System (σ : Type*) where
  kernel : Kernel σ
  selectors : Selectors
  code : TaskId → TaskCode

/-- A call of kernel code, a timer tick, a move of the page source by other code, the `iretq` of
`enter_ring3`, or a system call. -/
inductive SystemAction (σ : Type*) where
  | call (action : Action σ)
  | tick (ctx : IsrContext)
  | memory (pages : σ)
  | enterRing3 (entry userStackPtr : UInt64)
  | syscall (ctx : IsrContext)

/-- The action is made by the current task. -/
def Action.isCall {σ : Type*} : Action σ → Bool
  | .tick _ => false
  | .memory _ => false
  | _ => true

namespace System

variable {σ : Type*}

/-- The system after `gdt::init`, `tss::init` and `sched::init`. -/
def boot (image : Image) (pages : σ) : System σ :=
  ⟨Kernel.boot image pages, kernelSelectors, fun _ ↦ .kernel⟩

/-- The code of the current task. -/
def currentCode (sys : System σ) : TaskCode := sys.code sys.kernel.sched.current

/-- The current task changes over to other code. -/
def setCode (sys : System σ) (code : TaskCode) : System σ :=
  { sys with code := Function.update sys.code sys.kernel.sched.current code }

/-- The timer interrupts the code that runs, and the processor continues with the context that
`timer_tick` leaves. -/
def timerTick (sys : System σ) (ctx : IsrContext) : System σ :=
  let result := sys.kernel.sched.timerTick ctx
  { sys with
    kernel := { sys.kernel with sched := result.1 }
    selectors := selectorsOf result.2 }

/-- What the tasks execute after a call: a task that exits halts, and a new task starts in
`task_trampoline`. -/
def callCode [PageSource σ] (sys : System σ) (action : Action σ) : TaskId → TaskCode :=
  match action with
  | .exit => Function.update sys.code sys.kernel.sched.current .halted
  | .spawn _ _ _ =>
      match sys.kernel.sched.findSlot,
          (PageSource.allocPages sys.kernel.pages TASK_STACK_ORDER).1 with
      | some i, some _ => Function.update sys.code i .kernel
      | _, _ => sys.code
  | _ => sys.code

/-- One step. -/
def step [PageSource σ] (image : Image) (calls : SyscallImage) (sys : System σ) :
    SystemAction σ → Option (System σ)
  | .call action =>
      if action.isCall ∧ sys.currentCode = .kernel then
        (Kernel.step image sys.kernel action).map fun kernel ↦
          { sys with kernel, code := sys.callCode action }
      else none
  | .tick ctx => if selectorsOf ctx = sys.selectors then some (sys.timerTick ctx) else none
  | .memory pages => some { sys with kernel := { sys.kernel with pages } }
  | .enterRing3 entry userStackPtr =>
      if sys.kernel.AtCall ∧ sys.currentCode = .kernel then
        some { sys.setCode .user with selectors := (enterRing3 entry userStackPtr).selectors }
      else none
  | .syscall ctx =>
      if sys.kernel.AtCall ∧ sys.currentCode ≠ .halted ∧ selectorsOf ctx = sys.selectors then
        let after := selectorsOf (syscallDispatch calls ctx)
        some { (if ctx.rax = SYS_EXIT then sys.setCode .halted else sys) with selectors := after }
      else none

/-- What each action does, with the condition under which it does it. -/
inductive Step [PageSource σ] (image : Image) (calls : SyscallImage) (sys : System σ) :
    SystemAction σ → System σ → Prop
  | call {action kernel} (hcall : action.isCall) (hcode : sys.currentCode = .kernel)
      (hkernel : Kernel.step image sys.kernel action = some kernel) :
      Step image calls sys (.call action) { sys with kernel, code := sys.callCode action }
  | tick {ctx} (hctx : selectorsOf ctx = sys.selectors) :
      Step image calls sys (.tick ctx) (sys.timerTick ctx)
  | memory {pages} :
      Step image calls sys (.memory pages) { sys with kernel := { sys.kernel with pages } }
  | enterRing3 {entry userStackPtr} (hcall : sys.kernel.AtCall)
      (hcode : sys.currentCode = .kernel) :
      Step image calls sys (.enterRing3 entry userStackPtr)
        { sys.setCode .user with selectors := (enterRing3 entry userStackPtr).selectors }
  | sysExit {ctx} (hcall : sys.kernel.AtCall) (hcode : sys.currentCode ≠ .halted)
      (hctx : selectorsOf ctx = sys.selectors) (hrax : ctx.rax = SYS_EXIT) :
      Step image calls sys (.syscall ctx) { sys.setCode .halted with selectors := kernelSelectors }
  | syscall {ctx} (hcall : sys.kernel.AtCall) (hcode : sys.currentCode ≠ .halted)
      (hctx : selectorsOf ctx = sys.selectors) (hrax : ctx.rax ≠ SYS_EXIT) :
      Step image calls sys (.syscall ctx) sys

/-- Every step is one of these. -/
theorem step_cases [PageSource σ] {image : Image} {calls : SyscallImage} {sys next : System σ}
    {action : SystemAction σ} (h : step image calls sys action = some next) :
    Step image calls sys action next := by
  cases action with
  | call action =>
      simp only [step] at h
      split at h
      · rename_i hcall
        obtain ⟨kernel, hkernel, rfl⟩ := Option.map_eq_some_iff.mp h
        exact .call hcall.1 hcall.2 hkernel
      · cases h
  | tick ctx =>
      simp only [step] at h
      split at h <;> cases h
      exact .tick ‹_›
  | memory pages =>
      cases h
      exact .memory
  | enterRing3 entry userStackPtr =>
      simp only [step] at h
      split at h <;> cases h
      rename_i hcall
      exact .enterRing3 hcall.1 hcall.2
  | syscall ctx =>
      simp only [step] at h
      split at h <;> cases h
      rename_i hcall
      obtain ⟨hcall, hcode, hctx⟩ := hcall
      by_cases hrax : ctx.rax = SYS_EXIT
      · have hafter : selectorsOf (syscallDispatch calls ctx) = kernelSelectors := by
          simp only [syscallDispatch, hrax, ↓reduceIte]
          rfl
        rw [if_pos hrax, hafter]
        exact .sysExit hcall hcode hctx hrax
      · have hafter : selectorsOf (syscallDispatch calls ctx) = sys.selectors := by
          rw [syscallDispatch_of_ne hrax, ← hctx]
          rfl
        rw [if_neg hrax, hafter]
        exact .syscall hcall hcode hctx hrax

/-! ## The invariant -/

/-- The table is well scheduled, code that is not a user program runs with the selectors of the
kernel, and other selectors belong to a running task. -/
structure Coherent (sys : System σ) : Prop where
  wellScheduled : WellScheduled sys.kernel.sched
  selectors_of_code : sys.currentCode ≠ .user → sys.selectors = kernelSelectors
  running_of_selectors : sys.selectors ≠ kernelSelectors →
    (sys.kernel.sched.tasks sys.kernel.sched.current).state = .running

theorem coherent_boot (image : Image) (pages : σ) : Coherent (boot image pages) where
  wellScheduled := WellScheduled.boot image
  selectors_of_code := fun _ ↦ rfl
  running_of_selectors := fun hne ↦ absurd rfl hne

/-- A tick that is not suppressed leaves the selectors of the kernel in the context. -/
theorem selectorsOf_timerTick {s : Scheduler} (hwell : WellScheduled s) (ctx : IsrContext)
    (hsuppressed : s.suppressed = false) :
    selectorsOf (s.timerTick ctx).2 = kernelSelectors := by
  obtain ⟨-, heq⟩ := hwell.timerTick_eq ctx hsuppressed
  rw [heq]
  exact selectorsOf_loadCtx _ _

variable [PageSource σ] {image : Image} {calls : SyscallImage}

/-- Every step is a step of the kernel or leaves the kernel as it is. -/
theorem kernel_of_step {sys next : System σ} {action : SystemAction σ}
    (h : step image calls sys action = some next) :
    next.kernel = sys.kernel ∨ ∃ made, Kernel.step image sys.kernel made = some next.kernel := by
  cases step_cases h with
  | call _ _ hkernel => exact Or.inr ⟨_, hkernel⟩
  | @tick ctx => exact Or.inr ⟨.tick ctx, rfl⟩
  | @memory pages => exact Or.inr ⟨.memory pages, rfl⟩
  | enterRing3 | sysExit | syscall => exact Or.inl rfl

theorem wellScheduled_step {sys next : System σ} {action : SystemAction σ}
    (hwell : WellScheduled sys.kernel.sched) (h : step image calls sys action = some next) :
    WellScheduled next.kernel.sched := by
  rcases kernel_of_step h with heq | ⟨made, hkernel⟩
  · rw [heq]
    exact hwell
  · exact Kernel.wellScheduled_step hwell hkernel

/-- Every step keeps the invariant. -/
theorem coherent_step {sys next : System σ} {action : SystemAction σ} (h : Coherent sys)
    (hstep : step image calls sys action = some next) : Coherent next := by
  have hwell := wellScheduled_step h.wellScheduled hstep
  cases step_cases hstep with
  | call hcall hcode hkernel =>
      have hkernelCode : sys.selectors = kernelSelectors :=
        h.selectors_of_code (by rw [hcode]; decide)
      exact ⟨hwell, fun _ ↦ hkernelCode, fun hne ↦ absurd hkernelCode hne⟩
  | @tick ctx hctx =>
      cases hsuppressed : sys.kernel.sched.suppressed with
      | true =>
          have hsame : sys.timerTick ctx =
              { sys with
                kernel := { sys.kernel with
                  sched := { sys.kernel.sched with
                    tickCount := sys.kernel.sched.tickCount + 1 } } } := by
            rw [timerTick, Scheduler.timerTick_suppressed hsuppressed, hctx]
          rw [hsame] at hwell ⊢
          exact ⟨hwell, h.selectors_of_code, h.running_of_selectors⟩
      | false =>
          have hkernel := selectorsOf_timerTick h.wellScheduled ctx hsuppressed
          exact ⟨hwell, fun _ ↦ hkernel, fun hne ↦ absurd hkernel hne⟩
  | memory => exact ⟨hwell, h.selectors_of_code, h.running_of_selectors⟩
  | enterRing3 hcall hcode =>
      refine ⟨hwell, fun hne ↦ absurd ?_ hne, fun _ ↦ hcall.1⟩
      exact Function.update_self ..
  | sysExit => exact ⟨hwell, fun _ ↦ rfl, fun hne ↦ absurd rfl hne⟩
  | syscall => exact h

/-- The invariant holds in every reachable state. -/
theorem coherent {pages : σ} {sys : System σ}
    (h : Reachable (step image calls) (boot image pages) sys) : Coherent sys :=
  h.invariant (coherent_boot image pages) fun _ _ _ hcoherent hstep ↦
    coherent_step hcoherent hstep

end System

end Avaria.Sched
