import Avaria.Arch.InterruptEntry
import Avaria.Kxvm.SerialWrite

/-!
# Software interrupts of user programs

What `int n` does in ring 3, from the gates of `idt.rs` to the `iretq`. The gate of a vector is open
to user programs if `set_gate_dpl` said so last, and `syscall::init` says so of vector 0x80 only;
every other vector ends in a general protection fault.

`int_from_ring3` puts these together with the handler of `kxvm/syscall.rs`: a system call other than
`SYS_EXIT` changes `rax` and no other register of the program. A serial write through a pointer to
memory that is not mapped does not come back; it faults in ring 0.
-/

namespace Avaria.Arch

open Sched Kxvm StackMachine LastWrite

/-- The vector of the general protection fault. -/
def GENERAL_PROTECTION : Nat := 13

/-- The vector of the fault for a gate that is not present. -/
def NOT_PRESENT : Nat := 11

/-- The error code of a fault at a gate. -/
def gateError (n : Vector) : UInt64 := UInt64.ofNat (8 * n + 2)

/-- The type of a gate, the low bits of `type_attr`. -/
def IdtEntry.kind (entry : IdtEntry) : UInt8 := entry.typeAttr &&& 0xF

/-- The event that `int n` raises at a privilege level, and its error code. The processor checks the
type of the gate, then its privilege level, then its present bit. -/
def raised {K : Type*} (tables : Vectors K) (cpl : UInt8) (n : Vector) : Nat × Option UInt64 :=
  let attr := (tables.entries n).typeAttr
  if (tables.entries n).kind ≠ 0xE then (GENERAL_PROTECTION, some (gateError n))
  else if (attr >>> 5) &&& 3 < cpl then (GENERAL_PROTECTION, some (gateError n))
  else if attr &&& 0x80 = 0 then (NOT_PRESENT, some (gateError n))
  else (n, none)

/-- The kernel with the memory as the page tables show it, and the address at which an access of a
handler faulted. -/
structure Paged (K : Type*) where
  kernel : K
  memory : Memory
  fault : Option UInt64

/-- `syscall_dispatch` as the handler that `syscall::init` registers. -/
def syscallHandler (K : Type*) (image : SyscallImage) : CtxHandler (Paged K) :=
  fun ctx kernel ↦
    let outcome := syscallDispatchIn image kernel.memory ctx
    (outcome.ctx, { kernel with fault := outcome.fault })

/-- `int n` in ring 3, up to the `iretq`, or to a fault of the handler in ring 0. What the compiled
dispatcher would leave after such a fault does not matter. A fault of the `int` leaves `rip` at the
instruction, which is two bytes long. -/
def softInt {K : Type*} (tables : Vectors (Paged K))
    (compiled : Paged K → Machine Reg → Machine Reg) (kernel : Paged K) (rsp0 : UInt64)
    (memory : UInt64 → UInt64) (cpu : Cpu) (n : Vector) : Except UInt64 Cpu :=
  let (vector, errorCode) := raised tables 3 n
  let cpu := if errorCode.isSome then cpu else { cpu with rip := cpu.rip + 2 }
  let entered := atCall rsp0 memory cpu vector errorCode
  let kernel := { kernel with fault := none }
  match (interruptDispatch tables (readCtx entered.memory entered.sp) kernel).kernel.fault with
  | some addr => .error addr
  | none => .ok (interrupt (compiled kernel) rsp0 memory cpu vector errorCode)

namespace IdtEntry

theorem kind_setDpl (entry : IdtEntry) (dpl : UInt8) : (entry.setDpl dpl).kind = entry.kind :=
  (setDpl_typeAttr entry.typeAttr dpl).2.1

theorem kind_empty : empty.kind = 0 := rfl

/-- What a present gate says about `type_attr`. -/
theorem of_gate_eq_some {entry : IdtEntry} {gate : Gate} (h : entry.gate = some gate) :
    entry.kind = gate.kind ∧ (entry.typeAttr >>> 5) &&& 3 = gate.dpl ∧
      entry.typeAttr &&& 0x80 ≠ 0 := by
  unfold IdtEntry.gate at h
  split at h
  · cases h
  · rename_i hpresent
    cases h
    exact ⟨rfl, rfl, hpresent⟩

end IdtEntry

section Raised

variable {K : Type*}

/-- Calls do not change the type of a gate. -/
theorem kind_foldl (v : Vector) (tables : Vectors K) (calls : List (VectorCall K)) :
    ((calls.foldl Vectors.serve tables).entries v).kind = (tables.entries v).kind := by
  induction calls generalizing tables with
  | nil => rfl
  | cons call rest ih =>
      rw [List.foldl_cons, ih]
      cases call with
      | registerHandler vector handler => rw [Vectors.serve, Vectors.registerHandler_entries]
      | registerCtxHandler vector handler => rw [Vectors.serve, Vectors.registerCtxHandler_entries]
      | setGateDpl vector dpl =>
          rw [Vectors.serve, Vectors.setGateDpl_entries]
          split
          · exact IdtEntry.kind_setDpl _ _
          · rfl

/-- The vector is open to user programs. -/
def OpenToUser (calls : List (VectorCall K)) (n : Vector) : Prop :=
  n.val ∈ stubVectors ∧ last (VectorCall.dpl n) calls = some 3

/-- A privilege level that is not 3 is below 3. -/
theorem dpl_lt {calls : List (VectorCall K)} {n : Vector}
    (h : last (VectorCall.dpl n) calls ≠ some 3) :
    (last (VectorCall.dpl n) calls).getD 0 < 3 := by
  cases hlast : last (VectorCall.dpl n) calls with
  | none => decide
  | some level =>
      obtain ⟨call, -, hcall⟩ := exists_of_last hlast
      cases call with
      | registerHandler | registerCtxHandler => cases hcall
      | setGateDpl vector dpl =>
          rw [VectorCall.dpl] at hcall
          split at hcall
          · have hle : level.toNat ≤ 3 := by
              rw [← Option.some.inj hcall, UInt8.toNat_and]
              exact Nat.and_le_right
            have hne : level.toNat ≠ 3 := fun heq ↦
              h (hlast.trans (congrArg some (UInt8.toNat_inj.mp heq)))
            exact UInt8.lt_iff_toNat_lt.mpr (Nat.lt_of_le_of_ne hle hne)
          · cases hcall

variable (stubs : Nat → UInt64) {calls : List (VectorCall K)} {n : Vector}

theorem raised_of_open (h : OpenToUser calls n) :
    raised (Vectors.after stubs calls) 3 n = (n.val, none) := by
  have hgate := Vectors.gate_after stubs calls n
  rw [if_pos h.1, h.2] at hgate
  obtain ⟨hkind, hdpl, hpresent⟩ := IdtEntry.of_gate_eq_some hgate
  simp only [raised, hkind, hdpl, hpresent, Option.getD_some]
  rfl

/-- In ring 3, `int n` for a vector that is not open to user programs is a general protection
fault, whether or not it has a gate. -/
theorem raised_of_not_open (h : ¬ OpenToUser calls n) :
    raised (Vectors.after stubs calls) 3 n = (GENERAL_PROTECTION, some (gateError n)) := by
  by_cases hstub : n.val ∈ stubVectors
  · have hgate := Vectors.gate_after stubs calls n
    rw [if_pos hstub] at hgate
    obtain ⟨hkind, hdpl, -⟩ := IdtEntry.of_gate_eq_some hgate
    have hbelow : (last (VectorCall.dpl n) calls).getD 0 < 3 := dpl_lt fun hlast ↦ h ⟨hstub, hlast⟩
    simp only [raised, hkind, hdpl, if_pos hbelow]
    rfl
  · have hkind : ((Vectors.after stubs calls).entries n).kind = 0 := by
      rw [Vectors.after, kind_foldl]
      simp only [Vectors.init, if_neg hstub]
      exact IdtEntry.kind_empty
    rw [raised, hkind]
    rfl

end Raised

/-- The vector of the system calls. -/
def SYSCALL : Vector := ⟨0x80, by decide⟩

/-- What a system call leaves in `rax`. -/
def syscallResult (nr : UInt64) : UInt64 := if nr = SYS_SERIAL_WRITE then 0 else 0xFFFFFFFFFFFFFFFF

/-- The address at which a system call faults: that of the first byte that a serial write cannot
read. -/
def serialFault (memory : Memory) (regs : Reg → UInt64) : Option UInt64 :=
  if regs .rax = SYS_SERIAL_WRITE ∧ regs .rdi ≠ 0 ∧ regs .rsi < 4096 then
    (putsFrom memory (regs .rdi) (regs .rsi).toNat).2
  else none

theorem rax_syscallDispatch {image : SyscallImage} {ctx : IsrContext} (h : ctx.rax ≠ SYS_EXIT) :
    (syscallDispatch image ctx).rax = syscallResult ctx.rax := by
  simp only [syscallDispatch, if_neg h, syscallResult]
  split <;> rfl

theorem cpuOf_syscallDispatch {image : SyscallImage} {cpu : Cpu} {vector errorCode : UInt64}
    (h : cpu.regs .rax ≠ SYS_EXIT) :
    cpuOf (syscallDispatch image (ctxOf cpu vector errorCode)) =
      { cpu with regs := Function.update cpu.regs .rax (syscallResult (cpu.regs .rax)) } := by
  have hexit : (ctxOf cpu vector errorCode).rax ≠ SYS_EXIT := h
  have hregs : ∀ ctx : IsrContext, ∀ value, cpuOf { ctx with rax := value } =
      { cpuOf ctx with regs := Function.update (cpuOf ctx).regs .rax value } := by
    intro ctx value
    ext reg
    · cases reg <;> rfl
    · rfl
    · rfl
    · rfl
    · rfl
    · rfl
  rw [syscallDispatch_of_ne hexit, hregs, cpuOf_ctxOf, rax_syscallDispatch hexit]
  rfl

/-- A system call other than `SYS_EXIT` faults, or does what `syscall_dispatch` does to the
registers. -/
theorem syscallDispatchIn_cases (image : SyscallImage) (memory : Memory) {cpu : Cpu}
    (vector errorCode : UInt64) (h : cpu.regs .rax ≠ SYS_EXIT) :
    (syscallDispatchIn image memory (ctxOf cpu vector errorCode)).fault =
        serialFault memory cpu.regs ∧
      (serialFault memory cpu.regs = none →
        (syscallDispatchIn image memory (ctxOf cpu vector errorCode)).ctx =
          syscallDispatch image (ctxOf cpu vector errorCode)) := by
  have hrax : (ctxOf cpu vector errorCode).rax = cpu.regs .rax := rfl
  have hrdi : (ctxOf cpu vector errorCode).rdi = cpu.regs .rdi := rfl
  have hrsi : (ctxOf cpu vector errorCode).rsi = cpu.regs .rsi := rfl
  simp only [syscallDispatchIn, serialFault, hrax, hrdi, hrsi, if_neg h]
  by_cases hwrite : cpu.regs .rax = SYS_SERIAL_WRITE
  · by_cases hprint : cpu.regs .rdi ≠ 0 ∧ cpu.regs .rsi < 4096
    · rw [if_pos hwrite, if_pos hprint, if_pos ⟨hwrite, hprint⟩]
      rcases putsFrom memory (cpu.regs .rdi) (cpu.regs .rsi).toNat with ⟨output, _ | addr⟩
      · exact ⟨rfl, fun _ ↦ rfl⟩
      · exact ⟨rfl, fun hnone ↦ absurd hnone (Option.some_ne_none addr)⟩
    · rw [if_pos hwrite, if_neg hprint, if_neg fun hcase ↦ hprint hcase.2]
      exact ⟨rfl, fun _ ↦ rfl⟩
  · rw [if_neg hwrite, if_neg fun hcase ↦ hwrite hcase.1]
    exact ⟨rfl, fun _ ↦ rfl⟩

/-- How an interrupt ends whose dispatcher leaves this behind. -/
def resume {K : Type*} (dispatched : Dispatched (Paged K)) : Except UInt64 Cpu :=
  match dispatched.kernel.fault with
  | some addr => .error addr
  | none => .ok (cpuOf dispatched.ctx)

/-- How a system call other than `SYS_EXIT` ends. -/
theorem resume_syscallHandler {K : Type*} (image : SyscallImage) (kernel : Paged K) {cpu : Cpu}
    {vector errorCode : UInt64} (h : cpu.regs .rax ≠ SYS_EXIT) :
    resume ⟨(syscallHandler K image (ctxOf cpu vector errorCode) kernel).1,
        (syscallHandler K image (ctxOf cpu vector errorCode) kernel).2, []⟩ =
      match serialFault kernel.memory cpu.regs with
      | some addr => .error addr
      | none => .ok { cpu with
          regs := Function.update cpu.regs .rax (syscallResult (cpu.regs .rax)) } := by
  obtain ⟨hfault, hctx⟩ := syscallDispatchIn_cases image kernel.memory vector errorCode h
  simp only [resume, syscallHandler, hfault]
  cases hserial : serialFault kernel.memory cpu.regs with
  | some addr => rfl
  | none =>
      dsimp only
      rw [hctx hserial, cpuOf_syscallDispatch h]

/-- An `int n` ends as the dispatcher does with the context of what it raises, if the error code is
that of the stub. -/
theorem softInt_eq {K : Type*} {tables : Vectors (Paged K)}
    {compiled : Paged K → Machine Reg → Machine Reg}
    (hcompiled : ∀ kernel, Implements (compiled kernel)
      fun ctx ↦ (interruptDispatch tables ctx kernel).ctx)
    (kernel : Paged K) (rsp0 : UInt64) (memory : UInt64 → UInt64) (cpu : Cpu) {n : Vector}
    {vector : Nat} {errorCode : Option UInt64} (hraised : raised tables 3 n = (vector, errorCode))
    (hagree : CodesAgree vector errorCode) :
    softInt tables compiled kernel rsp0 memory cpu n =
      resume (interruptDispatch tables
        (ctxOf (if errorCode.isSome then cpu else { cpu with rip := cpu.rip + 2 })
          (UInt64.ofNat vector) (errorCode.getD 0)) { kernel with fault := none }) := by
  simp only [softInt, hraised, resume, interrupt_eq (hcompiled _), readCtx_atCall,
    seenCtx_of_agree hagree]

/-- With the calls of `syscall::init`, whatever other handlers were registered, as long as no other
gate was opened: a system call other than `SYS_EXIT` continues the user program after the `int` with
a result in `rax` and all its other registers, or is a serial write that faults in ring 0 at the
first byte that is not mapped; and every other `int n` is a general protection fault at the
instruction. -/
theorem int_from_ring3 {K : Type*} (stubs : Nat → UInt64) {calls : List (VectorCall (Paged K))}
    {image : SyscallImage} {compiled : Paged K → Machine Reg → Machine Reg}
    (hhandler : last (VectorCall.ctxHandler SYSCALL) calls = some (syscallHandler K image))
    (hdpl : ∀ n, last (VectorCall.dpl n) calls = some 3 ↔ n = SYSCALL)
    (hcompiled : ∀ kernel, Implements (compiled kernel)
      fun ctx ↦ (interruptDispatch (Vectors.after stubs calls) ctx kernel).ctx)
    (kernel : Paged K) (rsp0 : UInt64) (memory : UInt64 → UInt64) (cpu : Cpu) (n : Vector) :
    (n = SYSCALL → cpu.regs .rax ≠ SYS_EXIT →
      softInt (Vectors.after stubs calls) compiled kernel rsp0 memory cpu n =
        match serialFault kernel.memory cpu.regs with
        | some addr => .error addr
        | none => .ok { cpu with
            rip := cpu.rip + 2
            regs := Function.update cpu.regs .rax (syscallResult (cpu.regs .rax)) }) ∧
    (n ≠ SYSCALL →
      softInt (Vectors.after stubs calls) compiled kernel rsp0 memory cpu n =
        resume (interruptDispatch (Vectors.after stubs calls)
          (ctxOf cpu (UInt64.ofNat GENERAL_PROTECTION) (gateError n))
          { kernel with fault := none })) := by
  constructor
  · intro hn hexit
    subst hn
    have hopen : OpenToUser calls SYSCALL := ⟨by decide, (hdpl SYSCALL).mpr rfl⟩
    have hagree : CodesAgree SYSCALL none := by decide
    have hdispatch : ∀ ctx : IsrContext, ctx.vector = UInt64.ofNat SYSCALL → ∀ kernel : Paged K,
        interruptDispatch (Vectors.after stubs calls) ctx kernel =
          ⟨(syscallHandler K image ctx kernel).1, (syscallHandler K image ctx kernel).2, []⟩ := by
      intro ctx hvector kernel
      rw [Vectors.interruptDispatch_after stubs calls SYSCALL hvector, hhandler]
      rfl
    rw [softInt_eq hcompiled kernel rsp0 memory cpu (raised_of_open stubs hopen) hagree,
      hdispatch _ rfl]
    exact resume_syscallHandler image _ hexit
  · intro hn
    have hclosed : ¬ OpenToUser calls n := fun hopen ↦ hn ((hdpl n).mp hopen.2)
    have hagree : CodesAgree GENERAL_PROTECTION (some (gateError n)) := iff_of_true rfl (by decide)
    exact softInt_eq hcompiled kernel rsp0 memory cpu (raised_of_not_open stubs hclosed) hagree

/-- `syscall::init`. -/
def syscallInit (K : Type*) (image : SyscallImage) : List (VectorCall (Paged K)) :=
  [.registerCtxHandler 0x80 (syscallHandler K image), .setGateDpl 0x80 3]

theorem last_dpl_syscallInit {K : Type*} {image : SyscallImage} {n : Vector} :
    last (VectorCall.dpl n) (syscallInit K image) = some 3 ↔ n = SYSCALL := by
  have hlast : last (VectorCall.dpl n) (syscallInit K image) =
      if 0x80 = n.val then some 3 else none := by
    rw [syscallInit, last_cons, last_cons]
    exact Option.or_none
  rw [hlast]
  split
  · rename_i heq
    exact iff_of_true rfl (Fin.ext heq.symm)
  · rename_i hne
    exact iff_of_false (by simp) fun heq ↦ hne (congrArg Fin.val heq).symm

/-- The tables once `syscall::init` has run. -/
def syscallTables : Vectors (Paged Unit) :=
  Vectors.after (fun _ ↦ 0) (syscallInit Unit ⟨0x3000, 0x4000⟩)

/-- A compiled dispatcher for these tables. -/
def syscallCode (kernel : Paged Unit) : Machine Reg → Machine Reg :=
  rewriteCtx fun ctx ↦ (interruptDispatch syscallTables ctx kernel).ctx

/-- A kernel where one page is mapped for the user program. -/
def userKernel : Paged Unit :=
  ⟨(), fun addr ↦ if pageOf addr = 0x400 then some 0x41 else none, none⟩

/-- A user program before an `int` with a serial write of four bytes. -/
def userCpu (ptr : UInt64) : Cpu :=
  cpuOf { (default : IsrContext) with rax := 1, rdi := ptr, rsi := 4, rip := 0x400000, cs := 0x23 }

/-- A serial write goes on after the `int`, and faults at the end of the page; `int 32` does not
reach the timer. -/
theorem int_from_ring3_serial :
    (softInt syscallTables syscallCode userKernel 0x9000 (fun _ ↦ 0) (userCpu 0x400100)
      SYSCALL).map Cpu.rip = .ok 0x400002 ∧
    (softInt syscallTables syscallCode userKernel 0x9000 (fun _ ↦ 0) (userCpu 0x400FFE)
      SYSCALL).map Cpu.rip = .error 0x401000 ∧
    (softInt syscallTables syscallCode userKernel 0x9000 (fun _ ↦ 0) (userCpu 0x400100)
      ⟨32, by decide⟩).map Cpu.rip = .ok 0x400000 := by
  have hhandler : last (VectorCall.ctxHandler SYSCALL) (syscallInit Unit ⟨0x3000, 0x4000⟩) =
      some (syscallHandler Unit ⟨0x3000, 0x4000⟩) := rfl
  have hcompiled : ∀ kernel, Implements (syscallCode kernel)
      fun ctx ↦ (interruptDispatch syscallTables ctx kernel).ctx := fun _ ↦ implements_rewriteCtx _
  have hint (cpu : Cpu) := int_from_ring3 _ hhandler (fun _ ↦ last_dpl_syscallInit) hcompiled
    userKernel 0x9000 (fun _ ↦ 0) cpu
  refine ⟨?_, ?_, ?_⟩
  · have hwrite := (hint (userCpu 0x400100) SYSCALL).1 rfl (by decide)
    exact (congrArg (Except.map Cpu.rip) hwrite).trans (by decide +kernel)
  · have hwrite := (hint (userCpu 0x400FFE) SYSCALL).1 rfl (by decide)
    exact (congrArg (Except.map Cpu.rip) hwrite).trans (by decide +kernel)
  · exact congrArg (Except.map Cpu.rip) ((hint (userCpu 0x400100) ⟨32, by decide⟩).2 (by decide))

end Avaria.Arch
