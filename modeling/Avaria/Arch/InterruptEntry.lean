import Avaria.Arch.Idt
import Avaria.Lib.StackMachine

/-!
# Interrupt entry and exit

The stubs and `isr_common` of `idt.rs` as code of a stack machine, between the frame that the
processor pushes and the `iretq` that takes it off again. The compiled `interrupt_dispatch` is any
code that keeps the stack pointer and changes the interrupt context as the dispatcher does
(`Implements`); it may use all registers and all other memory.

The stubs differ in whether they push an error code of their own. `interrupt_exact_iff` says that
the handler sees the interrupted registers, and the processor goes on with those the handler leaves,
exactly for those events for which the processor pushes an error code if and only if the stub does
not.
-/

namespace Avaria.Arch

open Sched StackMachine

/-- The general registers but the stack pointer. -/
inductive Reg where
  | rax
  | rbx
  | rcx
  | rdx
  | rsi
  | rdi
  | rbp
  | r8
  | r9
  | r10
  | r11
  | r12
  | r13
  | r14
  | r15
  deriving DecidableEq

/-- The registers that an interrupt saves. -/
@[ext]
structure Cpu where
  regs : Reg → UInt64
  rip : UInt64
  cs : UInt64
  rflags : UInt64
  rsp : UInt64
  ss : UInt64

/-! ## The code -/

/-- `isr_common`, without its `iretq`. -/
def isrCommon : List (Instr Reg) :=
  [.push .rax, .push .rbx, .push .rcx, .push .rdx, .push .rsi, .push .rdi, .push .rbp, .push .r8,
    .push .r9, .push .r10, .push .r11, .push .r12, .push .r13, .push .r14, .push .r15,
    .movSp .rdi, .call,
    .pop .r15, .pop .r14, .pop .r13, .pop .r12, .pop .r11, .pop .r10, .pop .r9, .pop .r8,
    .pop .rbp, .pop .rdi, .pop .rsi, .pop .rdx, .pop .rcx, .pop .rbx, .pop .rax,
    .addSp 16]

/-- `isr_no_err!`. -/
def isrNoErr (num : UInt64) : List (Instr Reg) := [.pushImm 0, .pushImm num] ++ isrCommon

/-- `isr_err!`. -/
def isrErr (num : UInt64) : List (Instr Reg) := [.pushImm num] ++ isrCommon

/-- The vectors whose stub is an `isr_err!`. -/
def errVectors : List Nat := [8, 10, 11, 12, 13, 14, 17, 21, 30]

/-- The stub of a vector. The vectors without one in `idt.rs` are given an `isr_no_err!`. -/
def stub (vector : Nat) : List (Instr Reg) :=
  if vector ∈ errVectors then isrErr (UInt64.ofNat vector) else isrNoErr (UInt64.ofNat vector)

/-! ## The processor -/

/-- The delivery of an interrupt through a gate to ring 0 without a stack of its own: the processor
changes to the stack of the TSS if it was not in ring 0, aligns the stack, and pushes the frame and,
for some events, an error code. -/
def deliver (rsp0 : UInt64) (memory : UInt64 → UInt64) (cpu : Cpu) (errorCode : Option UInt64) :
    Machine Reg :=
  let sp := if cpu.cs &&& 3 = 0 then cpu.rsp else rsp0
  let m : Machine Reg := ⟨cpu.regs, sp &&& ~~~0xF, memory⟩
  let m := ((((m.push cpu.ss).push cpu.rsp).push cpu.rflags).push cpu.cs).push cpu.rip
  match errorCode with
  | none => m
  | some code => m.push code

/-- `iretq`. -/
def iretq (m : Machine Reg) : Cpu where
  regs := m.regs
  rip := m.memory m.sp
  cs := m.memory (m.sp + 8)
  rflags := m.memory (m.sp + 16)
  rsp := m.memory (m.sp + 24)
  ss := m.memory (m.sp + 32)

/-! ## The interrupt context in memory -/

/-- The `IsrContext` at an address. -/
def readCtx (memory : UInt64 → UInt64) (addr : UInt64) : IsrContext where
  r15 := memory addr
  r14 := memory (addr + 8)
  r13 := memory (addr + 16)
  r12 := memory (addr + 24)
  r11 := memory (addr + 32)
  r10 := memory (addr + 40)
  r9 := memory (addr + 48)
  r8 := memory (addr + 56)
  rbp := memory (addr + 64)
  rdi := memory (addr + 72)
  rsi := memory (addr + 80)
  rdx := memory (addr + 88)
  rcx := memory (addr + 96)
  rbx := memory (addr + 104)
  rax := memory (addr + 112)
  vector := memory (addr + 120)
  errorCode := memory (addr + 128)
  rip := memory (addr + 136)
  cs := memory (addr + 144)
  rflags := memory (addr + 152)
  rsp := memory (addr + 160)
  ss := memory (addr + 168)

/-- The general registers of a context. -/
def ctxRegs (ctx : IsrContext) : Reg → UInt64
  | .rax => ctx.rax
  | .rbx => ctx.rbx
  | .rcx => ctx.rcx
  | .rdx => ctx.rdx
  | .rsi => ctx.rsi
  | .rdi => ctx.rdi
  | .rbp => ctx.rbp
  | .r8 => ctx.r8
  | .r9 => ctx.r9
  | .r10 => ctx.r10
  | .r11 => ctx.r11
  | .r12 => ctx.r12
  | .r13 => ctx.r13
  | .r14 => ctx.r14
  | .r15 => ctx.r15

/-- The registers with which the processor goes on from a context. -/
def cpuOf (ctx : IsrContext) : Cpu := ⟨ctxRegs ctx, ctx.rip, ctx.cs, ctx.rflags, ctx.rsp, ctx.ss⟩

/-- The context of an interrupt. -/
def ctxOf (cpu : Cpu) (vector errorCode : UInt64) : IsrContext where
  r15 := cpu.regs .r15
  r14 := cpu.regs .r14
  r13 := cpu.regs .r13
  r12 := cpu.regs .r12
  r11 := cpu.regs .r11
  r10 := cpu.regs .r10
  r9 := cpu.regs .r9
  r8 := cpu.regs .r8
  rbp := cpu.regs .rbp
  rdi := cpu.regs .rdi
  rsi := cpu.regs .rsi
  rdx := cpu.regs .rdx
  rcx := cpu.regs .rcx
  rbx := cpu.regs .rbx
  rax := cpu.regs .rax
  vector := vector
  errorCode := errorCode
  rip := cpu.rip
  cs := cpu.cs
  rflags := cpu.rflags
  rsp := cpu.rsp
  ss := cpu.ss

theorem cpuOf_ctxOf (cpu : Cpu) (vector errorCode : UInt64) :
    cpuOf (ctxOf cpu vector errorCode) = cpu := by
  ext reg
  · cases reg <;> rfl
  · rfl
  · rfl
  · rfl
  · rfl
  · rfl

/-- The compiled dispatcher: called with a context on the stack and its address in `rdi`, it keeps
the stack pointer and does to the context what the dispatcher does. -/
def Implements (callee : Machine Reg → Machine Reg) (dispatch : IsrContext → IsrContext) : Prop :=
  ∀ m, m.regs .rdi = m.sp →
    (callee m).sp = m.sp ∧ readCtx (callee m).memory m.sp = dispatch (readCtx m.memory m.sp)

/-- An interrupt from the event to the `iretq`. -/
def interrupt (callee : Machine Reg → Machine Reg) (rsp0 : UInt64) (memory : UInt64 → UInt64)
    (cpu : Cpu) (vector : Nat) (errorCode : Option UInt64) : Cpu :=
  iretq ((deliver rsp0 memory cpu errorCode).run callee (stub vector))

/-! ## The stack at the call -/

/-- The registers that `isr_common` saves, in the order of its pushes. -/
def saved : List Reg :=
  [.rax, .rbx, .rcx, .rdx, .rsi, .rdi, .rbp, .r8, .r9, .r10, .r11, .r12, .r13, .r14, .r15]

/-- `isr_common` restores what it saves, in the opposite order. -/
theorem isrCommon_eq : isrCommon =
    saved.map .push ++ .movSp .rdi :: .call :: (saved.reverse.map .pop ++ [.addSp 16]) := rfl

/-- The words of a context, by their offsets. -/
def ctxWords (ctx : IsrContext) : List UInt64 :=
  (saved.map (ctxRegs ctx)).reverse ++
    [ctx.vector, ctx.errorCode, ctx.rip, ctx.cs, ctx.rflags, ctx.rsp, ctx.ss]

theorem length_ctxWords (ctx : IsrContext) : (ctxWords ctx).length = 22 := rfl

/-- A context lies in memory as its words. -/
theorem holds_ctxWords_iff {memory : UInt64 → UInt64} {addr : UInt64} {ctx : IsrContext} :
    Holds memory addr (ctxWords ctx) ↔ readCtx memory addr = ctx := by
  constructor
  · intro h
    simp only [ctxWords, saved, ctxRegs, List.map_cons, List.map_nil, List.reverse_cons,
      List.reverse_nil, List.nil_append, List.cons_append, Holds, UInt64.add_assoc,
      UInt64.reduceAdd] at h
    simp only [readCtx, h]
  · intro h
    subst h
    simp only [ctxWords, saved, ctxRegs, readCtx, List.map_cons, List.map_nil, List.reverse_cons,
      List.reverse_nil, List.nil_append, List.cons_append, Holds, UInt64.add_assoc,
      UInt64.reduceAdd, and_self]

/-- The stack onto which an interrupt pushes. -/
def entryStack (rsp0 : UInt64) (memory : UInt64 → UInt64) (cpu : Cpu) : Machine Reg :=
  ⟨cpu.regs, (if cpu.cs &&& 3 = 0 then cpu.rsp else rsp0) &&& ~~~0xF, memory⟩

/-- What an interrupt pushes before the call, in order. -/
def entryWords (cpu : Cpu) (vector : Nat) (errorCode : Option UInt64) : List UInt64 :=
  [cpu.ss, cpu.rsp, cpu.rflags, cpu.cs, cpu.rip] ++ errorCode.toList ++
    ((if vector ∈ errVectors then [] else [0]) ++ [UInt64.ofNat vector]) ++ saved.map cpu.regs

/-- The machine at the call of the dispatcher. -/
def atCall (rsp0 : UInt64) (memory : UInt64 → UInt64) (cpu : Cpu) (vector : Nat)
    (errorCode : Option UInt64) : Machine Reg :=
  let m := (entryStack rsp0 memory cpu).pushAll (entryWords cpu vector errorCode)
  { m with regs := Function.update m.regs .rdi m.sp }

section Entry

variable {callee : Machine Reg → Machine Reg} {rsp0 : UInt64} {memory : UInt64 → UInt64} {cpu : Cpu}
  {vector : Nat} {errorCode : Option UInt64}

theorem deliver_eq : deliver rsp0 memory cpu errorCode = (entryStack rsp0 memory cpu).pushAll
    ([cpu.ss, cpu.rsp, cpu.rflags, cpu.cs, cpu.rip] ++ errorCode.toList) := by
  cases errorCode with
  | none => rfl
  | some code => rfl

theorem stub_eq : stub vector =
    ((if vector ∈ errVectors then [] else [0]) ++ [UInt64.ofNat vector]).map .pushImm ++
      (saved.map .push ++ .movSp .rdi :: .call :: (saved.reverse.map .pop ++ [.addSp 16])) := by
  unfold stub isrErr isrNoErr
  rw [isrCommon_eq]
  split <;> rfl

/-- The stub runs up to the call, and then the dispatcher and the second half of `isr_common`. -/
theorem run_stub : (deliver rsp0 memory cpu errorCode).run callee (stub vector) =
    (callee (atCall rsp0 memory cpu vector errorCode)).run callee
      (saved.reverse.map .pop ++ [.addSp 16]) := by
  have hpushed : (deliver rsp0 memory cpu errorCode).run callee
      (((if vector ∈ errVectors then [] else [0]) ++ [UInt64.ofNat vector]).map .pushImm ++
        saved.map .push) =
      (entryStack rsp0 memory cpu).pushAll (entryWords cpu vector errorCode) := by
    rw [Machine.run_append, Machine.run_pushImms, Machine.run_pushes, Machine.pushAll_regs,
      deliver_eq, Machine.pushAll_regs, ← Machine.pushAll_append, ← Machine.pushAll_append,
      ← List.append_assoc]
    rfl
  rw [stub_eq, ← List.append_assoc, Machine.run_append, hpushed]
  rfl

/-- At the call, the pushed words lie on the stack, above them what was there. -/
theorem top_atCall : (atCall rsp0 memory cpu vector errorCode).Top
    ((entryWords cpu vector errorCode).reverse ++ [memory (entryStack rsp0 memory cpu).sp]) := by
  have hstart : (entryStack rsp0 memory cpu).Top [memory (entryStack rsp0 memory cpu).sp] :=
    ⟨rfl, trivial⟩
  have hlength : (entryWords cpu vector errorCode).length ≤ 23 := by
    simp only [entryWords, saved, List.length_append, List.length_map, List.length_cons,
      List.length_nil, Option.length_toList]
    split <;> split <;> simp
  exact hstart.pushAll _ (by rw [List.length_singleton]; omega)

/-- The context that the dispatcher is given. Without the agreement on the error code it is shifted
by a word, down to the word above the frame. -/
def seenCtx (cpu : Cpu) (vector : Nat) (errorCode : Option UInt64) (above : UInt64) :
    IsrContext :=
  if vector ∈ errVectors then
    match errorCode with
    | some code => ctxOf cpu (UInt64.ofNat vector) code
    | none =>
        ctxOf ⟨cpu.regs, cpu.cs, cpu.rflags, cpu.rsp, cpu.ss, above⟩ (UInt64.ofNat vector) cpu.rip
  else
    match errorCode with
    | some code =>
        ctxOf ⟨cpu.regs, code, cpu.rip, cpu.cs, cpu.rflags, cpu.rsp⟩ (UInt64.ofNat vector) 0
    | none => ctxOf cpu (UInt64.ofNat vector) 0

theorem atCall_rdi : (atCall rsp0 memory cpu vector errorCode).regs .rdi =
    (atCall rsp0 memory cpu vector errorCode).sp := by
  simp only [atCall, Function.update_self]

/-- `rdi` points to the context. -/
theorem readCtx_atCall :
    readCtx (atCall rsp0 memory cpu vector errorCode).memory
      (atCall rsp0 memory cpu vector errorCode).sp =
        seenCtx cpu vector errorCode (memory (entryStack rsp0 memory cpu).sp) := by
  have htop : (atCall rsp0 memory cpu vector errorCode).Top
      ((entryWords cpu vector errorCode).reverse ++ [memory (entryStack rsp0 memory cpu).sp]) :=
    top_atCall
  refine holds_ctxWords_iff.mp ?_
  by_cases herr : vector ∈ errVectors
  · simp only [seenCtx, if_pos herr]
    rw [entryWords, if_pos herr] at htop
    cases errorCode with
    | some code => exact Holds.append htop
    | none => exact htop
  · simp only [seenCtx, if_neg herr]
    rw [entryWords, if_neg herr] at htop
    cases errorCode with
    | some code =>
        have hwords : Holds _ _ (ctxWords (ctxOf
            ⟨cpu.regs, code, cpu.rip, cpu.cs, cpu.rflags, cpu.rsp⟩ (UInt64.ofNat vector) 0) ++
              [cpu.ss, memory (entryStack rsp0 memory cpu).sp]) := htop
        exact Holds.append hwords
    | none => exact Holds.append htop

end Entry

/-- The saved registers are all there are. -/
theorem regs_eq_of_saved {regs regs' : Reg → UInt64} (h : saved.map regs = saved.map regs') :
    regs = regs' := by
  have hmem : ∀ reg, reg ∈ saved := by
    intro reg
    cases reg <;> decide
  funext reg
  exact List.map_inj_left.mp h reg (hmem reg)

/-- From a context on the stack, the second half of `isr_common` and `iretq` load its registers. -/
theorem iretq_restore {callee : Machine Reg → Machine Reg} {m : Machine Reg} {ctx : IsrContext}
    (h : readCtx m.memory m.sp = ctx) :
    iretq (m.run callee (saved.reverse.map .pop ++ [.addSp 16])) = cpuOf ctx := by
  have htop : m.Top ((saved.map (ctxRegs ctx)).reverse ++
      [ctx.vector, ctx.errorCode, ctx.rip, ctx.cs, ctx.rflags, ctx.rsp, ctx.ss]) :=
    holds_ctxWords_iff.mpr h
  have hlength : (saved.map (ctxRegs ctx)).reverse.length = saved.reverse.length := by
    rw [List.length_reverse, List.length_map, List.length_reverse]
  have hregs := Machine.Top.pops (by decide) htop callee hlength
  obtain ⟨hrest, -⟩ := Machine.Top.pops_other htop callee hlength
  rw [List.map_reverse, List.reverse_inj] at hregs
  have hregs := regs_eq_of_saved hregs
  obtain ⟨-, -, hrip, hcs, hrflags, hrsp, hss, -⟩ := hrest
  simp only [UInt64.add_assoc, UInt64.reduceAdd] at hrip hcs hrflags hrsp hss
  rw [Machine.run_append]
  simp only [Machine.run_cons, Machine.run_nil, Machine.exec, iretq, cpuOf, UInt64.add_assoc,
    UInt64.reduceAdd, hregs, hrip, hcs, hrflags, hrsp, hss]

/-! ## Exactness -/

/-- An interrupt gives the dispatcher the context that its stub sees, and the processor goes on with
what the dispatcher leaves. -/
theorem interrupt_eq {callee : Machine Reg → Machine Reg} {dispatch : IsrContext → IsrContext}
    (hcallee : Implements callee dispatch) (rsp0 : UInt64) (memory : UInt64 → UInt64) (cpu : Cpu)
    (vector : Nat) (errorCode : Option UInt64) :
    interrupt callee rsp0 memory cpu vector errorCode =
      cpuOf (dispatch (seenCtx cpu vector errorCode (memory (entryStack rsp0 memory cpu).sp))) := by
  obtain ⟨hsp, hctx⟩ := hcallee (atCall rsp0 memory cpu vector errorCode) atCall_rdi
  rw [readCtx_atCall] at hctx
  rw [interrupt, run_stub]
  refine iretq_restore ?_
  rw [hsp]
  exact hctx

/-- Code that writes the dispatcher's context back in place. -/
def rewriteCtx (dispatch : IsrContext → IsrContext) (m : Machine Reg) : Machine Reg :=
  let above : Machine Reg := ⟨m.regs, m.regs .rdi + 176, m.memory⟩
  let words := ctxWords (dispatch (readCtx m.memory (m.regs .rdi)))
  ⟨m.regs, m.sp, (above.pushAll words.reverse).memory⟩

/-- Pushing the words of a context writes the context. -/
theorem readCtx_pushAll (m : Machine Reg) (ctx : IsrContext) :
    readCtx (m.pushAll (ctxWords ctx).reverse).memory (m.sp - 176) = ctx := by
  have hlength : (ctxWords ctx).reverse.length = 22 := by rw [List.length_reverse, length_ctxWords]
  have hsp : (m.pushAll (ctxWords ctx).reverse).sp = m.sp - 176 := by
    rw [UInt64.eq_sub_iff_add_eq, ← m.pushAll_sp (ctxWords ctx).reverse, hlength]
    rfl
  have htop := m.top_nil.pushAll (ctxWords ctx).reverse (by rw [hlength, List.length_nil]; omega)
  rw [List.reverse_reverse, List.append_nil, Machine.Top, hsp] at htop
  exact holds_ctxWords_iff.mp htop

/-- Every dispatcher is implemented by some code. -/
theorem implements_rewriteCtx (dispatch : IsrContext → IsrContext) :
    Implements (rewriteCtx dispatch) dispatch := by
  intro m hrdi
  have hread := readCtx_pushAll ⟨m.regs, m.regs .rdi + 176, m.memory⟩
    (dispatch (readCtx m.memory (m.regs .rdi)))
  rw [UInt64.add_sub_cancel, hrdi] at hread
  exact ⟨by simp only [rewriteCtx], by simpa only [rewriteCtx, hrdi] using hread⟩

/-- The stub of the vector pushes an error code if and only if the processor does not. -/
def CodesAgree (vector : Nat) (errorCode : Option UInt64) : Prop :=
  errorCode.isSome = true ↔ vector ∈ errVectors

instance (vector : Nat) (errorCode : Option UInt64) : Decidable (CodesAgree vector errorCode) :=
  inferInstanceAs (Decidable (_ ↔ _))

theorem seenCtx_of_agree {vector : Nat} {errorCode : Option UInt64}
    (h : CodesAgree vector errorCode) (cpu : Cpu) (above : UInt64) :
    seenCtx cpu vector errorCode above =
      ctxOf cpu (UInt64.ofNat vector) (errorCode.getD 0) := by
  unfold CodesAgree at h
  cases errorCode with
  | none =>
      have herr : vector ∉ errVectors := fun hmem ↦ Bool.false_ne_true (h.mpr hmem)
      simp only [seenCtx, if_neg herr, Option.getD_none]
  | some code => simp only [seenCtx, if_pos (h.mp rfl), Option.getD_some]

/-- Without the agreement, some code resumes elsewhere. -/
theorem exists_rip_ne {vector : Nat} {errorCode : Option UInt64}
    (h : ¬ CodesAgree vector errorCode) (above : UInt64) :
    ∃ cpu : Cpu, (cpuOf (seenCtx cpu vector errorCode above)).rip ≠ cpu.rip := by
  unfold CodesAgree at h
  cases errorCode with
  | none =>
      have herr : vector ∈ errVectors := by
        by_contra hnot
        exact h (iff_of_false Bool.false_ne_true hnot)
      refine ⟨⟨fun _ ↦ 0, 0, 8, 0, 0, 0⟩, ?_⟩
      simp only [seenCtx, if_pos herr]
      exact show (8 : UInt64) ≠ 0 by decide
  | some code =>
      have herr : vector ∉ errVectors := fun hmem ↦ h (iff_of_true rfl hmem)
      refine ⟨⟨fun _ ↦ 0, code + 1, 8, 0, 0, 0⟩, ?_⟩
      simp only [seenCtx, if_neg herr]
      exact show code ≠ code + 1 by simp

/-- For a vector, with or without an error code from the processor: whatever code is interrupted,
in whatever ring and with whatever stack, the dispatcher gets its registers and it goes on with
those that the dispatcher leaves, exactly if the stub makes up for a missing error code. -/
theorem interrupt_exact_iff (vector : Nat) (errorCode : Option UInt64) :
    (∀ callee dispatch, Implements callee dispatch → ∀ rsp0 memory cpu,
      interrupt callee rsp0 memory cpu vector errorCode =
        cpuOf (dispatch (ctxOf cpu (UInt64.ofNat vector) (errorCode.getD 0)))) ↔
      CodesAgree vector errorCode := by
  constructor
  · intro hexact
    by_contra hdisagree
    -- a dispatcher that does nothing
    have hidle : Implements (fun m ↦ m) (fun ctx ↦ ctx) := fun _ _ ↦ ⟨rfl, rfl⟩
    obtain ⟨cpu, hne⟩ := exists_rip_ne hdisagree 0
    have heq := hexact _ _ hidle 0 (fun _ ↦ 0) cpu
    rw [interrupt_eq hidle, cpuOf_ctxOf] at heq
    exact hne (congrArg Cpu.rip heq)
  · intro hagree callee dispatch hcallee rsp0 memory cpu
    rw [interrupt_eq hcallee, seenCtx_of_agree hagree]

theorem length_entryWords (cpu : Cpu) (vector : Nat) (errorCode : Option UInt64) :
    (entryWords cpu vector errorCode).length =
      21 + (if errorCode.isSome then 1 else 0) + (if vector ∈ errVectors then 0 else 1) := by
  cases errorCode with
  | none =>
      unfold entryWords
      split <;> rfl
  | some code =>
      unfold entryWords
      split <;> rfl

theorem even_entryWords_iff {cpu : Cpu} {vector : Nat} {errorCode : Option UInt64} :
    (entryWords cpu vector errorCode).length % 2 = 0 ↔ CodesAgree vector errorCode := by
  rw [length_entryWords, CodesAgree]
  by_cases herr : vector ∈ errVectors
  · cases errorCode with
    | none => simp [herr]
    | some code => simp [herr]
  · cases errorCode with
    | none => simp [herr]
    | some code => simp [herr]

/-- The processor aligns the stack to 16 bytes. -/
theorem entryStack_aligned (rsp0 : UInt64) (memory : UInt64 → UInt64) (cpu : Cpu) :
    (entryStack rsp0 memory cpu).sp.toNat % 16 = 0 := by
  have hmask : ∀ sp : UInt64, (sp &&& ~~~0xF) &&& 0xF = 0 := by
    intro sp
    rw [UInt64.and_assoc]
    exact UInt64.and_zero
  have hzero := congrArg UInt64.toNat (hmask (if cpu.cs &&& 3 = 0 then cpu.rsp else rsp0))
  rw [UInt64.toNat_and] at hzero
  exact (Nat.and_two_pow_sub_one_eq_mod _ 4).symm.trans hzero

/-- The stack is aligned to 16 bytes at the call of the dispatcher, as its calling convention
demands, exactly if the stub makes up for a missing error code; and up to the call, nothing is
written but the words between the stack pointer and where it was after the alignment. -/
theorem call_aligned_iff (rsp0 : UInt64) (memory : UInt64 → UInt64) (cpu : Cpu) (vector : Nat)
    (errorCode : Option UInt64) :
    ((atCall rsp0 memory cpu vector errorCode).sp.toNat % 16 = 0 ↔
      CodesAgree vector errorCode) ∧
    ∀ addr, (∀ i < 23, addr + 8 * UInt64.ofNat (i + 1) ≠ (entryStack rsp0 memory cpu).sp) →
      (atCall rsp0 memory cpu vector errorCode).memory addr = memory addr := by
  constructor
  · exact (Machine.pushAll_aligned_iff (entryStack_aligned rsp0 memory cpu) _).trans
      even_entryWords_iff
  · intro addr hmiss
    refine Machine.pushAll_memory _ _ fun i hi ↦ hmiss i ?_
    rw [length_entryWords] at hi
    have hsome : (if errorCode.isSome then 1 else 0) ≤ 1 := by split <;> omega
    have herr : (if vector ∈ errVectors then 0 else 1) ≤ 1 := by split <;> omega
    omega

/-- The handler leaves the interrupt context alone. -/
def KeepsCtx {K : Type*} (handler : CtxHandler K) : Prop :=
  ∀ ctx kernel, (handler ctx kernel).1 = ctx

/-- Whatever was registered, an interrupt on whose error code its stub and the processor agree and
whose vector has no handler for the context, or one that leaves it alone, continues with the
interrupted registers: such handlers cannot be noticed by the interrupted code, and an exception
without a handler is raised again. -/
theorem interrupt_transparent {K : Type*} (stubs : Nat → UInt64) {calls : List (VectorCall K)}
    {v : Vector}
    (hkeeps : ∀ handler, LastWrite.last (VectorCall.ctxHandler v) calls = some handler →
      KeepsCtx handler)
    {errorCode : Option UInt64} (hagree : CodesAgree v errorCode) {kernel : K}
    {callee : Machine Reg → Machine Reg}
    (hcallee : Implements callee
      fun ctx ↦ (interruptDispatch (Vectors.after stubs calls) ctx kernel).ctx)
    (rsp0 : UInt64) (memory : UInt64 → UInt64) (cpu : Cpu) :
    interrupt callee rsp0 memory cpu v errorCode = cpu := by
  have hctx : (interruptDispatch (Vectors.after stubs calls)
      (ctxOf cpu (UInt64.ofNat v) (errorCode.getD 0)) kernel).ctx =
        ctxOf cpu (UInt64.ofNat v) (errorCode.getD 0) := by
    rw [Vectors.interruptDispatch_after stubs calls v rfl]
    cases hlast : LastWrite.last (VectorCall.ctxHandler v) calls with
    | some handler => exact hkeeps handler hlast _ kernel
    | none =>
        cases LastWrite.last (VectorCall.handler v) calls with
        | some handler => rfl
        | none => rfl
  rw [interrupt_eq hcallee, seenCtx_of_agree hagree, hctx]
  exact cpuOf_ctxOf _ _ _

/-- A page fault without a handler, with 4 as its error code. -/
theorem interrupt_transparent_fault :
    interrupt (rewriteCtx fun ctx ↦ (interruptDispatch
      (Vectors.after (fun _ ↦ 0) ([] : List (VectorCall Unit))) ctx ()).ctx) 0x9000 (fun _ ↦ 0)
        (cpuOf default) 14 (some 4) = cpuOf default := by
  refine interrupt_transparent (v := ⟨14, by decide⟩) (fun _ ↦ 0) ?_ (by decide)
    (implements_rewriteCtx _) 0x9000 (fun _ ↦ 0) (cpuOf default)
  intro handler hlast
  cases hlast

end Avaria.Arch
