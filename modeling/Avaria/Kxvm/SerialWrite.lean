import Avaria.Kxvm.Syscall
import Mathlib.Data.Set.Insert

/-!
# What system calls print

The output of `syscall_dispatch` on the serial port, as a function of the memory that the caller's
pointer reaches. `SYS_SERIAL_WRITE` reads through the pointer in kernel mode and checks only that it
is not null and that the length is below 4096; `syscall_confined_iff` says which calls print nothing
but user memory.
-/

namespace Avaria.Kxvm

open Sched

/-- The memory as the page tables show it: the byte at each virtual address, or nothing where an
access faults. -/
abbrev Memory := UInt64 → Option UInt8

/-- The page of a virtual address. -/
def pageOf (addr : UInt64) : UInt64 := addr >>> 12

/-! ## serial -/

/-- The digit loop of `dec`. The source fills a buffer from the last digit on and prints it
backwards. -/
def decLoop (v : UInt64) (printed : List UInt8) : List UInt8 :=
  if v = 0 then printed else decLoop (v / 10) ((0x30 + (v % 10).toUInt8) :: printed)
termination_by v.toNat
decreasing_by
  rename_i hne
  have hpos : v.toNat ≠ 0 := fun hzero ↦ hne (UInt64.toNat_inj.mp hzero)
  rw [UInt64.toNat_div]
  exact Nat.div_lt_self (Nat.pos_of_ne_zero hpos) (by decide)

/-- `serial::dec`. -/
def dec (v : UInt64) : List UInt8 := if v = 0 then [0x30] else decLoop v []

/-- A string literal on the serial port. -/
def text (s : String) : List UInt8 := s.toUTF8.toList

/-- `serial::puts` on the bytes from a pointer on: what is printed, and the address at which a read
faulted. -/
def putsFrom (mem : Memory) : UInt64 → Nat → List UInt8 × Option UInt64
  | _, 0 => ([], none)
  | ptr, len + 1 =>
      match mem ptr with
      | none => ([], some ptr)
      | some byte =>
          let (rest, fault) := putsFrom mem (ptr + 1) len
          (byte :: rest, fault)

/-! ## syscall_dispatch -/

/-- What a system call leaves behind: the bytes on the serial port, the address at which it faulted,
and the registers of the caller. -/
structure SyscallOutcome where
  output : List UInt8
  fault : Option UInt64
  ctx : IsrContext

/-- `syscall_dispatch` with its output. A fault ends the call before it sets a register. -/
def syscallDispatchIn (image : SyscallImage) (mem : Memory) (ctx : IsrContext) : SyscallOutcome :=
  let nr := ctx.rax
  if nr = SYS_EXIT then
    let code := ctx.rdi
    ⟨text "syscall: exit(" ++ dec code ++ text ")\n", none, syscallDispatch image ctx⟩
  else if nr = SYS_SERIAL_WRITE then
    let ptr := ctx.rdi
    let len := ctx.rsi
    if ptr ≠ 0 ∧ len < 4096 then
      match putsFrom mem ptr len.toNat with
      | (output, none) => ⟨output, none, syscallDispatch image ctx⟩
      | (output, some addr) => ⟨output, some addr, ctx⟩
    else ⟨[], none, syscallDispatch image ctx⟩
  else ⟨text "syscall: unknown nr=" ++ dec nr ++ text "\n", none, syscallDispatch image ctx⟩

/-! ## Confinement -/

/-- Two memories agree on all pages of a set. -/
def AgreeOn (pages : Set UInt64) (first second : Memory) : Prop :=
  ∀ addr, pageOf addr ∈ pages → first addr = second addr

/-- A call does the same in all memories that agree on a set of pages. -/
def Confined (image : SyscallImage) (pages : Set UInt64) (ctx : IsrContext) : Prop :=
  ∀ first second, AgreeOn pages first second →
    syscallDispatchIn image first ctx = syscallDispatchIn image second ctx

/-- A call of `SYS_SERIAL_WRITE` that prints names a range inside a set of pages. -/
def RangeInside (pages : Set UInt64) (ctx : IsrContext) : Prop :=
  ctx.rax = SYS_SERIAL_WRITE → ctx.rdi ≠ 0 → ctx.rsi < 4096 →
    ∀ i < ctx.rsi.toNat, pageOf (ctx.rdi + UInt64.ofNat i) ∈ pages

/-- `puts` depends on the bytes of its range only. -/
theorem putsFrom_congr {first second : Memory} {ptr : UInt64} {len : Nat}
    (h : ∀ i < len, first (ptr + UInt64.ofNat i) = second (ptr + UInt64.ofNat i)) :
    putsFrom first ptr len = putsFrom second ptr len := by
  induction len generalizing ptr with
  | zero => rfl
  | succ len ih =>
      have hhead : first ptr = second ptr := by
        simpa using h 0 (Nat.succ_pos len)
      have hrest : putsFrom first (ptr + 1) len = putsFrom second (ptr + 1) len := by
        refine ih fun i hi ↦ ?_
        have hi := h (i + 1) (Nat.succ_lt_succ hi)
        rwa [UInt64.ofNat_add, UInt64.add_comm (UInt64.ofNat i), ← UInt64.add_assoc] at hi
      rw [putsFrom, putsFrom, hhead, hrest]

/-- Where nothing faults, `puts` prints the bytes of its range. -/
theorem putsFrom_some (byte : UInt64 → UInt8) (ptr : UInt64) (len : Nat) :
    putsFrom (fun addr ↦ some (byte addr)) ptr len =
      ((List.range len).map fun i ↦ byte (ptr + UInt64.ofNat i), none) := by
  induction len generalizing ptr with
  | zero => rfl
  | succ len ih =>
      simp only [putsFrom, ih, List.range_succ_eq_map, List.map_cons, List.map_map]
      refine congrArg₂ Prod.mk (congrArg₂ List.cons (by simp) ?_) rfl
      refine List.map_congr_left fun i _ ↦ congrArg byte ?_
      show ptr + 1 + UInt64.ofNat i = ptr + UInt64.ofNat (i + 1)
      rw [UInt64.ofNat_add, UInt64.add_comm (UInt64.ofNat i), ← UInt64.add_assoc]
      rfl

/-- A system call prints nothing that depends on memory outside the user-accessible pages exactly if
a serial write names a range inside them. -/
theorem syscall_confined_iff (image : SyscallImage) (pages : Set UInt64) (ctx : IsrContext) :
    Confined image pages ctx ↔ RangeInside pages ctx := by
  constructor
  · intro hconfined hwrite hptr hlen i hi
    by_contra hout
    -- two memories of zeros that differ in this byte only
    have hagree : AgreeOn pages (fun _ ↦ some 0)
        (fun addr ↦ some (if addr = ctx.rdi + UInt64.ofNat i then 1 else 0)) := by
      intro addr hmem
      have hne : addr ≠ ctx.rdi + UInt64.ofNat i := fun heq ↦ hout (heq ▸ hmem)
      simp only [if_neg hne]
    have hsame := congrArg SyscallOutcome.output (hconfined _ _ hagree)
    have hexit : ctx.rax ≠ SYS_EXIT := by
      rw [hwrite]
      decide
    simp only [syscallDispatchIn, if_neg hexit, if_pos hwrite, if_pos (And.intro hptr hlen),
      putsFrom_some] at hsame
    have hbyte := List.map_inj_left.mp hsame i (List.mem_range.mpr hi)
    rw [if_pos rfl] at hbyte
    exact absurd hbyte (by decide)
  · intro hrange first second hagree
    unfold syscallDispatchIn
    by_cases hwrite : ctx.rax = SYS_SERIAL_WRITE
    · by_cases hprint : ctx.rdi ≠ 0 ∧ ctx.rsi < 4096
      · have hputs : putsFrom first ctx.rdi ctx.rsi.toNat =
            putsFrom second ctx.rdi ctx.rsi.toNat := by
          refine putsFrom_congr fun i hi ↦ ?_
          exact hagree _ (hrange hwrite hprint.1 hprint.2 i hi)
        simp only [hputs]
      · simp only [if_neg hprint]
    · simp only [if_neg hwrite]

/-- A program with one open page has the kernel print a byte of another page. -/
theorem syscall_discloses : ¬ Confined ⟨0, 0⟩ {0x400}
    { (default : IsrContext) with rax := 1, rdi := 0x100000, rsi := 1 } := by
  intro h
  have hagree : AgreeOn {0x400} (fun _ ↦ some 0)
      (fun addr ↦ some (if addr = 0x100000 then 1 else 0)) := by
    intro addr hmem
    have hne : addr ≠ 0x100000 := by
      intro heq
      rw [heq] at hmem
      exact absurd (Set.mem_singleton_iff.mp hmem) (by decide)
    simp only [if_neg hne]
  have hsame := congrArg SyscallOutcome.output (h _ _ hagree)
  exact absurd hsame (by decide +kernel)

end Avaria.Kxvm
