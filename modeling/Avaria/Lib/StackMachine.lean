import Mathlib.Algebra.Group.Nat.Defs
import Mathlib.Logic.Function.Basic
import Mathlib.Data.List.Nodup

/-!
# A stack in memory

Straight-line code that pushes and pops eight-byte words, over any set of registers. The stack grows
downwards and addresses wrap around. `Top` says which words lie at the stack pointer; `push`, `pop`
and `addSp` act on it as on a list. Code that saves registers is a `pushAll` (`run_pushes`), and
`Top.pops` gives what code that restores them leaves in each of them.
-/

namespace StackMachine

/-- The registers, the stack pointer, and the words of memory by their addresses. -/
structure Machine (Reg : Type*) where
  regs : Reg → UInt64
  sp : UInt64
  memory : UInt64 → UInt64

/-- The words in memory from an address on. -/
def Holds (memory : UInt64 → UInt64) : UInt64 → List UInt64 → Prop
  | _, [] => True
  | addr, word :: rest => memory addr = word ∧ Holds memory (addr + 8) rest

instance decidableHolds (memory : UInt64 → UInt64) :
    ∀ (words : List UInt64) (addr : UInt64), Decidable (Holds memory addr words)
  | [], _ => inferInstanceAs (Decidable True)
  | _ :: rest, addr =>
      have := decidableHolds memory rest (addr + 8)
      inferInstanceAs (Decidable (_ ∧ _))

/-- An address that is none of the next `count` words from another address on. -/
def Misses (addr : UInt64) : UInt64 → Nat → Prop
  | _, 0 => True
  | start, count + 1 => addr ≠ start ∧ Misses addr (start + 8) count

section Words

variable {memory : UInt64 → UInt64} {addr : UInt64}

theorem Holds.append {words rest : List UInt64} (h : Holds memory addr (words ++ rest)) :
    Holds memory addr words := by
  induction words generalizing addr with
  | nil => trivial
  | cons word words ih => exact ⟨h.1, ih h.2⟩

/-- A store to an address that the words miss leaves them in place. -/
theorem Holds.store {words : List UInt64} (h : Holds memory addr words) {target value : UInt64}
    (hmiss : Misses target addr words.length) :
    Holds (Function.update memory target value) addr words := by
  induction words generalizing addr with
  | nil => trivial
  | cons word rest ih =>
      obtain ⟨hhead, htail⟩ := h
      obtain ⟨hne, hrest⟩ := hmiss
      refine ⟨?_, ih htail hrest⟩
      rw [Function.update_of_ne (Ne.symm hne)]
      exact hhead

/-- Words at a multiple of eight above an address miss it when they are fewer than those that fill
the address space. -/
theorem misses_of_lt {start : UInt64} (distance : Nat) {count : Nat}
    (hstart : start = addr + 8 * UInt64.ofNat distance) (hpos : 0 < distance)
    (hroom : distance + count < 2 ^ 61) : Misses addr start count := by
  induction count generalizing start distance with
  | zero => trivial
  | succ count ih =>
      refine ⟨?_, ih (distance + 1) ?_ (Nat.succ_pos _) (by omega)⟩
      · intro heq
        have hnat := congrArg UInt64.toNat (heq.trans hstart)
        rw [UInt64.toNat_add, UInt64.toNat_mul, UInt64.toNat_ofNat'] at hnat
        have haddr := addr.toNat_lt
        simp only [UInt64.reduceToNat] at hnat
        omega
      · rw [hstart, UInt64.add_assoc, UInt64.ofNat_add, UInt64.mul_add]
        rfl

end Words

/-- An instruction; `call` runs the code that a run is given for it. -/
inductive Instr (Reg : Type*) where
  | push (reg : Reg)
  | pushImm (value : UInt64)
  | pop (reg : Reg)
  | movSp (reg : Reg)
  | addSp (bytes : UInt64)
  | call

namespace Machine

variable {Reg : Type*}

/-- Push a word. -/
def push (m : Machine Reg) (value : UInt64) : Machine Reg :=
  { m with sp := m.sp - 8, memory := Function.update m.memory (m.sp - 8) value }

@[simp] theorem push_regs (m : Machine Reg) (value : UInt64) : (m.push value).regs = m.regs := rfl

@[simp] theorem push_sp (m : Machine Reg) (value : UInt64) : (m.push value).sp = m.sp - 8 := rfl

/-- The words at the stack pointer. -/
def Top (m : Machine Reg) (words : List UInt64) : Prop := Holds m.memory m.sp words

instance (m : Machine Reg) (words : List UInt64) : Decidable (m.Top words) :=
  decidableHolds m.memory words m.sp

theorem top_nil (m : Machine Reg) : m.Top [] := trivial

theorem Top.append {m : Machine Reg} {words rest : List UInt64} (h : m.Top (words ++ rest)) :
    m.Top words := Holds.append h

/-- A pushed word lies on top of the words that were there. -/
theorem Top.push {m : Machine Reg} {words : List UInt64} (h : m.Top words)
    (hroom : words.length < 2 ^ 60) (value : UInt64) : (m.push value).Top (value :: words) := by
  have hback : m.sp - 8 + 8 = m.sp := UInt64.sub_add_cancel m.sp 8
  refine ⟨Function.update_self _ _ _, ?_⟩
  show Holds (Function.update m.memory (m.sp - 8) value) (m.sp - 8 + 8) words
  rw [hback]
  exact Holds.store h (misses_of_lt 1 hback.symm Nat.one_pos (by omega))

/-- Push words, the last one on top. -/
def pushAll (m : Machine Reg) (values : List UInt64) : Machine Reg := values.foldl push m

@[simp] theorem pushAll_nil (m : Machine Reg) : m.pushAll [] = m := rfl

@[simp] theorem pushAll_cons (m : Machine Reg) (value : UInt64) (rest : List UInt64) :
    m.pushAll (value :: rest) = (m.push value).pushAll rest := rfl

theorem pushAll_append (m : Machine Reg) (first second : List UInt64) :
    m.pushAll (first ++ second) = (m.pushAll first).pushAll second := List.foldl_append

@[simp] theorem pushAll_regs (m : Machine Reg) (values : List UInt64) :
    (m.pushAll values).regs = m.regs := by
  induction values generalizing m with
  | nil => rfl
  | cons value rest ih => exact ih (m.push value)

/-- Pushes lower the stack pointer by the size of the words. -/
theorem pushAll_sp (m : Machine Reg) (values : List UInt64) :
    (m.pushAll values).sp + 8 * UInt64.ofNat values.length = m.sp := by
  induction values generalizing m with
  | nil => exact UInt64.add_zero m.sp
  | cons value rest ih =>
      show ((m.push value).pushAll rest).sp + 8 * UInt64.ofNat (rest.length + 1) = m.sp
      rw [UInt64.ofNat_add, UInt64.mul_add, ← UInt64.add_assoc, ih]
      exact UInt64.sub_add_cancel m.sp 8

/-- An aligned stack stays aligned to 16 bytes when an even number of words is pushed. -/
theorem pushAll_aligned_iff {m : Machine Reg} (h : m.sp.toNat % 16 = 0) (values : List UInt64) :
    (m.pushAll values).sp.toNat % 16 = 0 ↔ values.length % 2 = 0 := by
  have hsp := congrArg UInt64.toNat (pushAll_sp m values)
  have hbound := (m.pushAll values).sp.toNat_lt
  rw [UInt64.toNat_add, UInt64.toNat_mul, UInt64.toNat_ofNat'] at hsp
  simp only [UInt64.reduceToNat] at hsp
  omega

/-- Pushes write to the words below the stack pointer only. -/
theorem pushAll_memory (m : Machine Reg) (values : List UInt64) {addr : UInt64}
    (h : ∀ i < values.length, addr + 8 * UInt64.ofNat (i + 1) ≠ m.sp) :
    (m.pushAll values).memory addr = m.memory addr := by
  induction values generalizing m with
  | nil => rfl
  | cons value rest ih =>
      have hrest : ((m.push value).pushAll rest).memory addr = (m.push value).memory addr := by
        refine ih (m.push value) fun i hi heq ↦ h (i + 1) (Nat.succ_lt_succ hi) ?_
        rw [UInt64.ofNat_add, UInt64.mul_add, ← UInt64.add_assoc, heq]
        exact UInt64.sub_add_cancel m.sp 8
      have hne : addr ≠ m.sp - 8 := by
        intro heq
        refine h 0 (Nat.succ_pos _) ?_
        rw [heq]
        exact UInt64.sub_add_cancel m.sp 8
      rw [pushAll_cons, hrest]
      exact Function.update_of_ne hne _ _

/-- Pushed words lie on the stack, the last one on top. -/
theorem Top.pushAll {m : Machine Reg} {words : List UInt64} (h : m.Top words)
    (values : List UInt64) (hroom : values.length + words.length < 2 ^ 60) :
    (m.pushAll values).Top (values.reverse ++ words) := by
  induction values generalizing m words with
  | nil => exact h
  | cons value rest ih =>
      rw [List.length_cons] at hroom
      have hpush : (m.push value).Top (value :: words) := h.push (by omega) value
      have hrest := ih hpush (by rw [List.length_cons]; omega)
      rw [List.reverse_cons, List.append_assoc]
      exact hrest

variable [DecidableEq Reg]

/-- The effect of an instruction. -/
def exec (callee : Machine Reg → Machine Reg) (m : Machine Reg) : Instr Reg → Machine Reg
  | .push reg => m.push (m.regs reg)
  | .pushImm value => m.push value
  | .pop reg => { m with regs := Function.update m.regs reg (m.memory m.sp), sp := m.sp + 8 }
  | .movSp reg => { m with regs := Function.update m.regs reg m.sp }
  | .addSp bytes => { m with sp := m.sp + bytes }
  | .call => callee m

/-- The effect of a sequence of instructions. -/
def run (callee : Machine Reg → Machine Reg) (m : Machine Reg) (code : List (Instr Reg)) :
    Machine Reg :=
  code.foldl (exec callee) m

variable {callee : Machine Reg → Machine Reg} {m : Machine Reg}

@[simp] theorem run_nil : m.run callee [] = m := rfl

@[simp] theorem run_cons (instr : Instr Reg) (code : List (Instr Reg)) :
    m.run callee (instr :: code) = (m.exec callee instr).run callee code := rfl

theorem run_append (first second : List (Instr Reg)) :
    m.run callee (first ++ second) = (m.run callee first).run callee second :=
  List.foldl_append

/-- A pop removes the word on top. -/
theorem Top.pop {word : UInt64} {words : List UInt64} (h : m.Top (word :: words))
    (callee : Machine Reg → Machine Reg) (reg : Reg) :
    (m.exec callee (.pop reg)).Top words ∧
      (m.exec callee (.pop reg)).regs = Function.update m.regs reg word := by
  obtain ⟨hword, hrest⟩ := h
  exact ⟨hrest, congrArg (Function.update m.regs reg) hword⟩

/-- Code that pushes registers pushes their values. -/
theorem run_pushes (saved : List Reg) :
    m.run callee (saved.map .push) = m.pushAll (saved.map m.regs) := by
  induction saved generalizing m with
  | nil => rfl
  | cons reg rest ih => exact ih

/-- Code that pushes constants. -/
theorem run_pushImms (values : List UInt64) :
    m.run callee (values.map .pushImm) = m.pushAll values := by
  induction values generalizing m with
  | nil => rfl
  | cons value rest ih => exact ih

/-- Code that pops registers removes as many words and changes no other register. -/
theorem Top.pops_other {restored : List Reg} {values words : List UInt64}
    (h : m.Top (values ++ words)) (callee : Machine Reg → Machine Reg)
    (hlength : values.length = restored.length) :
    (m.run callee (restored.map .pop)).Top words ∧
      ∀ reg, reg ∉ restored → (m.run callee (restored.map .pop)).regs reg = m.regs reg := by
  induction restored generalizing m values with
  | nil =>
      obtain rfl : values = [] := List.eq_nil_of_length_eq_zero hlength
      exact ⟨h, fun _ _ ↦ rfl⟩
  | cons reg rest ih =>
      cases values with
      | nil => cases hlength
      | cons value values =>
          obtain ⟨hpop, hregs⟩ := Top.pop h callee reg
          obtain ⟨htop, hother⟩ := ih hpop (Nat.succ.inj hlength)
          refine ⟨htop, fun other hmem ↦ ?_⟩
          rw [List.mem_cons, not_or] at hmem
          refine (hother other hmem.2).trans ?_
          rw [hregs, Function.update_of_ne hmem.1]

/-- Code that pops registers gives each of them the word at its place. -/
theorem Top.pops {restored : List Reg} (hnodup : restored.Nodup) {values words : List UInt64}
    (h : m.Top (values ++ words)) (callee : Machine Reg → Machine Reg)
    (hlength : values.length = restored.length) :
    restored.map (m.run callee (restored.map .pop)).regs = values := by
  induction restored generalizing m values with
  | nil => exact (List.eq_nil_of_length_eq_zero hlength).symm
  | cons reg rest ih =>
      cases values with
      | nil => cases hlength
      | cons value values =>
          obtain ⟨hfresh, hnodup⟩ := List.nodup_cons.mp hnodup
          obtain ⟨hpop, hregs⟩ := Top.pop h callee reg
          have hlength := Nat.succ.inj hlength
          obtain ⟨-, hother⟩ := Top.pops_other hpop callee hlength
          rw [List.map_cons]
          congr 1
          · refine (hother reg hfresh).trans ?_
            rw [hregs, Function.update_self]
          · exact ih hnodup hpop hlength

end Machine

end StackMachine
