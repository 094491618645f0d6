import Mathlib.Algebra.Group.Nat.Defs

/-!
# Checked arithmetic

Arithmetic that ends with a fault where a build with checks panics: a divisor 0, a shift by the
width or more, a result out of range. The 32-bit operations are on `UInt32`; the 64-bit ones are on
natural numbers. Each operation is a `guarded` one, so its result is the one of the unchecked
operation whenever its condition holds.
-/

namespace Checked

/-- What an operation ends with instead of a result. -/
inductive Fault where
  | divisionByZero
  | shiftTooLarge
  | overflow
  deriving DecidableEq, Repr

variable {α : Type*} {condition : Prop} [Decidable condition] {fault : Fault} {value : α}

/-- The value if the condition holds, and the fault otherwise. -/
def guarded (condition : Prop) [Decidable condition] (fault : Fault) (value : α) : Except Fault α :=
  if condition then .ok value else .error fault

theorem guarded_eq_pure (h : condition) : guarded condition fault value = pure value := if_pos h

theorem condition_of_guarded {result : α} (h : guarded condition fault value = .ok result) :
    condition := by
  by_cases hcondition : condition
  · exact hcondition
  · rw [guarded, if_neg hcondition] at h
    cases h

/-! ## 32 bits -/

variable {a b : UInt32}

def shiftLeft (a b : UInt32) : Except Fault UInt32 := guarded (b < 32) .shiftTooLarge (a <<< b)

def sub (a b : UInt32) : Except Fault UInt32 := guarded (b ≤ a) .overflow (a - b)

def mul (a b : UInt32) : Except Fault UInt32 :=
  guarded (a.toNat * b.toNat < 2 ^ 32) .overflow (a * b)

def div (a b : UInt32) : Except Fault UInt32 := guarded (b ≠ 0) .divisionByZero (a / b)

def mod (a b : UInt32) : Except Fault UInt32 := guarded (b ≠ 0) .divisionByZero (a % b)

theorem shiftLeft_eq_pure (h : b < 32) : shiftLeft a b = pure (a <<< b) := guarded_eq_pure h

theorem sub_eq_pure (h : b ≤ a) : sub a b = pure (a - b) := guarded_eq_pure h

theorem mul_eq_pure (h : a.toNat * b.toNat < 2 ^ 32) : mul a b = pure (a * b) := guarded_eq_pure h

theorem div_eq_pure (h : b ≠ 0) : div a b = pure (a / b) := guarded_eq_pure h

theorem mod_eq_pure (h : b ≠ 0) : mod a b = pure (a % b) := guarded_eq_pure h

/-! ## 64 bits -/

variable {m n : Nat}

def add64 (m n : Nat) : Except Fault Nat := guarded (m + n < 2 ^ 64) .overflow (m + n)

def sub64 (m n : Nat) : Except Fault Nat := guarded (n ≤ m) .overflow (m - n)

def mul64 (m n : Nat) : Except Fault Nat := guarded (m * n < 2 ^ 64) .overflow (m * n)

def div64 (m n : Nat) : Except Fault Nat := guarded (n ≠ 0) .divisionByZero (m / n)

theorem add64_eq_pure (h : m + n < 2 ^ 64) : add64 m n = pure (m + n) := guarded_eq_pure h

theorem sub64_eq_pure (h : n ≤ m) : sub64 m n = pure (m - n) := guarded_eq_pure h

theorem mul64_eq_pure (h : m * n < 2 ^ 64) : mul64 m n = pure (m * n) := guarded_eq_pure h

theorem div64_eq_pure (h : n ≠ 0) : div64 m n = pure (m / n) := guarded_eq_pure h

end Checked
