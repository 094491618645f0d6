import Mathlib.Data.Fin.Basic
import Mathlib.Data.Nat.ModEq

/-!
# Cyclic scans

A scan over `Fin n` that starts after a position, wraps around, and stops at the first element that
passes a test; the start itself comes last. `distance c x` is the number of elements that the scan
from `c` visits before `x`.

`scan_first` says that the scan finds the passing element of the least distance, and
`distance_sub` how distances change when the scan is resumed from an element that it visited. Both
together give every argument of the form "whoever is nearer comes first".
-/

namespace CyclicScan

variable {n : Nat}

/-- The number of elements between `c` and `x` in scan order. -/
def distance (c x : Fin n) : Nat :=
  if c.val < x.val then x.val - c.val - 1 else x.val + n - c.val - 1

theorem distance_lt (c x : Fin n) : distance c x < n := by
  unfold distance
  split <;> omega

theorem distance_self (c : Fin n) : distance c c = n - 1 := by
  unfold distance
  split <;> omega

theorem distance_inj {c x y : Fin n} (h : distance c x = distance c y) : x = y := by
  unfold distance at h
  apply Fin.ext
  split_ifs at h <;> omega

/-- Resuming the scan from an element that comes before `y` skips what lies in between. -/
theorem distance_sub {c x y : Fin n} (h : distance c x < distance c y) :
    distance x y = distance c y - distance c x - 1 := by
  unfold distance at *
  split_ifs at * <;> omega

variable [NeZero n]

/-- Look at up to `left` elements after `c` and stop at the first that passes the test. -/
def scan (test : Fin n → Bool) : Nat → Fin n → Fin n
  | 0, c => c
  | left + 1, c => if test (c + 1) then c + 1 else scan test left (c + 1)

theorem val_next (c : Fin n) : (c + 1).val = if c.val + 1 = n then 0 else c.val + 1 := by
  have hpos : 0 < n := Nat.pos_of_ne_zero (NeZero.ne n)
  rw [Fin.val_add, Fin.coe_ofNat_eq_mod, Nat.add_mod_mod]
  split
  · rename_i hlast
    rw [hlast, Nat.mod_self]
  · exact Nat.mod_eq_of_lt (by omega)

theorem distance_next (c : Fin n) : distance c (c + 1) = 0 := by
  unfold distance
  rw [val_next]
  split <;> split <;> omega

/-- The element after `c` is the first that the scan visits. -/
theorem distance_of_ne_next {c x : Fin n} (h : x ≠ c + 1) :
    distance c x = distance (c + 1) x + 1 := by
  have hval : x.val ≠ (c + 1).val := fun heq ↦ h (Fin.ext heq)
  unfold distance
  rw [val_next] at *
  split_ifs at * <;> omega

/-- A scan that reaches a passing element stops at the first one. -/
theorem scan_spec {test : Fin n → Bool} {x : Fin n} (htest : test x = true) (left : Nat)
    (c : Fin n) (hleft : distance c x < left) :
    test (scan test left c) = true ∧
      ∀ y, test y = true → distance c (scan test left c) ≤ distance c y := by
  induction left generalizing c with
  | zero => exact absurd hleft (Nat.not_lt_zero _)
  | succ left ih =>
      unfold scan
      split
      · rename_i hnext
        exact ⟨hnext, fun y _ ↦ by rw [distance_next]; exact Nat.zero_le _⟩
      · rename_i hnext
        have hskip : ∀ y, test y = true → distance c y = distance (c + 1) y + 1 := by
          intro y hy
          refine distance_of_ne_next ?_
          intro heq
          subst heq
          exact hnext hy
        obtain ⟨hfound, hfirst⟩ := ih (c + 1) (by have := hskip x htest; omega)
        refine ⟨hfound, fun y hy ↦ ?_⟩
        rw [hskip _ hfound, hskip y hy]
        exact Nat.succ_le_succ (hfirst y hy)

/-- A full round finds the passing element of the least distance. -/
theorem scan_first {test : Fin n → Bool} {x : Fin n} (htest : test x = true) (c : Fin n) :
    test (scan test n c) = true ∧
      ∀ y, test y = true → distance c (scan test n c) ≤ distance c y :=
  scan_spec htest n c (distance_lt c x)

end CyclicScan
