import Mathlib.Init

/-!
# Checked accesses

Indexing and slicing of lists that ends with a fault where the index or an end lies outside. Where
the bounds hold, the result is that of the unchecked operation.
-/

namespace Slice

/-- An index or an end of a slice lies outside. -/
inductive Fault where
  | outOfRange
  deriving DecidableEq, Repr

universe u v

variable {α : Type*} {β : Type u}

/-- `xs[i]`. -/
def get (xs : List α) (i : Nat) : Except Fault α :=
  match xs[i]? with
  | some x => .ok x
  | none => .error .outOfRange

/-- `xs[start..stop]`. -/
def slice (xs : List α) (start stop : Nat) : Except Fault (List α) :=
  if start ≤ stop ∧ stop ≤ xs.length then .ok ((xs.drop start).take (stop - start))
  else .error .outOfRange

variable {xs : List α}

theorem get_eq_pure {i : Nat} (h : i < xs.length) : get xs i = pure xs[i] := by
  rw [get, List.getElem?_eq_getElem h]
  rfl

theorem get_eq_getD {i : Nat} (h : i < xs.length) (default : α) :
    get xs i = pure (xs.getD i default) := by
  rw [get_eq_pure h, List.getD_eq_getElem?_getD, List.getElem?_eq_getElem h, Option.getD_some]

theorem slice_eq_pure {start stop : Nat} (h : start ≤ stop) (hstop : stop ≤ xs.length) :
    slice xs start stop = pure ((xs.drop start).take (stop - start)) := if_pos ⟨h, hstop⟩

/-- Without an effect in any of its calls, a map over a list has none. -/
theorem mapM_eq_pure {m : Type u → Type v} [Monad m] [LawfulMonad m] {f : α → m β} {g : α → β}
    (h : ∀ x ∈ xs, f x = pure (g x)) : xs.mapM f = pure (xs.map g) := by
  induction xs with
  | nil => rfl
  | cons x rest ih =>
      rw [List.mapM_cons, h x List.mem_cons_self, pure_bind,
        ih fun y hy ↦ h y (List.mem_cons_of_mem x hy), pure_bind, List.map_cons]

end Slice
