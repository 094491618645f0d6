import Avaria.Lib.Transition
import Mathlib.Data.List.Basic

/-!
# The last write

A part of a state that each call either sets to a new value or leaves alone holds, after any number
of calls, what the last call that set it wrote. `view_foldl` is the rule for parts that always have
a value, `optional_foldl` for parts that may be empty at first, and `view_run` for calls that are
not always enabled.
-/

namespace LastWrite

variable {State Call Value : Type*}

/-- What the last call that writes a value writes. -/
def last (write : Call → Option Value) (calls : List Call) : Option Value :=
  (calls.filterMap write).getLast?

variable {write : Call → Option Value}

@[simp] theorem last_nil : last write [] = none := rfl

theorem last_cons (call : Call) (rest : List Call) :
    last write (call :: rest) = (last write rest).or (write call) := by
  unfold last
  cases hwrite : write call with
  | none => rw [List.filterMap_cons_none hwrite, Option.or_none]
  | some value =>
      rw [List.filterMap_cons_some hwrite, List.getLast?_cons]
      cases (rest.filterMap write).getLast? <;> rfl

/-- Calls that write nothing do not count. -/
theorem last_eq_none {calls : List Call} (h : ∀ call ∈ calls, write call = none) :
    last write calls = none := by
  rw [last, List.filterMap_eq_nil_iff.mpr h]
  rfl

/-- The last write is one of the writes. -/
theorem exists_of_last {calls : List Call} {value : Value} (h : last write calls = some value) :
    ∃ call ∈ calls, write call = some value :=
  List.mem_filterMap.mp (List.mem_of_getLast? h)

/-- When all writes agree, the last one is like the others. -/
theorem last_eq_some {calls : List Call} {value : Value}
    (hagree : ∀ call ∈ calls, ∀ other, write call = some other → other = value)
    (hwritten : ∃ call ∈ calls, write call = some value) : last write calls = some value := by
  cases hlast : last write calls with
  | none =>
      rw [last, List.getLast?_eq_none_iff, List.filterMap_eq_nil_iff] at hlast
      obtain ⟨call, hcall, hwrite⟩ := hwritten
      rw [hlast call hcall] at hwrite
      cases hwrite
  | some other =>
      obtain ⟨call, hcall, hwrite⟩ := exists_of_last hlast
      rw [hagree call hcall other hwrite]

variable {step : State → Call → State}

/-- An optional part that each call sets or leaves alone. -/
theorem optional_foldl (view : State → Option Value)
    (h : ∀ state call, view (step state call) = (write call).or (view state))
    (state : State) (calls : List Call) :
    view (calls.foldl step state) = (last write calls).or (view state) := by
  induction calls generalizing state with
  | nil => rfl
  | cons call rest ih => rw [List.foldl_cons, ih, last_cons, h, Option.or_assoc]

/-- A part that each call sets or leaves alone. -/
theorem view_foldl (view : State → Value)
    (h : ∀ state call, view (step state call) = (write call).getD (view state))
    (state : State) (calls : List Call) :
    view (calls.foldl step state) = (last write calls).getD (view state) := by
  induction calls generalizing state with
  | nil => rfl
  | cons call rest ih => rw [List.foldl_cons, ih, last_cons, h, Option.getD_or]

/-- A part that each enabled call sets or leaves alone, in the states of an invariant. -/
theorem view_run {partialStep : State → Call → Option State} {I : State → Prop}
    (view : State → Value)
    (h : ∀ state call next, I state → partialStep state call = some next →
      I next ∧ view next = (write call).getD (view state))
    {state final : State} {calls : List Call} (hstart : I state)
    (hrun : Transition.run partialStep state calls = some final) :
    I final ∧ view final = (last write calls).getD (view state) := by
  induction calls generalizing state with
  | nil =>
      cases hrun
      exact ⟨hstart, rfl⟩
  | cons call rest ih =>
      obtain ⟨next, hnext, hrest⟩ := Transition.run_cons_eq_some.mp hrun
      obtain ⟨hkept, hview⟩ := h state call next hstart hnext
      obtain ⟨hfinal, heq⟩ := ih hkept hrest
      refine ⟨hfinal, ?_⟩
      rw [heq, last_cons, hview, Option.getD_or]

end LastWrite
