import Mathlib.Logic.Relation
import Mathlib.Data.Option.Basic

/-!
# Runs of a partial step function

A machine is a partial function `step : State → Action → Option State`: an action that is not
enabled yields `none`. `run` executes a list of actions, and `Reachable` collects the end states
of all runs. `Reachable.invariant` is the induction rule that every safety result uses, and
`Reachable.induct` its form for steps that rely on a result about the reachable states.

`Along` and `Throughout` speak about all intermediate states of one run; `along_iff_throughout`
turns a per-step equivalence into one about the whole run. `Occurs` and `Until` look for the first
action with a property (`Until.occurs_or`). `observe` adds history variables to a
machine without changing its behaviour (`run_observe_fst`), and `restrict` keeps only the actions
a side condition allows. `Serially` is what a machine is compared with whose operations take several
steps.
-/

namespace Transition

variable {State Action Ghost : Type*}

section Run

variable (step : State → Action → Option State)

/-- Execute the actions in order; an action that is not enabled stops the run. -/
def run : State → List Action → Option State
  | state, [] => some state
  | state, action :: rest => (step state action).bind fun next ↦ run next rest

/-- The states in which some run from `start` ends. -/
def Reachable (start state : State) : Prop :=
  ∃ actions, run step start actions = some state

/-- `P` holds in every state that the actions pass through, both ends included. -/
def Along (P : State → Prop) : State → List Action → Prop
  | state, [] => P state
  | state, action :: rest =>
      P state ∧ ∀ next, step state action = some next → Along P next rest

/-- `C` holds of every action of the run together with the state it starts from. -/
def Throughout (C : State → Action → Prop) : State → List Action → Prop
  | _, [] => True
  | state, action :: rest =>
      C state action ∧ ∀ next, step state action = some next → Throughout C next rest

/-- `C` holds of some action of the run together with the state it starts from. -/
def Occurs (C : State → Action → Prop) : State → List Action → Prop
  | _, [] => False
  | state, action :: rest =>
      C state action ∨ ∃ next, step state action = some next ∧ Occurs C next rest

/-- `P` holds in every state that the actions pass through, up to the first action of which `C`
holds. -/
def Until (P : State → Prop) (C : State → Action → Prop) : State → List Action → Prop
  | state, [] => P state
  | state, action :: rest =>
      P state ∧ (C state action ∨ ∀ next, step state action = some next → Until P C next rest)

instance decidableAlong (P : State → Prop) [DecidablePred P] :
    ∀ (actions : List Action) (state : State), Decidable (Along step P state actions)
  | [], state => inferInstanceAs (Decidable (P state))
  | action :: rest, state =>
      match h : step state action with
      | none => decidable_of_iff (P state) (by simp [Along, h])
      | some next =>
          have := decidableAlong P rest next
          decidable_of_iff (P state ∧ Along step P next rest) (by simp [Along, h])

instance decidableThroughout (C : State → Action → Prop) [∀ state, DecidablePred (C state)] :
    ∀ (actions : List Action) (state : State), Decidable (Throughout step C state actions)
  | [], _ => inferInstanceAs (Decidable True)
  | action :: rest, state =>
      match h : step state action with
      | none => decidable_of_iff (C state action) (by simp [Throughout, h])
      | some next =>
          have := decidableThroughout C rest next
          decidable_of_iff (C state action ∧ Throughout step C next rest) (by simp [Throughout, h])

end Run

variable {step : State → Action → Option State}

@[simp] theorem run_nil (state : State) : run step state [] = some state := rfl

@[simp] theorem run_cons (state : State) (action : Action) (rest : List Action) :
    run step state (action :: rest) =
      (step state action).bind fun next ↦ run step next rest := rfl

/-- A run of two action lists is a run of the first followed by a run of the second. -/
theorem run_append (state : State) (first second : List Action) :
    run step state (first ++ second) =
      (run step state first).bind fun middle ↦ run step middle second := by
  induction first generalizing state with
  | nil => rfl
  | cons action rest ih =>
      simp only [List.cons_append, run_cons]
      cases step state action with
      | none => rfl
      | some next => exact ih next

/-- A successful run starts with a successful step. -/
theorem run_cons_eq_some {state final : State} {action : Action} {rest : List Action} :
    run step state (action :: rest) = some final ↔
      ∃ next, step state action = some next ∧ run step next rest = some final := by
  simp [Option.bind_eq_some_iff]

namespace Reachable

theorem refl (start : State) : Reachable step start start := ⟨[], rfl⟩

/-- One more step from a reachable state reaches a reachable state. -/
theorem tail {start state next : State} {action : Action} (h : Reachable step start state)
    (hstep : step state action = some next) : Reachable step start next := by
  obtain ⟨actions, hrun⟩ := h
  refine ⟨actions ++ [action], ?_⟩
  simp [run_append, hrun, hstep]

/-- A property of the start state that every step preserves holds in every reachable state. -/
theorem invariant {P : State → Prop} {start state : State} (h : Reachable step start state)
    (hstart : P start)
    (hstep : ∀ state action next, P state → step state action = some next → P next) :
    P state := by
  obtain ⟨actions, hrun⟩ := h
  induction actions generalizing start with
  | nil =>
      cases hrun
      exact hstart
  | cons action rest ih =>
      obtain ⟨next, hnext, hrest⟩ := run_cons_eq_some.mp hrun
      exact ih (hstep start action next hstart hnext) hrest

/-- The same, where a step may use that it starts from a reachable state. -/
theorem induct {P : State → Prop} {start state : State} (h : Reachable step start state)
    (hstart : P start)
    (hstep : ∀ state action next, Reachable step start state → P state →
      step state action = some next → P next) : P state := by
  have hboth : Reachable step start state ∧ P state :=
    h.invariant (P := fun state ↦ Reachable step start state ∧ P state) ⟨refl start, hstart⟩
      fun state action next hinv hnext ↦
        ⟨hinv.1.tail hnext, hstep state action next hinv.1 hinv.2 hnext⟩
  exact hboth.2

end Reachable

/-- When each step keeps `P` exactly if `C` holds of it, and an action that is not enabled meets
`C`, then `P` holds along a run exactly if `C` holds of all its actions. -/
theorem along_iff_throughout {P : State → Prop} {C : State → Action → Prop}
    (hstep : ∀ state action next, P state → step state action = some next →
      (P next ↔ C state action))
    (hstuck : ∀ state action, step state action = none → C state action)
    {start : State} (hstart : P start) (actions : List Action) :
    Along step P start actions ↔ Throughout step C start actions := by
  induction actions generalizing start with
  | nil => simp [Along, Throughout, hstart]
  | cons action rest ih =>
      cases hnext : step start action with
      | none => simp [Along, Throughout, hnext, hstart, hstuck start action hnext]
      | some next =>
          have hiff := hstep start action next hstart hnext
          constructor
          · intro hcase
            obtain ⟨_, hrest⟩ := hcase
            have halong := hrest next hnext
            have hP : P next := by
              cases rest with
              | nil => exact halong
              | cons => exact halong.1
            refine ⟨hiff.mp hP, ?_⟩
            intro other hother
            obtain rfl : next = other := by simpa [hnext] using hother
            exact (ih hP).mp halong
          · intro hcase
            obtain ⟨hC, hrest⟩ := hcase
            refine ⟨hstart, ?_⟩
            intro other hother
            obtain rfl : next = other := by simpa [hnext] using hother
            exact (ih (hiff.mpr hC)).mpr (hrest next hnext)

/-- What holds along a run holds in its last state. -/
theorem Along.final {P : State → Prop} {start final : State} {actions : List Action}
    (h : Along step P start actions) (hrun : run step start actions = some final) : P final := by
  induction actions generalizing start with
  | nil =>
      cases hrun
      exact h
  | cons action rest ih =>
      obtain ⟨next, hnext, hrest⟩ := run_cons_eq_some.mp hrun
      exact ih (h.2 next hnext) hrest

/-- A side property that is kept by every step between two states with `P` may be added to what is
asked of the states. -/
theorem along_and_iff_of_kept {I P : State → Prop}
    (hkeep : ∀ state action next, I state → P state → P next → step state action = some next →
      I next)
    {start : State} (hstart : I start) (actions : List Action) :
    Along step (fun state ↦ I state ∧ P state) start actions ↔ Along step P start actions := by
  induction actions generalizing start with
  | nil => simp [Along, hstart]
  | cons action rest ih =>
      simp only [Along, hstart, true_and]
      refine and_congr_right fun hP ↦ ⟨fun h next hnext ↦ ?_, fun h next hnext ↦ ?_⟩
      · have hI : I next := by
          cases rest with
          | nil => exact (h next hnext).1
          | cons => exact (h next hnext).1.1
        exact (ih hI).mp (h next hnext)
      · have hPnext : P next := by
          cases rest with
          | nil => exact h next hnext
          | cons => exact (h next hnext).1
        exact (ih (hkeep start action next hstart hP hPnext hnext)).mpr (h next hnext)

/-- The same as `along_iff_throughout`, where the steps may use such a side property. -/
theorem along_iff_throughout_of_kept {I P : State → Prop} {C : State → Action → Prop}
    (hkeep : ∀ state action next, I state → P state → P next → step state action = some next →
      I next)
    (hstep : ∀ state action next, I state → P state → step state action = some next →
      (P next ↔ C state action))
    (hstuck : ∀ state action, step state action = none → C state action)
    {start : State} (hstartI : I start) (hstartP : P start) (actions : List Action) :
    Along step P start actions ↔ Throughout step C start actions := by
  rw [← along_and_iff_of_kept hkeep hstartI]
  refine along_iff_throughout ?_ hstuck ⟨hstartI, hstartP⟩ actions
  intro state action next hstate hnext
  rw [← hstep state action next hstate.1 hstate.2 hnext]
  refine and_iff_right_of_imp fun hP ↦ ?_
  exact hkeep state action next hstate.1 hstate.2 hP hnext

/-- The same as `along_iff_throughout`, where the steps may use an invariant. -/
theorem along_iff_throughout_of_invariant {I P : State → Prop} {C : State → Action → Prop}
    (hinv : ∀ state action next, I state → step state action = some next → I next)
    (hstep : ∀ state action next, I state → P state → step state action = some next →
      (P next ↔ C state action))
    (hstuck : ∀ state action, step state action = none → C state action)
    {start : State} (hstartI : I start) (hstartP : P start) (actions : List Action) :
    Along step P start actions ↔ Throughout step C start actions :=
  along_iff_throughout_of_kept
    (fun state action next hI _ _ hnext ↦ hinv state action next hI hnext)
    hstep hstuck hstartI hstartP actions

/-- Conditions that agree in the states of an invariant hold of the same runs. -/
theorem throughout_congr {P : State → Prop} {C D : State → Action → Prop}
    (hstep : ∀ state action next, P state → step state action = some next → P next)
    (hiff : ∀ state action, P state → (C state action ↔ D state action))
    {start : State} (hstart : P start) (actions : List Action) :
    Throughout step C start actions ↔ Throughout step D start actions := by
  induction actions generalizing start with
  | nil => rfl
  | cons action rest ih =>
      refine and_congr (hiff start action hstart) (forall_congr' fun next ↦ ?_)
      exact imp_congr_right fun hnext ↦ ih (hstep start action next hstart hnext)

/-- A condition that holds at every reachable state holds throughout every run. -/
theorem throughout_of_invariant {P : State → Prop} {C : State → Action → Prop}
    (hstep : ∀ state action next, P state → step state action = some next → P next)
    (hcond : ∀ state action, P state → C state action)
    {start : State} (hstart : P start) (actions : List Action) :
    Throughout step C start actions := by
  induction actions generalizing start with
  | nil => trivial
  | cons action rest ih =>
      exact ⟨hcond start action hstart,
        fun next hnext ↦ ih (hstep start action next hstart hnext)⟩

/-- An invariant holds along every run. -/
theorem along_of_invariant {P : State → Prop}
    (hstep : ∀ state action next, P state → step state action = some next → P next)
    {start : State} (hstart : P start) (actions : List Action) : Along step P start actions := by
  induction actions generalizing start with
  | nil => exact hstart
  | cons action rest ih =>
      exact ⟨hstart, fun next hnext ↦ ih (hstep start action next hstart hnext)⟩

/-- What an invariant and a condition give of each action, the invariant being kept under the
condition, holds throughout every run that meets the condition. -/
theorem Throughout.mono {I : State → Prop} {C D : State → Action → Prop}
    (hstep : ∀ state action next, I state → C state action → step state action = some next →
      I next)
    (hcond : ∀ state action, I state → C state action → D state action)
    {start : State} (hstart : I start) {actions : List Action}
    (h : Throughout step C start actions) : Throughout step D start actions := by
  induction actions generalizing start with
  | nil => trivial
  | cons action rest ih =>
      exact ⟨hcond start action hstart h.1,
        fun next hnext ↦ ih (hstep start action next hstart h.1 hnext) (h.2 next hnext)⟩

/-- An invariant that is kept under a condition holds along every run that meets the condition. -/
theorem Throughout.along {P : State → Prop} {C : State → Action → Prop}
    (hstep : ∀ state action next, P state → C state action → step state action = some next →
      P next)
    {start : State} (hstart : P start) {actions : List Action}
    (h : Throughout step C start actions) : Along step P start actions := by
  induction actions generalizing start with
  | nil => exact hstart
  | cons action rest ih =>
      exact ⟨hstart, fun next hnext ↦
        ih (hstep start action next hstart h.1 hnext) (h.2 next hnext)⟩

theorem Along.head {P : State → Prop} {start : State} {actions : List Action}
    (h : Along step P start actions) : P start := by
  cases actions with
  | nil => exact h
  | cons => exact h.1

/-- A property of states that holds along a run may be weakened. -/
theorem Along.mono {P Q : State → Prop} (hstate : ∀ state, P state → Q state) {start : State}
    {actions : List Action} (h : Along step P start actions) : Along step Q start actions := by
  induction actions generalizing start with
  | nil => exact hstate start h
  | cons action rest ih => exact ⟨hstate start h.1, fun next hnext ↦ ih (h.2 next hnext)⟩

/-- When every step from a state with `P` that ends in one with `P` meets a condition, a run along
which `P` holds meets it throughout. -/
theorem Along.throughout {P : State → Prop} {C : State → Action → Prop}
    (hstep : ∀ state action next, P state → P next → step state action = some next →
      C state action)
    (hstuck : ∀ state action, step state action = none → C state action)
    {start : State} {actions : List Action} (h : Along step P start actions) :
    Throughout step C start actions := by
  induction actions generalizing start with
  | nil => trivial
  | cons action rest ih =>
      refine ⟨?_, fun next hnext ↦ ih (h.2 next hnext)⟩
      cases hnext : step start action with
      | none => exact hstuck start action hnext
      | some next => exact hstep start action next h.1 (h.2 next hnext).head hnext

/-- A condition that holds throughout a run holds at the action that follows any prefix of it. -/
theorem Throughout.at_prefix {C : State → Action → Prop} {start middle : State}
    {first rest : List Action} {action : Action}
    (h : Throughout step C start (first ++ action :: rest))
    (hrun : run step start first = some middle) : C middle action := by
  induction first generalizing start with
  | nil =>
      cases hrun
      exact h.1
  | cons head tail ih =>
      obtain ⟨next, hnext, hrest⟩ := run_cons_eq_some.mp hrun
      exact ih (h.2 next hnext) hrest

theorem Until.head {P : State → Prop} {C : State → Action → Prop} {state : State}
    {actions : List Action} (h : Until step P C state actions) : P state := by
  cases actions with
  | nil => exact h
  | cons => exact h.1

/-- While `P` holds and `C` does not, `Q` is kept: then `C` occurs, or `P` and `Q` hold at the end
of the run. -/
theorem Until.occurs_or {P Q : State → Prop} {C : State → Action → Prop}
    (hstep : ∀ state action next, P state → ¬ C state action → Q state →
      step state action = some next → Q next)
    {start final : State} {actions : List Action} (h : Until step P C start actions)
    (hstart : Q start) (hrun : run step start actions = some final) :
    Occurs step C start actions ∨ (P final ∧ Q final) := by
  induction actions generalizing start with
  | nil =>
      cases hrun
      exact Or.inr ⟨h, hstart⟩
  | cons action rest ih =>
      obtain ⟨next, hnext, hrest⟩ := run_cons_eq_some.mp hrun
      obtain ⟨hP, hC | huntil⟩ := h
      · exact Or.inl (Or.inl hC)
      · by_cases hC : C start action
        · exact Or.inl (Or.inl hC)
        · have hnextI := hstep start action next hP hC hstart hnext
          refine (ih (huntil next hnext) hnextI hrest).imp_left ?_
          exact fun hoccurs ↦ Or.inr ⟨next, hnext, hoccurs⟩

/-! ## History variables and side conditions -/

/-- The machine with a history variable that `record` updates from the state and the action of
each step. -/
def observe (step : State → Action → Option State) (record : State → Action → Ghost → Ghost)
    (state : State × Ghost) (action : Action) : Option (State × Ghost) :=
  (step state.1 action).map fun next ↦ (next, record state.1 action state.2)

/-- The machine that takes an action only when the side condition `allowed` holds of it. -/
def restrict (step : State → Action → Option State) (allowed : State → Action → Prop)
    [∀ state action, Decidable (allowed state action)] (state : State) (action : Action) :
    Option State :=
  if allowed state action then step state action else none

/-- A step of the observed machine is a step of the machine and an update of the history. -/
theorem observe_eq_some {record : State → Action → Ghost → Ghost} {state next : State × Ghost}
    {action : Action} :
    observe step record state action = some next ↔
      step state.1 action = some next.1 ∧ next.2 = record state.1 action state.2 := by
  obtain ⟨first, ghost⟩ := next
  simp only [observe, Option.map_eq_some_iff, Prod.mk.injEq]
  constructor
  · intro hcase
    obtain ⟨other, hstep, rfl, rfl⟩ := hcase
    exact ⟨hstep, rfl⟩
  · intro hcase
    obtain ⟨hstep, rfl⟩ := hcase
    exact ⟨first, hstep, rfl, rfl⟩

/-- History variables do not change the runs of the machine. -/
theorem run_observe_fst (record : State → Action → Ghost → Ghost) (state : State) (ghost : Ghost)
    (actions : List Action) :
    (run (observe step record) (state, ghost) actions).map Prod.fst = run step state actions := by
  induction actions generalizing state ghost with
  | nil => rfl
  | cons action rest ih =>
      simp only [run_cons, observe]
      cases step state action with
      | none => rfl
      | some next => exact ih next _

/-- A step of the restricted machine is an allowed step of the machine. -/
theorem restrict_eq_some {allowed : State → Action → Prop}
    [∀ state action, Decidable (allowed state action)] {state next : State} {action : Action} :
    restrict step allowed state action = some next ↔
      allowed state action ∧ step state action = some next := by
  unfold restrict
  split <;> simp_all

/-- What the observed machine reaches, the machine reaches. -/
theorem Reachable.of_observe {record : State → Action → Ghost → Ghost}
    {start state : State × Ghost} (h : Reachable (observe step record) start state) :
    Reachable step start.1 state.1 := by
  obtain ⟨actions, hrun⟩ := h
  have hfst : (run (observe step record) start actions).map Prod.fst = run step start.1 actions :=
    run_observe_fst record start.1 start.2 actions
  rw [hrun] at hfst
  exact ⟨actions, hfst.symm⟩

/-- What the restricted machine reaches, the machine reaches. -/
theorem Reachable.of_restrict {allowed : State → Action → Prop}
    [∀ state action, Decidable (allowed state action)] {start state : State}
    (h : Reachable (restrict step allowed) start state) : Reachable step start state :=
  h.invariant (Reachable.refl start) fun _ _ _ hreach hstep ↦
    hreach.tail (restrict_eq_some.mp hstep).2

/-- A view of the machine under which each step is a step of another machine, or invisible, takes
reachable states to reachable states. -/
theorem Reachable.project {View Move : Type*} {move : View → Move → Option View}
    (view : State → View)
    (hstep : ∀ state action next, step state action = some next →
      view next = view state ∨ ∃ other, move (view state) other = some (view next))
    {start state : State} (h : Reachable step start state) :
    Reachable move (view start) (view state) := by
  refine h.invariant (P := fun state ↦ Reachable move (view start) (view state)) (refl _) ?_
  intro state action next hreach hnext
  rcases hstep state action next hnext with hsame | ⟨other, hmove⟩
  · rwa [hsame]
  · exact hreach.tail hmove

/-! ## Serial executions -/

section Serial

variable {Op View : Type*} {performs : Op → View → View → Prop}

/-- The operations take effect one after another, each as `performs` says. -/
def Serially (performs : Op → View → View → Prop) : View → List Op → View → Prop
  | start, [], final => final = start
  | start, op :: rest, final => ∃ next, performs op start next ∧ Serially performs next rest final

/-- One more operation at the end. -/
theorem Serially.concat {start middle final : View} {ops : List Op} {op : Op}
    (h : Serially performs start ops middle) (hop : performs op middle final) :
    Serially performs start (ops ++ [op]) final := by
  induction ops generalizing start with
  | nil =>
      cases h
      exact ⟨final, hop, rfl⟩
  | cons first rest ih =>
      obtain ⟨next, hfirst, hrest⟩ := h
      exact ⟨next, hfirst, ih hrest⟩

end Serial

end Transition
