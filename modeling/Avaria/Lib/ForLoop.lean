import Mathlib.Init

/-!
# Counted loops

A loop over a range of numbers whose body is a partial function of the state: it yields the next
state, or leaves the loop. `loop_succ` peels off the last iteration, `invariant` is the rule for
loops that run to their end, and `leaves_at` finds the iteration that left the loop.
-/

namespace ForLoop

variable {State Stop : Type*}

/-- Run the body the given number of times, or until it leaves the loop. -/
def loop (body : State → Except Stop State) : Nat → State → Except Stop State
  | 0, state => .ok state
  | left + 1, state =>
      match body state with
      | .ok next => loop body left next
      | .error stop => .error stop

variable {body : State → Except Stop State}

/-- One more iteration at the end. -/
theorem loop_succ (count : Nat) (state : State) :
    loop body (count + 1) state = (loop body count state).bind body := by
  induction count generalizing state with
  | zero =>
      show (match body state with | .ok next => .ok next | .error stop => .error stop) = body state
      cases body state <;> rfl
  | succ count ih =>
      show (match body state with
          | .ok next => loop body (count + 1) next | .error stop => .error stop) =
        (match body state with
          | .ok next => loop body count next | .error stop => .error stop).bind body
      cases body state with
      | ok next => exact ih next
      | error stop => rfl

/-- A loop that ran one more iteration had run the others. -/
theorem exists_of_loop_succ {count : Nat} {start final : State}
    (h : loop body (count + 1) start = .ok final) :
    ∃ middle, loop body count start = .ok middle ∧ body middle = .ok final := by
  rw [loop_succ] at h
  cases hmiddle : loop body count start with
  | error stop =>
      rw [hmiddle] at h
      cases h
  | ok middle =>
      rw [hmiddle] at h
      exact ⟨middle, rfl, h⟩

/-- What holds before the loop and is kept by every iteration holds after the loop. -/
theorem invariant {I : Nat → State → Prop} {count : Nat} {start final : State}
    (h : loop body count start = .ok final) (hstart : I 0 start)
    (hbody : ∀ i < count, ∀ state next, I i state → body state = .ok next → I (i + 1) next) :
    I count final := by
  induction count generalizing final with
  | zero =>
      cases h
      exact hstart
  | succ count ih =>
      obtain ⟨middle, hmiddle, hlast⟩ := exists_of_loop_succ h
      have hinv := ih hmiddle fun i hi ↦ hbody i (Nat.lt_succ_of_lt hi)
      exact hbody count (Nat.lt_succ_self count) middle final hinv hlast

/-- Two loops agree, up to how they are left, if their bodies agree along the first one. -/
theorem loop_eq_mapError {Stop' : Type*} {body' : State → Except Stop' State} {f : Stop → Stop'}
    {I : Nat → State → Prop} {count : Nat} {start : State} (hstart : I 0 start)
    (hbody : ∀ i < count, ∀ state, I i state → body' state = (body state).mapError f ∧
      ∀ next, body state = .ok next → I (i + 1) next) :
    loop body' count start = (loop body count start).mapError f := by
  induction count with
  | zero => rfl
  | succ count ih =>
      rw [loop_succ, loop_succ, ih fun i hi ↦ hbody i (Nat.lt_succ_of_lt hi)]
      cases hmiddle : loop body count start with
      | error stop => rfl
      | ok middle =>
          have hinv := invariant hmiddle hstart fun i hi state next hstate ↦
            (hbody i (Nat.lt_succ_of_lt hi) state hstate).2 next
          exact (hbody count (Nat.lt_succ_self count) middle hinv).1

/-- A loop that was left was left in one of its iterations. -/
theorem leaves_at {count : Nat} {start : State} {stop : Stop}
    (h : loop body count start = .error stop) :
    ∃ i < count, ∃ middle, loop body i start = .ok middle ∧ body middle = .error stop := by
  induction count with
  | zero => cases h
  | succ count ih =>
      rw [loop_succ] at h
      cases hmiddle : loop body count start with
      | error other =>
          rw [hmiddle] at h
          cases h
          obtain ⟨i, hi, hleft⟩ := ih hmiddle
          exact ⟨i, Nat.lt_succ_of_lt hi, hleft⟩
      | ok middle =>
          rw [hmiddle] at h
          exact ⟨count, Nat.lt_succ_self count, middle, hmiddle, h⟩

end ForLoop
