import Avaria.Sched.Kernel

/-!
# Disabling preemption

`PREEMPT_COUNT` is a plain global that every task increments and decrements with separate loads and
stores. The runs are observed by the number of unmatched `preempt_disable` calls of each task,
counted when the store of the call is done, and restricted to properly nested calls: a task enables
only what it disabled, exits with nothing disabled, and nests less than `2 ^ 32` deep.

`Counted` is the invariant: the global is the number of the current task, and every other task has
disabled nothing and is at most before the store of its first increment, with the value 0 loaded. So
a value that was loaded before a switch is right again when its task resumes.
-/

namespace Avaria.Sched

open Transition Mm

/-- The number of unmatched `preempt_disable` calls of each task. -/
abbrev Depth := TaskId → Nat

namespace Kernel

variable {σ : Type*}

/-- The unmatched calls after an action. -/
def recordDepth (k : Kernel σ) (action : Action σ) (depth : Depth) : Depth :=
  match action with
  | .disableStore => Function.update depth k.sched.current (depth k.sched.current + 1)
  | .enableStore => Function.update depth k.sched.current (depth k.sched.current - 1)
  | _ => depth

/-- The calls are properly nested. -/
def Nested (state : Kernel σ × Depth) : Action σ → Prop
  | .disableLoad => state.2 state.1.sched.current + 1 < 2 ^ 32
  | .enableTest => 0 < state.2 state.1.sched.current
  | .exit => state.2 state.1.sched.current = 0
  | _ => True

instance (state : Kernel σ × Depth) (action : Action σ) : Decidable (Nested state action) := by
  cases action <;> unfold Nested <;> infer_instance

/-- A properly nested step. -/
def nestedStep [PageSource σ] (image : Image) :
    Kernel σ × Depth → Action σ → Option (Kernel σ × Depth) :=
  restrict (observe (step image) recordDepth) Nested

/-- The program point fits the count. A loaded value is the value of the global, and a task that has
passed the test has disabled preemption. -/
def PcFits (count : UInt32) : PreemptPc → Prop
  | .idle => True
  | .adding value => value = count ∧ count.toNat + 1 < 2 ^ 32
  | .tested => 0 < count.toNat
  | .subtracting value => value = count ∧ 0 < count.toNat

end Kernel

open Kernel in
/-- The global counts the unmatched calls of the current task; no other task has any. -/
structure Counted {σ : Type*} (k : Kernel σ) (depth : Depth) : Prop where
  count : k.sched.preemptCount.toNat = depth k.sched.current
  own : PcFits k.sched.preemptCount (k.pc k.sched.current)
  others : ∀ t, t ≠ k.sched.current → depth t = 0 ∧ (k.pc t = .idle ∨ k.pc t = .adding 0)

namespace Counted

open Kernel

variable {σ : Type*} {k : Kernel σ} {depth : Depth}

theorem boot (image : Image) (pages : σ) :
    Counted (Kernel.boot image pages) fun _ ↦ 0 where
  count := rfl
  own := trivial
  others := fun _ _ ↦ ⟨rfl, Or.inl rfl⟩

/-- The invariant reads the current task, the global and the program points. -/
theorem congr {k' : Kernel σ} (h : Counted k depth) (hcurrent : k'.sched.current = k.sched.current)
    (hcount : k'.sched.preemptCount = k.sched.preemptCount) (hpc : k'.pc = k.pc) :
    Counted k' depth where
  count := by simpa only [hcount, hcurrent] using h.count
  own := by simpa only [hcount, hcurrent, hpc] using h.own
  others := by simpa only [hcurrent, hpc] using h.others

/-- The current task moves to a program point that fits. -/
theorem setPc (h : Counted k depth) {pc : PreemptPc} (hpc : PcFits k.sched.preemptCount pc) :
    Counted (k.setPc pc) depth where
  count := h.count
  own := by simpa [Kernel.setPc] using hpc
  others := by
    intro t ht
    change t ≠ k.sched.current at ht
    simpa [Kernel.setPc, Function.update_of_ne ht] using h.others t ht

/-- The current task stores its new count. -/
theorem storeCount (h : Counted k depth) {value : UInt32} {count : Nat}
    (hvalue : value.toNat = count) :
    Counted ((k.storeCount value).setPc .idle)
      (Function.update depth k.sched.current count) where
  count := by simpa [Kernel.setPc, Kernel.storeCount] using hvalue
  own := by simp [Kernel.setPc, Kernel.storeCount, PcFits]
  others := by
    intro t ht
    change t ≠ k.sched.current at ht
    simpa [Kernel.setPc, Kernel.storeCount, Function.update_of_ne ht] using h.others t ht

/-- A tick that is not suppressed finds the count at 0: the current task has disabled nothing, and
if it is about to store an increment, it has loaded 0. -/
theorem current_free (h : Counted k depth) (hsuppressed : k.sched.suppressed = false) :
    depth k.sched.current = 0 ∧
      (k.pc k.sched.current = .idle ∨ k.pc k.sched.current = .adding 0) := by
  have hzero : k.sched.preemptCount = 0 := by
    simp only [Scheduler.suppressed, Bool.or_eq_false_iff, decide_eq_false_iff_not] at hsuppressed
    simpa using hsuppressed.2
  have hcount := h.count
  have hown := h.own
  rw [hzero] at hcount hown
  refine ⟨hcount.symm, ?_⟩
  cases hpc : k.pc k.sched.current with
  | idle => exact Or.inl rfl
  | adding value =>
      rw [hpc] at hown
      exact Or.inr (by rw [hown.1])
  | tested =>
      rw [hpc] at hown
      exact absurd hown (lt_irrefl _)
  | subtracting value =>
      rw [hpc] at hown
      exact absurd hown.2 (lt_irrefl _)

/-- A tick keeps the invariant: it switches only when nothing is counted. -/
theorem timerTick (h : Counted k depth) (hwell : WellScheduled k.sched) (ctx : IsrContext) :
    Counted { k with sched := (k.sched.timerTick ctx).1 } depth := by
  cases hsuppressed : k.sched.suppressed with
  | true =>
      rw [Scheduler.timerTick_suppressed hsuppressed]
      exact h.congr rfl rfl rfl
  | false =>
      obtain ⟨-, heq⟩ := hwell.timerTick_eq ctx hsuppressed
      -- before a switch the current task looks like the others, so any task may come next
      have hfree : ∀ t, depth t = 0 ∧ (k.pc t = .idle ∨ k.pc t = .adding 0) := by
        intro t
        by_cases ht : t = k.sched.current
        · subst ht
          exact h.current_free hsuppressed
        · exact h.others t ht
      have hcount : k.sched.preemptCount.toNat = 0 := by
        rw [h.count]
        exact (hfree _).1
      have hzero : k.sched.preemptCount = 0 := UInt32.toNat_inj.mp hcount
      refine ⟨?_, ?_, fun t _ ↦ hfree t⟩
      · simp only [heq]
        show k.sched.preemptCount.toNat = depth (k.sched.target ctx)
        rw [hcount, (hfree _).1]
      · simp only [heq]
        show PcFits k.sched.preemptCount (k.pc (k.sched.target ctx))
        rcases (hfree (k.sched.target ctx)).2 with hpc | hpc <;> rw [hpc, hzero]
        · trivial
        · exact ⟨rfl, by decide⟩

/-- The store of an increment adds one to the global. -/
theorem disableStore (h : Counted k depth) {value : UInt32}
    (hpc : k.pc k.sched.current = .adding value) :
    (value + 1).toNat = depth k.sched.current + 1 := by
  have hown := h.own
  rw [hpc] at hown
  obtain ⟨rfl, hlt⟩ := hown
  rw [← h.count, UInt32.toNat_add]
  exact Nat.mod_eq_of_lt hlt

/-- The store of a decrement takes one from the global. -/
theorem enableStore (h : Counted k depth) {value : UInt32}
    (hpc : k.pc k.sched.current = .subtracting value) :
    0 < depth k.sched.current ∧ (value - 1).toNat = depth k.sched.current - 1 := by
  have hown := h.own
  rw [hpc] at hown
  obtain ⟨rfl, hpos⟩ := hown
  have hle : (1 : UInt32) ≤ k.sched.preemptCount := by
    rw [UInt32.le_iff_toNat_le]
    exact hpos
  rw [← h.count, UInt32.toNat_sub_of_le _ _ hle]
  exact ⟨hpos, rfl⟩

end Counted

namespace Kernel

variable {σ : Type*} [PageSource σ] {image : Image}

/-- A properly nested step is a step of the kernel. -/
theorem step_of_nested {state next : Kernel σ × Depth} {action : Action σ}
    (h : nestedStep image state action = some next) :
    step image state.1 action = some next.1 :=
  (observe_eq_some.mp (restrict_eq_some.mp h).2).1

/-- Every properly nested step keeps the invariant. -/
theorem counted_step {state next : Kernel σ × Depth} {action : Action σ}
    (hwell : WellScheduled state.1.sched) (h : Counted state.1 state.2)
    (hstep : nestedStep image state action = some next) : Counted next.1 next.2 := by
  obtain ⟨hnested, hobserve⟩ := restrict_eq_some.mp hstep
  obtain ⟨hkernel, hrecord⟩ := observe_eq_some.mp hobserve
  obtain ⟨k, depth⟩ := state
  obtain ⟨after, afterDepth⟩ := next
  simp only at hkernel hrecord hwell h ⊢
  subst hrecord
  cases step_cases hkernel with
  | spawned | exit | start | spawnFailed | memory => exact h.congr rfl rfl rfl
  | disableLoad hcall =>
      refine h.setPc ⟨rfl, ?_⟩
      rw [h.count]
      exact hnested
  | disableStore hpc => exact h.storeCount (h.disableStore hpc)
  | enableTested hcall hcount =>
      refine h.setPc ?_
      rw [PcFits, h.count]
      exact hnested
  | enableSkipped => exact h
  | enableLoad hpc =>
      have hown := h.own
      rw [hpc] at hown
      exact h.setPc ⟨rfl, hown⟩
  | enableStore hpc => exact h.storeCount (h.enableStore hpc).2
  | tick => exact h.timerTick hwell _

/-- In every run with properly nested calls and ticks between any two of their loads and stores: a
tick changes neither the current task nor the context while the current task has an unmatched
`preempt_disable`; every store adds or takes exactly one, and no decrement is skipped; and the
global is the number of unmatched calls of the current task. -/
theorem preempt_disable_sound {pages : σ} {k : Kernel σ} {depth : Depth}
    (h : Reachable (nestedStep image) (boot image pages, fun _ ↦ 0) (k, depth)) :
    (0 < depth k.sched.current → ∀ ctx,
      (k.sched.timerTick ctx).1.current = k.sched.current ∧ (k.sched.timerTick ctx).2 = ctx) ∧
    (∀ next, nestedStep image (k, depth) .disableStore = some next →
      next.1.sched.preemptCount.toNat = k.sched.preemptCount.toNat + 1) ∧
    (∀ next, nestedStep image (k, depth) .enableTest = some next →
      next.1.pc k.sched.current = .tested) ∧
    (∀ next, nestedStep image (k, depth) .enableStore = some next →
      next.1.sched.preemptCount.toNat + 1 = k.sched.preemptCount.toNat) ∧
    k.sched.preemptCount.toNat = depth k.sched.current := by
  have hcounted : Counted k depth :=
    h.induct (P := fun state ↦ Counted state.1 state.2) (Counted.boot image pages)
      fun _ _ _ hreach hstate hstep ↦
        counted_step (wellScheduled hreach.of_restrict.of_observe) hstate hstep
  refine ⟨?_, ?_, ?_, ?_, hcounted.count⟩
  · intro hdepth ctx
    have hsuppressed : k.sched.suppressed = true := by
      by_contra hnot
      rw [Bool.not_eq_true] at hnot
      have hfree := (hcounted.current_free hnot).1
      omega
    rw [Scheduler.timerTick_suppressed hsuppressed]
    exact ⟨rfl, rfl⟩
  · intro hcase hstep
    obtain ⟨after, afterDepth⟩ := hcase
    cases step_cases (step_of_nested hstep) with
    | disableStore hpc => exact (hcounted.disableStore hpc).trans (by rw [hcounted.count])
  · intro hcase hstep
    obtain ⟨after, afterDepth⟩ := hcase
    have hpos : 0 < k.sched.preemptCount.toNat := by
      rw [hcounted.count]
      exact (restrict_eq_some.mp hstep).1
    cases step_cases (step_of_nested hstep) with
    | enableTested => exact Function.update_self ..
    | enableSkipped hcall hcount => exact absurd hpos hcount
  · intro hcase hstep
    obtain ⟨after, afterDepth⟩ := hcase
    cases step_cases (step_of_nested hstep) with
    | enableStore hpc =>
        obtain ⟨hpos, hvalue⟩ := hcounted.enableStore hpc
        rw [hcounted.count]
        exact (congrArg (· + 1) hvalue).trans (Nat.sub_add_cancel hpos)

/-- Task 0 is switched out between the load and the store of its increment, the spawned task
disables and enables, and task 0 resumes and stores. -/
theorem preempt_disable_sound_stale :
    ∃ k depth,
      run (nestedStep ⟨0x1000, 0x2000⟩)
        (boot ⟨0x1000, 0x2000⟩ (BuddyAllocator.init 0x100000 0x10000), fun _ ↦ 0)
        [.spawn 0 0 [], .start, .disableLoad, .tick default, .disableLoad, .disableStore,
          .tick default, .enableTest, .enableLoad, .enableStore, .tick default,
          .disableStore] = some (k, depth) ∧
      k.sched.current = 0 ∧ k.sched.preemptCount = 1 ∧
      (k.sched.timerTick default).1.current = 0 := by
  have hfields : (run (nestedStep ⟨0x1000, 0x2000⟩)
      (boot ⟨0x1000, 0x2000⟩ (BuddyAllocator.init 0x100000 0x10000), fun _ ↦ 0)
      [.spawn 0 0 [], .start, .disableLoad, .tick default, .disableLoad, .disableStore,
        .tick default, .enableTest, .enableLoad, .enableStore, .tick default,
        .disableStore]).map (fun state ↦
          (state.1.sched.current, state.1.sched.preemptCount, state.2 0)) = some (0, 1, 1) := by
    decide +kernel
  obtain ⟨⟨k, depth⟩, hrun, hstate⟩ := Option.map_eq_some_iff.mp hfields
  simp only [Prod.mk.injEq] at hstate
  obtain ⟨hcurrent, hcount, hdepth⟩ := hstate
  refine ⟨k, depth, hrun, hcurrent, hcount, ?_⟩
  have hfixed := (preempt_disable_sound ⟨_, hrun⟩).1 (by rw [hcurrent, hdepth]; decide) default
  rw [hfixed.1, hcurrent]

end Kernel

end Avaria.Sched
