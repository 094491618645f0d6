import Avaria.Sched.Kernel

/-!
# Round robin

A task that stays ready is dispatched before any other task is dispatched twice. The argument is
about the position of the scan: as long as `t` is ready and not dispatched, every tick stops before
`t`, so a task that comes after `t` in scan order stays behind it (`Ahead`). Right after `u` was
dispatched, `u` comes last.
-/

namespace Avaria.Sched

open Transition Mm

/-- In scan order from the current task, `t` comes before `u`. -/
def Ahead (s : Scheduler) (t u : TaskId) : Prop :=
  CyclicScan.distance s.current t < CyclicScan.distance s.current u

namespace Kernel

variable {σ : Type*}

/-- The action is a tick that is not suppressed and dispatches the task. -/
def Dispatches (t : TaskId) (k : Kernel σ) : Action σ → Prop
  | .tick ctx => k.sched.suppressed = false ∧ (k.sched.timerTick ctx).1.current = t
  | _ => False

instance (t : TaskId) (k : Kernel σ) (action : Action σ) : Decidable (Dispatches t k action) :=
  match action with
  | .tick _ => inferInstanceAs (Decidable (_ ∧ _))
  | .spawn .. | .exit | .start | .disableLoad | .disableStore | .enableTest | .enableLoad |
      .enableStore | .memory _ => instDecidableFalse

/-- The task is ready. -/
def ReadyAt (t : TaskId) (k : Kernel σ) : Prop := (k.sched.tasks t).state = .ready

/-- The current task comes last in its own scan. -/
theorem ahead_current {s : Scheduler} {t : TaskId} (h : t ≠ s.current) : Ahead s t s.current := by
  have hne : CyclicScan.distance s.current t ≠ CyclicScan.distance s.current s.current :=
    fun heq ↦ h (CyclicScan.distance_inj heq)
  have hlt := CyclicScan.distance_lt s.current t
  rw [CyclicScan.distance_self] at hne
  rw [Ahead, CyclicScan.distance_self]
  omega

/-- A tick that does not dispatch a ready task `t` stops before `t` in scan order. -/
theorem target_ahead {s : Scheduler} {t : TaskId} (hready : (s.tasks t).state = .ready)
    {ctx : IsrContext} (hsuppressed : s.suppressed = false)
    (hnot : (s.timerTick ctx).1.current ≠ t) :
    CyclicScan.distance s.current (s.timerTick ctx).1.current <
      CyclicScan.distance s.current t := by
  have hsaved : ((s.afterSave ctx).tasks t).state = .ready := by
    rw [Scheduler.afterSave_state, hready]
    simp
  rcases s.timerTick_cases ctx with ⟨htrue, -⟩ | ⟨-, -, heq⟩ | ⟨-, hnone⟩
  · rw [hsuppressed] at htrue
    cases htrue
  · rw [heq, Scheduler.dispatch_current] at hnot ⊢
    have hfirst := (CyclicScan.scan_first (Scheduler.isReady_iff.mpr hsaved) s.current).2 t
      (Scheduler.isReady_iff.mpr hsaved)
    exact lt_of_le_of_ne hfirst fun hdistance ↦ hnot (CyclicScan.distance_inj hdistance)
  · exact absurd hsaved (hnone t)

/-- While `t` is ready and ahead of `u`, a tick that does not dispatch `t` does not dispatch `u`
either, and `t` stays ahead. -/
theorem ahead_timerTick {s : Scheduler} {t u : TaskId} (hready : (s.tasks t).state = .ready)
    (hahead : Ahead s t u) {ctx : IsrContext} (hsuppressed : s.suppressed = false)
    (hnot : (s.timerTick ctx).1.current ≠ t) :
    (s.timerTick ctx).1.current ≠ u ∧ Ahead (s.timerTick ctx).1 t u := by
  have hbefore := target_ahead hready hsuppressed hnot
  unfold Ahead at *
  constructor
  · intro hu
    rw [hu] at hbefore
    omega
  · rw [CyclicScan.distance_sub hbefore, CyclicScan.distance_sub (lt_trans hbefore hahead)]
    omega

variable [PageSource σ] {image : Image}

/-- A step that does not dispatch the ready task `t` keeps `t` ahead of `u`. -/
theorem ahead_step {k next : Kernel σ} {action : Action σ} {t u : TaskId} (hready : ReadyAt t k)
    (hnot : ¬ Dispatches t k action) (hahead : Ahead k.sched t u)
    (hstep : step image k action = some next) : Ahead next.sched t u := by
  cases step_cases hstep with
  | tick =>
      rename_i ctx
      cases hsuppressed : k.sched.suppressed with
      | true =>
          rw [Scheduler.timerTick_suppressed hsuppressed]
          exact hahead
      | false =>
          exact (ahead_timerTick hready hahead hsuppressed
            fun heq ↦ hnot ⟨hsuppressed, heq⟩).2
  | _ => exact hahead

/-- In every run, between two ticks that dispatch `u`, a task `t` that is ready at every moment
after the first of them, until it is dispatched, is dispatched. -/
theorem no_overtaking {pages : σ} {k first last : Kernel σ} {t u : TaskId} {ctx ctx' : IsrContext}
    {actions : List (Action σ)} (h : Reachable (step image) (boot image pages) k)
    (hu : Dispatches u k (.tick ctx)) (hfirst : step image k (.tick ctx) = some first)
    (hready : Until (step image) (ReadyAt t) (Dispatches t) first actions)
    (hrun : run (step image) first actions = some last) (hagain : Dispatches u last (.tick ctx')) :
    Occurs (step image) (Dispatches t) first actions := by
  have hcurrent : first.sched.current = u := by
    cases hfirst
    exact hu.2
  have hne : t ≠ first.sched.current := by
    intro heq
    subst heq
    have hwell := wellScheduled (h.tail hfirst)
    rcases hwell.current_live with hlive | hlive <;> rw [hready.head] at hlive <;> cases hlive
  have hahead : Ahead first.sched t u := hcurrent ▸ ahead_current hne
  rcases hready.occurs_or (fun _ _ _ hP hC hQ hstep ↦ ahead_step hP hC hQ hstep) hahead hrun with
    hoccurs | ⟨hlast, hstill⟩
  · exact hoccurs
  · -- the last tick would dispatch `u` although `t` is ready and ahead of it
    obtain ⟨hsuppressed, hagain⟩ := hagain
    have hnot : (last.sched.timerTick ctx').1.current ≠ t := by
      rw [hagain]
      intro heq
      subst heq
      exact lt_irrefl _ hstill
    exact absurd hagain (ahead_timerTick hlast hstill hsuppressed hnot).1

/-- Between two dispatches of task 0, the spawned task is dispatched. -/
theorem no_overtaking_spawned :
    ∃ k first last,
      run (step ⟨0x1000, 0x2000⟩) (boot ⟨0x1000, 0x2000⟩ (BuddyAllocator.init 0x100000 0x10000))
        [.spawn 0 0 [], .start, .tick default] = some k ∧
      step ⟨0x1000, 0x2000⟩ k (.tick default) = some first ∧
      run (step ⟨0x1000, 0x2000⟩) first [.tick default] = some last ∧
      Dispatches 0 last (.tick default) ∧
      Occurs (step ⟨0x1000, 0x2000⟩) (Dispatches 1) first [.tick default] := by
  have hfields : (run (step ⟨0x1000, 0x2000⟩)
      (boot ⟨0x1000, 0x2000⟩ (BuddyAllocator.init 0x100000 0x10000))
      [.spawn 0 0 [], .start, .tick default]).map (fun k ↦
        ((k.sched.suppressed, (k.sched.timerTick default).1.current,
          ((k.sched.timerTick default).1.tasks 1).state, (k.sched.timerTick default).1.suppressed),
          ((k.sched.timerTick default).1.timerTick default).1.current,
          ((k.sched.timerTick default).1.timerTick default).1.suppressed,
          (((k.sched.timerTick default).1.timerTick default).1.timerTick default).1.current)) =
        some ((false, 0, .ready, false), 1, false, 0) := by decide +kernel
  obtain ⟨k, hrun, hstate⟩ := Option.map_eq_some_iff.mp hfields
  simp only [Prod.mk.injEq] at hstate
  obtain ⟨⟨hsuppressed, hzero, hready, hfirst⟩, hone, hlast, hagain⟩ := hstate
  have huntil : Until (step ⟨0x1000, 0x2000⟩) (ReadyAt 1) (Dispatches 1)
      { k with sched := (k.sched.timerTick default).1 } [.tick default] :=
    ⟨hready, Or.inl ⟨hfirst, hone⟩⟩
  exact ⟨k, _, _, hrun, rfl, rfl, ⟨hlast, hagain⟩,
    no_overtaking ⟨_, hrun⟩ ⟨hsuppressed, hzero⟩ rfl huntil rfl ⟨hlast, hagain⟩⟩

end Kernel

end Avaria.Sched
