import Avaria.Ipc.Interleaving

/-!
# The spin lock

`SpinLock` of `ipc.rs`, cut at its accesses to the flag. Any number of tasks take it, with `lock` or
`try_lock`; the weak exchange of `lock` may fail for no reason. A task gives back the lock that it
holds only.

`lock_exclusive` says that the lock is held by one task at a time and is not lost.
`guarded_in_order` puts it to use: when tasks send under the lock, the messages of a channel arrive
in the order in which they were accepted, wherever the accesses of the tasks come.
-/

namespace Avaria.Ipc

open Transition

/-! ## The lock -/

/-- Where a task is: outside of the lock, before the exchange of `lock`, in its inner loop, or with
the lock. -/
inductive LockPoint where
  | outside
  | exchanging
  | spinning
  | holding
  deriving DecidableEq

/-- The field `locked` of a `SpinLock`, and the tasks. -/
structure SpinLock (Task : Type*) where
  locked : UInt32
  points : Task → LockPoint

/-- A call, or the next access of a call of `lock`. An exchange may fail without need. -/
inductive LockAction (Task : Type*) where
  | lock (t : Task)
  | exchange (t : Task) (spurious : Bool)
  | load (t : Task)
  | tryLock (t : Task)
  | unlock (t : Task)

namespace SpinLock

variable {Task : Type*} [DecidableEq Task]

/-- `SpinLock::new`. -/
def new : SpinLock Task := ⟨0, fun _ ↦ .outside⟩

/-- Put a task at another point. -/
def setPoint (s : SpinLock Task) (t : Task) (point : LockPoint) : SpinLock Task :=
  { s with points := Function.update s.points t point }

theorem points_setPoint (s : SpinLock Task) (t : Task) (point : LockPoint) (other : Task) :
    (s.setPoint t point).points other = if other = t then point else s.points other :=
  Function.update_apply ..

/-- The exchange of 0 for 1 succeeds. -/
def take (s : SpinLock Task) (t : Task) : SpinLock Task :=
  { s with locked := 1 }.setPoint t .holding

/-- One access. -/
def step (s : SpinLock Task) : LockAction Task → Option (SpinLock Task)
  | .lock t => if s.points t = .outside then some (s.setPoint t .exchanging) else none
  | .exchange t spurious =>
      if s.points t = .exchanging then
        if s.locked = 0 ∧ spurious = false then some (s.take t) else some (s.setPoint t .spinning)
      else none
  | .load t =>
      if s.points t = .spinning then
        if s.locked ≠ 0 then some s else some (s.setPoint t .exchanging)
      else none
  | .tryLock t =>
      if s.points t = .outside then
        if s.locked = 0 then some (s.take t) else some s
      else none
  | .unlock t =>
      if s.points t = .holding then some ({ s with locked := 0 }.setPoint t .outside) else none

/-- The lock is free and no task has it, or it is taken and one task has it. -/
def Owned (s : SpinLock Task) : Prop :=
  s.locked = 0 ∧ (∀ t, s.points t ≠ .holding) ∨
    s.locked = 1 ∧ ∃ t, ∀ other, s.points other = .holding ↔ other = t

/-- What an access does: no task takes the lock or gives it back, or one does. -/
theorem step_cases {s next : SpinLock Task} {action : LockAction Task}
    (h : s.step action = some next) :
    next.locked = s.locked ∧ (∀ t, next.points t = .holding ↔ s.points t = .holding) ∨
    (∃ t, s.locked = 0 ∧ next = s.take t) ∨
    ∃ t, action = .unlock t ∧ s.points t = .holding ∧
      next = { s with locked := 0 }.setPoint t .outside := by
  have hother {t : Task} {point : LockPoint} (hold : s.points t ≠ .holding)
      (hnew : point ≠ .holding) (u : Task) :
      (s.setPoint t point).points u = .holding ↔ s.points u = .holding := by
    rw [points_setPoint]
    split
    · next hu =>
        rw [hu]
        exact iff_of_false hnew hold
    · exact Iff.rfl
  cases action with
  | lock t =>
      obtain ⟨hpoint, heq⟩ := Option.ite_none_right_eq_some.mp h
      cases heq
      exact Or.inl ⟨rfl, hother (by rw [hpoint]; decide) (by decide)⟩
  | exchange t spurious =>
      obtain ⟨hpoint, heq⟩ := Option.ite_none_right_eq_some.mp h
      split at heq
      · next hfree =>
          cases heq
          exact Or.inr (Or.inl ⟨t, hfree.1, rfl⟩)
      · cases heq
        exact Or.inl ⟨rfl, hother (by rw [hpoint]; decide) (by decide)⟩
  | load t =>
      obtain ⟨hpoint, heq⟩ := Option.ite_none_right_eq_some.mp h
      split at heq
      · cases heq
        exact Or.inl ⟨rfl, fun _ ↦ Iff.rfl⟩
      · cases heq
        exact Or.inl ⟨rfl, hother (by rw [hpoint]; decide) (by decide)⟩
  | tryLock t =>
      obtain ⟨-, heq⟩ := Option.ite_none_right_eq_some.mp h
      split at heq
      · next hfree =>
          cases heq
          exact Or.inr (Or.inl ⟨t, hfree, rfl⟩)
      · cases heq
        exact Or.inl ⟨rfl, fun _ ↦ Iff.rfl⟩
  | unlock t =>
      obtain ⟨hpoint, heq⟩ := Option.ite_none_right_eq_some.mp h
      cases heq
      exact Or.inr (Or.inr ⟨t, rfl, hpoint, rfl⟩)

omit [DecidableEq Task] in
/-- No two tasks have the lock. -/
theorem Owned.unique {s : SpinLock Task} (h : s.Owned) {t other : Task}
    (ht : s.points t = .holding) (hother : s.points other = .holding) : t = other := by
  rcases h with ⟨-, hnone⟩ | ⟨-, owner, howner⟩
  · exact absurd ht (hnone t)
  · exact ((howner t).mp ht).trans ((howner other).mp hother).symm

/-- Every access keeps the lock with one task. -/
theorem owned_step {s next : SpinLock Task} {action : LockAction Task} (h : s.Owned)
    (hstep : s.step action = some next) : next.Owned := by
  rcases step_cases hstep with ⟨hlocked, hpoints⟩ | ⟨t, hfree, rfl⟩ | ⟨t, -, ht, rfl⟩
  · rcases h with ⟨hfree, hnone⟩ | ⟨htaken, owner, howner⟩
    · exact Or.inl ⟨hlocked.trans hfree, fun t hcase ↦ hnone t ((hpoints t).mp hcase)⟩
    · exact Or.inr ⟨hlocked.trans htaken, owner, fun t ↦ (hpoints t).trans (howner t)⟩
  · rcases h with ⟨-, hnone⟩ | ⟨htaken, -⟩
    · refine Or.inr ⟨rfl, t, fun other ↦ ?_⟩
      rw [take, points_setPoint]
      by_cases heq : other = t
      · rw [if_pos heq]
        exact iff_of_true rfl heq
      · rw [if_neg heq]
        exact iff_of_false (hnone other) heq
    · rw [htaken] at hfree
      exact absurd hfree (by decide)
  · refine Or.inl ⟨rfl, fun other hcase ↦ ?_⟩
    rw [points_setPoint] at hcase
    split at hcase
    · cases hcase
    · next hne => exact hne (h.unique hcase ht)

omit [DecidableEq Task] in
theorem owned_new : (new : SpinLock Task).Owned := Or.inl ⟨rfl, fun _ h ↦ by cases h⟩

/-- A task in `lock` is two of its own accesses away from a lock that is free. -/
theorem run_take {s : SpinLock Task} (hfree : s.locked = 0) {t : Task} :
    (s.points t = .exchanging → s.step (.exchange t false) = some (s.take t)) ∧
      (s.points t = .spinning → run step s [.load t, .exchange t false] = some (s.take t)) := by
  refine ⟨fun hpoint ↦ ?_, fun hpoint ↦ ?_⟩
  · rw [step, if_pos hpoint, if_pos ⟨hfree, rfl⟩]
  · have hload : s.step (.load t) = some (s.setPoint t .exchanging) := by
      rw [step, if_pos hpoint, if_neg (not_not_intro hfree)]
    have hpoint' : (s.setPoint t .exchanging).points t = .exchanging := Function.update_self ..
    rw [run_cons, hload, Option.bind_some, run_cons, step, if_pos hpoint',
      if_pos ⟨hfree, rfl⟩, Option.bind_some, run_nil]
    unfold take setPoint
    rw [Function.update_idem]

/-- Wherever the accesses come, at most one task has the lock. The flag is set exactly while one
does, and while none does, a task in `lock` takes it with its next two accesses. -/
theorem lock_exclusive {s : SpinLock Task} (h : Reachable step new s) :
    (∀ t other, s.points t = .holding → s.points other = .holding → t = other) ∧
      (s.locked ≠ 0 ↔ ∃ t, s.points t = .holding) ∧
      ((∀ t, s.points t ≠ .holding) → ∀ t,
        (s.points t = .exchanging → s.step (.exchange t false) = some (s.take t)) ∧
        (s.points t = .spinning → run step s [.load t, .exchange t false] = some (s.take t))) := by
  have howned : s.Owned := h.invariant owned_new fun _ _ _ hstate hstep ↦ owned_step hstate hstep
  refine ⟨fun t other ↦ howned.unique, ?_, fun hnone t ↦ ?_⟩
  · rcases howned with ⟨hfree, hnone⟩ | ⟨htaken, t, ht⟩
    · exact iff_of_false (not_not_intro hfree) fun hcase ↦ hcase.elim hnone
    · exact iff_of_true (by rw [htaken]; decide) ⟨t, (ht t).mpr rfl⟩
  · rcases howned with ⟨hfree, -⟩ | ⟨-, owner, howner⟩
    · exact run_take hfree
    · exact absurd ((howner owner).mpr rfl) (hnone owner)

/-- Two tasks at the exchange at once: one takes the lock, the other goes to its inner loop. -/
theorem lock_exclusive_contended :
    ∃ s, run step (new : SpinLock Bool)
        [.lock true, .lock false, .exchange false false, .exchange true false] = some s ∧
      s.points true = .spinning ∧ s.points false = .holding ∧
      ∀ other, s.points other = .holding → false = other := by
  have hpoints : (run step (new : SpinLock Bool)
      [.lock true, .lock false, .exchange false false, .exchange true false]).map
        (fun s ↦ (s.points true, s.points false)) = some (.spinning, .holding) := by decide
  obtain ⟨s, hrun, hstate⟩ := Option.map_eq_some_iff.mp hpoints
  obtain ⟨htrue, hfalse⟩ := Prod.mk.inj hstate
  exact ⟨s, hrun, htrue, hfalse, fun other ↦ (lock_exclusive ⟨_, hrun⟩).1 false other hfalse⟩

end SpinLock

/-! ## Sends under the lock -/

namespace Traffic

variable {Sender : Type*} [DecidableEq Sender]

/-- The messages arrive in the order in which they were accepted. -/
def InOrder (state : Traffic Sender) : Prop :=
  state.accepted = state.delivered ++ state.ring.contents

/-- The only task in `send` puts its message behind the others. -/
theorem inOrder_stepSender {state next : Traffic Sender} {s : Sender} (h : state.InOrder)
    (hsound : state.SenderSound (state.senders s)) (hstep : state.stepSender s = some next) :
    next.InOrder := by
  rcases stepSender_cases hstep with
    ⟨msg, head, hpoint, rfl⟩ | ⟨msg, head, hpoint, -, rfl⟩ | ⟨msg, head, hpoint, rfl⟩ |
      ⟨msg, head, hpoint, rfl⟩ <;> rw [hpoint] at hsound
  · exact h
  · exact h
  · have hfree : ¬ state.ring.Occupied head := by
      rw [hsound.1]
      exact state.ring.not_occupied_head
    show state.accepted = state.delivered ++ (state.ring.write head msg).contents
    rw [RingQueue.contents_write_of_not_occupied hfree]
    exact h
  · obtain ⟨rfl, hroom, hslot⟩ := hsound
    show state.accepted ++ [msg] = state.delivered ++
      ({ state.ring with head := RingQueue.next state.ring.head } : RingBuffer).contents
    rw [RingQueue.contents_advance state.ring hroom, hslot, ← List.append_assoc, ← h]

omit [DecidableEq Sender] in
/-- The receiving task takes the first message. -/
theorem inOrder_stepReceiver {state : Traffic Sender} (h : state.InOrder)
    (hreceiver : state.ReceiverSound) : state.stepReceiver.InOrder := by
  unfold stepReceiver
  unfold ReceiverSound at hreceiver
  cases hpoint : state.receiver with
  | idle => exact h
  | tailLoaded tail =>
      by_cases hempty : tail = state.ring.head
      · simp only [if_pos hempty]
        exact h
      · simp only [if_neg hempty]
        exact h
  | itemSeen tail => exact h
  | slotRead msg tail =>
      simp only [hpoint] at hreceiver
      obtain ⟨rfl, hne, hslot⟩ := hreceiver
      show state.accepted = (state.delivered ++ [msg]) ++ state.ring.drop.contents
      rw [List.append_assoc, List.singleton_append, ← hslot, ← RingQueue.contents_drop hne]
      exact h

/-- An access of another task does not move a task. -/
theorem senders_step {state next : Traffic Sender} {access : Access Sender} {t : Sender}
    (hstep : state.step access = some next) (hsend : ∀ msg, access ≠ .send t msg)
    (hsender : access ≠ .sender t) : next.senders t = state.senders t := by
  cases access with
  | send s msg =>
      obtain ⟨-, rfl⟩ := step_send_eq_some.mp hstep
      exact Function.update_of_ne (fun heq ↦ hsend msg (by rw [heq])) _ _
  | sender s =>
      have hne : t ≠ s := fun heq ↦ hsender (by rw [heq])
      rcases stepSender_cases hstep with
        ⟨_, _, -, rfl⟩ | ⟨_, _, -, -, rfl⟩ | ⟨_, _, -, rfl⟩ | ⟨_, _, -, rfl⟩ <;>
        exact Function.update_of_ne hne _ _
  | receiver =>
      cases hstep
      unfold stepReceiver
      cases state.receiver with
      | idle => rfl
      | tailLoaded tail =>
          dsimp only
          split <;> rfl
      | itemSeen tail => rfl
      | slotRead msg tail => rfl

end Traffic

/-- A channel whose senders share a lock. -/
structure Guarded (Task : Type*) where
  lock : SpinLock Task
  traffic : Traffic Task

/-- An access to the flag of the lock, or to the ring of the channel. -/
inductive GuardedAction (Task : Type*) where
  | lock (action : LockAction Task)
  | ring (access : Access Task)

namespace Guarded

variable {Task : Type*} [DecidableEq Task]

/-- A free lock and a new ring. -/
def start : Guarded Task := ⟨SpinLock.new, Traffic.start⟩

/-- A task sends while it has the lock, and gives it back when its call of `send` is over. `recv`
needs no lock. -/
def Allowed (state : Guarded Task) : GuardedAction Task → Prop
  | .lock (.unlock t) => state.traffic.senders t = .idle
  | .lock _ => True
  | .ring (.send t _) => state.lock.points t = .holding
  | .ring (.sender t) => state.lock.points t = .holding
  | .ring .receiver => True

instance : DecidablePred (· = SendPoint.idle)
  | .idle => isTrue rfl
  | .headLoaded .. => isFalse SendPoint.noConfusion
  | .roomSeen .. => isFalse SendPoint.noConfusion
  | .slotWritten .. => isFalse SendPoint.noConfusion

instance (state : Guarded Task) : DecidablePred state.Allowed
  | .lock (.unlock t) => inferInstanceAs (Decidable (state.traffic.senders t = .idle))
  | .lock (.lock _) => isTrue trivial
  | .lock (.exchange ..) => isTrue trivial
  | .lock (.load _) => isTrue trivial
  | .lock (.tryLock _) => isTrue trivial
  | .ring (.send t _) => inferInstanceAs (Decidable (state.lock.points t = .holding))
  | .ring (.sender t) => inferInstanceAs (Decidable (state.lock.points t = .holding))
  | .ring .receiver => isTrue trivial

/-- One access. -/
def access (state : Guarded Task) : GuardedAction Task → Option (Guarded Task)
  | .lock action => (state.lock.step action).map fun lock ↦ { state with lock }
  | .ring access => (state.traffic.step access).map fun traffic ↦ { state with traffic }

/-- One access of a task that follows the rules. -/
def step : Guarded Task → GuardedAction Task → Option (Guarded Task) := restrict access Allowed

/-- The lock and the channel are sound, and only the task with the lock is in `send`. -/
structure Sound (state : Guarded Task) : Prop where
  owned : state.lock.Owned
  oneSender : state.traffic.OneSender
  receiver : state.traffic.ReceiverSound
  inOrder : state.traffic.InOrder
  guarded : ∀ t, state.traffic.senders t ≠ .idle → state.lock.points t = .holding

omit [DecidableEq Task] in
theorem sound_start : (start : Guarded Task).Sound where
  owned := SpinLock.owned_new
  oneSender := fun _ ↦ ⟨trivial, fun hbusy ↦ absurd rfl hbusy⟩
  receiver := trivial
  inOrder := ((RingQueue.contents_eq_nil_iff _).mpr rfl).symm
  guarded := fun _ hbusy ↦ absurd rfl hbusy

theorem Sound.lock {state next : Guarded Task} {action : LockAction Task} (h : state.Sound)
    (hstep : state.step (.lock action) = some next) : next.Sound := by
  obtain ⟨hallowed, haccess⟩ := restrict_eq_some.mp hstep
  obtain ⟨lock, hlock, rfl⟩ := Option.map_eq_some_iff.mp haccess
  refine ⟨SpinLock.owned_step h.owned hlock, h.oneSender, h.receiver, h.inOrder, ?_⟩
  intro t hbusy
  have hholding := h.guarded t hbusy
  show lock.points t = .holding
  rcases SpinLock.step_cases hlock with ⟨-, hpoints⟩ | ⟨other, -, rfl⟩ | ⟨other, rfl, -, rfl⟩
  · exact (hpoints t).mpr hholding
  · rw [SpinLock.take, SpinLock.points_setPoint]
    split
    · rfl
    · exact hholding
  · -- the task that gives the lock back is not in `send`
    have hne : t ≠ other := fun heq ↦ hbusy (heq ▸ hallowed)
    rw [SpinLock.points_setPoint, if_neg hne]
    exact hholding

omit [DecidableEq Task] in
/-- While a task has the lock, no other one is in `send`. -/
theorem Sound.alone {state : Guarded Task} (h : state.Sound) {t other : Task}
    (ht : state.lock.points t = .holding) (hne : other ≠ t) :
    state.traffic.senders other = .idle := by
  by_contra hbusy
  exact hne (h.owned.unique (h.guarded other hbusy) ht)

theorem Sound.ring {state next : Guarded Task} {access : Access Task} (h : state.Sound)
    (hstep : state.step (.ring access) = some next) : next.Sound := by
  obtain ⟨hallowed, haccess⟩ := restrict_eq_some.mp hstep
  obtain ⟨traffic, htraffic, rfl⟩ := Option.map_eq_some_iff.mp haccess
  have hexclusive : state.traffic.Exclusive access := by
    cases access with
    | send t msg => exact fun other hne ↦ h.alone hallowed hne
    | sender t => trivial
    | receiver => trivial
  have hundisturbed := Traffic.undisturbed_of_oneSender h.oneSender access
  refine ⟨h.owned, Traffic.oneSender_step h.oneSender h.receiver hexclusive htraffic,
    Traffic.receiverSound_step h.receiver hundisturbed htraffic, ?_, ?_⟩
  · cases access with
    | send t msg =>
        obtain ⟨-, rfl⟩ := Traffic.step_send_eq_some.mp htraffic
        exact h.inOrder
    | sender t => exact Traffic.inOrder_stepSender h.inOrder (h.oneSender t).1 htraffic
    | receiver =>
        cases htraffic
        exact Traffic.inOrder_stepReceiver h.inOrder h.receiver
  · intro t hbusy
    show state.lock.points t = .holding
    by_cases hown : access = .sender t ∨ ∃ msg, access = .send t msg
    · rcases hown with rfl | ⟨msg, rfl⟩
      · exact hallowed
      · exact hallowed
    · obtain ⟨hsender, hsend⟩ := not_or.mp hown
      refine h.guarded t fun hidle ↦ hbusy ?_
      rw [← hidle]
      exact Traffic.senders_step htraffic (not_exists.mp hsend) hsender

/-- Tasks that send under the lock lose no message, duplicate none and keep their order, wherever
the accesses of the tasks come; and only the task that has the lock is in `send`. -/
theorem guarded_in_order {state : Guarded Task} (h : Reachable step start state) :
    state.traffic.accepted = state.traffic.delivered ++ state.traffic.ring.contents ∧
      ∀ t, state.traffic.senders t ≠ .idle → ∀ other, state.lock.points other = .holding ↔
        other = t := by
  have hsound : state.Sound := by
    refine h.invariant sound_start fun state action next hstate hstep ↦ ?_
    cases action with
    | lock action => exact hstate.lock hstep
    | ring access => exact hstate.ring hstep
  refine ⟨hsound.inOrder, fun t hbusy other ↦ ?_⟩
  have hholding := hsound.guarded t hbusy
  exact ⟨fun hother ↦ hsound.owned.unique hother hholding, fun heq ↦ heq ▸ hholding⟩

/-- A task that waits for the lock while another one sends, and sends after it. -/
theorem guarded_in_order_two :
    ∃ state, run step (start : Guarded Bool)
        [.lock (.lock true), .lock (.exchange true false), .lock (.lock false),
          .ring (.send true ⟨1, 0, Vector.replicate _ 0⟩), .lock (.exchange false false),
          .ring (.sender true), .ring (.sender true), .ring (.sender true), .lock (.load false),
          .lock (.unlock true), .lock (.load false), .lock (.exchange false false),
          .ring (.send false ⟨2, 0, Vector.replicate _ 0⟩), .ring (.sender false)] = some state ∧
      state.traffic.accepted = state.traffic.delivered ++ state.traffic.ring.contents := by
  have hsome : (run step (start : Guarded Bool)
      [.lock (.lock true), .lock (.exchange true false), .lock (.lock false),
        .ring (.send true ⟨1, 0, Vector.replicate _ 0⟩), .lock (.exchange false false),
        .ring (.sender true), .ring (.sender true), .ring (.sender true), .lock (.load false),
        .lock (.unlock true), .lock (.load false), .lock (.exchange false false),
        .ring (.send false ⟨2, 0, Vector.replicate _ 0⟩), .ring (.sender false)]).isSome := by
    decide +kernel
  obtain ⟨state, hrun⟩ := Option.isSome_iff_exists.mp hsome
  exact ⟨state, hrun, (guarded_in_order ⟨_, hrun⟩).1⟩

end Guarded

end Avaria.Ipc
