import Avaria.Ipc.Channel

/-!
# Interleaved sends

`send` and `recv` on one active channel, cut at their accesses to the shared ring: a timer tick may
switch tasks between any two of them. Any number of tasks send, one receives.

`push` reserves nothing: between its load of the head and its store, another task may load the same
head. `interleaving_intact_iff` says what has to hold at each write and each store for no message
to be lost or duplicated, and `exclusive_intact` that tasks which send one after the other are safe.
-/

namespace Avaria.Ipc

open Transition

/-- The index of a slot of the ring. -/
abbrev Slot := Fin RING_SIZE

/-- Where a task is in `send`, with what it has loaded so far. -/
inductive SendPoint where
  | idle
  | headLoaded (msg : Message) (head : Slot)
  | roomSeen (msg : Message) (head : Slot)
  | slotWritten (msg : Message) (head : Slot)

/-- Where the receiving task is in `recv`. -/
inductive RecvPoint where
  | idle
  | tailLoaded (tail : Slot)
  | itemSeen (tail : Slot)
  | slotRead (msg : Message) (tail : Slot)

/-- The ring, the tasks, and the messages accepted by `send` and returned by `recv` so far. -/
structure Traffic (Sender : Type*) where
  ring : RingBuffer
  senders : Sender → SendPoint
  receiver : RecvPoint
  accepted : List Message
  delivered : List Message

/-- The next step of a task: a call of `send`, which loads the head, or the next access of a call
that is under way. -/
inductive Access (Sender : Type*) where
  | send (s : Sender) (msg : Message)
  | sender (s : Sender)
  | receiver

namespace Traffic

variable {Sender : Type*} [DecidableEq Sender]

/-- A new ring and no call under way. -/
def start : Traffic Sender := ⟨RingBuffer.new, fun _ ↦ .idle, .idle, [], []⟩

/-- Put a sending task at another point. -/
def setSender (state : Traffic Sender) (s : Sender) (point : SendPoint) : Traffic Sender :=
  { state with senders := Function.update state.senders s point }

/-- The next access of `push`. -/
def stepSender (state : Traffic Sender) (s : Sender) : Option (Traffic Sender) :=
  match state.senders s with
  | .idle => none
  | .headLoaded msg head =>
      if RingQueue.next head = state.ring.tail then some (state.setSender s .idle)
      else some (state.setSender s (.roomSeen msg head))
  | .roomSeen msg head =>
      some ({ state with ring := state.ring.write head msg }.setSender s (.slotWritten msg head))
  | .slotWritten msg head =>
      some ({ state with
        ring := { state.ring with head := RingQueue.next head }
        accepted := state.accepted ++ [msg] }.setSender s .idle)

/-- The next access of `pop`. -/
def stepReceiver (state : Traffic Sender) : Traffic Sender :=
  match state.receiver with
  | .idle => { state with receiver := .tailLoaded state.ring.tail }
  | .tailLoaded tail =>
      if tail = state.ring.head then { state with receiver := .idle }
      else { state with receiver := .itemSeen tail }
  | .itemSeen tail => { state with receiver := .slotRead (state.ring.slots tail) tail }
  | .slotRead msg tail =>
      { state with
        ring := { state.ring with tail := RingQueue.next tail }
        receiver := .idle
        delivered := state.delivered ++ [msg] }

/-- One access of one task. -/
def step (state : Traffic Sender) : Access Sender → Option (Traffic Sender)
  | .send s msg =>
      match state.senders s with
      | .idle => some (state.setSender s (.headLoaded msg state.ring.head))
      | _ => none
  | .sender s => state.stepSender s
  | .receiver => some state.stepReceiver

/-- Every accepted message is delivered or in the ring, once, and nothing else is. -/
def Intact (state : Traffic Sender) : Prop :=
  state.accepted.Perm (state.delivered ++ state.ring.contents)

/-- What a task at this point writes replaces no other message of the ring, and where it stores the
head it moves it on by the one slot that holds its message. -/
def UndisturbedAt (state : Traffic Sender) : SendPoint → Prop
  | .idle => True
  | .headLoaded _ _ => True
  | .roomSeen msg head => state.ring.Occupied head → state.ring.slots head = msg
  | .slotWritten msg head =>
      head = state.ring.head ∧ RingQueue.next head ≠ state.ring.tail ∧
        state.ring.slots head = msg

/-- The access disturbs no message. -/
def Undisturbed (state : Traffic Sender) : Access Sender → Prop
  | .send _ _ => True
  | .sender s => state.UndisturbedAt (state.senders s)
  | .receiver => True

/-- What the receiving task has loaded is still so. -/
def ReceiverSound (state : Traffic Sender) : Prop :=
  match state.receiver with
  | .idle => True
  | .tailLoaded tail => tail = state.ring.tail
  | .itemSeen tail => tail = state.ring.tail ∧ tail ≠ state.ring.head
  | .slotRead msg tail =>
      tail = state.ring.tail ∧ tail ≠ state.ring.head ∧ state.ring.slots tail = msg

end Traffic

/-! ## Single accesses -/

/-- A write of a message keeps the messages of a ring exactly if it replaces none by another. -/
theorem contents_write_perm_iff (ring : RingBuffer) (slot : Slot) (msg : Message) :
    (ring.write slot msg).contents.Perm ring.contents ↔
      (ring.Occupied slot → ring.slots slot = msg) := by
  by_cases hocc : ring.Occupied slot
  · obtain ⟨k, hk, hslot⟩ := hocc
    have hlen : k < ring.contents.length := by
      rw [RingQueue.length_contents]
      exact hk
    have hget := RingQueue.getElem_contents ring hlen
    subst hslot
    rw [RingQueue.contents_write_of_occupied hk]
    constructor
    · intro hperm _
      have hcount := hperm.count_eq msg
      rw [List.count_set hlen] at hcount
      by_contra hne
      rw [hget] at hcount
      simp [hne] at hcount
    · intro h
      rw [← h ⟨k, hk, rfl⟩, ← hget, List.set_getElem_self]
  · rw [RingQueue.contents_write_of_not_occupied hocc]
    exact iff_of_true (List.Perm.refl _) fun h ↦ absurd h hocc

/-- A store of the head adds one message to a ring exactly if it moves the head on by the slot of
this message. -/
theorem contents_store_perm_iff (ring : RingBuffer) (slot : Slot) (msg : Message) :
    ({ ring with head := RingQueue.next slot } : RingBuffer).contents.Perm
        (ring.contents ++ [msg]) ↔
      slot = ring.head ∧ RingQueue.next slot ≠ ring.tail ∧ ring.slots slot = msg := by
  constructor
  · intro hperm
    have hlen := hperm.length_eq
    rw [RingQueue.length_contents, List.length_append, RingQueue.length_contents,
      List.length_singleton] at hlen
    have hlt := RingQueue.filled_lt ({ ring with head := RingQueue.next slot } : RingBuffer)
    have hshift : RingQueue.shift ring.tail
        (RingQueue.filled ({ ring with head := RingQueue.next slot } : RingBuffer)) =
        RingQueue.next slot :=
      RingQueue.shift_filled ({ ring with head := RingQueue.next slot } : RingBuffer)
    rw [hlen, ← RingQueue.next_shift, RingQueue.shift_filled] at hshift
    have hhead : slot = ring.head := (RingQueue.next_inj hshift).symm
    have hroom : RingQueue.next slot ≠ ring.tail := by
      rw [hhead]
      intro hfull
      have hsize := ring.next_head_eq_tail_iff.mp hfull
      rw [RingQueue.length_contents] at hsize
      omega
    refine ⟨hhead, hroom, ?_⟩
    subst hhead
    rw [RingQueue.contents_advance _ hroom] at hperm
    have hsingle := (List.perm_append_left_iff ring.contents).mp hperm
    exact List.singleton_perm_singleton.mp hsingle
  · intro h
    obtain ⟨hhead, hroom, hslot⟩ := h
    subst hhead
    rw [RingQueue.contents_advance _ hroom, hslot]

namespace Traffic

variable {Sender : Type*} [DecidableEq Sender]

/-- Everything the next access of a sending task can be: give up because the ring is full, see that
there is room, write the message, or store the head. -/
theorem stepSender_cases {state next : Traffic Sender} {s : Sender}
    (hstep : state.stepSender s = some next) :
    (∃ msg head, state.senders s = .headLoaded msg head ∧ next = state.setSender s .idle) ∨
    (∃ msg head, state.senders s = .headLoaded msg head ∧ RingQueue.next head ≠ state.ring.tail ∧
      next = state.setSender s (.roomSeen msg head)) ∨
    (∃ msg head, state.senders s = .roomSeen msg head ∧ next =
      { state with ring := state.ring.write head msg }.setSender s (.slotWritten msg head)) ∨
    ∃ msg head, state.senders s = .slotWritten msg head ∧ next =
      { state with
        ring := { state.ring with head := RingQueue.next head }
        accepted := state.accepted ++ [msg] }.setSender s .idle := by
  unfold stepSender at hstep
  cases hpoint : state.senders s with
  | idle =>
      rw [hpoint] at hstep
      cases hstep
  | headLoaded msg head =>
      simp only [hpoint] at hstep
      split at hstep
      · cases hstep
        exact Or.inl ⟨msg, head, rfl, rfl⟩
      · next hroom =>
          cases hstep
          exact Or.inr (Or.inl ⟨msg, head, rfl, hroom, rfl⟩)
  | roomSeen msg head =>
      simp only [hpoint] at hstep
      cases hstep
      exact Or.inr (Or.inr (Or.inl ⟨msg, head, rfl, rfl⟩))
  | slotWritten msg head =>
      simp only [hpoint] at hstep
      cases hstep
      exact Or.inr (Or.inr (Or.inr ⟨msg, head, rfl, rfl⟩))

omit [DecidableEq Sender] in
/-- The messages of two states with the same deliveries, compared. -/
theorem intact_iff_perm {state : Traffic Sender} (h : state.Intact) (ring : RingBuffer)
    (more : List Message) :
    (state.accepted ++ more).Perm (state.delivered ++ ring.contents) ↔
      ring.contents.Perm (state.ring.contents ++ more) := by
  have happend : (state.accepted ++ more).Perm
      (state.delivered ++ (state.ring.contents ++ more)) := by
    rw [← List.append_assoc]
    exact h.append_right more
  constructor
  · intro hperm
    exact ((List.perm_append_left_iff _).mp (happend.symm.trans hperm)).symm
  · intro hperm
    exact happend.trans ((List.perm_append_left_iff _).mpr hperm.symm)

/-- Each access of a sending task keeps the messages intact exactly if it disturbs nothing. -/
theorem intact_stepSender_iff {state next : Traffic Sender} {s : Sender} (h : state.Intact)
    (hstep : state.stepSender s = some next) : next.Intact ↔ state.Undisturbed (.sender s) := by
  have hsame := (intact_iff_perm h state.ring []).mpr (by rw [List.append_nil])
  rw [List.append_nil] at hsame
  rw [Undisturbed]
  rcases stepSender_cases hstep with
    ⟨msg, head, hpoint, rfl⟩ | ⟨msg, head, hpoint, -, rfl⟩ | ⟨msg, head, hpoint, rfl⟩ |
      ⟨msg, head, hpoint, rfl⟩ <;> rw [hpoint]
  · exact iff_of_true hsame trivial
  · exact iff_of_true hsame trivial
  · have hperm := intact_iff_perm h (state.ring.write head msg) []
    rw [List.append_nil, List.append_nil, contents_write_perm_iff] at hperm
    exact hperm
  · have hperm := intact_iff_perm h { state.ring with head := RingQueue.next head } [msg]
    rw [contents_store_perm_iff] at hperm
    exact hperm

omit [DecidableEq Sender] in
/-- The receiving task takes a message out of the ring when it stores the tail. -/
theorem intact_stepReceiver {state : Traffic Sender} (h : state.Intact)
    (hreceiver : state.ReceiverSound) : state.stepReceiver.Intact := by
  unfold stepReceiver
  unfold ReceiverSound at hreceiver
  cases hpoint : state.receiver with
  | idle => exact h
  | tailLoaded tail =>
      by_cases hempty : tail = state.ring.head
      · simp only [if_pos hempty]
        exact h
      · simp only [if_neg hempty]
        exact h
  | itemSeen tail => exact h
  | slotRead msg tail =>
      simp only [hpoint] at hreceiver
      obtain ⟨htail, hne, hslot⟩ := hreceiver
      subst htail
      show state.accepted.Perm ((state.delivered ++ [msg]) ++ state.ring.drop.contents)
      rw [List.append_assoc, List.singleton_append, ← hslot, ← RingQueue.contents_drop hne]
      exact h

omit [DecidableEq Sender] in
/-- What the receiving task has loaded stays so over its own accesses. -/
theorem receiverSound_stepReceiver {state : Traffic Sender} (h : state.ReceiverSound) :
    state.stepReceiver.ReceiverSound := by
  unfold stepReceiver
  unfold ReceiverSound at h
  cases hpoint : state.receiver with
  | idle => exact rfl
  | tailLoaded tail =>
      simp only [hpoint] at h ⊢
      by_cases hempty : tail = state.ring.head
      · rw [if_pos hempty]
        trivial
      · rw [if_neg hempty]
        exact ⟨h, hempty⟩
  | itemSeen tail =>
      simp only [hpoint] at h
      exact ⟨h.1, h.2, rfl⟩
  | slotRead msg tail => trivial

omit [DecidableEq Sender] in
/-- What the receiving task has loaded stays so over a write that replaces no other message. -/
theorem receiverSound_write {state : Traffic Sender} {head : Slot} {msg : Message}
    (h : state.ReceiverSound)
    (hundisturbed : state.ring.Occupied head → state.ring.slots head = msg) :
    ReceiverSound { state with ring := state.ring.write head msg } := by
  unfold ReceiverSound at h ⊢
  cases hreceiver : state.receiver with
  | idle => trivial
  | tailLoaded tail =>
      rw [hreceiver] at h
      exact h
  | itemSeen tail =>
      rw [hreceiver] at h
      exact h
  | slotRead taken tail =>
      simp only [hreceiver] at h
      obtain ⟨htail, hne, hslot⟩ := h
      refine ⟨htail, hne, ?_⟩
      show Function.update state.ring.slots head msg tail = taken
      by_cases heq : tail = head
      · -- the tail is occupied, so the write put there what was there
        subst heq
        rw [Function.update_self, ← hslot]
        have hocc : state.ring.Occupied tail := by
          rw [htail]
          exact RingQueue.occupied_tail (htail ▸ hne)
        exact (hundisturbed hocc).symm
      · rw [Function.update_of_ne heq]
        exact hslot

omit [DecidableEq Sender] in
/-- It stays so over a store of the head that leaves the ring with a message. -/
theorem receiverSound_store {state : Traffic Sender} {head : Slot} (h : state.ReceiverSound)
    (hroom : RingQueue.next head ≠ state.ring.tail) :
    ReceiverSound { state with ring := { state.ring with head := RingQueue.next head } } := by
  unfold ReceiverSound at h ⊢
  cases hreceiver : state.receiver with
  | idle => trivial
  | tailLoaded tail =>
      rw [hreceiver] at h
      exact h
  | itemSeen tail =>
      simp only [hreceiver] at h
      exact ⟨h.1, fun heq ↦ hroom (heq.symm.trans h.1)⟩
  | slotRead taken tail =>
      simp only [hreceiver] at h
      exact ⟨h.1, fun heq ↦ hroom (heq.symm.trans h.1), h.2.2⟩

/-- What the receiving task has loaded stays so over an access that disturbs nothing. -/
theorem receiverSound_stepSender {state next : Traffic Sender} {s : Sender}
    (h : state.ReceiverSound) (hundisturbed : state.Undisturbed (.sender s))
    (hstep : state.stepSender s = some next) : next.ReceiverSound := by
  rw [Undisturbed] at hundisturbed
  rcases stepSender_cases hstep with
    ⟨msg, head, hpoint, rfl⟩ | ⟨msg, head, hpoint, -, rfl⟩ | ⟨msg, head, hpoint, rfl⟩ |
      ⟨msg, head, hpoint, rfl⟩ <;> rw [hpoint] at hundisturbed
  · exact h
  · exact h
  · exact receiverSound_write h hundisturbed
  · have hstored := receiverSound_store h hundisturbed.2.1
    exact hstored

/-- A call of `send` starts with a load of the head. -/
theorem step_send_eq_some {state next : Traffic Sender} {s : Sender} {msg : Message} :
    state.step (.send s msg) = some next ↔
      state.senders s = .idle ∧ next = state.setSender s (.headLoaded msg state.ring.head) := by
  unfold step
  cases hpoint : state.senders s <;> simp [hpoint, eq_comm]

/-- Each access keeps the messages intact exactly if it disturbs nothing. -/
theorem intact_step_iff {state next : Traffic Sender} {access : Access Sender}
    (hreceiver : state.ReceiverSound) (h : state.Intact)
    (hstep : state.step access = some next) : next.Intact ↔ state.Undisturbed access := by
  cases access with
  | send s msg =>
      obtain ⟨_, rfl⟩ := step_send_eq_some.mp hstep
      exact iff_of_true h trivial
  | sender s => exact intact_stepSender_iff h hstep
  | receiver =>
      cases hstep
      exact iff_of_true (intact_stepReceiver h hreceiver) trivial

/-- What the receiving task has loaded stays so over every access that disturbs nothing. -/
theorem receiverSound_step {state next : Traffic Sender} {access : Access Sender}
    (h : state.ReceiverSound) (hundisturbed : state.Undisturbed access)
    (hstep : state.step access = some next) : next.ReceiverSound := by
  cases access with
  | send s msg =>
      obtain ⟨_, rfl⟩ := step_send_eq_some.mp hstep
      exact h
  | sender s => exact receiverSound_stepSender h hundisturbed hstep
  | receiver =>
      cases hstep
      exact receiverSound_stepReceiver h

/-- An access that is not possible disturbs nothing. -/
theorem undisturbed_of_stuck {state : Traffic Sender} {access : Access Sender}
    (h : state.step access = none) : state.Undisturbed access := by
  cases access with
  | send s msg => trivial
  | sender s =>
      have hnone : state.stepSender s = none := h
      unfold stepSender at hnone
      rw [Undisturbed]
      cases hpoint : state.senders s with
      | idle => trivial
      | headLoaded => trivial
      | roomSeen => simp [hpoint] at hnone
      | slotWritten => simp [hpoint] at hnone
  | receiver => trivial

omit [DecidableEq Sender] in
theorem intact_start : (start : Traffic Sender).Intact := by
  show List.Perm [] ([] ++ RingBuffer.new.contents)
  rw [RingBuffer.contents_new, List.append_nil]

/-- Over any interleaving of any number of sending tasks and one receiving task, no message is lost
or duplicated exactly if no access disturbs another: each write goes to a slot that holds no other
message of the ring, and each store of the head finds the head where the task had loaded it, room
for one message, and its own message in the slot. -/
theorem interleaving_intact_iff (accesses : List (Access Sender)) :
    Along step Intact start accesses ↔ Throughout step Undisturbed start accesses := by
  have hreceiver : (start : Traffic Sender).ReceiverSound := trivial
  refine along_iff_throughout_of_kept ?_ ?_ ?_ hreceiver intact_start accesses
  · intro state access next hreceiver h hnext hstep
    exact receiverSound_step hreceiver ((intact_step_iff hreceiver h hstep).mp hnext) hstep
  · exact fun state access next hreceiver h hstep ↦ intact_step_iff hreceiver h hstep
  · exact fun state access hstuck ↦ undisturbed_of_stuck hstuck

/-- Two tasks load the same head, and the second overwrites the message of the first: `send`
returned true twice, and one message is in the ring. -/
theorem interleaving_lost :
    ¬ Along step Intact (start : Traffic Bool)
      [.send false ⟨1, 0, Vector.replicate _ 0⟩, .send true ⟨2, 0, Vector.replicate _ 0⟩,
        .sender false, .sender false, .sender false, .sender true, .sender true, .sender true] := by
  intro h
  have hcounts : (run step (start : Traffic Bool)
      [.send false ⟨1, 0, Vector.replicate _ 0⟩, .send true ⟨2, 0, Vector.replicate _ 0⟩,
        .sender false, .sender false, .sender false, .sender true, .sender true,
        .sender true]).map (fun state ↦ (state.accepted.length,
          (state.delivered ++ state.ring.contents).length)) = some (2, 1) := by decide +kernel
  obtain ⟨final, hrun, hfinal⟩ := Option.map_eq_some_iff.mp hcounts
  have hlen := (h.final hrun).length_eq
  rw [(Prod.mk.inj hfinal).1, (Prod.mk.inj hfinal).2] at hlen
  exact absurd hlen (by decide)

/-! ## Sends one after the other -/

/-- A call of `send` starts only while no other one is under way. -/
def Exclusive (state : Traffic Sender) : Access Sender → Prop
  | .send s _ => ∀ other, other ≠ s → state.senders other = .idle
  | _ => True

/-- What a task has loaded and seen in `send` is still so. -/
def SenderSound (state : Traffic Sender) : SendPoint → Prop
  | .idle => True
  | .headLoaded _ head => head = state.ring.head
  | .roomSeen _ head => head = state.ring.head ∧ RingQueue.next head ≠ state.ring.tail
  | .slotWritten msg head =>
      head = state.ring.head ∧ RingQueue.next head ≠ state.ring.tail ∧
        state.ring.slots head = msg

/-- At most one task is in `send`, and what it has loaded is still so. -/
def OneSender (state : Traffic Sender) : Prop :=
  ∀ s, state.SenderSound (state.senders s) ∧
    (state.senders s ≠ .idle → ∀ other, other ≠ s → state.senders other = .idle)

omit [DecidableEq Sender] in
/-- The accesses of the only task in `send` disturb nothing. -/
theorem undisturbed_of_oneSender {state : Traffic Sender} (h : state.OneSender)
    (access : Access Sender) : state.Undisturbed access := by
  cases access with
  | send s msg => trivial
  | sender s =>
      have hsound := (h s).1
      rw [Undisturbed]
      cases hpoint : state.senders s with
      | idle => trivial
      | headLoaded => trivial
      | roomSeen msg head =>
          rw [hpoint] at hsound
          intro hocc
          rw [hsound.1] at hocc
          exact absurd hocc state.ring.not_occupied_head
      | slotWritten msg head =>
          rw [hpoint] at hsound
          exact hsound
  | receiver => trivial

/-- When one task moves on and the others are not in `send`, at most one is. -/
theorem oneSender_setSender {state : Traffic Sender} {s : Sender} {point : SendPoint}
    (hother : ∀ other, other ≠ s → state.senders other = .idle)
    (hsound : state.SenderSound point) : (state.setSender s point).OneSender := by
  intro t
  by_cases heq : t = s
  · subst heq
    refine ⟨?_, fun _ other hne ↦ ?_⟩
    · show state.SenderSound (Function.update state.senders t point t)
      rw [Function.update_self]
      exact hsound
    · exact (Function.update_of_ne hne _ _).trans (hother other hne)
  · have hidle : (state.setSender s point).senders t = .idle :=
      (Function.update_of_ne heq _ _).trans (hother t heq)
    rw [hidle]
    exact ⟨trivial, fun hbusy ↦ absurd rfl hbusy⟩

/-- The only task in `send` stays the only one. -/
theorem oneSender_stepSender {state next : Traffic Sender} {s : Sender} (h : state.OneSender)
    (hstep : state.stepSender s = some next) : next.OneSender := by
  obtain ⟨hsound, hother⟩ := h s
  rcases stepSender_cases hstep with
    ⟨msg, head, hpoint, rfl⟩ | ⟨msg, head, hpoint, hroom, rfl⟩ | ⟨msg, head, hpoint, rfl⟩ |
      ⟨msg, head, hpoint, rfl⟩ <;> rw [hpoint] at hsound hother
  · exact oneSender_setSender (hother SendPoint.noConfusion) trivial
  · exact oneSender_setSender (hother SendPoint.noConfusion) ⟨hsound, hroom⟩
  · have hidle := hother SendPoint.noConfusion
    have hwritten : SenderSound { state with ring := state.ring.write head msg }
        (.slotWritten msg head) := ⟨hsound.1, hsound.2, Function.update_self ..⟩
    refine oneSender_setSender ?_ hwritten
    exact hidle
  · have hidle := hother SendPoint.noConfusion
    refine oneSender_setSender ?_ trivial
    exact hidle

omit [DecidableEq Sender] in
/-- The receiving task makes room and touches nothing else that a task in `send` has loaded. -/
theorem oneSender_stepReceiver {state : Traffic Sender} (h : state.OneSender)
    (hreceiver : state.ReceiverSound) : state.stepReceiver.OneSender := by
  unfold stepReceiver
  unfold ReceiverSound at hreceiver
  cases hpoint : state.receiver with
  | idle => exact h
  | tailLoaded tail =>
      by_cases hempty : tail = state.ring.head
      · simp only [if_pos hempty]
        exact h
      · simp only [if_neg hempty]
        exact h
  | itemSeen tail => exact h
  | slotRead msg tail =>
      simp only [hpoint] at hreceiver
      obtain ⟨htail, hne, _⟩ := hreceiver
      intro s
      obtain ⟨hsound, hother⟩ := h s
      refine ⟨?_, hother⟩
      -- the tail moves on to the head at most, which is not the slot after the head
      have hroom (head : Slot) (hhead : head = state.ring.head) :
          RingQueue.next head ≠ RingQueue.next tail := by
        intro heq
        exact hne ((RingQueue.next_inj heq).symm.trans hhead)
      show SenderSound _ (state.senders s)
      cases hsender : state.senders s with
      | idle => trivial
      | headLoaded msg head =>
          rw [hsender] at hsound
          exact hsound
      | roomSeen msg head =>
          rw [hsender] at hsound
          exact ⟨hsound.1, hroom head hsound.1⟩
      | slotWritten msg head =>
          rw [hsender] at hsound
          exact ⟨hsound.1, hroom head hsound.1, hsound.2.2⟩

/-- While calls of `send` start one after the other, at most one task is in `send`. -/
theorem oneSender_step {state next : Traffic Sender} {access : Access Sender}
    (h : state.OneSender) (hreceiver : state.ReceiverSound) (hexclusive : state.Exclusive access)
    (hstep : state.step access = some next) : next.OneSender := by
  cases access with
  | send s msg =>
      obtain ⟨_, rfl⟩ := step_send_eq_some.mp hstep
      exact oneSender_setSender hexclusive rfl
  | sender s => exact oneSender_stepSender h hstep
  | receiver =>
      cases hstep
      exact oneSender_stepReceiver h hreceiver

/-- Tasks that call `send` one after the other lose and duplicate no message, wherever `recv` comes
in between. -/
theorem exclusive_intact {accesses : List (Access Sender)}
    (h : Throughout step Exclusive start accesses) : Along step Intact start accesses := by
  have hstart : (start : Traffic Sender).Intact ∧ (start : Traffic Sender).OneSender ∧
      (start : Traffic Sender).ReceiverSound :=
    ⟨intact_start, fun s ↦ ⟨trivial, fun hbusy ↦ absurd rfl hbusy⟩, trivial⟩
  have halong := h.along
    (P := fun state ↦ state.Intact ∧ state.OneSender ∧ state.ReceiverSound) ?_ hstart
  · exact halong.mono fun _ hstate ↦ hstate.1
  · intro state access next hstate hexclusive hstep
    obtain ⟨hintact, hone, hreceiver⟩ := hstate
    have hundisturbed := undisturbed_of_oneSender hone access
    exact ⟨(intact_step_iff hreceiver hintact hstep).mpr hundisturbed,
      oneSender_step hone hreceiver hexclusive hstep,
      receiverSound_step hreceiver hundisturbed hstep⟩

/-! ## Calls without interruption -/

/-- An uninterrupted `send` is a `push`. -/
theorem run_send (state : Traffic Sender) {s : Sender} (hidle : state.senders s = .idle)
    (msg : Message) (hroom : RingQueue.next state.ring.head ≠ state.ring.tail) :
    run step state [.send s msg, .sender s, .sender s, .sender s] =
      some { state with
        ring := (state.ring.push msg).2
        accepted := state.accepted ++ [msg] } := by
  have hback : Function.update state.senders s .idle = state.senders := by
    rw [← hidle, Function.update_eq_self]
  simp only [run_cons, run_nil, step, hidle, Option.bind_some, stepSender, setSender,
    Function.update_self, Function.update_idem, if_neg hroom, hback, RingBuffer.push,
    RingQueue.write]

/-- An uninterrupted `recv` is a `pop`. -/
theorem run_recv (state : Traffic Sender) (hidle : state.receiver = .idle)
    (hne : state.ring.tail ≠ state.ring.head) :
    run step state [.receiver, .receiver, .receiver, .receiver] =
      some { state with
        ring := (state.ring.pop).2
        delivered := state.delivered ++ (state.ring.pop).1.toList } := by
  simp only [run_cons, run_nil, step, stepReceiver, hidle, Option.bind_some, if_neg hne,
    RingBuffer.pop, Option.toList_some]

end Traffic

end Avaria.Ipc
