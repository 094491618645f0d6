import Avaria.Lib.RingQueue
import Avaria.Lib.Transition

/-!
# IPC channels

The channel table of `ipc.rs`: `create_channel`, `send`, `recv` and `destroy_channel`, each run to
completion. A channel keeps its ring over its whole life; `create_channel` and `destroy_channel`
only touch the flag and the owner.

`channels_fifo` says that over every sequence of operations each channel is a bounded queue of its
own.
-/

namespace Avaria.Ipc

open Transition

/-- `MAX_CHANNELS`. -/
abbrev MAX_CHANNELS : Nat := 32

/-- `RING_SIZE`. -/
abbrev RING_SIZE : Nat := 64

/-- `MSG_SIZE`. -/
abbrev MSG_SIZE : Nat := 64

/-- `struct Message`. -/
structure Message where
  src : UInt32
  msgType : UInt32
  data : Vector UInt8 (MSG_SIZE - 8)
  deriving DecidableEq

/-- `Message::empty`. -/
def Message.empty : Message := ⟨0, 0, Vector.replicate _ 0⟩

/-- `struct RingBuffer`. The indices are always the rest of a division by `RING_SIZE`. -/
abbrev RingBuffer := RingQueue Message RING_SIZE

/-- `RingBuffer::new`. -/
def RingBuffer.new : RingBuffer := ⟨fun _ ↦ Message.empty, ⟨0, by decide⟩, ⟨0, by decide⟩⟩

/-- `RingBuffer::push`. -/
def RingBuffer.push (ring : RingBuffer) (msg : Message) : Bool × RingBuffer :=
  let next := RingQueue.next ring.head
  if next = ring.tail then (false, ring)
  else (true, { ring with slots := Function.update ring.slots ring.head msg, head := next })

/-- `RingBuffer::pop`. -/
def RingBuffer.pop (ring : RingBuffer) : Option Message × RingBuffer :=
  if ring.tail = ring.head then (none, ring)
  else (some (ring.slots ring.tail), { ring with tail := RingQueue.next ring.tail })

/-- `struct Channel`. -/
structure Channel where
  active : Bool
  ring : RingBuffer
  owner : UInt32

/-- `Channel::new`. -/
def Channel.new : Channel := ⟨false, RingBuffer.new, 0⟩

/-- The index of a channel in the table. -/
abbrev ChannelId := Fin MAX_CHANNELS

/-- The statics `CHANNELS` and `NEXT_CHANNEL`. -/
structure ChannelTable where
  channels : ChannelId → Channel
  nextChannel : UInt32

/-- The statics at boot. -/
def ChannelTable.init : ChannelTable := ⟨fun _ ↦ Channel.new, 0⟩

namespace ChannelTable

/-- The entry of a channel id, unless it is out of range. -/
def index (id : UInt32) : Option ChannelId :=
  if h : id.toNat < MAX_CHANNELS then some ⟨id.toNat, h⟩ else none

/-- Replace an entry of the table. -/
def setChannel (table : ChannelTable) (c : ChannelId) (channel : Channel) : ChannelTable :=
  { table with channels := Function.update table.channels c channel }

/-- `create_channel`. The counter is raised first and lowered again if the table is exhausted. -/
def createChannel (table : ChannelTable) (owner : UInt32) : Option UInt32 × ChannelTable :=
  let id := table.nextChannel
  let table := { table with nextChannel := table.nextChannel + 1 }
  match index id with
  | none => (none, { table with nextChannel := table.nextChannel - 1 })
  | some c =>
      let ch := table.channels c
      (some id, table.setChannel c { ch with active := true, owner })

/-- `send`. -/
def send (table : ChannelTable) (channelId : UInt32) (msg : Message) : Bool × ChannelTable :=
  match index channelId with
  | none => (false, table)
  | some c =>
      let ch := table.channels c
      if ch.active = false then (false, table)
      else
        let (ok, ring) := ch.ring.push msg
        (ok, table.setChannel c { ch with ring })

/-- `recv`. -/
def recv (table : ChannelTable) (channelId : UInt32) : Option Message × ChannelTable :=
  match index channelId with
  | none => (none, table)
  | some c =>
      let ch := table.channels c
      if ch.active = false then (none, table)
      else
        let (msg, ring) := ch.ring.pop
        (msg, table.setChannel c { ch with ring })

/-- `destroy_channel`. -/
def destroyChannel (table : ChannelTable) (channelId : UInt32) : ChannelTable :=
  match index channelId with
  | none => table
  | some c => table.setChannel c { table.channels c with active := false }

end ChannelTable

/-! ## Operations -/

/-- A call of one of the four functions. -/
inductive IpcCall where
  | create (owner : UInt32)
  | send (channelId : UInt32) (msg : Message)
  | recv (channelId : UInt32)
  | destroy (channelId : UInt32)

/-- What a call returns. -/
inductive Answer where
  | created (id : Option UInt32)
  | sent (ok : Bool)
  | received (msg : Option Message)
  | destroyed
  deriving DecidableEq

/-- Execute a call. -/
def ChannelTable.call (table : ChannelTable) : IpcCall → Answer × ChannelTable
  | .create owner =>
      let (id, table) := table.createChannel owner
      (.created id, table)
  | .send channelId msg =>
      let (ok, table) := table.send channelId msg
      (.sent ok, table)
  | .recv channelId =>
      let (msg, table) := table.recv channelId
      (.received msg, table)
  | .destroy channelId => (.destroyed, table.destroyChannel channelId)

/-- The channel that a call names; `create_channel` works on the entry that the counter names. -/
def ChannelTable.named (table : ChannelTable) : IpcCall → Option ChannelId
  | .create _ => ChannelTable.index table.nextChannel
  | .send channelId _ => ChannelTable.index channelId
  | .recv channelId => ChannelTable.index channelId
  | .destroy channelId => ChannelTable.index channelId

/-- The call was refused, or its channel id is out of range. -/
def ChannelTable.Refused (table : ChannelTable) (call : IpcCall) : Prop :=
  table.named call = none ∨ (table.call call).1 = .sent false ∨ (table.call call).1 = .received none

instance (table : ChannelTable) (call : IpcCall) : Decidable (table.Refused call) :=
  inferInstanceAs (Decidable (_ ∨ _ ∨ _))

/-! ## The rings as queues -/

@[simp] theorem RingBuffer.contents_new : RingQueue.contents RingBuffer.new = [] := rfl

/-- `push` is refused by a ring with 63 messages, and otherwise adds the message at the end. -/
theorem RingBuffer.push_cases (ring : RingBuffer) (msg : Message) :
    (ring.contents.length = 63 ∧ ring.push msg = (false, ring)) ∨
      (ring.contents.length ≠ 63 ∧ ring.push msg = (true, ring.put msg) ∧
        (ring.put msg).contents = ring.contents ++ [msg]) := by
  have hfull := ring.next_head_eq_tail_iff
  by_cases h : RingQueue.next ring.head = ring.tail
  · refine Or.inl ⟨?_, if_pos h⟩
    have hlen : ring.contents.length + 1 = 64 := hfull.mp h
    omega
  · refine Or.inr ⟨?_, if_neg h, RingQueue.contents_put h msg⟩
    intro hlen
    exact h (hfull.mpr (by rw [hlen]))

/-- `pop` returns nothing from an empty ring, and otherwise takes the first message. -/
theorem RingBuffer.pop_cases (ring : RingBuffer) :
    (ring.contents = [] ∧ ring.pop = (none, ring)) ∨
      ∃ msg, ring.contents = msg :: ring.drop.contents ∧ ring.pop = (some msg, ring.drop) := by
  by_cases h : ring.tail = ring.head
  · exact Or.inl ⟨ring.contents_eq_nil_iff.mpr h, if_pos h⟩
  · exact Or.inr ⟨ring.slots ring.tail, RingQueue.contents_drop h, if_neg h⟩

namespace ChannelTable

/-- The messages that wait in the ring of a channel. -/
def queue (table : ChannelTable) (c : ChannelId) : List Message := (table.channels c).ring.contents

@[simp] theorem channels_setChannel_self (table : ChannelTable) (c : ChannelId)
    (channel : Channel) : (table.setChannel c channel).channels c = channel :=
  Function.update_self ..

theorem channels_setChannel_of_ne (table : ChannelTable) {c d : ChannelId} (h : d ≠ c)
    (channel : Channel) : (table.setChannel c channel).channels d = table.channels d :=
  Function.update_of_ne h ..

/-- A new entry with the old ring leaves every queue alone. -/
theorem queue_setChannel (table : ChannelTable) (c : ChannelId) (channel : Channel)
    (h : channel.ring = (table.channels c).ring) (d : ChannelId) :
    (table.setChannel c channel).queue d = table.queue d := by
  by_cases heq : d = c
  · subst heq
    rw [queue, channels_setChannel_self, h, queue]
  · rw [queue, channels_setChannel_of_ne table heq, queue]

/-- Another ring for one channel changes that queue only. -/
theorem queue_setRing (table : ChannelTable) (c : ChannelId) (ring : RingBuffer) :
    (table.setChannel c { table.channels c with ring }).queue =
      Function.update table.queue c ring.contents := by
  funext d
  by_cases heq : d = c
  · subst heq
    rw [queue, channels_setChannel_self, Function.update_self]
  · rw [queue, channels_setChannel_of_ne table heq, Function.update_of_ne heq, queue]

/-- `create_channel` touches no ring. -/
theorem queue_createChannel (table : ChannelTable) (owner : UInt32) (d : ChannelId) :
    (table.createChannel owner).2.queue d = table.queue d := by
  cases h : index table.nextChannel with
  | none => simp only [createChannel, h, queue]
  | some c =>
      simp only [createChannel, h]
      exact queue_setChannel { table with nextChannel := table.nextChannel + 1 } c
        { table.channels c with active := true, owner } rfl d

/-- `destroy_channel` touches no ring. -/
theorem queue_destroyChannel (table : ChannelTable) (channelId : UInt32) (d : ChannelId) :
    (table.destroyChannel channelId).queue d = table.queue d := by
  unfold destroyChannel
  cases index channelId with
  | none => rfl
  | some c => exact queue_setChannel table c { table.channels c with active := false } rfl d

/-- The outcomes of `send`. -/
theorem send_cases (table : ChannelTable) (channelId : UInt32) (msg : Message) :
    (table.send channelId msg = (false, table) ∧
      ∀ c, index channelId = some c → (table.channels c).active = true →
        (table.queue c).length = 63) ∨
    ∃ c, index channelId = some c ∧ (table.channels c).active = true ∧
      (table.queue c).length ≠ 63 ∧ (table.send channelId msg).1 = true ∧
      (∀ d, d ≠ c → (table.send channelId msg).2.channels d = table.channels d) ∧
      (table.send channelId msg).2.queue =
        Function.update table.queue c (table.queue c ++ [msg]) := by
  unfold send
  cases hindex : index channelId with
  | none => exact Or.inl ⟨rfl, fun c hc ↦ nomatch hc⟩
  | some c =>
      by_cases hactive : (table.channels c).active = false
      · refine Or.inl ⟨if_pos hactive, fun d hd hother ↦ ?_⟩
        cases hd
        rw [hactive] at hother
        cases hother
      · simp only [if_neg hactive]
        rcases (table.channels c).ring.push_cases msg with hfull | hroom
        · rw [hfull.2]
          refine Or.inl ⟨?_, fun d hd _ ↦ ?_⟩
          · show (false, table.setChannel c (table.channels c)) = (false, table)
            rw [setChannel, Function.update_eq_self]
          · cases hd
            exact hfull.1
        · rw [hroom.2.1]
          refine Or.inr ⟨c, rfl, eq_true_of_ne_false hactive, hroom.1, rfl, ?_, ?_⟩
          · exact fun d hd ↦ channels_setChannel_of_ne table hd _
          · rw [queue_setRing, hroom.2.2]
            rfl

/-- The outcomes of `recv`. -/
theorem recv_cases (table : ChannelTable) (channelId : UInt32) :
    table.recv channelId = (none, table) ∨
    ∃ c msg rest, index channelId = some c ∧ table.queue c = msg :: rest ∧
      (table.recv channelId).1 = some msg ∧
      (∀ d, d ≠ c → (table.recv channelId).2.channels d = table.channels d) ∧
      (table.recv channelId).2.queue = Function.update table.queue c rest := by
  unfold recv
  cases hindex : index channelId with
  | none => exact Or.inl rfl
  | some c =>
      by_cases hactive : (table.channels c).active = false
      · exact Or.inl (if_pos hactive)
      · simp only [if_neg hactive]
        rcases (table.channels c).ring.pop_cases with hempty | hsome
        · rw [hempty.2]
          refine Or.inl ?_
          show (none, table.setChannel c (table.channels c)) = (none, table)
          rw [setChannel, Function.update_eq_self]
        · obtain ⟨msg, hcons, hpop⟩ := hsome
          rw [hpop]
          refine Or.inr ⟨c, msg, _, rfl, hcons, rfl, ?_, queue_setRing ..⟩
          exact fun d hd ↦ channels_setChannel_of_ne table hd _

/-- `send` changes nothing but a ring. -/
theorem send_state (table : ChannelTable) (channelId : UInt32) (msg : Message) :
    (table.send channelId msg).2 = table ∨
      ∃ c ring, (table.send channelId msg).2 =
        table.setChannel c { table.channels c with ring } := by
  unfold send
  cases index channelId with
  | none => exact Or.inl rfl
  | some c =>
      by_cases hactive : (table.channels c).active = false
      · exact Or.inl (by simp only [if_pos hactive])
      · exact Or.inr ⟨c, _, by simp only [if_neg hactive]; rfl⟩

/-- `recv` changes nothing but a ring. -/
theorem recv_state (table : ChannelTable) (channelId : UInt32) :
    (table.recv channelId).2 = table ∨
      ∃ c ring, (table.recv channelId).2 =
        table.setChannel c { table.channels c with ring } := by
  unfold recv
  cases index channelId with
  | none => exact Or.inl rfl
  | some c =>
      by_cases hactive : (table.channels c).active = false
      · exact Or.inl (by simp only [if_pos hactive])
      · exact Or.inr ⟨c, _, by simp only [if_neg hactive]; rfl⟩

/-- Another ring for one channel leaves all flags alone. -/
theorem active_setRing (table : ChannelTable) (c : ChannelId) (ring : RingBuffer)
    (d : ChannelId) :
    ((table.setChannel c { table.channels c with ring }).channels d).active =
      (table.channels d).active := by
  by_cases heq : d = c
  · subst heq
    rw [channels_setChannel_self]
  · rw [channels_setChannel_of_ne table heq]

end ChannelTable

/-! ## Runs -/

/-- What `send` accepted and what `recv` returned so far, for each channel. -/
structure History where
  accepted : ChannelId → List Message
  returned : ChannelId → List Message

/-- Nothing was sent yet. -/
def History.start : History := ⟨fun _ ↦ [], fun _ ↦ []⟩

/-- Append a message to the list of one channel. -/
def appendTo (lists : ChannelId → List Message) (c : ChannelId) (msg : Message) :
    ChannelId → List Message :=
  Function.update lists c (lists c ++ [msg])

/-- Record the outcome of a call. -/
def History.record (table : ChannelTable) (call : IpcCall) (history : History) : History :=
  match call, (table.call call).1, table.named call with
  | .send _ msg, .sent true, some c =>
      { history with accepted := appendTo history.accepted c msg }
  | .recv _, .received (some msg), some c =>
      { history with returned := appendTo history.returned c msg }
  | _, _, _ => history

/-- One call, with the history of the messages. -/
def historyStep : ChannelTable × History → IpcCall → Option (ChannelTable × History) :=
  observe (fun table call ↦ some (table.call call).2) History.record

/-- On each channel, what was returned and what still waits is what was accepted. -/
def Fifo (state : ChannelTable × History) : Prop :=
  ∀ c, state.2.returned c ++ state.1.queue c = state.2.accepted c

/-- `send` on an active channel is refused exactly when 63 messages wait. -/
def RefusedWhenFull (state : ChannelTable × History) (call : IpcCall) : Prop :=
  ∀ channelId msg c, call = .send channelId msg → ChannelTable.index channelId = some c →
    (state.1.channels c).active = true →
    ((state.1.call call).1 = .sent false ↔ (state.1.queue c).length = 63)

/-- A call changes no channel but the one it names, and nothing at all if it is refused. -/
def Isolated (state : ChannelTable × History) (call : IpcCall) : Prop :=
  (∀ c, state.1.named call ≠ some c → (state.1.call call).2.channels c = state.1.channels c) ∧
    (state.1.Refused call → (state.1.call call).2 = state.1)

section Steps

variable {table : ChannelTable} {history : History}

/-- A step of the history machine is a call and its record. -/
theorem historyStep_eq_some {state next : ChannelTable × History} {call : IpcCall} :
    historyStep state call = some next ↔
      next = ((state.1.call call).2, History.record state.1 call state.2) := by
  rw [historyStep, observe_eq_some]
  simp only [Option.some.injEq]
  constructor
  · intro h
    exact Prod.ext h.1.symm h.2
  · intro h
    rw [h]
    exact ⟨rfl, rfl⟩

/-- Every call keeps what was returned and what waits in step with what was accepted. -/
theorem fifo_step {state next : ChannelTable × History} {call : IpcCall} (h : Fifo state)
    (hstep : historyStep state call = some next) : Fifo next := by
  obtain ⟨table, history⟩ := state
  obtain rfl := historyStep_eq_some.mp hstep
  intro d
  cases call with
  | create owner =>
      show history.returned d ++ (table.createChannel owner).2.queue d = history.accepted d
      rw [ChannelTable.queue_createChannel]
      exact h d
  | send channelId msg =>
      rcases table.send_cases channelId msg with hrefused | hsent
      · have hrecord : History.record table (.send channelId msg) history = history := by
          simp only [History.record, ChannelTable.call, hrefused.1]
        have htable : (table.call (.send channelId msg)).2 = table := by
          simp only [ChannelTable.call, hrefused.1]
        rw [hrecord, htable]
        exact h d
      · obtain ⟨c, hindex, _, _, hok, _, hqueue⟩ := hsent
        have hrecord : History.record table (.send channelId msg) history =
            { history with accepted := appendTo history.accepted c msg } := by
          simp only [History.record, ChannelTable.call, ChannelTable.named, hindex, hok]
        rw [hrecord]
        show history.returned d ++ (table.send channelId msg).2.queue d =
          appendTo history.accepted c msg d
        rw [hqueue, appendTo]
        by_cases heq : d = c
        · subst heq
          rw [Function.update_self, Function.update_self, ← List.append_assoc]
          exact congrArg (· ++ [msg]) (h d)
        · rw [Function.update_of_ne heq, Function.update_of_ne heq]
          exact h d
  | recv channelId =>
      rcases table.recv_cases channelId with hrefused | hreceived
      · have hrecord : History.record table (.recv channelId) history = history := by
          simp only [History.record, ChannelTable.call, hrefused]
        have htable : (table.call (.recv channelId)).2 = table := by
          simp only [ChannelTable.call, hrefused]
        rw [hrecord, htable]
        exact h d
      · obtain ⟨c, msg, rest, hindex, hcons, hok, _, hqueue⟩ := hreceived
        have hrecord : History.record table (.recv channelId) history =
            { history with returned := appendTo history.returned c msg } := by
          simp only [History.record, ChannelTable.call, ChannelTable.named, hindex, hok]
        rw [hrecord]
        show appendTo history.returned c msg d ++ (table.recv channelId).2.queue d =
          history.accepted d
        rw [hqueue, appendTo]
        by_cases heq : d = c
        · subst heq
          rw [Function.update_self, Function.update_self, List.append_assoc,
            List.singleton_append, ← hcons]
          exact h d
        · rw [Function.update_of_ne heq, Function.update_of_ne heq]
          exact h d
  | destroy channelId =>
      show history.returned d ++ (table.destroyChannel channelId).queue d = history.accepted d
      rw [ChannelTable.queue_destroyChannel]
      exact h d

theorem refusedWhenFull (state : ChannelTable × History) (call : IpcCall) :
    RefusedWhenFull state call := by
  intro channelId msg c hcall hindex hactive
  subst hcall
  have hanswer : (state.1.call (.send channelId msg)).1 = .sent false ↔
      (state.1.send channelId msg).1 = false := by
    simp only [ChannelTable.call, Answer.sent.injEq]
  rw [hanswer]
  rcases state.1.send_cases channelId msg with hrefused | hsent
  · rw [hrefused.1]
    exact iff_of_true rfl (hrefused.2 c hindex hactive)
  · obtain ⟨d, hd, _, hroom, hok, _⟩ := hsent
    obtain rfl : c = d := by simpa [hindex] using hd
    rw [hok]
    exact iff_of_false Bool.true_eq_false_eq_False hroom

end Steps

namespace ChannelTable

/-- A call touches only the channel that it names. -/
theorem channels_call_of_ne (table : ChannelTable) (call : IpcCall) {d : ChannelId}
    (h : table.named call ≠ some d) : (table.call call).2.channels d = table.channels d := by
  cases call with
  | create owner =>
      have hindex : index table.nextChannel ≠ some d := h
      show (table.createChannel owner).2.channels d = table.channels d
      cases hc : index table.nextChannel with
      | none => simp only [createChannel, hc]
      | some c =>
          simp only [createChannel, hc]
          refine channels_setChannel_of_ne _ ?_ _
          intro heq
          exact hindex (by rw [hc, heq])
  | send channelId msg =>
      show (table.send channelId msg).2.channels d = table.channels d
      rcases table.send_cases channelId msg with hrefused | hsent
      · rw [hrefused.1]
      · obtain ⟨c, hindex, _, _, _, hframe, _⟩ := hsent
        refine hframe d ?_
        intro heq
        exact h (hindex.trans (congrArg some heq.symm))
  | recv channelId =>
      show (table.recv channelId).2.channels d = table.channels d
      rcases table.recv_cases channelId with hrefused | hreceived
      · rw [hrefused]
      · obtain ⟨c, _, _, hindex, _, _, hframe, _⟩ := hreceived
        refine hframe d ?_
        intro heq
        exact h (hindex.trans (congrArg some heq.symm))
  | destroy channelId =>
      have hindex : index channelId ≠ some d := h
      show (table.destroyChannel channelId).channels d = table.channels d
      unfold destroyChannel
      cases hc : index channelId with
      | none => rfl
      | some c =>
          refine channels_setChannel_of_ne _ ?_ _
          intro heq
          exact hindex (by rw [hc, heq])

/-- A refused call changes nothing: an exhausted `create_channel` takes its counter back. -/
theorem call_of_refused {table : ChannelTable} {call : IpcCall} (h : table.Refused call) :
    (table.call call).2 = table := by
  cases call with
  | create owner =>
      have hnone : index table.nextChannel = none := by
        simpa [Refused, named, ChannelTable.call] using h
      show (table.createChannel owner).2 = table
      simp only [createChannel, hnone, UInt32.add_sub_cancel]
  | send channelId msg =>
      show (table.send channelId msg).2 = table
      rcases table.send_cases channelId msg with hrefused | hsent
      · rw [hrefused.1]
      · obtain ⟨c, hindex, _, _, hok, _⟩ := hsent
        simp [Refused, named, ChannelTable.call, hindex, hok] at h
  | recv channelId =>
      show (table.recv channelId).2 = table
      rcases table.recv_cases channelId with hrefused | hreceived
      · rw [hrefused]
      · obtain ⟨c, _, _, hindex, _, hok, _⟩ := hreceived
        simp [Refused, named, ChannelTable.call, hindex, hok] at h
  | destroy channelId =>
      have hnone : index channelId = none := by
        simpa [Refused, named, ChannelTable.call] using h
      show table.destroyChannel channelId = table
      simp only [destroyChannel, hnone]

end ChannelTable

/-- Over every sequence of calls, each channel is a bounded queue of its own: what `recv` returned
and what waits in the ring is what `send` accepted, in order; an active channel refuses a message
exactly when 63 are waiting; and no call changes a channel that it does not name, or anything when
it is refused. -/
theorem channels_fifo (calls : List IpcCall) :
    Along historyStep Fifo (.init, .start) calls ∧
      Throughout historyStep (fun state call ↦ RefusedWhenFull state call ∧ Isolated state call)
        (.init, .start) calls := by
  have hstart : Fifo (.init, .start) := by
    intro c
    show [] ++ RingBuffer.new.contents = []
    rw [RingBuffer.contents_new, List.append_nil]
  refine ⟨along_of_invariant (fun _ _ _ ↦ fifo_step) hstart calls, ?_⟩
  refine throughout_of_invariant (P := Fifo) (fun _ _ _ ↦ fifo_step) ?_ hstart calls
  intro state call _
  refine ⟨refusedWhenFull state call, fun c ↦ state.1.channels_call_of_ne call, ?_⟩
  exact ChannelTable.call_of_refused

end Avaria.Ipc
