import Avaria.Ipc.Capacity

/-!
# Channel queries

`peek` and `pending` beside `recv`. `recv` refuses a channel that is not active; the queries look at
the ring only. They differ exactly for a channel that was destroyed while messages waited, and
`queries_agree_iff` says which sequences of calls never come to that.
-/

namespace Avaria.Ipc

open Transition

/-- `RingBuffer::is_empty`. -/
def RingBuffer.isEmpty (ring : RingBuffer) : Bool := decide (ring.tail = ring.head)

/-- `RingBuffer::len`. -/
def RingBuffer.len (ring : RingBuffer) : Nat :=
  let head := ring.head.val
  let tail := ring.tail.val
  (head + RING_SIZE - tail) % RING_SIZE

namespace ChannelTable

/-- `peek`. -/
def peek (table : ChannelTable) (channelId : UInt32) : Bool :=
  match index channelId with
  | none => false
  | some c => !(table.channels c).ring.isEmpty

/-- `pending`. -/
def pending (table : ChannelTable) (channelId : UInt32) : Nat :=
  match index channelId with
  | none => 0
  | some c => (table.channels c).ring.len

/-- The table after some calls of `recv`. -/
def afterRecvs (table : ChannelTable) (channelId : UInt32) : Nat → ChannelTable
  | 0 => table
  | count + 1 => ((table.afterRecvs channelId count).recv channelId).2

/-- `peek` tells whether the next `recv` returns a message, and `pending` how many in a row do. -/
structure QueriesAgreeOn (table : ChannelTable) (channelId : UInt32) : Prop where
  peek : table.peek channelId = true ↔ (table.recv channelId).1.isSome = true
  pending_some : ∀ k < table.pending channelId,
    ((table.afterRecvs channelId k).recv channelId).1.isSome = true
  pending_none :
    ((table.afterRecvs channelId (table.pending channelId)).recv channelId).1 = none

/-- The queries agree with `recv` on every channel id. -/
def QueriesAgree (table : ChannelTable) : Prop := ∀ channelId, table.QueriesAgreeOn channelId

/-- No message waits in a channel that is not active. -/
def NothingStranded (table : ChannelTable) : Prop :=
  ∀ c, (table.channels c).active = false → table.queue c = []

end ChannelTable

/-- One call. -/
def callStep (table : ChannelTable) (call : IpcCall) : Option ChannelTable :=
  some (table.call call).2

/-- The call is not a `destroy_channel` for a channel with messages. -/
def NotStranding (table : ChannelTable) (call : IpcCall) : Prop :=
  ∀ channelId c, call = .destroy channelId → ChannelTable.index channelId = some c →
    table.queue c = []

/-! ## Queries and queues -/

theorem RingBuffer.isEmpty_iff (ring : RingBuffer) : ring.isEmpty = true ↔ ring.contents = [] := by
  rw [RingBuffer.isEmpty, decide_eq_true_eq, ring.contents_eq_nil_iff]

theorem RingBuffer.len_eq (ring : RingBuffer) : ring.len = ring.contents.length :=
  ring.length_contents.symm

namespace ChannelTable

variable {table : ChannelTable} {channelId : UInt32} {c : ChannelId}

theorem peek_iff (hindex : index channelId = some c) :
    table.peek channelId = true ↔ table.queue c ≠ [] := by
  rw [peek, hindex]
  show (!(table.channels c).ring.isEmpty) = true ↔ _
  rw [Bool.not_eq_true', ← Bool.not_eq_true, RingBuffer.isEmpty_iff, queue]

theorem pending_eq (hindex : index channelId = some c) :
    table.pending channelId = (table.queue c).length := by
  rw [pending, hindex]
  exact RingBuffer.len_eq _

theorem recv_of_out_of_range (hindex : index channelId = none) :
    table.recv channelId = (none, table) := by
  rw [recv, hindex]

theorem recv_of_inactive (hindex : index channelId = some c)
    (hactive : (table.channels c).active = false) : table.recv channelId = (none, table) := by
  rw [recv, hindex]
  exact if_pos hactive

/-- On an active channel, `recv` takes the first message of the queue. -/
theorem recv_of_active (hindex : index channelId = some c)
    (hactive : (table.channels c).active = true) :
    (table.recv channelId).1 = (table.queue c).head? ∧
      ((table.recv channelId).2.channels c).active = true ∧
      (table.recv channelId).2.queue c = (table.queue c).tail := by
  have hrecv : table.recv channelId = ((table.channels c).ring.pop.1,
      table.setChannel c { table.channels c with ring := (table.channels c).ring.pop.2 }) := by
    rw [recv, hindex]
    exact if_neg (by rw [hactive]; exact Bool.true_eq_false_eq_False)
  rw [hrecv, active_setRing, queue_setRing, Function.update_self, queue]
  rcases (table.channels c).ring.pop_cases with ⟨hempty, hpop⟩ | ⟨msg, hcons, hpop⟩
  · rw [hpop, hempty]
    exact ⟨rfl, hactive, rfl⟩
  · rw [hpop, hcons]
    exact ⟨rfl, hactive, rfl⟩

/-- On an active channel, calls of `recv` take the messages one after the other. -/
theorem afterRecvs_of_active (hindex : index channelId = some c)
    (hactive : (table.channels c).active = true) (count : Nat) :
    ((table.afterRecvs channelId count).channels c).active = true ∧
      (table.afterRecvs channelId count).queue c = (table.queue c).drop count := by
  induction count with
  | zero => exact ⟨hactive, rfl⟩
  | succ count ih =>
      obtain ⟨_, hstill, htail⟩ := recv_of_active hindex ih.1
      refine ⟨hstill, htail.trans ?_⟩
      rw [ih.2, List.tail_drop]

/-- The queries agree with `recv` on an active channel. -/
theorem queriesAgreeOn_of_active (hindex : index channelId = some c)
    (hactive : (table.channels c).active = true) : table.QueriesAgreeOn channelId := by
  have hrecv (count : Nat) : ((table.afterRecvs channelId count).recv channelId).1 =
      ((table.queue c).drop count).head? := by
    obtain ⟨hstill, hqueue⟩ := afterRecvs_of_active hindex hactive count
    rw [(recv_of_active hindex hstill).1, hqueue]
  refine ⟨?_, fun k hk ↦ ?_, ?_⟩
  · rw [peek_iff hindex, (recv_of_active hindex hactive).1, List.isSome_head?]
  · rw [pending_eq hindex] at hk
    rw [hrecv, List.head?_drop, List.getElem?_eq_getElem hk]
    rfl
  · rw [hrecv, pending_eq hindex, List.drop_length]
    rfl

/-- On a channel that is not active, they agree exactly if no message waits. -/
theorem queriesAgreeOn_iff_of_inactive (hindex : index channelId = some c)
    (hactive : (table.channels c).active = false) :
    table.QueriesAgreeOn channelId ↔ table.queue c = [] := by
  have hrecv := recv_of_inactive hindex hactive
  constructor
  · intro h
    by_contra hne
    have hsome := h.peek.mp ((peek_iff hindex).mpr hne)
    rw [hrecv] at hsome
    cases hsome
  · intro hempty
    have hpending : table.pending channelId = 0 := by
      rw [pending_eq hindex, hempty]
      rfl
    refine ⟨?_, fun k hk ↦ ?_, ?_⟩
    · rw [peek_iff hindex, hrecv]
      exact iff_of_false (not_not_intro hempty) Bool.false_ne_true
    · rw [hpending] at hk
      exact absurd hk (Nat.not_lt_zero k)
    · rw [hpending, afterRecvs, hrecv]

/-- For a channel id out of range there is nothing to tell. -/
theorem queriesAgreeOn_of_out_of_range (hindex : index channelId = none) :
    table.QueriesAgreeOn channelId := by
  have hpending : table.pending channelId = 0 := by rw [pending, hindex]
  have hrecv : table.recv channelId = (none, table) := recv_of_out_of_range hindex
  refine ⟨?_, fun k hk ↦ ?_, ?_⟩
  · rw [peek, hindex, hrecv]
    exact iff_of_false Bool.false_ne_true Bool.false_ne_true
  · rw [hpending] at hk
    exact absurd hk (Nat.not_lt_zero k)
  · rw [hpending, afterRecvs, hrecv]

/-- Every channel has an id. -/
theorem exists_index (c : ChannelId) : ∃ channelId, index channelId = some c := by
  refine ⟨UInt32.ofNat c.val, index_eq_some_iff.mpr ?_⟩
  have hlt : c.val < 32 := c.isLt
  rw [UInt32.toNat_ofNat']
  omega

/-- The queries agree with `recv` as long as no message waits in a channel that is not active. -/
theorem queriesAgree_iff (table : ChannelTable) : table.QueriesAgree ↔ table.NothingStranded := by
  constructor
  · intro h c hactive
    obtain ⟨channelId, hindex⟩ := exists_index c
    exact (queriesAgreeOn_iff_of_inactive hindex hactive).mp (h channelId)
  · intro h channelId
    cases hindex : index channelId with
    | none => exact queriesAgreeOn_of_out_of_range hindex
    | some c =>
        cases hactive : (table.channels c).active with
        | false => exact (queriesAgreeOn_iff_of_inactive hindex hactive).mpr (h c hactive)
        | true => exact queriesAgreeOn_of_active hindex hactive

theorem active_send (table : ChannelTable) (channelId : UInt32) (msg : Message) (d : ChannelId) :
    ((table.send channelId msg).2.channels d).active = (table.channels d).active := by
  rcases table.send_state channelId msg with hsame | ⟨c, ring, hring⟩
  · rw [hsame]
  · rw [hring, active_setRing]

theorem active_recv (table : ChannelTable) (channelId : UInt32) (d : ChannelId) :
    ((table.recv channelId).2.channels d).active = (table.channels d).active := by
  rcases table.recv_state channelId with hsame | ⟨c, ring, hring⟩
  · rw [hsame]
  · rw [hring, active_setRing]

/-- `create_channel` only activates. -/
theorem active_createChannel {owner : UInt32} {d : ChannelId}
    (h : ((table.createChannel owner).2.channels d).active = false) :
    (table.channels d).active = false := by
  cases hindex : index table.nextChannel with
  | none => simpa only [createChannel, hindex] using h
  | some c =>
      simp only [createChannel, hindex] at h
      by_cases heq : d = c
      · subst heq
        rw [channels_setChannel_self] at h
        cases h
      · rwa [channels_setChannel_of_ne _ heq] at h

theorem NothingStranded.create (h : table.NothingStranded) (owner : UInt32) :
    (table.createChannel owner).2.NothingStranded := by
  intro d hd
  rw [queue_createChannel]
  exact h d (active_createChannel hd)

theorem NothingStranded.send (h : table.NothingStranded) (channelId : UInt32) (msg : Message) :
    (table.send channelId msg).2.NothingStranded := by
  intro d hd
  rw [active_send] at hd
  rcases table.send_cases channelId msg with hrefused | ⟨c, _, hactive, _, _, _, hqueue⟩
  · rw [hrefused.1]
    exact h d hd
  · have hne : d ≠ c := by
      intro heq
      rw [heq, hactive] at hd
      cases hd
    rw [hqueue, Function.update_of_ne hne]
    exact h d hd

theorem NothingStranded.recv (h : table.NothingStranded) (channelId : UInt32) :
    (table.recv channelId).2.NothingStranded := by
  intro d hd
  rw [active_recv] at hd
  rcases table.recv_cases channelId with hrefused | ⟨c, msg, rest, _, hcons, _, _, hqueue⟩
  · rw [hrefused]
    exact h d hd
  · have hne : d ≠ c := by
      intro heq
      rw [← heq, h d hd] at hcons
      cases hcons
    rw [hqueue, Function.update_of_ne hne]
    exact h d hd

/-- `destroy_channel` strands messages exactly if some wait. -/
theorem nothingStranded_destroy_iff (h : table.NothingStranded)
    (hindex : index channelId = some c) :
    (table.destroyChannel channelId).NothingStranded ↔ table.queue c = [] := by
  have hdestroy : table.destroyChannel channelId =
      table.setChannel c { table.channels c with active := false } := by
    rw [destroyChannel, hindex]
  constructor
  · intro hnext
    rw [← queue_destroyChannel table channelId c]
    refine hnext c ?_
    rw [hdestroy, channels_setChannel_self]
  · intro hempty d hd
    rw [queue_destroyChannel]
    by_cases heq : d = c
    · rw [heq]
      exact hempty
    · rw [hdestroy, channels_setChannel_of_ne table heq] at hd
      exact h d hd

/-- A call strands messages exactly if it destroys a channel in which they wait. -/
theorem nothingStranded_call_iff (h : table.NothingStranded) (call : IpcCall) :
    (table.call call).2.NothingStranded ↔ NotStranding table call := by
  cases call with
  | create owner => exact iff_of_true (h.create owner) nofun
  | send channelId msg => exact iff_of_true (h.send channelId msg) nofun
  | recv channelId => exact iff_of_true (h.recv channelId) nofun
  | destroy channelId =>
      show (table.destroyChannel channelId).NothingStranded ↔ _
      cases hindex : index channelId with
      | none =>
          refine iff_of_true ?_ fun other c hcall hother ↦ ?_
          · rw [destroyChannel, hindex]
            exact h
          · cases hcall
            cases hindex.symm.trans hother
      | some c =>
          rw [nothingStranded_destroy_iff h hindex]
          constructor
          · intro hempty other d hcall hother
            cases hcall
            cases hindex.symm.trans hother
            exact hempty
          · exact fun hnot ↦ hnot channelId c rfl hindex

end ChannelTable

/-- In a sequence of calls, the queries agree with `recv` in every state exactly if
`destroy_channel` is never called for a channel with messages. -/
theorem queries_agree_iff (calls : List IpcCall) :
    Along callStep ChannelTable.QueriesAgree .init calls ↔
      Throughout callStep NotStranding .init calls := by
  have hstart : ChannelTable.init.QueriesAgree := by
    rw [ChannelTable.queriesAgree_iff]
    exact fun c _ ↦ RingBuffer.contents_new
  refine along_iff_throughout ?_ (fun table call hnone ↦ nomatch hnone) hstart calls
  intro table call next hagree hstep
  obtain rfl := Option.some.inj hstep
  rw [ChannelTable.queriesAgree_iff] at hagree ⊢
  exact ChannelTable.nothingStranded_call_iff hagree call

/-- After a message was sent and the channel destroyed, `peek` tells of a message that `recv` does
not return. -/
theorem queries_disagree :
    ¬ Along callStep ChannelTable.QueriesAgree .init
      [.create 1, .send 0 Message.empty, .destroy 0] := by
  intro h
  have hstate : (run callStep .init [.create 1, .send 0 Message.empty, .destroy 0]).map
      (fun table ↦ (table.peek 0, (table.recv 0).1)) = some (true, none) := by decide
  obtain ⟨table, hrun, htable⟩ := Option.map_eq_some_iff.mp hstate
  have hagree := (h.final hrun 0).peek
  rw [(Prod.mk.inj htable).1, (Prod.mk.inj htable).2] at hagree
  exact Bool.false_ne_true (hagree.mp rfl)

end Avaria.Ipc
