import Avaria.Ipc.Channel
import Mathlib.Data.Fintype.Card

/-!
# Channel capacity

`create_channel` takes the next entry of the table and no call gives an entry back:
`NEXT_CHANNEL` only grows. A new channel is always fresh, but a destroyed one is lost once the
counter has reached the end of the table; `capacity_reusable_iff` says when this shows.
-/

namespace Avaria.Ipc

open Transition

namespace ChannelTable

/-- The channels that are active. -/
def activeChannels (table : ChannelTable) : Finset ChannelId :=
  Finset.univ.filter fun c ↦ (table.channels c).active = true

/-- The entry is an active channel of the owner with an empty ring. -/
def Fresh (table : ChannelTable) (c : ChannelId) (owner : UInt32) : Prop :=
  (table.channels c).active = true ∧ (table.channels c).owner = owner ∧ table.queue c = []

instance (table : ChannelTable) (c : ChannelId) (owner : UInt32) :
    Decidable (table.Fresh c owner) :=
  inferInstanceAs (Decidable (_ ∧ _ ∧ _))

/-- `create_channel` returns a channel whenever fewer than 32 are active, and what it returns is
fresh and was not active before. -/
def Provides (table : ChannelTable) (owner : UInt32) : Prop :=
  (table.activeChannels.card < MAX_CHANNELS → (table.createChannel owner).1.isSome = true) ∧
    ∀ id ∈ (table.createChannel owner).1, ∃ c, index id = some c ∧
      (table.channels c).active = false ∧ (table.createChannel owner).2.Fresh c owner

instance (table : ChannelTable) (owner : UInt32) : Decidable (table.Provides owner) :=
  inferInstanceAs (Decidable (_ ∧ ∀ _ ∈ _, ∃ _, _))

/-- Fewer than 32 channels are active as long as one is not. -/
theorem card_activeChannels_lt_iff (table : ChannelTable) :
    table.activeChannels.card < MAX_CHANNELS ↔ ∃ c, (table.channels c).active = false := by
  have hcard : (Finset.univ : Finset ChannelId).card = MAX_CHANNELS := by
    rw [Finset.card_univ, Fintype.card_fin]
  constructor
  · intro hlt
    by_contra hnone
    have hall : table.activeChannels = Finset.univ := by
      refine Finset.filter_true_of_mem fun c _ ↦ ?_
      exact eq_true_of_ne_false fun hc ↦ hnone ⟨c, hc⟩
    rw [hall, hcard] at hlt
    exact Nat.lt_irrefl _ hlt
  · intro hsome
    obtain ⟨c, hc⟩ := hsome
    rw [← hcard]
    refine Finset.card_lt_card (Finset.filter_ssubset.mpr ⟨c, Finset.mem_univ c, ?_⟩)
    rw [hc]
    exact Bool.false_ne_true

theorem index_eq_some_iff {id : UInt32} {c : ChannelId} :
    index id = some c ↔ id.toNat = c.val := by
  unfold index
  by_cases h : id.toNat < MAX_CHANNELS
  · rw [dif_pos h, Option.some.injEq, Fin.ext_iff]
  · rw [dif_neg h]
    refine iff_of_false (by simp) ?_
    intro heq
    exact h (heq ▸ c.isLt)

end ChannelTable

/-! ## Runs -/

/-- How often `create_channel` was called, and whether `destroy_channel` was called for a channel
that was in use by then. -/
structure Turnover where
  creates : Nat
  destroyed : Bool

/-- No call was made yet. -/
def Turnover.start : Turnover := ⟨0, false⟩

/-- Count a call. The first 32 calls of `create_channel` take the entries in order. -/
def Turnover.record (_ : ChannelTable) (call : IpcCall) (turnover : Turnover) : Turnover :=
  match call with
  | .create _ => { turnover with creates := turnover.creates + 1 }
  | .destroy channelId =>
      { turnover with
        destroyed := turnover.destroyed ||
          decide (channelId.toNat < min turnover.creates MAX_CHANNELS) }
  | _ => turnover

/-- One call, with the count of the calls. -/
def turnoverStep : ChannelTable × Turnover → IpcCall → Option (ChannelTable × Turnover) :=
  observe (fun table call ↦ some (table.call call).2) Turnover.record

/-- A call of `create_channel` provides a channel. -/
def CreateProvides (state : ChannelTable × Turnover) (call : IpcCall) : Prop :=
  ∀ owner, call = .create owner → state.1.Provides owner

/-- A call of `create_channel` is one of the first 32, or comes before any channel in use was
destroyed. -/
def CreateInTime (state : ChannelTable × Turnover) (call : IpcCall) : Prop :=
  ∀ owner, call = .create owner →
    state.2.creates < MAX_CHANNELS ∨ state.2.destroyed = false

/-- What the count says about the table: the entries in use are the first ones, the others are
untouched, and an entry in use is inactive only after a `destroy_channel`. -/
structure Counted (state : ChannelTable × Turnover) : Prop where
  counter : state.1.nextChannel.toNat = min state.2.creates MAX_CHANNELS
  untouched : ∀ c : ChannelId, state.2.creates ≤ c.val →
    (state.1.channels c).active = false ∧ state.1.queue c = []
  inactive_iff : state.2.destroyed = true ↔
    ∃ c : ChannelId, c.val < state.2.creates ∧ (state.1.channels c).active = false

theorem counted_init : Counted (.init, .start) := by
  refine ⟨rfl, fun c _ ↦ ⟨rfl, RingBuffer.contents_new⟩, ?_⟩
  refine iff_of_false Bool.false_ne_true ?_
  intro h
  obtain ⟨c, hc, _⟩ := h
  exact Nat.not_lt_zero _ hc

/-- A step of the counting machine is a call and its count. -/
theorem turnoverStep_eq_some {state next : ChannelTable × Turnover} {call : IpcCall} :
    turnoverStep state call = some next ↔
      next = ((state.1.call call).2, Turnover.record state.1 call state.2) := by
  rw [turnoverStep, observe_eq_some]
  simp only [Option.some.injEq]
  constructor
  · intro h
    exact Prod.ext h.1.symm h.2
  · intro h
    rw [h]
    exact ⟨rfl, rfl⟩

section Counted

variable {table : ChannelTable} {turnover : Turnover}

/-- A call that changes rings of channels in use only keeps the count. -/
theorem Counted.setRing {c : ChannelId} {ring : RingBuffer} (h : Counted (table, turnover))
    (hring : ∀ d : ChannelId, turnover.creates ≤ d.val →
      (table.setChannel c { table.channels c with ring }).queue d = table.queue d) :
    Counted (table.setChannel c { table.channels c with ring }, turnover) := by
  refine ⟨h.counter, fun d hd ↦ ?_, ?_⟩
  · show ((table.setChannel c _).channels d).active = false ∧ (table.setChannel c _).queue d = []
    rw [ChannelTable.active_setRing, hring d hd]
    exact h.untouched d hd
  · refine h.inactive_iff.trans (exists_congr fun d ↦ and_congr_right fun _ ↦ ?_)
    show _ ↔ ((table.setChannel c _).channels d).active = false
    rw [ChannelTable.active_setRing]

/-- `create_channel` takes the first untouched entry, as long as there is one. -/
theorem Counted.createChannel_of_lt (h : Counted (table, turnover))
    (hlt : turnover.creates < MAX_CHANNELS) (owner : UInt32) :
    table.nextChannel.toNat = turnover.creates ∧
      table.createChannel owner = (some table.nextChannel,
        { table with nextChannel := table.nextChannel + 1 }.setChannel
          ⟨turnover.creates, hlt⟩
          { table.channels ⟨turnover.creates, hlt⟩ with active := true, owner }) := by
  have hcounter : table.nextChannel.toNat = min turnover.creates MAX_CHANNELS := h.counter
  rw [min_eq_left hlt.le] at hcounter
  refine ⟨hcounter, ?_⟩
  have hindex : ChannelTable.index table.nextChannel = some ⟨turnover.creates, hlt⟩ :=
    ChannelTable.index_eq_some_iff.mpr hcounter
  simp only [ChannelTable.createChannel, hindex]

/-- `create_channel` is refused once all entries were taken. -/
theorem Counted.createChannel_of_le (h : Counted (table, turnover))
    (hle : MAX_CHANNELS ≤ turnover.creates) (owner : UInt32) :
    table.createChannel owner = (none, table) := by
  have hcounter : table.nextChannel.toNat = min turnover.creates MAX_CHANNELS := h.counter
  rw [min_eq_right hle] at hcounter
  have hindex : ChannelTable.index table.nextChannel = none := by
    rw [ChannelTable.index, dif_neg (by omega)]
  simp only [ChannelTable.createChannel, hindex, UInt32.add_sub_cancel]

theorem Counted.create (h : Counted (table, turnover)) (owner : UInt32) :
    Counted ((table.createChannel owner).2,
      { turnover with creates := turnover.creates + 1 }) := by
  rcases Nat.lt_or_ge turnover.creates MAX_CHANNELS with hlt | hge
  · obtain ⟨hcounter, hcreate⟩ := h.createChannel_of_lt hlt owner
    rw [hcreate]
    refine ⟨?_, fun c hc ↦ ?_, ?_⟩
    · show (table.nextChannel + 1).toNat = min (turnover.creates + 1) MAX_CHANNELS
      rw [UInt32.toNat_add, hcounter, min_eq_left (by omega)]
      exact Nat.mod_eq_of_lt (Nat.lt_of_le_of_lt hlt (by decide))
    · have hc : turnover.creates + 1 ≤ c.val := hc
      have hne : c ≠ ⟨turnover.creates, hlt⟩ := by
        intro heq
        rw [heq] at hc
        exact Nat.lt_irrefl _ hc
      show ((ChannelTable.setChannel _ _ _).channels c).active = false ∧
        (ChannelTable.setChannel _ _ _).queue c = []
      rw [ChannelTable.queue, ChannelTable.channels_setChannel_of_ne _ hne]
      exact h.untouched c (Nat.le_of_succ_le hc)
    · refine h.inactive_iff.trans ⟨?_, ?_⟩
      · intro hsome
        obtain ⟨c, hc, hinactive⟩ := hsome
        have hc : c.val < turnover.creates := hc
        have hne : c ≠ ⟨turnover.creates, hlt⟩ := by
          intro heq
          rw [heq] at hc
          exact Nat.lt_irrefl _ hc
        refine ⟨c, Nat.lt_succ_of_lt hc, ?_⟩
        rw [ChannelTable.channels_setChannel_of_ne _ hne]
        exact hinactive
      · intro hsome
        obtain ⟨c, hc, hinactive⟩ := hsome
        have hc : c.val < turnover.creates + 1 := hc
        by_cases heq : c = ⟨turnover.creates, hlt⟩
        · rw [heq, ChannelTable.channels_setChannel_self] at hinactive
          cases hinactive
        · rw [ChannelTable.channels_setChannel_of_ne _ heq] at hinactive
          have hval : c.val ≠ turnover.creates := fun hval ↦ heq (Fin.ext hval)
          exact ⟨c, show c.val < turnover.creates by omega, hinactive⟩
  · rw [h.createChannel_of_le hge owner]
    refine ⟨?_, fun c hc ↦ h.untouched c (Nat.le_of_succ_le hc), ?_⟩
    · rw [min_eq_right (Nat.le_succ_of_le hge)]
      have hcounter : table.nextChannel.toNat = min turnover.creates MAX_CHANNELS := h.counter
      rwa [min_eq_right hge] at hcounter
    · refine h.inactive_iff.trans (exists_congr fun c ↦ and_congr_left fun _ ↦ ?_)
      have hc := c.isLt
      show c.val < turnover.creates ↔ c.val < turnover.creates + 1
      omega

theorem Counted.destroy (h : Counted (table, turnover)) (channelId : UInt32) :
    Counted (table.destroyChannel channelId,
      { turnover with
        destroyed := turnover.destroyed ||
          decide (channelId.toNat < min turnover.creates MAX_CHANNELS) }) := by
  unfold ChannelTable.destroyChannel
  cases hindex : ChannelTable.index channelId with
  | none =>
      have hout : ¬ channelId.toNat < MAX_CHANNELS := by
        intro hlt
        rw [ChannelTable.index, dif_pos hlt] at hindex
        cases hindex
      have hfalse : decide (channelId.toNat < min turnover.creates MAX_CHANNELS) = false :=
        decide_eq_false (by omega)
      rw [hfalse, Bool.or_false]
      exact h
  | some c =>
      have hval := ChannelTable.index_eq_some_iff.mp hindex
      have hc := c.isLt
      refine ⟨h.counter, fun d hd ↦ ?_, ?_⟩
      · show ((table.setChannel c _).channels d).active = false ∧
          (table.setChannel c _).queue d = []
        refine ⟨?_, ?_⟩
        · by_cases heq : d = c
          · rw [heq, ChannelTable.channels_setChannel_self]
          · rw [ChannelTable.channels_setChannel_of_ne _ heq]
            exact (h.untouched d hd).1
        · rw [ChannelTable.queue_setChannel table c { table.channels c with active := false } rfl]
          exact (h.untouched d hd).2
      · show (turnover.destroyed ||
            decide (channelId.toNat < min turnover.creates MAX_CHANNELS)) = true ↔
          ∃ d : ChannelId, d.val < turnover.creates ∧
            ((table.setChannel c { table.channels c with active := false }).channels d).active =
              false
        rw [Bool.or_eq_true, decide_eq_true_eq]
        constructor
        · intro hcase
          rcases hcase with hbefore | hused
          · obtain ⟨d, hd, hinactive⟩ := h.inactive_iff.mp hbefore
            refine ⟨d, hd, ?_⟩
            by_cases heq : d = c
            · rw [heq, ChannelTable.channels_setChannel_self]
            · rw [ChannelTable.channels_setChannel_of_ne _ heq]
              exact hinactive
          · refine ⟨c, by omega, ?_⟩
            rw [ChannelTable.channels_setChannel_self]
        · intro hsome
          obtain ⟨d, hd, hinactive⟩ := hsome
          by_cases heq : d = c
          · subst heq
            exact Or.inr (by omega)
          · rw [ChannelTable.channels_setChannel_of_ne _ heq] at hinactive
            exact Or.inl (h.inactive_iff.mpr ⟨d, hd, hinactive⟩)

end Counted

/-- Every call keeps the count. -/
theorem counted_step {state next : ChannelTable × Turnover} {call : IpcCall} (h : Counted state)
    (hstep : turnoverStep state call = some next) : Counted next := by
  obtain ⟨table, turnover⟩ := state
  obtain rfl := turnoverStep_eq_some.mp hstep
  cases call with
  | create owner => exact h.create owner
  | send channelId msg =>
      show Counted ((table.send channelId msg).2, turnover)
      have hqueue (d : ChannelId) (hd : turnover.creates ≤ d.val) :
          (table.send channelId msg).2.queue d = table.queue d := by
        rcases table.send_cases channelId msg with hrefused | hsent
        · rw [hrefused.1]
        · obtain ⟨c, _, hactive, _, _, _, hqueue⟩ := hsent
          rw [hqueue]
          refine Function.update_of_ne ?_ _ _
          intro heq
          rw [← heq, (h.untouched d hd).1] at hactive
          cases hactive
      rcases table.send_state channelId msg with hsame | hring
      · rw [hsame]
        exact h
      · obtain ⟨c, ring, heq⟩ := hring
        rw [heq] at hqueue ⊢
        exact h.setRing hqueue
  | recv channelId =>
      show Counted ((table.recv channelId).2, turnover)
      have hqueue (d : ChannelId) (hd : turnover.creates ≤ d.val) :
          (table.recv channelId).2.queue d = table.queue d := by
        rcases table.recv_cases channelId with hrefused | hreceived
        · rw [hrefused]
        · obtain ⟨c, msg, rest, _, hcons, _, _, hqueue⟩ := hreceived
          rw [hqueue]
          refine Function.update_of_ne ?_ _ _
          intro heq
          rw [← heq, (h.untouched d hd).2] at hcons
          cases hcons
      rcases table.recv_state channelId with hsame | hring
      · rw [hsame]
        exact h
      · obtain ⟨c, ring, heq⟩ := hring
        rw [heq] at hqueue ⊢
        exact h.setRing hqueue
  | destroy channelId => exact h.destroy channelId

/-- `create_channel` provides a channel exactly when it is called in time. -/
theorem provides_iff {state : ChannelTable × Turnover} (h : Counted state) (owner : UInt32) :
    state.1.Provides owner ↔
      (state.2.creates < MAX_CHANNELS ∨ state.2.destroyed = false) := by
  obtain ⟨table, turnover⟩ := state
  show table.Provides owner ↔ (turnover.creates < MAX_CHANNELS ∨ turnover.destroyed = false)
  rcases Nat.lt_or_ge turnover.creates MAX_CHANNELS with hlt | hge
  · refine iff_of_true ?_ (Or.inl hlt)
    obtain ⟨hcounter, hcreate⟩ := h.createChannel_of_lt hlt owner
    obtain ⟨hinactive, hempty⟩ := h.untouched ⟨turnover.creates, hlt⟩ (Nat.le_refl _)
    refine ⟨fun _ ↦ by rw [hcreate]; rfl, fun id hid ↦ ?_⟩
    rw [hcreate] at hid ⊢
    cases hid
    refine ⟨⟨turnover.creates, hlt⟩, ChannelTable.index_eq_some_iff.mpr hcounter, hinactive, ?_⟩
    refine ⟨?_, ?_, ?_⟩
    · rw [ChannelTable.channels_setChannel_self]
    · rw [ChannelTable.channels_setChannel_self]
    · rw [ChannelTable.queue, ChannelTable.channels_setChannel_self]
      exact hempty
  · have hnone := h.createChannel_of_le hge owner
    rw [ChannelTable.Provides, hnone, ChannelTable.card_activeChannels_lt_iff]
    have hall : (∃ c, (table.channels c).active = false) ↔ turnover.destroyed = true := by
      refine (h.inactive_iff.trans (exists_congr fun c ↦ ?_)).symm
      exact and_iff_right (Nat.lt_of_lt_of_le c.isLt hge)
    rw [hall]
    have hnot : ¬ turnover.creates < MAX_CHANNELS := by omega
    simp [hnot]

/-- In a sequence of calls, `create_channel` provides a channel each time exactly when each time it
is among the first 32 calls of it, or no channel in use was destroyed before. -/
theorem capacity_reusable_iff (calls : List IpcCall) :
    Throughout turnoverStep CreateProvides (.init, .start) calls ↔
      Throughout turnoverStep CreateInTime (.init, .start) calls := by
  refine throughout_congr (P := Counted) (fun _ _ _ ↦ counted_step) ?_ counted_init calls
  intro state call h
  exact forall_congr' fun owner ↦ imp_congr_right fun _ ↦ provides_iff h owner

/-- After 32 channels were created and the first was destroyed, none can be created, although 31
are active. -/
theorem capacity_not_reusable :
    ¬ Throughout turnoverStep CreateProvides (.init, .start)
      ((List.replicate 32 (.create 1) ++ [.destroy 0]) ++ [.create 1]) := by
  intro h
  have hstate : (run turnoverStep (.init, .start)
      (List.replicate 32 (.create 1) ++ [.destroy 0])).map
        (fun state ↦ (state.1.activeChannels.card, (state.1.createChannel 1).1)) =
      some (31, none) := by decide +kernel
  obtain ⟨middle, hrun, hmiddle⟩ := Option.map_eq_some_iff.mp hstate
  have hprovides := (h.at_prefix hrun 1 rfl).1
  rw [(Prod.mk.inj hmiddle).1, (Prod.mk.inj hmiddle).2] at hprovides
  exact absurd (hprovides (by decide)) Bool.false_ne_true

end Avaria.Ipc
