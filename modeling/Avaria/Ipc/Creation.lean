import Avaria.Ipc.Capacity
import Avaria.Lib.Census
import Avaria.Lib.Tally

/-!
# Concurrent channel creation

`create_channel` cut at its accesses to the shared statics: a caller takes a number from
`NEXT_CHANNEL` and later either activates the channel of that number or gives the number back. Any
number of callers do this at the same time, each as often as it likes.

A number that is given back was past the end of the table, so the counter never returns to one that
names a channel: `Counted` relates it to the calls that were made and the numbers that are still to
be given back.
-/

namespace Avaria.Ipc

open Census Tally Transition

/-- Where a caller is in `create_channel`: before its `fetch_add`, or with the number it took. -/
inductive CreatePoint where
  | idle
  | numbered (owner id : UInt32)
  deriving DecidableEq

/-- The channel table, the callers, the number of calls so far, and what the finished ones
returned. -/
structure Creation (callers : Nat) where
  table : ChannelTable
  points : Fin callers → CreatePoint
  calls : Nat
  answers : List (Option UInt32)

/-- The next access of a caller: a call of `create_channel`, which takes a number, or the access
that finishes the call. -/
inductive CreateAccess (callers : Nat) where
  | call (i : Fin callers) (owner : UInt32)
  | finish (i : Fin callers)

namespace Creation

variable {callers : Nat}

/-- No call was made yet. -/
def start : Creation callers := ⟨.init, fun _ ↦ .idle, 0, []⟩

/-- Put a caller at another point. -/
def setPoint (state : Creation callers) (i : Fin callers) (point : CreatePoint) :
    Creation callers :=
  { state with points := Function.update state.points i point }

/-- `fetch_add`. -/
def takeNumber (state : Creation callers) (i : Fin callers) (owner : UInt32) : Creation callers :=
  { state with
    table := { state.table with nextChannel := state.table.nextChannel + 1 }
    calls := state.calls + 1 }.setPoint i (.numbered owner state.table.nextChannel)

/-- `fetch_sub`, and the call returns no id. -/
def giveBack (state : Creation callers) (i : Fin callers) : Creation callers :=
  { state with
    table := { state.table with nextChannel := state.table.nextChannel - 1 }
    answers := state.answers ++ [none] }.setPoint i .idle

/-- The channel is activated, and the call returns its id. -/
def activate (state : Creation callers) (i : Fin callers) (owner id : UInt32) (c : ChannelId) :
    Creation callers :=
  let ch := state.table.channels c
  { state with
    table := state.table.setChannel c { ch with active := true, owner }
    answers := state.answers ++ [some id] }.setPoint i .idle

/-- One access of one caller. -/
def step (state : Creation callers) : CreateAccess callers → Option (Creation callers)
  | .call i owner =>
      match state.points i with
      | .idle => some (state.takeNumber i owner)
      | .numbered _ _ => none
  | .finish i =>
      match state.points i with
      | .idle => none
      | .numbered owner id =>
          match ChannelTable.index id with
          | none => some (state.giveBack i)
          | some c => some (state.activate i owner id c)

/-- The ids that were returned. -/
def ids (state : Creation callers) : List Nat :=
  state.answers.filterMap fun answer ↦ answer.map UInt32.toNat

/-- The returned ids are different and in range, the active channels are those of the returned ids,
and when all calls are finished the first ids have been returned. -/
structure HandedOut (state : Creation callers) : Prop where
  nodup : state.ids.Nodup
  lt : ∀ id ∈ state.ids, id < MAX_CHANNELS
  active_iff : ∀ c, (state.table.channels c).active = true ↔ c.val ∈ state.ids
  finished : (∀ i, state.points i = .idle) →
    state.answers.length = state.calls ∧
      state.ids.Perm (List.range (min state.calls MAX_CHANNELS))

/-- An access that finishes a call without an id changes no channel. -/
def FailsQuietly (state : Creation callers) (access : CreateAccess callers) : Prop :=
  ∀ next, state.step access = some next → next.ids = state.ids →
    next.table.channels = state.table.channels

end Creation

/-! ## Numbers that were taken -/

/-- The caller is about to activate the channel of its number. -/
def CreatePoint.claims : CreatePoint → Multiset Nat
  | .idle => 0
  | .numbered _ id => if id.toNat < MAX_CHANNELS then {id.toNat} else 0

/-- The caller is about to give its number back. -/
def CreatePoint.Rejected : CreatePoint → Prop
  | .idle => False
  | .numbered _ id => MAX_CHANNELS ≤ id.toNat

instance : DecidablePred CreatePoint.Rejected := fun point ↦ by
  cases point <;> unfold CreatePoint.Rejected <;> infer_instance

namespace Creation

variable {callers : Nat}

/-- The ids that callers are about to activate. -/
def claimed (state : Creation callers) : Multiset Nat :=
  tally (fun _ ↦ CreatePoint.claims) state.points

/-- How many numbers are still to be given back. -/
def rejects (state : Creation callers) : Nat :=
  census Finset.univ CreatePoint.Rejected state.points

/-- How many calls returned no id. -/
def failures (state : Creation callers) : Nat := state.answers.countP Option.isNone

/-- The first numbers went out as ids, once each; the counter is past them and the numbers that are
still to be given back. -/
structure Numbered (state : Creation callers) : Prop where
  handed : (state.ids : Multiset Nat) + state.claimed =
    Multiset.range (min state.calls MAX_CHANNELS)
  counter : state.table.nextChannel.toNat = min state.calls MAX_CHANNELS + state.rejects
  total : min state.calls MAX_CHANNELS + state.rejects + state.failures = state.calls
  active_iff : ∀ c, (state.table.channels c).active = true ↔ c.val ∈ state.ids

/-! ## Single accesses -/

variable {state next : Creation callers} {i : Fin callers} {owner id : UInt32} {c : ChannelId}

theorem claims_of_lt (owner : UInt32) (h : id.toNat < MAX_CHANNELS) :
    (CreatePoint.numbered owner id).claims = {id.toNat} :=
  if_pos h

theorem claims_of_le (owner : UInt32) (h : MAX_CHANNELS ≤ id.toNat) :
    (CreatePoint.numbered owner id).claims = 0 :=
  if_neg (Nat.not_lt.mpr h)

theorem claims_idle : CreatePoint.idle.claims = 0 := rfl

theorem not_rejected_of_idle (hidle : state.points i = .idle) : ¬ (state.points i).Rejected := by
  rw [hidle]
  exact fun hrejected ↦ hrejected

theorem index_eq_none_iff : ChannelTable.index id = none ↔ MAX_CHANNELS ≤ id.toNat := by
  unfold ChannelTable.index
  split
  · next h => exact iff_of_false (by simp) (Nat.not_le.mpr h)
  · next h => exact iff_of_true rfl (Nat.not_lt.mp h)

theorem length_answers (state : Creation callers) :
    state.answers.length = state.ids.length + state.failures := by
  rw [ids, failures]
  induction state.answers with
  | nil => rfl
  | cons answer rest ih =>
      cases answer with
      | none => simp [ih, Nat.add_assoc]
      | some id => simp [ih, Nat.add_right_comm]

theorem claimed_setPoint (state : Creation callers) (i : Fin callers) (point : CreatePoint) :
    (state.setPoint i point).claimed + (state.points i).claims = state.claimed + point.claims :=
  tally_update state.points i point

theorem rejects_le (state : Creation callers) : state.rejects ≤ callers := by
  have hle : state.rejects ≤ (Finset.univ : Finset (Fin callers)).card := census_le_card
  rwa [Finset.card_univ, Fintype.card_fin] at hle

theorem numbered_start : (start : Creation callers).Numbered := by
  have hrejects : (start : Creation callers).rejects = 0 :=
    census_eq_zero_iff.mpr fun _ _ hrejected ↦ hrejected
  have hclaimed : (start : Creation callers).claimed = 0 := tally_eq_zero fun _ ↦ rfl
  refine ⟨?_, ?_, ?_, fun c ↦ iff_of_false Bool.false_ne_true List.not_mem_nil⟩
  · rw [hclaimed]
    rfl
  · rw [hrejects]
    rfl
  · rw [hrejects]
    rfl

/-- As long as there are ids, every number so far was one, and so is the next. -/
theorem Numbered.takeNumber_of_lt (h : state.Numbered) (hidle : state.points i = .idle)
    (hlt : state.calls < MAX_CHANNELS) (owner : UInt32) : (state.takeNumber i owner).Numbered := by
  have hclaimed := claimed_setPoint state i (.numbered owner state.table.nextChannel)
  have hhanded := h.handed
  have hcounter := h.counter
  have htotal := h.total
  have hone : (1 : UInt32).toNat = 1 := rfl
  have hmax : MAX_CHANNELS = 32 := rfl
  have hnumber : state.table.nextChannel.toNat = state.calls := by omega
  have hrejects : (state.takeNumber i owner).rejects = state.rejects :=
    census_stay (iff_of_false (Nat.not_le.mpr (hnumber.trans_lt hlt)) (not_rejected_of_idle hidle))
  have hsucc : min (state.calls + 1) MAX_CHANNELS = state.calls + 1 := by omega
  have hmin : min state.calls MAX_CHANNELS = state.calls := by omega
  rw [hidle, claims_idle, add_zero, claims_of_lt owner (hnumber.trans_lt hlt), hnumber] at hclaimed
  rw [hmin] at hhanded
  refine ⟨?_, ?_, ?_, h.active_iff⟩
  · show (state.ids : Multiset Nat) +
      (state.setPoint i (.numbered owner state.table.nextChannel)).claimed =
        Multiset.range (min (state.calls + 1) MAX_CHANNELS)
    rw [hsucc, hclaimed, ← add_assoc, hhanded, Multiset.range_succ, ← Multiset.singleton_add,
      add_comm]
  · show (state.table.nextChannel + 1).toNat = min (state.calls + 1) MAX_CHANNELS + _
    rw [hrejects, UInt32.toNat_add]
    omega
  · show min (state.calls + 1) MAX_CHANNELS + _ + state.failures = state.calls + 1
    omega

/-- With all ids handed out the next number is past the table, and the counter does not wrap
around. -/
theorem Numbered.takeNumber_of_le (h : state.Numbered) (hcallers : callers < 2 ^ 32 - 32)
    (hidle : state.points i = .idle) (hge : MAX_CHANNELS ≤ state.calls) (owner : UInt32) :
    (state.takeNumber i owner).Numbered := by
  have hclaimed := claimed_setPoint state i (.numbered owner state.table.nextChannel)
  have hcounter := h.counter
  have htotal := h.total
  have hone : (1 : UInt32).toNat = 1 := rfl
  have hmax : MAX_CHANNELS = 32 := rfl
  have hpast : MAX_CHANNELS ≤ state.table.nextChannel.toNat := by omega
  have hrejects : (state.takeNumber i owner).rejects = state.rejects + 1 :=
    census_enter (Finset.mem_univ i) (not_rejected_of_idle hidle) hpast
  have hle := rejects_le (state.takeNumber i owner)
  rw [hidle, claims_idle, add_zero, claims_of_le owner hpast, add_zero] at hclaimed
  refine ⟨?_, ?_, ?_, h.active_iff⟩
  · show (state.ids : Multiset Nat) +
      (state.setPoint i (.numbered owner state.table.nextChannel)).claimed =
        Multiset.range (min (state.calls + 1) MAX_CHANNELS)
    rw [hclaimed, h.handed]
    congr 1
    omega
  · show (state.table.nextChannel + 1).toNat = min (state.calls + 1) MAX_CHANNELS + _
    rw [hrejects, UInt32.toNat_add]
    omega
  · show min (state.calls + 1) MAX_CHANNELS + _ + state.failures = state.calls + 1
    omega

theorem ids_giveBack (state : Creation callers) (i : Fin callers) :
    (state.giveBack i).ids = state.ids := by
  show (state.answers ++ [none]).filterMap _ = _
  simp [ids]

theorem failures_giveBack (state : Creation callers) (i : Fin callers) :
    (state.giveBack i).failures = state.failures + 1 := by
  show (state.answers ++ [none]).countP _ = _
  simp [failures]

theorem ids_activate (state : Creation callers) (i : Fin callers) (owner id : UInt32)
    (c : ChannelId) : (state.activate i owner id c).ids = state.ids ++ [id.toNat] := by
  show (state.answers ++ [some id]).filterMap _ = _
  simp [ids]

theorem failures_activate (state : Creation callers) (i : Fin callers) (owner id : UInt32)
    (c : ChannelId) : (state.activate i owner id c).failures = state.failures := by
  show (state.answers ++ [some id]).countP _ = _
  simp [failures]

/-- A number past the table is given back. -/
theorem Numbered.giveBack (h : state.Numbered) (hpoint : state.points i = .numbered owner id)
    (hpast : MAX_CHANNELS ≤ id.toNat) : (state.giveBack i).Numbered := by
  have hclaimed := claimed_setPoint state i .idle
  have hbefore : (state.points i).Rejected := by
    rw [hpoint]
    exact hpast
  have hrejects : (state.giveBack i).rejects + 1 = state.rejects :=
    census_leave (Finset.mem_univ i) hbefore fun hrejected ↦ hrejected
  have hfailures := failures_giveBack state i
  have hcounter := h.counter
  have htotal := h.total
  have hlt := state.table.nextChannel.toNat_lt
  rw [hpoint, claims_of_le owner hpast, add_zero, claims_idle, add_zero] at hclaimed
  refine ⟨?_, ?_, ?_, fun c ↦ ?_⟩
  · rw [ids_giveBack]
    exact (congrArg _ hclaimed).trans h.handed
  · show (state.table.nextChannel - 1).toNat = min state.calls MAX_CHANNELS + _
    have hone : (1 : UInt32).toNat = 1 := rfl
    rw [UInt32.toNat_sub]
    omega
  · show min state.calls MAX_CHANNELS + _ + _ = state.calls
    omega
  · rw [ids_giveBack]
    exact h.active_iff c

/-- The channel of an id is activated. -/
theorem Numbered.activate (h : state.Numbered) (hpoint : state.points i = .numbered owner id)
    (hindex : ChannelTable.index id = some c) : (state.activate i owner id c).Numbered := by
  have hid := ChannelTable.index_eq_some_iff.mp hindex
  have hlt : id.toNat < MAX_CHANNELS := hid.trans_lt c.isLt
  have hclaimed := claimed_setPoint state i .idle
  have hbefore : ¬ (state.points i).Rejected := by
    rw [hpoint]
    exact Nat.not_le.mpr hlt
  have hrejects : (state.activate i owner id c).rejects = state.rejects :=
    census_stay (iff_of_false (fun hrejected ↦ hrejected) hbefore)
  rw [hpoint, claims_of_lt owner hlt, claims_idle, add_zero] at hclaimed
  refine ⟨?_, ?_, ?_, fun d ↦ ?_⟩
  · have hhanded : (state.ids : Multiset Nat) + (state.setPoint i .idle).claimed + {id.toNat} =
        Multiset.range (min state.calls MAX_CHANNELS) := by
      rw [add_assoc, hclaimed, h.handed]
    rw [ids_activate, ← Multiset.coe_add, add_right_comm]
    exact hhanded
  · rw [hrejects]
    exact h.counter
  · rw [hrejects, failures_activate]
    exact h.total
  · show ((state.table.setChannel c _).channels d).active = true ↔ _
    rw [ids_activate, List.mem_append, List.mem_singleton]
    by_cases heq : d = c
    · subst heq
      rw [ChannelTable.channels_setChannel_self]
      exact iff_of_true rfl (Or.inr hid.symm)
    · rw [ChannelTable.channels_setChannel_of_ne _ heq, h.active_iff]
      have hne : d.val ≠ id.toNat := fun hval ↦ heq (Fin.ext (hval.trans hid))
      rw [or_iff_left hne]

theorem step_call_eq_some :
    state.step (.call i owner) = some next ↔
      state.points i = .idle ∧ next = state.takeNumber i owner := by
  unfold step
  cases hpoint : state.points i <;> simp [hpoint, eq_comm]

/-- A finishing access gives the number back or activates its channel. -/
theorem step_finish_cases (hstep : state.step (.finish i) = some next) :
    ∃ owner id, state.points i = .numbered owner id ∧
      ((MAX_CHANNELS ≤ id.toNat ∧ next = state.giveBack i) ∨
        ∃ c, ChannelTable.index id = some c ∧ next = state.activate i owner id c) := by
  unfold step at hstep
  cases hpoint : state.points i with
  | idle =>
      simp only [hpoint] at hstep
      cases hstep
  | numbered owner id =>
      refine ⟨owner, id, rfl, ?_⟩
      simp only [hpoint] at hstep
      cases hindex : ChannelTable.index id with
      | none =>
          simp only [hindex] at hstep
          cases hstep
          exact Or.inl ⟨index_eq_none_iff.mp hindex, rfl⟩
      | some c =>
          simp only [hindex] at hstep
          cases hstep
          exact Or.inr ⟨c, rfl, rfl⟩

/-- Every access keeps the count of the numbers. -/
theorem numbered_step {access : CreateAccess callers} (hcallers : callers < 2 ^ 32 - 32)
    (h : state.Numbered) (hstep : state.step access = some next) : next.Numbered := by
  cases access with
  | call i owner =>
      obtain ⟨hidle, rfl⟩ := step_call_eq_some.mp hstep
      rcases Nat.lt_or_ge state.calls MAX_CHANNELS with hlt | hge
      · exact h.takeNumber_of_lt hidle hlt owner
      · exact h.takeNumber_of_le hcallers hidle hge owner
  | finish i =>
      obtain ⟨owner, id, hpoint, ⟨hpast, rfl⟩ | ⟨c, hindex, rfl⟩⟩ := step_finish_cases hstep
      · exact h.giveBack hpoint hpast
      · exact h.activate hpoint hindex

/-- Only an access that returns an id touches a channel. -/
theorem failsQuietly (state : Creation callers) (access : CreateAccess callers) :
    state.FailsQuietly access := by
  intro next hstep hids
  cases access with
  | call i owner =>
      obtain ⟨_, rfl⟩ := step_call_eq_some.mp hstep
      rfl
  | finish i =>
      obtain ⟨owner, id, _, ⟨_, rfl⟩ | ⟨c, _, rfl⟩⟩ := step_finish_cases hstep
      · rfl
      · rw [ids_activate] at hids
        exact absurd (List.append_right_eq_self.mp hids) (List.cons_ne_nil _ _)

theorem Numbered.handedOut (h : state.Numbered) : state.HandedOut where
  nodup := by
    have hle : (state.ids : Multiset Nat) ≤ Multiset.range (min state.calls MAX_CHANNELS) :=
      h.handed ▸ Multiset.le_add_right _ _
    exact Multiset.coe_nodup.mp (Multiset.nodup_of_le hle (Multiset.nodup_range _))
  lt id hid := by
    have hmem : id ∈ Multiset.range (min state.calls MAX_CHANNELS) := by
      rw [← h.handed, Multiset.mem_add]
      exact Or.inl hid
    exact (Multiset.mem_range.mp hmem).trans_le (Nat.min_le_right _ _)
  active_iff := h.active_iff
  finished hidle := by
    have hclaimed : state.claimed = 0 := tally_eq_zero fun i ↦ by rw [hidle i, claims_idle]
    have hrejects : state.rejects = 0 := census_eq_zero_iff.mpr fun i _ hrejected ↦ by
      rw [hidle i] at hrejected
      exact hrejected
    have hperm : state.ids.Perm (List.range (min state.calls MAX_CHANNELS)) := by
      have hhanded := h.handed
      rw [hclaimed, add_zero] at hhanded
      exact Multiset.coe_eq_coe.mp hhanded
    have hlength := hperm.length_eq
    have htotal := h.total
    rw [List.length_range] at hlength
    refine ⟨?_, hperm⟩
    rw [length_answers]
    omega

/-- However the calls of `create_channel` of fewer than `2 ^ 32 - 32` callers interleave, the
returned ids are different and less than 32, the active channels are exactly those that were
returned, a call that fails changes no channel, and once all calls are finished the first ids have
been returned, one for each call as long as there are some. -/
theorem create_hands_out (hcallers : callers < 2 ^ 32 - 32)
    (accesses : List (CreateAccess callers)) :
    Along step HandedOut start accesses ∧ Throughout step FailsQuietly start accesses := by
  have hnumbered : Along step Numbered start accesses :=
    along_of_invariant (fun _ _ _ ↦ numbered_step hcallers) numbered_start accesses
  refine ⟨hnumbered.mono fun _ ↦ Numbered.handedOut, ?_⟩
  exact throughout_of_invariant (P := Numbered) (fun _ _ _ ↦ numbered_step hcallers)
    (fun state access _ ↦ failsQuietly state access) numbered_start accesses

/-- Two callers whose calls overlap. -/
theorem create_hands_out_two :
    Along step HandedOut (start : Creation 2) [.call 0 7, .call 1 8, .finish 1, .finish 0] :=
  (create_hands_out (by decide) _).1

/-- A call without interruption is a call of `createChannel`. -/
theorem run_create (state : Creation callers) {i : Fin callers} (hidle : state.points i = .idle)
    (owner : UInt32) :
    run step state [.call i owner, .finish i] =
      some { state with
        table := (state.table.createChannel owner).2
        calls := state.calls + 1
        answers := state.answers ++ [(state.table.createChannel owner).1] } := by
  have hback : Function.update state.points i .idle = state.points := by
    rw [← hidle, Function.update_eq_self]
  cases hindex : ChannelTable.index state.table.nextChannel with
  | none =>
      simp only [run_cons, run_nil, step, hidle, Option.bind_some, takeNumber, giveBack, setPoint,
        Function.update_self, Function.update_idem, hback, hindex, ChannelTable.createChannel]
  | some c =>
      simp only [run_cons, run_nil, step, hidle, Option.bind_some, takeNumber, activate, setPoint,
        Function.update_self, Function.update_idem, hback, hindex, ChannelTable.createChannel]

end Creation

end Avaria.Ipc
