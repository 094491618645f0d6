import Avaria.Lib.RingQueue
import Avaria.Lib.Transition
import Mathlib.Data.Nat.Bitwise

/-!
# The key buffer

`buf_push` and `read_key` of the keyboard driver. One task reads, cut at its accesses to the shared
ring; between any two of them keyboard interrupts may come, each of which runs `buf_push` to its
end.

The reader keeps copies of both indices. Interrupts move the head only, so the copy of the tail
stays exact and the ring does not become empty: `ReaderSound` says this for each point of the
reader.
-/

namespace Avaria.Ps2

open Transition

/-- `KB_BUF_SIZE`. -/
abbrev KB_BUF_SIZE : Nat := 256

/-- An index of `KB_BUF`. -/
abbrev Slot := Fin KB_BUF_SIZE

/-- The statics `KB_BUF`, `KB_HEAD` and `KB_TAIL`. The indices are always masked. -/
abbrev KeyBuffer := RingQueue UInt8 KB_BUF_SIZE

/-- The statics at boot. -/
def KeyBuffer.new : KeyBuffer := ⟨fun _ ↦ 0, 0, 0⟩

/-- The index after another. -/
def nextSlot (i : Slot) : Slot :=
  ⟨(i.val + 1) &&& (KB_BUF_SIZE - 1), Nat.lt_of_le_of_lt Nat.and_le_right (by decide)⟩

/-- `buf_push`. A character that finds the buffer full is dropped. -/
def KeyBuffer.push (buf : KeyBuffer) (ch : UInt8) : KeyBuffer :=
  let next := nextSlot buf.head
  if next ≠ buf.tail then
    { buf with slots := Function.update buf.slots buf.head ch, head := next }
  else buf

/-- `read_key`. -/
def KeyBuffer.readKey (buf : KeyBuffer) : Option UInt8 × KeyBuffer :=
  if buf.tail = buf.head then (none, buf)
  else (some (buf.slots buf.tail), { buf with tail := nextSlot buf.tail })

/-- Where the reading task is in `read_key`, with what it has loaded so far. -/
inductive ReadPoint where
  | idle
  | tailLoaded (tail : Slot)
  | keySeen (tail : Slot)
  | slotRead (ch : UInt8) (tail : Slot)

/-- The buffer, the reading task, the characters that `buf_push` accepted and those that `read_key`
returned. -/
structure Typing where
  buf : KeyBuffer
  reader : ReadPoint
  accepted : List UInt8
  returned : List UInt8

/-- A keyboard interrupt with its character, or the next access of the reading task. -/
inductive KeyAccess where
  | interrupt (ch : UInt8)
  | reader

namespace Typing

/-- An empty buffer, and no call under way. -/
def start : Typing := ⟨KeyBuffer.new, .idle, [], []⟩

/-- A call of `buf_push`. -/
def interrupt (state : Typing) (ch : UInt8) : Typing :=
  { state with
    buf := state.buf.push ch
    accepted :=
      if nextSlot state.buf.head ≠ state.buf.tail then state.accepted ++ [ch]
      else state.accepted }

/-- The next access of `read_key`: the loads of the tail and of the head, the read of the slot and
the store of the tail. -/
def stepReader (state : Typing) : Typing :=
  match state.reader with
  | .idle => { state with reader := .tailLoaded state.buf.tail }
  | .tailLoaded tail =>
      if tail = state.buf.head then { state with reader := .idle }
      else { state with reader := .keySeen tail }
  | .keySeen tail => { state with reader := .slotRead (state.buf.slots tail) tail }
  | .slotRead ch tail =>
      { state with
        buf := { state.buf with tail := nextSlot tail }
        reader := .idle
        returned := state.returned ++ [ch] }

/-- An interrupt, or one access of the reading task. -/
def step (state : Typing) : KeyAccess → Option Typing
  | .interrupt ch => some (state.interrupt ch)
  | .reader => some state.stepReader

/-- What `read_key` returned and what waits in the buffer is what `buf_push` accepted, in order. -/
def InOrder (state : Typing) : Prop := state.returned ++ state.buf.contents = state.accepted

/-- The access overwrites no slot whose character has not been released by a store of the tail. -/
def KeepsUnread (state : Typing) (access : KeyAccess) : Prop :=
  ∀ next, state.step access = some next → ∀ slot, state.buf.Occupied slot →
    next.buf.slots slot = state.buf.slots slot

/-- An interrupt drops its character only when 255 accepted ones have not been released. -/
def DropsWhenFull (state : Typing) (access : KeyAccess) : Prop :=
  ∀ ch, access = .interrupt ch → (state.interrupt ch).accepted = state.accepted →
    state.accepted.length = state.returned.length + 255

/-- What the reading task has loaded is still so. -/
def ReaderSound (state : Typing) : Prop :=
  match state.reader with
  | .idle => True
  | .tailLoaded tail => tail = state.buf.tail
  | .keySeen tail => tail = state.buf.tail ∧ tail ≠ state.buf.head
  | .slotRead ch tail =>
      tail = state.buf.tail ∧ tail ≠ state.buf.head ∧ state.buf.slots tail = ch

end Typing

/-! ## The buffer as a queue -/

theorem nextSlot_eq (i : Slot) : nextSlot i = RingQueue.next i :=
  Fin.ext (Nat.and_two_pow_sub_one_eq_mod (i.val + 1) 8)

/-- The buffer is full when 255 characters wait. -/
theorem KeyBuffer.full_iff (buf : KeyBuffer) :
    nextSlot buf.head = buf.tail ↔ buf.contents.length = 255 := by
  rw [nextSlot_eq, buf.next_head_eq_tail_iff]
  exact Nat.add_right_cancel_iff (n := 1) (m := _) (k := 255)

/-- `buf_push` puts the character at the end, unless the buffer is full. -/
theorem KeyBuffer.push_cases (buf : KeyBuffer) (ch : UInt8) :
    (nextSlot buf.head = buf.tail ∧ buf.push ch = buf) ∨
      (nextSlot buf.head ≠ buf.tail ∧ buf.push ch = buf.put ch ∧
        (buf.put ch).contents = buf.contents ++ [ch]) := by
  by_cases hfull : nextSlot buf.head = buf.tail
  · exact Or.inl ⟨hfull, if_neg (not_not_intro hfull)⟩
  · have hroom : RingQueue.next buf.head ≠ buf.tail := by rwa [← nextSlot_eq]
    refine Or.inr ⟨hfull, ?_, RingQueue.contents_put hroom ch⟩
    rw [KeyBuffer.push, nextSlot_eq, if_pos hroom]
    rfl

namespace Typing

variable {state next : Typing}

/-- The outcomes of an interrupt. -/
theorem interrupt_cases (state : Typing) (ch : UInt8) :
    (state.buf.contents.length = 255 ∧ state.interrupt ch = state) ∨
      (nextSlot state.buf.head ≠ state.buf.tail ∧
        state.interrupt ch =
          { state with buf := state.buf.put ch, accepted := state.accepted ++ [ch] }) := by
  rcases state.buf.push_cases ch with ⟨hfull, hpush⟩ | ⟨hroom, hpush, _⟩
  · refine Or.inl ⟨state.buf.full_iff.mp hfull, ?_⟩
    rw [interrupt, hpush, if_neg (not_not_intro hfull)]
  · refine Or.inr ⟨hroom, ?_⟩
    rw [interrupt, hpush, if_pos hroom]

theorem inOrder_interrupt (h : state.InOrder) (ch : UInt8) : (state.interrupt ch).InOrder := by
  rcases state.interrupt_cases ch with ⟨_, hsame⟩ | ⟨hroom, hnext⟩
  · rw [hsame]
    exact h
  · rw [nextSlot_eq] at hroom
    rw [hnext]
    show state.returned ++ (state.buf.put ch).contents = state.accepted ++ [ch]
    rw [RingQueue.contents_put hroom, ← List.append_assoc, h]

/-- An interrupt leaves the tail and the slots with characters alone, so what the reading task has
loaded stays so. -/
theorem readerSound_interrupt (h : state.ReaderSound) (ch : UInt8) :
    (state.interrupt ch).ReaderSound := by
  rcases state.interrupt_cases ch with ⟨_, hsame⟩ | ⟨hroom, hnext⟩
  · rw [hsame]
    exact h
  · rw [hnext]
    unfold ReaderSound at h ⊢
    -- the new head is not the tail, because there was room
    have hhead {tail : Slot} (htail : tail = state.buf.tail) :
        tail ≠ RingQueue.next state.buf.head := by
      rw [htail, ← nextSlot_eq]
      exact hroom.symm
    cases hpoint : state.reader with
    | idle => trivial
    | tailLoaded tail =>
        simp only [hpoint] at h
        exact h
    | keySeen tail =>
        simp only [hpoint] at h
        exact ⟨h.1, hhead h.1⟩
    | slotRead taken tail =>
        simp only [hpoint] at h
        refine ⟨h.1, hhead h.1, ?_⟩
        exact (Function.update_of_ne h.2.1 _ _).trans h.2.2

/-- The reading task takes a character out of the buffer when it stores the tail. -/
theorem inOrder_stepReader (h : state.InOrder) (hreader : state.ReaderSound) :
    state.stepReader.InOrder := by
  unfold stepReader
  unfold ReaderSound at hreader
  cases hpoint : state.reader with
  | idle => exact h
  | tailLoaded tail =>
      by_cases hempty : tail = state.buf.head
      · simp only [if_pos hempty]
        exact h
      · simp only [if_neg hempty]
        exact h
  | keySeen tail => exact h
  | slotRead ch tail =>
      simp only [hpoint] at hreader
      obtain ⟨htail, hne, hslot⟩ := hreader
      subst htail
      show (state.returned ++ [ch]) ++ RingQueue.contents { state.buf with tail := nextSlot _ } = _
      rw [nextSlot_eq, List.append_assoc, List.singleton_append, ← hslot]
      exact (congrArg _ (RingQueue.contents_drop hne)).symm.trans h

theorem readerSound_stepReader (h : state.ReaderSound) : state.stepReader.ReaderSound := by
  unfold stepReader
  unfold ReaderSound at h
  cases hpoint : state.reader with
  | idle => exact rfl
  | tailLoaded tail =>
      simp only [hpoint] at h ⊢
      by_cases hempty : tail = state.buf.head
      · rw [if_pos hempty]
        trivial
      · rw [if_neg hempty]
        exact ⟨h, hempty⟩
  | keySeen tail =>
      simp only [hpoint] at h
      exact ⟨h.1, h.2, rfl⟩
  | slotRead ch tail => trivial

/-- Every access keeps the order and what the reading task has loaded. -/
theorem sound_step {access : KeyAccess} (h : state.InOrder ∧ state.ReaderSound)
    (hstep : state.step access = some next) : next.InOrder ∧ next.ReaderSound := by
  cases access with
  | interrupt ch =>
      cases hstep
      exact ⟨inOrder_interrupt h.1 ch, readerSound_interrupt h.2 ch⟩
  | reader =>
      cases hstep
      exact ⟨inOrder_stepReader h.1 h.2, readerSound_stepReader h.2⟩

/-- The reading task writes no slot. -/
theorem slots_stepReader (state : Typing) : state.stepReader.buf.slots = state.buf.slots := by
  unfold stepReader
  cases state.reader with
  | idle => rfl
  | tailLoaded tail =>
      by_cases hempty : tail = state.buf.head
      · simp only [if_pos hempty]
      · simp only [if_neg hempty]
  | keySeen tail => rfl
  | slotRead ch tail => rfl

/-- An interrupt writes the slot of the head, which holds no unread character. -/
theorem keepsUnread (state : Typing) (access : KeyAccess) : state.KeepsUnread access := by
  intro next hstep slot hocc
  cases access with
  | interrupt ch =>
      cases hstep
      rcases state.interrupt_cases ch with ⟨_, hsame⟩ | ⟨_, hnext⟩
      · rw [hsame]
      · rw [hnext]
        refine Function.update_of_ne ?_ _ _
        intro heq
        exact state.buf.not_occupied_head (heq ▸ hocc)
  | reader =>
      cases hstep
      rw [slots_stepReader]

theorem dropsWhenFull (h : state.InOrder) (access : KeyAccess) : state.DropsWhenFull access := by
  intro ch _ hdropped
  rcases state.interrupt_cases ch with ⟨hfull, _⟩ | ⟨_, hnext⟩
  · rw [← h, List.length_append, hfull]
  · rw [hnext] at hdropped
    exact absurd (List.append_right_eq_self.mp hdropped) (List.cons_ne_nil _ _)

/-- Wherever the keyboard interrupts come between the accesses of `read_key`, the characters that it
returned and those that wait are the ones that `buf_push` accepted, in order; no slot is overwritten
before its character was released; and a character is dropped only when 255 wait. -/
theorem key_buffer_in_order (accesses : List KeyAccess) :
    Along step (fun state ↦ state.InOrder ∧ state.returned <+: state.accepted) start accesses ∧
      Throughout step (fun state access ↦ state.KeepsUnread access ∧ state.DropsWhenFull access)
        start accesses := by
  have hstart : start.InOrder ∧ start.ReaderSound := ⟨rfl, trivial⟩
  constructor
  · refine (along_of_invariant (fun _ _ _ ↦ sound_step) hstart accesses).mono fun state h ↦ ?_
    exact ⟨h.1, state.buf.contents, h.1⟩
  · refine throughout_of_invariant (P := fun state ↦ state.InOrder ∧ state.ReaderSound)
      (fun _ _ _ ↦ sound_step) (fun state access h ↦ ?_) hstart accesses
    exact ⟨keepsUnread state access, dropsWhenFull h.1 access⟩

/-! ## Calls without interruption -/

/-- An uninterrupted call finds the buffer empty or takes a character, as `readKey` does. -/
theorem run_readKey (state : Typing) (hidle : state.reader = .idle)
    (hne : state.buf.tail ≠ state.buf.head) :
    run step state [.reader, .reader, .reader, .reader] =
      some { state with
        buf := state.buf.readKey.2
        returned := state.returned ++ state.buf.readKey.1.toList } := by
  simp only [run_cons, run_nil, step, stepReader, hidle, Option.bind_some, if_neg hne,
    KeyBuffer.readKey, Option.toList_some]

end Typing

end Avaria.Ps2
