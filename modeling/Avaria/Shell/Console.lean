import Avaria.Ps2.Scancode
import Avaria.Shell.Display

/-!
# The console

From the keyboard to the screen: the interrupt handler makes characters of the scan codes and puts
them into the key buffer, and the shell takes them out with `read_key` and draws. The handler runs
to its end between any two accesses of the shell to the buffer, and also before the shell handles a
character that `read_key` returned.

`decoded` are the characters that scan codes make when none is lost. `console_shows_decoded` says
that the screen shows the session of those that the shell has handled, and that the others wait in
order exactly if no key ever came while the buffer was full.
-/

namespace Avaria.Ps2

namespace Keyboard

/-! ## Characters of scan codes -/

/-- The character that `process_scancode` hands to `buf_push`. -/
def character (kb : Keyboard) (scancode : UInt8) : Option UInt8 :=
  let released := decide (scancode &&& 0x80 ≠ 0)
  let code := scancode &&& 0x7F
  if scancode = 0xE0 then none
  else if code = SC_LSHIFT ∨ code = SC_RSHIFT ∨ code = SC_LCTRL ∨ code = SC_LALT then none
  else if code = SC_CAPSLOCK ∨ released = true then none
  else if kb.keyChar code = 0 then none
  else some (kb.keyChar code)

/-- The characters of some scan codes, when none is lost. -/
def characters : Keyboard → List UInt8 → List UInt8
  | _, [] => []
  | kb, scancode :: rest =>
      (kb.character scancode).toList ++ characters (kb.processScancode scancode) rest

/-- An interrupt puts the character into the buffer, if there is one. -/
theorem buf_processScancode_eq (kb : Keyboard) (scancode : UInt8) :
    (kb.processScancode scancode).buf = (kb.character scancode).elim kb.buf kb.buf.push := by
  unfold processScancode processCode character
  dsimp only
  split_ifs <;> simp_all

/-- The flags do not depend on the buffer. -/
theorem processScancode_buf (kb : Keyboard) (buf : KeyBuffer) (scancode : UInt8) :
    ∃ after, ({ kb with buf } : Keyboard).processScancode scancode =
      { kb.processScancode scancode with buf := after } := by
  refine ⟨(({ kb with buf } : Keyboard).processScancode scancode).buf, ?_⟩
  unfold processScancode processCode
  dsimp only
  split_ifs <;> rfl

/-- Nor do the characters. -/
theorem characters_buf (kb : Keyboard) (buf : KeyBuffer) (scancodes : List UInt8) :
    ({ kb with buf } : Keyboard).characters scancodes = kb.characters scancodes := by
  induction scancodes generalizing kb buf with
  | nil => rfl
  | cons scancode rest ih =>
      obtain ⟨after, heq⟩ := kb.processScancode_buf buf scancode
      rw [characters, heq, ih]
      rfl

end Keyboard

end Avaria.Ps2

namespace Avaria.Shell

open Transition Ps2

/-- The statics of the keyboard, and the shell: where it is in `read_key`, the character that
`read_key` returned and that is not handled yet, and its variables with what it drew. The lists are
the characters that `buf_push` accepted and those that `read_key` returned. -/
structure Console where
  kb : Keyboard
  reader : ReadPoint
  key : Option UInt8
  line : LineState
  calls : List Call
  accepted : List UInt8
  returned : List UInt8

/-- An interrupt with its scan code, or the next step of the shell. -/
inductive ConsoleAction where
  | interrupt (scancode : UInt8)
  | shell

/-- The scan codes of some actions. -/
def scancodes : List ConsoleAction → List UInt8
  | [] => []
  | .interrupt scancode :: rest => scancode :: scancodes rest
  | .shell :: rest => scancodes rest

/-- The characters that scan codes make from boot on. -/
def decoded (codes : List UInt8) : List UInt8 := Keyboard.new.characters codes

namespace Console

/-- The shell before its loop, and no key pressed. -/
def start : Console := ⟨Keyboard.new, .idle, none, Shell.start, startCalls, [], []⟩

/-- The key buffer and its reader. -/
def typing (console : Console) : Typing :=
  ⟨console.kb.buf, console.reader, console.accepted, console.returned⟩

/-- `keyboard_irq_handler`. -/
def interrupt (console : Console) (scancode : UInt8) : Console :=
  { console with
    kb := console.kb.processScancode scancode
    accepted := ((console.kb.character scancode).elim console.typing
      console.typing.interrupt).accepted }

/-- The next access of `read_key`. -/
def read (console : Console) : Console :=
  let typing := console.typing.stepReader
  { console with
    kb := { console.kb with buf := typing.buf }
    reader := typing.reader
    returned := typing.returned
    key := match console.reader with
      | .slotRead ch _ => some ch
      | _ => none }

/-- The next step of the shell: it handles the character that it has, or goes on with `read_key`. A
fault would end it. -/
def stepShell (screen : Screen) (console : Console) : Option Console :=
  match console.key with
  | none => some console.read
  | some ch =>
      match onKey screen console.line ch with
      | .error _ => none
      | .ok (line, calls) =>
          some { console with key := none, line := line, calls := console.calls ++ calls }

/-- An interrupt, or a step of the shell. -/
def step (screen : Screen) (console : Console) : ConsoleAction → Option Console
  | .interrupt scancode => some (console.interrupt scancode)
  | .shell => console.stepShell screen

/-- The characters that the shell has not handled. -/
def unread (console : Console) : List UInt8 := console.key.toList ++ console.kb.buf.contents

/-- A key that makes a character finds room in the buffer. -/
def FindsRoom (console : Console) : ConsoleAction → Prop
  | .interrupt scancode =>
      console.kb.character scancode ≠ none → console.kb.buf.contents.length < 255
  | .shell => True

/-- The buffer is in order, and the shell and the screen are where the characters that were handled
lead. -/
structure Sound (screen : Screen) (display : Display) (console : Console) : Prop where
  inOrder : console.typing.InOrder
  reader : console.typing.ReaderSound
  showing : ∃ handled, handled ++ console.key.toList = console.returned ∧
    Showing screen (sessionOf screen handled) console.line (paint display console.calls)

variable {screen : Screen} {display : Display} {console : Console}

/-- An interrupt is one of the key buffer, or none. -/
theorem typing_interrupt (console : Console) (scancode : UInt8) :
    (console.interrupt scancode).typing =
      (console.kb.character scancode).elim console.typing console.typing.interrupt := by
  have hbuf := console.kb.buf_processScancode_eq scancode
  unfold typing interrupt
  dsimp only
  rw [hbuf]
  cases console.kb.character scancode <;> rfl

theorem Sound.interrupt (h : Sound screen display console) (scancode : UInt8) :
    Sound screen display (console.interrupt scancode) := by
  refine ⟨?_, ?_, h.showing⟩
  · rw [typing_interrupt]
    cases console.kb.character scancode with
    | none => exact h.inOrder
    | some ch => exact Typing.inOrder_interrupt h.inOrder ch
  · rw [typing_interrupt]
    cases console.kb.character scancode with
    | none => exact h.reader
    | some ch => exact Typing.readerSound_interrupt h.reader ch

/-- An access of `read_key` is one of the key buffer. It returns a character when it moves the tail
on. -/
theorem typing_read (console : Console) :
    console.read.typing = console.typing.stepReader ∧
      console.read.returned = console.returned ++ console.read.key.toList := by
  unfold read typing Typing.stepReader
  dsimp only
  cases console.reader with
  | idle => exact ⟨rfl, (List.append_nil _).symm⟩
  | tailLoaded tail =>
      dsimp only
      split <;> exact ⟨rfl, (List.append_nil _).symm⟩
  | keySeen tail => exact ⟨rfl, (List.append_nil _).symm⟩
  | slotRead ch tail => exact ⟨rfl, rfl⟩

theorem Sound.read (h : Sound screen display console) (hkey : console.key = none) :
    Sound screen display console.read := by
  obtain ⟨htyping, hreturned⟩ := console.typing_read
  obtain ⟨handled, hhandled, hshowing⟩ := h.showing
  rw [hkey, Option.toList_none, List.append_nil] at hhandled
  refine ⟨?_, ?_, handled, ?_, hshowing⟩
  · rw [htyping]
    exact Typing.inOrder_stepReader h.inOrder h.reader
  · rw [htyping]
    exact Typing.readerSound_stepReader h.reader
  · rw [hreturned, hhandled]

/-- The shell is never stuck. -/
theorem Sound.stepShell (h : Sound screen display console) :
    ∃ next, console.stepShell screen = some next ∧ Sound screen display next ∧
      next.accepted = console.accepted ∧
      ∃ buf, next.kb = { console.kb with buf } := by
  unfold Console.stepShell
  cases hkey : console.key with
  | none => exact ⟨_, rfl, h.read hkey, rfl, _, rfl⟩
  | some ch =>
      obtain ⟨handled, hreturned, hshowing⟩ := h.showing
      obtain ⟨after, calls, hstep, hnext⟩ := showing_onKey hshowing ch
      dsimp only
      rw [hstep]
      refine ⟨_, rfl, ⟨h.inOrder, h.reader, handled ++ [ch], ?_, ?_⟩, rfl, _, rfl⟩
      · rw [← hreturned, hkey]
        exact List.append_nil _
      · show Showing screen _ after (paint display (console.calls ++ calls))
        rw [paint_append, sessionOf, List.foldl_append]
        exact hnext

theorem sound_start (screen : Screen) (display : Display) : Sound screen display start :=
  ⟨rfl, trivial, [], rfl, showing_start screen display⟩

/-- An interrupt adds its character to those accepted, exactly if it finds room. -/
theorem accepted_interrupt (console : Console) (scancode : UInt8) :
    ∃ taken, (console.interrupt scancode).accepted = console.accepted ++ taken ∧
      taken.Sublist (console.kb.character scancode).toList ∧
      (console.FindsRoom (.interrupt scancode) ↔
        taken = (console.kb.character scancode).toList) := by
  unfold FindsRoom interrupt
  dsimp only
  cases console.kb.character scancode with
  | none => exact ⟨[], (List.append_nil _).symm, List.Sublist.refl _, by simp⟩
  | some ch =>
      rcases console.typing.interrupt_cases ch with ⟨hfull, hsame⟩ | ⟨hroom, hnext⟩
      · refine ⟨[], ?_, List.nil_sublist _, ?_⟩
        · rw [List.append_nil]
          exact congrArg Typing.accepted hsame
        · have hlength : console.kb.buf.contents.length = 255 := hfull
          simp [hlength]
      · refine ⟨[ch], congrArg Typing.accepted hnext, List.Sublist.refl _, ?_⟩
        have hlt : console.kb.buf.filled < 256 := console.kb.buf.filled_lt
        have hne := mt console.kb.buf.full_iff.mpr hroom
        rw [RingQueue.length_contents] at hne
        have hlength : console.kb.buf.contents.length < 255 := by
          rw [RingQueue.length_contents]
          omega
        simp [hlength]

/-- Parts of two lists make their whole exactly if each of them is whole. -/
theorem append_eq_iff {first later whole rest : List UInt8} (hfirst : first.Sublist whole)
    (hlater : later.Sublist rest) :
    first ++ later = whole ++ rest ↔ first = whole ∧ later = rest := by
  refine ⟨fun heq ↦ ?_, fun h ↦ by rw [h.1, h.2]⟩
  have hlength := congrArg List.length heq
  rw [List.length_append, List.length_append] at hlength
  have hle := hfirst.length_le
  have hle' := hlater.length_le
  exact ⟨hfirst.eq_of_length (by omega), hlater.eq_of_length (by omega)⟩

/-- A run from a sound state comes to an end, and accepts the characters that find room. -/
theorem run_sound (h : Sound screen display console) (actions : List ConsoleAction) :
    ∃ final taken, run (step screen) console actions = some final ∧ Sound screen display final ∧
      final.accepted = console.accepted ++ taken ∧
      taken.Sublist (console.kb.characters (scancodes actions)) ∧
      (Throughout (step screen) FindsRoom console actions ↔
        taken = console.kb.characters (scancodes actions)) := by
  induction actions generalizing console with
  | nil =>
      exact ⟨console, [], rfl, h, (List.append_nil _).symm, List.Sublist.refl _,
        ⟨fun _ ↦ rfl, fun _ ↦ trivial⟩⟩
  | cons action rest ih =>
      cases action with
      | interrupt scancode =>
          obtain ⟨first, hfirst, hsub, hroom⟩ := console.accepted_interrupt scancode
          obtain ⟨final, later, hrun, hsound, hlater, hrest, hiff⟩ := ih (h.interrupt scancode)
          refine ⟨final, first ++ later, hrun, hsound, ?_, hsub.append hrest, ?_⟩
          · rw [hlater, hfirst, List.append_assoc]
          · show _ ↔ first ++ later = (console.kb.character scancode).toList ++
              (console.interrupt scancode).kb.characters (scancodes rest)
            rw [append_eq_iff hsub hrest, ← hroom, ← hiff]
            exact and_congr_right fun _ ↦ ⟨fun hnext ↦ hnext _ rfl, fun hnext _ hstep ↦
              Option.some.inj hstep ▸ hnext⟩
      | shell =>
          obtain ⟨next, hstep, hnext, haccepted, buf, hkb⟩ := h.stepShell
          obtain ⟨final, later, hrun, hsound, hlater, hrest, hiff⟩ := ih hnext
          have hchars : next.kb.characters (scancodes rest) =
              console.kb.characters (scancodes rest) := by
            rw [hkb]
            exact console.kb.characters_buf buf _
          rw [hchars] at hrest hiff
          refine ⟨final, later, ?_, hsound, ?_, hrest, ?_⟩
          · exact run_cons_eq_some.mpr ⟨next, hstep, hrun⟩
          · rw [hlater, haccepted]
          · show _ ↔ later = console.kb.characters (scancodes rest)
            rw [← hiff]
            refine ⟨fun hall ↦ hall.2 next hstep, fun hnext ↦ ⟨trivial, fun other hother ↦ ?_⟩⟩
            exact Option.some.inj (hstep.symm.trans hother) ▸ hnext

/-- Wherever the interrupts come, the shell goes on, and the screen shows the session of the
characters that it has handled. With those not handled yet they are the characters that the scan
codes make, in order and without the ones that were lost, and none was lost exactly if every key
found room in the buffer. -/
theorem console_shows_decoded (screen : Screen) (display : Display)
    (actions : List ConsoleAction) :
    ∃ final handled, run (step screen) start actions = some final ∧
      Showing screen (sessionOf screen handled) final.line (paint display final.calls) ∧
      (handled ++ final.unread).Sublist (decoded (scancodes actions)) ∧
      (Throughout (step screen) FindsRoom start actions ↔
        handled ++ final.unread = decoded (scancodes actions)) := by
  obtain ⟨final, taken, hrun, hsound, haccepted, hsub, hiff⟩ :=
    run_sound (sound_start screen display) actions
  obtain ⟨handled, hreturned, hshowing⟩ := hsound.showing
  have htaken : handled ++ final.unread = taken := by
    have horder : final.returned ++ final.kb.buf.contents = final.accepted := hsound.inOrder
    rw [unread, ← List.append_assoc, hreturned, horder, haccepted]
    rfl
  rw [← htaken] at hsub hiff
  exact ⟨final, handled, hrun, hshowing, hsub, hiff⟩

end Console

end Avaria.Shell
