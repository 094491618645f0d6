import Avaria.Ps2.KeyBuffer

/-!
# Scan codes

`process_scancode` of the keyboard driver, which the interrupt handler calls with each byte that the
keyboard sends. The bytes E0 are skipped, so the keys that share a code share a modifier flag too.

`modifiers_follow_iff` says for which sequences of presses and releases the flags tell which
modifiers are held.
-/

namespace Avaria.Ps2

open Transition

/-- `SC_LSHIFT`. -/
def SC_LSHIFT : UInt8 := 0x2A

/-- `SC_RSHIFT`. -/
def SC_RSHIFT : UInt8 := 0x36

/-- `SC_LCTRL`. -/
def SC_LCTRL : UInt8 := 0x1D

/-- `SC_LALT`. -/
def SC_LALT : UInt8 := 0x38

/-- `SC_CAPSLOCK`. -/
def SC_CAPSLOCK : UInt8 := 0x3A

/-- The byte of a character literal. -/
def ascii (c : Char) : UInt8 := c.toUInt8

/-- `SCANCODE_TABLE`. -/
def SCANCODE_TABLE : List UInt8 := [
  0, 0x1B, ascii '1', ascii '2', ascii '3', ascii '4', ascii '5', ascii '6',
  ascii '7', ascii '8', ascii '9', ascii '0', ascii '-', ascii '=', 0x08, 0x09,
  ascii 'q', ascii 'w', ascii 'e', ascii 'r', ascii 't', ascii 'y', ascii 'u', ascii 'i',
  ascii 'o', ascii 'p', ascii '[', ascii ']', 0x0A, 0, ascii 'a', ascii 's',
  ascii 'd', ascii 'f', ascii 'g', ascii 'h', ascii 'j', ascii 'k', ascii 'l', ascii ';',
  0x27, 0x60, 0, 0x5C, ascii 'z', ascii 'x', ascii 'c', ascii 'v',
  ascii 'b', ascii 'n', ascii 'm', ascii ',', ascii '.', ascii '/', 0, ascii '*',
  0, ascii ' ', 0, 0, 0, 0, 0, 0,
  0, 0, 0, 0, 0, 0, 0, 0,
  0, 0, ascii '-', 0, 0, 0, ascii '+', 0,
  0, 0, 0, 0, 0, 0, 0, 0,
  0, 0, 0, 0, 0, 0, 0, 0,
  0, 0, 0, 0, 0, 0, 0, 0,
  0, 0, 0, 0, 0, 0, 0, 0,
  0, 0, 0, 0, 0, 0, 0, 0,
  0, 0, 0, 0, 0, 0, 0, 0
]

/-- `SCANCODE_TABLE_SHIFT`. -/
def SCANCODE_TABLE_SHIFT : List UInt8 := [
  0, 0x1B, ascii '!', ascii '@', ascii '#', ascii '$', ascii '%', ascii '^',
  ascii '&', ascii '*', ascii '(', ascii ')', ascii '_', ascii '+', 0x08, 0x09,
  ascii 'Q', ascii 'W', ascii 'E', ascii 'R', ascii 'T', ascii 'Y', ascii 'U', ascii 'I',
  ascii 'O', ascii 'P', 0x7B, 0x7D, 0x0A, 0, ascii 'A', ascii 'S',
  ascii 'D', ascii 'F', ascii 'G', ascii 'H', ascii 'J', ascii 'K', ascii 'L', ascii ':',
  0x22, ascii '~', 0, ascii '|', ascii 'Z', ascii 'X', ascii 'C', ascii 'V',
  ascii 'B', ascii 'N', ascii 'M', ascii '<', ascii '>', ascii '?', 0, ascii '*',
  0, ascii ' ', 0, 0, 0, 0, 0, 0,
  0, 0, 0, 0, 0, 0, 0, 0,
  0, 0, ascii '-', 0, 0, 0, ascii '+', 0,
  0, 0, 0, 0, 0, 0, 0, 0,
  0, 0, 0, 0, 0, 0, 0, 0,
  0, 0, 0, 0, 0, 0, 0, 0,
  0, 0, 0, 0, 0, 0, 0, 0,
  0, 0, 0, 0, 0, 0, 0, 0,
  0, 0, 0, 0, 0, 0, 0, 0
]

/-- The statics of the keyboard. -/
structure Keyboard where
  shiftHeld : Bool
  ctrlHeld : Bool
  altHeld : Bool
  capsLock : Bool
  buf : KeyBuffer

namespace Keyboard

/-- The statics at boot. -/
def new : Keyboard := ⟨false, false, false, false, KeyBuffer.new⟩

/-- The character of a key. -/
def keyChar (kb : Keyboard) (code : UInt8) : UInt8 :=
  let shift := kb.shiftHeld
  let caps := kb.capsLock
  let base := SCANCODE_TABLE.getD code.toNat 0
  if caps && !shift then
    if base ≥ ascii 'a' ∧ base ≤ ascii 'z' then base - 32 else base
  else if caps && shift then
    if base ≥ ascii 'a' ∧ base ≤ ascii 'z' then base
    else SCANCODE_TABLE_SHIFT.getD code.toNat 0
  else if shift then SCANCODE_TABLE_SHIFT.getD code.toNat 0
  else base

/-- The rest of `process_scancode`, once the release bit is taken off. -/
def processCode (kb : Keyboard) (code : UInt8) (released : Bool) : Keyboard :=
  if code = SC_LSHIFT ∨ code = SC_RSHIFT then { kb with shiftHeld := !released }
  else if code = SC_LCTRL then { kb with ctrlHeld := !released }
  else if code = SC_LALT then { kb with altHeld := !released }
  else if code = SC_CAPSLOCK ∧ released = false then { kb with capsLock := !kb.capsLock }
  else if released then kb
  else
    let ch := kb.keyChar code
    if ch ≠ 0 then { kb with buf := kb.buf.push ch } else kb

/-- `process_scancode`. -/
def processScancode (kb : Keyboard) (scancode : UInt8) : Keyboard :=
  if scancode = 0xE0 then kb
  else
    let released := decide (scancode &&& 0x80 ≠ 0)
    let code := scancode &&& 0x7F
    kb.processCode code released

end Keyboard

/-! ## Keys -/

/-- A key: its code, and whether E0 comes before it. Print Screen, which sends E0 2A E0 37, counts
as two keys; Pause, which sends E1 1D 45 E1 9D C5, is none of them. -/
structure Key where
  extended : Bool
  code : UInt8
  code_lt : code < 0x80
  deriving DecidableEq

/-- The bytes that a key sends when it is pressed or released. -/
def Key.scancodes (key : Key) (released : Bool) : List UInt8 :=
  let code := if released then key.code ||| 0x80 else key.code
  if key.extended then [0xE0, code] else [code]

/-- The modifiers. -/
inductive Modifier where
  | shift
  | ctrl
  | alt
  deriving DecidableEq

namespace Modifier

/-- The left one of the two keys of a modifier. -/
def left : Modifier → Key
  | .shift => ⟨false, SC_LSHIFT, by decide⟩
  | .ctrl => ⟨false, SC_LCTRL, by decide⟩
  | .alt => ⟨false, SC_LALT, by decide⟩

/-- The right one of the two keys of a modifier. -/
def right : Modifier → Key
  | .shift => ⟨false, SC_RSHIFT, by decide⟩
  | .ctrl => ⟨true, SC_LCTRL, by decide⟩
  | .alt => ⟨true, SC_LALT, by decide⟩

/-- The code is that of one of the two keys. -/
def Codes (m : Modifier) (code : UInt8) : Prop := code = m.left.code ∨ code = m.right.code

instance (m : Modifier) : DecidablePred m.Codes := fun _ ↦ inferInstanceAs (Decidable (_ ∨ _))

end Modifier

/-- The flag of a modifier: `SHIFT_HELD`, `CTRL_HELD` or `ALT_HELD`. -/
def Keyboard.held (kb : Keyboard) : Modifier → Bool
  | .shift => kb.shiftHeld
  | .ctrl => kb.ctrlHeld
  | .alt => kb.altHeld

/-- The driver, and which keys are down. -/
structure Desk where
  kb : Keyboard
  down : Key → Bool

/-- A key is pressed or released. -/
inductive KeyEvent where
  | press (key : Key)
  | release (key : Key)

namespace Desk

/-- The driver at boot, and no key down. -/
def start : Desk := ⟨Keyboard.new, fun _ ↦ false⟩

/-- A key sends its bytes, and the handler runs for each of them. -/
def send (desk : Desk) (key : Key) (released : Bool) : Desk :=
  ⟨(key.scancodes released).foldl Keyboard.processScancode desk.kb,
    Function.update desk.down key !released⟩

/-- One event. A key that is held down repeats its make code; a key that is up cannot be
released. -/
def step (desk : Desk) : KeyEvent → Option Desk
  | .press key => some (desk.send key false)
  | .release key => if desk.down key = true then some (desk.send key true) else none

/-- One of the keys of the modifier is down. -/
def holds (desk : Desk) (m : Modifier) : Bool := desk.down m.left || desk.down m.right

/-- Each flag is set exactly while one of its keys is down. -/
def Follows (desk : Desk) : Prop := ∀ m, desk.kb.held m = desk.holds m

/-- What shares a code with a modifier is released only while the keys of the modifier, other than
the one released, are up. What is none of them, such as the E0 2A that Print Screen sends, is
pressed only while one of them is down. -/
def CodeFits (desk : Desk) : KeyEvent → Prop
  | .press key => ∀ m : Modifier, m.Codes key.code →
      key = m.left ∨ key = m.right ∨ desk.holds m = true
  | .release key => desk.down key = true → ∀ m : Modifier, m.Codes key.code →
      (key ≠ m.left → desk.down m.left = false) ∧ (key ≠ m.right → desk.down m.right = false)

end Desk

/-! ## Codes and flags -/

theorem Modifier.left_ne_right (m : Modifier) : m.left ≠ m.right := by
  cases m <;> decide

/-- The release bit and the code can be told apart, and E0 is one break code. -/
theorem release_bits : ∀ n < 128,
    UInt8.ofNat n ≠ 0xE0 ∧ UInt8.ofNat n &&& 0x80 = 0 ∧ UInt8.ofNat n &&& 0x7F = UInt8.ofNat n ∧
      (UInt8.ofNat n ||| 0x80 = 0xE0 → UInt8.ofNat n = 0x60) ∧
      (UInt8.ofNat n ||| 0x80) &&& 0x80 ≠ 0 ∧
      (UInt8.ofNat n ||| 0x80) &&& 0x7F = UInt8.ofNat n := by
  decide

/-- Both tables have an entry for each code. -/
theorem code_in_tables (scancode : UInt8) :
    (scancode &&& 0x7F).toNat < SCANCODE_TABLE.length ∧
      SCANCODE_TABLE.length = SCANCODE_TABLE_SHIFT.length := by
  have hlength : SCANCODE_TABLE.length = 128 := rfl
  have hmask : scancode.toNat &&& 127 ≤ 127 := Nat.and_le_right
  rw [hlength, UInt8.toNat_and]
  exact ⟨Nat.lt_succ_of_le hmask, rfl⟩

/-- No code belongs to two modifiers. -/
theorem Modifier.Codes.unique {m other : Modifier} {code : UInt8} (h : m.Codes code)
    (hother : other.Codes code) : m = other := by
  rcases h with rfl | rfl <;> revert hother <;> cases m <;> cases other <;> decide

/-- A code that belongs to no modifier changes no flag. -/
theorem held_processCode_of_not (kb : Keyboard) {code : UInt8} (released : Bool)
    (h : ∀ m : Modifier, ¬ m.Codes code) (m : Modifier) :
    (kb.processCode code released).held m = kb.held m := by
  have hshift : ¬ (code = SC_LSHIFT ∨ code = SC_RSHIFT) := h .shift
  have hctrl : ¬ code = SC_LCTRL := fun hcode ↦ h .ctrl (Or.inl hcode)
  have halt : ¬ code = SC_LALT := fun hcode ↦ h .alt (Or.inl hcode)
  rw [Keyboard.processCode, if_neg hshift, if_neg hctrl, if_neg halt]
  split
  · cases m <;> rfl
  · split
    · rfl
    · dsimp only
      split
      · cases m <;> rfl
      · rfl

/-- The codes of a modifier set its flag and no other. -/
theorem held_processCode_of_codes (kb : Keyboard) {code : UInt8} (released : Bool) {m : Modifier}
    (h : m.Codes code) (other : Modifier) :
    (kb.processCode code released).held other = if other = m then !released else kb.held other := by
  cases m with
  | shift =>
      have hshift : code = SC_LSHIFT ∨ code = SC_RSHIFT := h
      rw [Keyboard.processCode, if_pos hshift]
      cases other <;> rfl
  | ctrl =>
      obtain rfl : code = SC_LCTRL := h.elim id id
      cases other <;> rfl
  | alt =>
      obtain rfl : code = SC_LALT := h.elim id id
      cases other <;> rfl

/-- A flag is changed by the codes of its modifier only. -/
theorem held_processCode (kb : Keyboard) (code : UInt8) (released : Bool) (m : Modifier) :
    (kb.processCode code released).held m = if m.Codes code then !released else kb.held m := by
  by_cases hcode : ∃ other : Modifier, other.Codes code
  · obtain ⟨other, hother⟩ := hcode
    rw [held_processCode_of_codes kb released hother]
    by_cases heq : m = other
    · rw [if_pos heq, if_pos (heq ▸ hother)]
    · rw [if_neg heq, if_neg fun hm ↦ heq (hm.unique hother)]
  · rw [held_processCode_of_not kb released (not_exists.mp hcode), if_neg fun hm ↦ hcode ⟨m, hm⟩]

/-- The byte E0 is skipped. -/
theorem processScancode_prefix (kb : Keyboard) : kb.processScancode 0xE0 = kb := rfl

/-- A make code does to the flags what its code does. -/
theorem held_make (kb : Keyboard) {code : UInt8} (hcode : code < 0x80) (m : Modifier) :
    (kb.processScancode code).held m = if m.Codes code then true else kb.held m := by
  have hbits := release_bits code.toNat hcode
  rw [UInt8.ofNat_toNat] at hbits
  obtain ⟨hskip, hmake, hmakeCode, -⟩ := hbits
  rw [Keyboard.processScancode, if_neg hskip]
  dsimp only
  rw [hmakeCode, held_processCode, decide_eq_false (not_not_intro hmake)]
  rfl

/-- A break code does to the flags what its code does. -/
theorem held_break (kb : Keyboard) {code : UInt8} (hcode : code < 0x80) (m : Modifier) :
    (kb.processScancode (code ||| 0x80)).held m = if m.Codes code then false else kb.held m := by
  have hbits := release_bits code.toNat hcode
  rw [UInt8.ofNat_toNat] at hbits
  obtain ⟨-, -, -, hskip, hbreak, hbreakCode⟩ := hbits
  by_cases hskipped : code ||| 0x80 = 0xE0
  · -- the code is 0x60 then, which belongs to no modifier
    rw [hskipped, processScancode_prefix, hskip hskipped, if_neg]
    cases m <;> decide
  · rw [Keyboard.processScancode, if_neg hskipped]
    dsimp only
    rw [hbreakCode, held_processCode, decide_eq_true hbreak]
    rfl

/-- The flags after a key has sent its bytes. -/
theorem held_send (desk : Desk) (key : Key) (released : Bool) (m : Modifier) :
    (desk.send key released).kb.held m =
      if m.Codes key.code then !released else desk.kb.held m := by
  have hbytes : (desk.send key released).kb =
      desk.kb.processScancode (if released then key.code ||| 0x80 else key.code) := by
    unfold Desk.send Key.scancodes
    -- the byte E0 comes first if at all, and is skipped
    cases key.extended <;> rfl
  rw [hbytes]
  cases released with
  | false => exact held_make desk.kb key.code_lt m
  | true => exact held_break desk.kb key.code_lt m

/-- An interrupt changes the buffer by one call of `buf_push` at most. -/
theorem buf_processScancode (kb : Keyboard) (scancode : UInt8) :
    (kb.processScancode scancode).buf = kb.buf ∨
      ∃ ch, (kb.processScancode scancode).buf = kb.buf.push ch := by
  unfold Keyboard.processScancode
  split
  · exact Or.inl rfl
  · dsimp only [Keyboard.processCode]
    split_ifs
    all_goals first | exact Or.inl rfl | exact Or.inr ⟨_, rfl⟩

namespace Desk

theorem down_send (desk : Desk) (key other : Key) (released : Bool) :
    (desk.send key released).down other = if other = key then !released else desk.down other :=
  Function.update_apply desk.down key (!released) other

/-- A key with a code of another modifier, or of none, leaves the flag right. -/
theorem follows_send_of_not {desk : Desk} {key : Key} {m : Modifier} (released : Bool)
    (hcode : ¬ m.Codes key.code) (hfollow : desk.kb.held m = desk.holds m) :
    (desk.send key released).kb.held m = (desk.send key released).holds m := by
  have hleft : m.left ≠ key := fun heq ↦ hcode (Or.inl (by rw [heq]))
  have hright : m.right ≠ key := fun heq ↦ hcode (Or.inr (by rw [heq]))
  rw [held_send, if_neg hcode, hfollow, holds, holds, down_send, down_send, if_neg hleft,
    if_neg hright]

/-- A make code leaves the flags right when what is pressed is a key of the modifier, or one of
them is down. -/
theorem follows_press_iff {desk : Desk} (h : desk.Follows) (key : Key) :
    (desk.send key false).Follows ↔ desk.CodeFits (.press key) := by
  refine forall_congr' fun m ↦ ?_
  by_cases hcode : m.Codes key.code
  · rw [held_send, if_pos hcode, holds, down_send, down_send]
    simp only [hcode, forall_true_left, holds]
    by_cases hleft : m.left = key
    · simp [hleft]
    · by_cases hright : m.right = key
      · simp [hright]
      · simp [hleft, hright, Ne.symm hleft, Ne.symm hright]
  · simp only [hcode, false_implies, iff_true]
    exact follows_send_of_not false hcode (h m)

/-- A break code leaves the flags right when the other keys of the modifier are up. -/
theorem follows_release_iff {desk : Desk} (h : desk.Follows) {key : Key}
    (hdown : desk.down key = true) :
    (desk.send key true).Follows ↔ desk.CodeFits (.release key) := by
  rw [CodeFits, forall_prop_of_true hdown]
  refine forall_congr' fun m ↦ ?_
  by_cases hcode : m.Codes key.code
  · rw [held_send, if_pos hcode, holds, down_send, down_send]
    simp only [hcode, forall_true_left]
    by_cases hleft : m.left = key
    · have hright : m.right ≠ key := fun heq ↦ m.left_ne_right (hleft.trans heq.symm)
      simp [hleft, hright, Ne.symm hright]
    · by_cases hright : m.right = key
      · simp [hleft, hright, Ne.symm hleft]
      · simp [hleft, hright, Ne.symm hleft, Ne.symm hright]
  · simp only [hcode, false_implies, iff_true]
    exact follows_send_of_not true hcode (h m)

/-- The flags are right after every event of a sequence exactly if all its events fit. -/
theorem modifiers_follow_iff (events : List KeyEvent) :
    Along step Follows start events ↔ Throughout step CodeFits start events := by
  refine along_iff_throughout ?_ ?_ ?_ events
  · intro desk event next hfollow hstep
    cases event with
    | press key =>
        cases hstep
        exact follows_press_iff hfollow key
    | release key =>
        rw [step] at hstep
        split at hstep
        · next hdown =>
            cases hstep
            exact follows_release_iff hfollow hdown
        · cases hstep
  · intro desk event hstuck
    cases event with
    | press key => cases hstuck
    | release key =>
        intro hdown
        rw [step, if_pos hdown] at hstuck
        cases hstuck
  · intro m
    cases m <;> rfl

/-- With both shift keys down, the release of one of them clears the flag. -/
theorem flag_clear_shift_down :
    ¬ Along step Follows start
      [.press Modifier.shift.left, .press Modifier.shift.right, .release Modifier.shift.left] := by
  intro h
  have hfollow := (((h.2 _ rfl).2 _ rfl).2 _ rfl) .shift
  exact absurd hfollow (by decide)

end Desk

end Avaria.Ps2
