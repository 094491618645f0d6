import Avaria.Lib.Slice
import Mathlib.Data.List.Basic
import Mathlib.Data.List.DropRight

/-!
# The line editor of the shell

`shell_task_entry` of `main.rs`: it keeps the line that is being typed, the place of the cursor,
and draws what changes. Accesses to the line buffer and unsigned decrements are checked.

`shell_line_editor` says that the line is always the one that the keys since the last newline make,
and that nothing is drawn outside the screen.
-/

namespace Avaria.Shell

/-- What would end the task. -/
inductive Fault where
  | outOfRange
  | underflow
  deriving DecidableEq, Repr

/-- `SHELL_CHAR_W`. -/
def SHELL_CHAR_W : Nat := 8

/-- `SHELL_CHAR_H`. -/
def SHELL_CHAR_H : Nat := 16

/-- `SHELL_PAD_X`. -/
def SHELL_PAD_X : Nat := 8

/-- `SHELL_PAD_Y`. -/
def SHELL_PAD_Y : Nat := 8

/-- `LINE_MAX`. -/
def LINE_MAX : Nat := 256

/-- `SHELL_PROMPT`: `avaria> `. -/
def SHELL_PROMPT : List UInt8 := [0x61, 0x76, 0x61, 0x72, 0x69, 0x61, 0x3E, 0x20]

/-- A screen with room for the prompt and the cursor. -/
structure Screen where
  width : Nat
  height : Nat
  wide : 9 ≤ (width - SHELL_PAD_X * 2) / SHELL_CHAR_W
  tall : 1 ≤ (height - SHELL_PAD_Y * 2) / SHELL_CHAR_H

/-- `cols`. -/
def Screen.cols (screen : Screen) : Nat := (screen.width - SHELL_PAD_X * 2) / SHELL_CHAR_W

/-- `rows`. -/
def Screen.rows (screen : Screen) : Nat := (screen.height - SHELL_PAD_Y * 2) / SHELL_CHAR_H

/-- A call of `shell_draw_at`, or one that clears the screen. -/
inductive Call where
  | draw (col row : Nat) (ch : UInt8)
  | clear
  deriving DecidableEq, Repr

/-- The local variables of the task. -/
structure LineState where
  lineBuf : List UInt8
  lineLen : Nat
  curCol : Nat
  curRow : Nat
  deriving DecidableEq, Repr

/-! ## Checked accesses -/

/-- `buf[i]`. -/
def load (buf : List UInt8) (i : Nat) : Except Fault UInt8 :=
  if i < buf.length then .ok (buf.getD i 0) else .error .outOfRange

/-- `buf[i] = ch`. -/
def store (buf : List UInt8) (i : Nat) (ch : UInt8) : Except Fault (List UInt8) :=
  if i < buf.length then .ok (buf.set i ch) else .error .outOfRange

/-- `n - 1`. -/
def dec (n : Nat) : Except Fault Nat := if n = 0 then .error .underflow else .ok (n - 1)

/-! ## The task -/

/-- Bytes drawn from a column on. -/
def drawText (col row : Nat) (text : List UInt8) : List Call :=
  text.zipIdx.map fun (b, i) ↦ .draw (col + i) row b

/-- `shell_draw_prompt`. -/
def drawPrompt (row : Nat) : List Call := drawText 0 row SHELL_PROMPT

/-- The cursor moves down a row; below the last one, the screen is cleared. -/
def nextRow (screen : Screen) (row : Nat) : Nat × List Call :=
  if screen.rows ≤ row + 1 then (0, [.clear]) else (row + 1, [])

/-- The echo of a line that is not empty, and the row below it. -/
def echoLine (screen : Screen) (s : LineState) (row : Nat) : Except Fault (Nat × List Call) :=
  if 0 < s.lineLen then do
    let line ← (List.range s.lineLen).mapM (load s.lineBuf)
    let below := nextRow screen row
    pure (below.1, drawText 0 row [0x3E, 0x20] ++ drawText 2 row line ++ below.2)
  else pure (row, [])

/-- The branch for a newline. -/
def newline (screen : Screen) (s : LineState) : Except Fault (LineState × List Call) := do
  let first := nextRow screen s.curRow
  let (row, echo) ← echoLine screen s first.1
  pure ({ s with lineLen := 0, curCol := SHELL_PROMPT.length, curRow := row },
    [.draw s.curCol s.curRow 0x20] ++ first.2 ++ echo ++ drawPrompt row ++
      [.draw SHELL_PROMPT.length row 0x5F])

/-- The branch for a backspace. -/
def backspace (s : LineState) : Except Fault (LineState × List Call) :=
  if 0 < s.lineLen then do
    let lineLen ← dec s.lineLen
    let curCol ← dec s.curCol
    pure ({ s with lineLen := lineLen, curCol := curCol },
      [.draw s.curCol s.curRow 0x20, .draw curCol s.curRow 0x5F])
  else pure (s, [])

/-- The branch for any other key. -/
def typed (screen : Screen) (s : LineState) (ch : UInt8) :
    Except Fault (LineState × List Call) := do
  if s.lineLen < LINE_MAX - 1 ∧ s.curCol < (← dec screen.cols) then
    let lineBuf ← store s.lineBuf s.lineLen ch
    pure ({ s with lineBuf := lineBuf, lineLen := s.lineLen + 1, curCol := s.curCol + 1 },
      [.draw s.curCol s.curRow ch, .draw (s.curCol + 1) s.curRow 0x5F])
  else pure (s, [])

/-- One key of the loop of `shell_task_entry`. -/
def onKey (screen : Screen) (s : LineState) (ch : UInt8) : Except Fault (LineState × List Call) :=
  if ch = 0x0A then newline screen s
  else if ch = 0x08 then backspace s
  else typed screen s ch

/-- The variables before the loop. -/
def start : LineState := ⟨List.replicate LINE_MAX 0, 0, SHELL_PROMPT.length, 0⟩

/-- What is drawn before the loop. -/
def startCalls : List Call :=
  [.clear] ++ drawPrompt 0 ++ [.draw SHELL_PROMPT.length 0 0x5F]

/-- `shell_task_entry` over some keys: the variables after them, and all that was drawn. -/
def runKeys (screen : Screen) (keys : List UInt8) : Except Fault (LineState × List Call) :=
  keys.foldlM (fun state ch ↦ do
    let (s, calls) ← onKey screen state.1 ch
    pure (s, state.2 ++ calls)) (start, startCalls)

/-! ## The line that the keys make -/

/-- How long a line may get: the buffer keeps one byte free, and the cursor one column. -/
def Screen.capacity (screen : Screen) : Nat := min (LINE_MAX - 1) (screen.cols - 9)

/-- What a key makes of a line. -/
def edit (capacity : Nat) (line : List UInt8) (ch : UInt8) : List UInt8 :=
  if ch = 0x08 then line.dropLast
  else if line.length < capacity then line ++ [ch]
  else line

/-- The keys since the last newline. -/
def sinceNewline (keys : List UInt8) : List UInt8 := keys.rtakeWhile (· ≠ 0x0A)

/-- The line that some keys make. -/
def lineOf (screen : Screen) (keys : List UInt8) : List UInt8 :=
  (sinceNewline keys).foldl (edit screen.capacity) []

/-- The call stays on the screen. -/
def InScreen (screen : Screen) : Call → Prop
  | .draw col row _ => col < screen.cols ∧ row < screen.rows
  | .clear => True

/-- The buffer holds the line, and the cursor stands behind it. -/
structure Editing (screen : Screen) (line : List UInt8) (s : LineState) : Prop where
  length_buf : s.lineBuf.length = LINE_MAX
  line_eq : s.lineBuf.take s.lineLen = line
  lineLen_le : s.lineLen ≤ screen.capacity
  curCol_eq : s.curCol = SHELL_PROMPT.length + s.lineLen
  curRow_lt : s.curRow < screen.rows

/-! ## Drawing -/

section Calls

variable {screen : Screen} {row : Nat}

theorem Screen.nine_le_cols (screen : Screen) : 9 ≤ screen.cols := screen.wide

theorem Screen.rows_pos (screen : Screen) : 0 < screen.rows := screen.tall

/-- What fits into a row is drawn on the screen. -/
theorem inScreen_drawText {col : Nat} {text : List UInt8} (hcol : col + text.length ≤ screen.cols)
    (hrow : row < screen.rows) : ∀ call ∈ drawText col row text, InScreen screen call := by
  intro call hcall
  obtain ⟨⟨b, i⟩, hmem, rfl⟩ := List.mem_map.mp hcall
  have hi := (List.mem_zipIdx hmem).2.1
  exact ⟨by omega, hrow⟩

theorem inScreen_drawPrompt (hrow : row < screen.rows) :
    ∀ call ∈ drawPrompt row, InScreen screen call := by
  refine inScreen_drawText ?_ hrow
  have hcols := screen.nine_le_cols
  show 0 + 8 ≤ screen.cols
  omega

/-- The cursor stays on the screen when it moves down. -/
theorem nextRow_lt (screen : Screen) (row : Nat) : (nextRow screen row).1 < screen.rows := by
  unfold nextRow
  split
  · exact screen.rows_pos
  · next hmore => exact Nat.not_le.mp hmore

theorem inScreen_nextRow (screen : Screen) (row : Nat) :
    ∀ call ∈ (nextRow screen row).2, InScreen screen call := by
  unfold nextRow
  split
  · exact List.forall_mem_singleton.mpr trivial
  · exact List.forall_mem_nil _

end Calls

/-! ## Single keys -/

/-- A key is handled without a fault: the line becomes another one, and everything is drawn on the
screen. -/
def Handles (screen : Screen) (line : List UInt8) (r : Except Fault (LineState × List Call)) :
    Prop :=
  ∃ s calls, r = pure (s, calls) ∧ Editing screen line s ∧ ∀ call ∈ calls, InScreen screen call

/-- The first bytes of a buffer, read one by one. -/
theorem mapM_load {buf : List UInt8} {n : Nat} (h : n ≤ buf.length) :
    (List.range n).mapM (load buf) = pure (buf.take n) := by
  have hload : ∀ i ∈ List.range n, load buf i = pure (buf.getD i 0) :=
    fun i hi ↦ if_pos (Nat.lt_of_lt_of_le (List.mem_range.mp hi) h)
  rw [Slice.mapM_eq_pure hload]
  congr 1
  refine List.ext_getElem ?_ fun i hi hi' ↦ ?_
  · rw [List.length_map, List.length_range, List.length_take, Nat.min_eq_left h]
  have hlt : i < buf.length := by
    rw [List.length_take] at hi'
    omega
  simp [List.getD_eq_getElem?_getD, List.getElem?_eq_getElem hlt]

section Keys

variable {screen : Screen} {line : List UInt8} {s : LineState}

/-- The buffer has room for one more byte than the line may have. -/
theorem Editing.lineLen_lt (h : Editing screen line s) : s.lineLen < s.lineBuf.length := by
  have hcapacity : screen.capacity ≤ LINE_MAX - 1 := Nat.min_le_left _ _
  rw [h.length_buf]
  exact Nat.lt_of_le_of_lt (Nat.le_trans h.lineLen_le hcapacity) (by decide)

/-- The line has as many bytes as the counter says. -/
theorem Editing.length_line (h : Editing screen line s) : line.length = s.lineLen := by
  rw [← h.line_eq, List.length_take]
  exact Nat.min_eq_left (Nat.le_of_lt h.lineLen_lt)

/-- The cursor keeps to the columns of the screen. -/
theorem Editing.curCol_lt (h : Editing screen line s) : s.curCol < screen.cols := by
  have hle := h.lineLen_le
  have hcapacity : screen.capacity ≤ screen.cols - 9 := Nat.min_le_right _ _
  have hcols := screen.nine_le_cols
  have hprompt : SHELL_PROMPT.length = 8 := rfl
  rw [h.curCol_eq]
  omega

/-- The echo of the line fits on the screen. -/
theorem echoLine_spec (h : Editing screen line s) {row : Nat} (hrow : row < screen.rows) :
    ∃ below echo, echoLine screen s row = pure (below, echo) ∧ below < screen.rows ∧
      ∀ call ∈ echo, InScreen screen call := by
  unfold echoLine
  split
  · have htext : 2 + (s.lineBuf.take s.lineLen).length ≤ screen.cols := by
      have hcol := h.curCol_lt
      have hprompt : SHELL_PROMPT.length = 8 := rfl
      rw [h.curCol_eq] at hcol
      rw [List.length_take]
      omega
    have hprefix : 0 + ([0x3E, 0x20] : List UInt8).length ≤ screen.cols := by
      have hcols := screen.nine_le_cols
      show 0 + 2 ≤ screen.cols
      omega
    rw [mapM_load (Nat.le_of_lt h.lineLen_lt), pure_bind]
    refine ⟨_, _, rfl, nextRow_lt screen row, ?_⟩
    exact List.forall_mem_append.mpr ⟨List.forall_mem_append.mpr
      ⟨inScreen_drawText hprefix hrow, inScreen_drawText htext hrow⟩, inScreen_nextRow screen row⟩
  · exact ⟨row, [], rfl, hrow, List.forall_mem_nil _⟩

/-- A newline empties the line. -/
theorem handles_newline (h : Editing screen line s) : Handles screen [] (newline screen s) := by
  obtain ⟨below, echo, hecho, hrow, hcalls⟩ := echoLine_spec h (nextRow_lt screen s.curRow)
  have hprompt : SHELL_PROMPT.length < screen.cols := screen.nine_le_cols
  rw [newline, hecho]
  refine ⟨_, _, rfl, ⟨h.length_buf, List.take_zero, Nat.zero_le _, rfl, hrow⟩, ?_⟩
  simp only [List.forall_mem_append, List.forall_mem_singleton]
  exact ⟨⟨⟨⟨⟨h.curCol_lt, h.curRow_lt⟩, inScreen_nextRow screen s.curRow⟩, hcalls⟩,
    inScreen_drawPrompt hrow⟩, hprompt, hrow⟩

/-- A backspace takes the last byte off the line. -/
theorem handles_backspace (h : Editing screen line s) :
    Handles screen line.dropLast (backspace s) := by
  have hlength := h.length_line
  unfold backspace
  split
  · next hpos =>
      have hcol : s.curCol ≠ 0 := by
        rw [h.curCol_eq]
        omega
      have hlen : dec s.lineLen = pure (s.lineLen - 1) := if_neg (Nat.ne_of_gt hpos)
      have hcur : dec s.curCol = pure (s.curCol - 1) := if_neg hcol
      have hlt := h.curCol_lt
      have hle := h.lineLen_le
      have heq := h.curCol_eq
      rw [hlen, hcur]
      refine ⟨_, _, rfl, ⟨h.length_buf, ?_, ?_, ?_, h.curRow_lt⟩, ?_⟩
      · rw [← h.line_eq, List.dropLast_take h.lineLen_lt]
      · show s.lineLen - 1 ≤ screen.capacity
        omega
      · show s.curCol - 1 = SHELL_PROMPT.length + (s.lineLen - 1)
        omega
      · exact List.forall_mem_cons.mpr ⟨⟨hlt, h.curRow_lt⟩, List.forall_mem_singleton.mpr
          ⟨by omega, h.curRow_lt⟩⟩
  · next hzero =>
      have hnil : line = [] := List.length_eq_zero_iff.mp (by omega)
      subst hnil
      exact ⟨s, [], rfl, h, List.forall_mem_nil _⟩

/-- Both conditions of the branch for a key say that the line is not full. -/
theorem Editing.room_iff (h : Editing screen line s) :
    (s.lineLen < LINE_MAX - 1 ∧ s.curCol < screen.cols - 1) ↔ line.length < screen.capacity := by
  have hprompt : SHELL_PROMPT.length = 8 := rfl
  rw [h.length_line, h.curCol_eq, Screen.capacity, Nat.lt_min]
  omega

/-- Any other key is appended, unless the line is full. -/
theorem handles_typed (h : Editing screen line s) (ch : UInt8) :
    Handles screen (if line.length < screen.capacity then line ++ [ch] else line)
      (typed screen s ch) := by
  have hcols : dec screen.cols = pure (screen.cols - 1) :=
    if_neg (Nat.ne_of_gt (Nat.lt_of_lt_of_le (by decide) screen.nine_le_cols))
  have hroom := h.room_iff
  rw [typed, hcols, pure_bind]
  by_cases hfull : line.length < screen.capacity
  · have hstore : store s.lineBuf s.lineLen ch = pure (s.lineBuf.set s.lineLen ch) :=
      if_pos h.lineLen_lt
    rw [if_pos (hroom.mpr hfull), if_pos hfull, hstore]
    refine ⟨_, _, rfl, ⟨?_, ?_, ?_, ?_, h.curRow_lt⟩, ?_⟩
    · show (s.lineBuf.set s.lineLen ch).length = LINE_MAX
      rw [List.length_set, h.length_buf]
    · have hlt : s.lineLen < (s.lineBuf.set s.lineLen ch).length := by
        rw [List.length_set]
        exact h.lineLen_lt
      show (s.lineBuf.set s.lineLen ch).take (s.lineLen + 1) = line ++ [ch]
      rw [List.take_succ_eq_append_getElem hlt, List.take_set_of_le (Nat.le_refl _), h.line_eq,
        List.getElem_set_self]
    · rw [h.length_line] at hfull
      exact hfull
    · show s.curCol + 1 = SHELL_PROMPT.length + (s.lineLen + 1)
      rw [h.curCol_eq, Nat.add_assoc]
    · have hcol := (hroom.mpr hfull).2
      exact List.forall_mem_cons.mpr ⟨⟨h.curCol_lt, h.curRow_lt⟩, List.forall_mem_singleton.mpr
        ⟨by omega, h.curRow_lt⟩⟩
  · rw [if_neg (mt hroom.mp hfull), if_neg hfull]
    exact ⟨s, [], rfl, h, List.forall_mem_nil _⟩

/-- What any key makes of the line. -/
theorem handles_onKey (h : Editing screen line s) (ch : UInt8) :
    Handles screen (if ch = 0x0A then [] else edit screen.capacity line ch)
      (onKey screen s ch) := by
  unfold onKey edit
  by_cases hnewline : ch = 0x0A
  · rw [if_pos hnewline, if_pos hnewline]
    exact handles_newline h
  · rw [if_neg hnewline, if_neg hnewline]
    by_cases hbackspace : ch = 0x08
    · rw [if_pos hbackspace, if_pos hbackspace]
      exact handles_backspace h
    · rw [if_neg hbackspace, if_neg hbackspace]
      exact handles_typed h ch

end Keys

/-! ## Runs -/

/-- One more key edits the line, or empties it. -/
theorem lineOf_concat (screen : Screen) (keys : List UInt8) (ch : UInt8) :
    lineOf screen (keys ++ [ch]) =
      if ch = 0x0A then [] else edit screen.capacity (lineOf screen keys) ch := by
  rw [lineOf, sinceNewline, List.rtakeWhile_concat]
  by_cases hnewline : ch = 0x0A
  · rw [if_neg (by simpa using hnewline), if_pos hnewline, List.foldl_nil]
  · rw [if_pos (by simpa using hnewline), if_neg hnewline, List.foldl_append]
    rfl

theorem editing_start (screen : Screen) : Editing screen [] start where
  length_buf := List.length_replicate
  line_eq := rfl
  lineLen_le := Nat.zero_le _
  curCol_eq := rfl
  curRow_lt := screen.rows_pos

/-- After any keys, the buffer holds the line that they make, and all was drawn on the screen. -/
theorem handles_runKeys (screen : Screen) (keys : List UInt8) :
    Handles screen (lineOf screen keys) (runKeys screen keys) := by
  induction keys using List.reverseRecOn with
  | nil =>
      have hprompt : SHELL_PROMPT.length < screen.cols := screen.nine_le_cols
      refine ⟨start, startCalls, rfl, editing_start screen, ?_⟩
      simp only [startCalls, List.forall_mem_append, List.forall_mem_singleton]
      exact ⟨⟨trivial, inScreen_drawPrompt screen.rows_pos⟩, hprompt, screen.rows_pos⟩
  | append_singleton keys ch ih =>
      obtain ⟨s, calls, hrun, hediting, hcalls⟩ := ih
      obtain ⟨s', new, hkey, hediting', hnew⟩ := handles_onKey hediting ch
      have hrun' : runKeys screen (keys ++ [ch]) = pure (s', calls ++ new) := by
        rw [runKeys, List.foldlM_append, ← runKeys, hrun, pure_bind, List.foldlM_cons, hkey]
        rfl
      rw [lineOf_concat]
      exact ⟨s', calls ++ new, hrun', hediting', List.forall_mem_append.mpr ⟨hcalls, hnew⟩⟩

/-- Whatever the screen and the keys, no check fails; the buffer holds the line that the keys since
the last newline make; the cursor stands behind it, on the screen; and nothing was drawn outside
the screen. -/
theorem shell_line_editor (screen : Screen) (keys : List UInt8) :
    ∃ s calls, runKeys screen keys = pure (s, calls) ∧
      s.lineBuf.take s.lineLen = lineOf screen keys ∧ s.curCol = 8 + s.lineLen ∧
      s.curCol ≤ screen.cols - 1 ∧ s.lineLen ≤ 255 ∧ s.curRow < screen.rows ∧
      ∀ call ∈ calls, InScreen screen call := by
  obtain ⟨s, calls, hrun, hediting, hcalls⟩ := handles_runKeys screen keys
  have hcapacity : screen.capacity ≤ 255 := Nat.min_le_left _ _
  exact ⟨s, calls, hrun, hediting.line_eq, hediting.curCol_eq, Nat.le_pred_of_lt hediting.curCol_lt,
    Nat.le_trans hediting.lineLen_le hcapacity, hediting.curRow_lt, hcalls⟩

end Avaria.Shell
