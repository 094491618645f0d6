import Avaria.Shell.LineEditor
import Mathlib.Data.List.GetD

/-!
# The screen of the shell

What the calls of the line editor leave on the screen: a cell shows the character that was drawn
there last, and one that was cleared looks like one with a space.

`Session` is the text that a user works with: the rows that are finished, and the line behind the
prompt. A session starts over where the next row would be below the screen. `screen_shows_session`
says that the rows of the screen are those of the session, whatever the keys.
-/

namespace Avaria.Shell

/-! ## Cells -/

/-- What the cells show, by column and row. -/
abbrev Display := Nat → Nat → UInt8

/-- What a cell without text shows. -/
def BLANK : UInt8 := 0x20

/-- What one call changes. -/
def Call.paint (call : Call) (display : Display) : Display :=
  match call with
  | .draw col row ch => fun c r ↦ if c = col ∧ r = row then ch else display c r
  | .clear => fun _ _ ↦ BLANK

/-- What some calls change, in their order. -/
def paint (display : Display) (calls : List Call) : Display := 
  calls.foldl (fun display call ↦ call.paint display) display

/-- The rows read as these texts from the first one on, and all else is blank. -/
def Reads (display : Display) (rows : List (List UInt8)) : Prop :=
  ∀ col row, display col row = (rows.getD row []).getD col BLANK

/-! ## Sessions -/

/-- The rows above the prompt, and the line behind it. -/
structure Session where
  above : List (List UInt8)
  line : List UInt8

/-- The rows of a session; the cursor stands behind the line. -/
def Session.rows (session : Session) : List (List UInt8) :=
  session.above ++ [SHELL_PROMPT ++ session.line ++ [0x5F]]

/-- A row is finished. When it was the last one of the screen, none is left. -/
def finishRow (screen : Screen) (above : List (List UInt8)) (text : List UInt8) :
    List (List UInt8) :=
  if screen.rows ≤ above.length + 1 then [] else above ++ [text]

/-- A newline finishes the line, and repeats it unless it is empty; any other key edits it. -/
def Session.onKey (screen : Screen) (session : Session) (ch : UInt8) : Session :=
  if ch = 0x0A then
    let above := finishRow screen session.above (SHELL_PROMPT ++ session.line)
    ⟨if session.line = [] then above
      else finishRow screen above ([0x3E, 0x20] ++ session.line), []⟩
  else { session with line := edit screen.capacity session.line ch }

/-- The session that some keys make. -/
def sessionOf (screen : Screen) (keys : List UInt8) : Session :=
  keys.foldl (Session.onKey screen) ⟨[], []⟩

/-- The task is at the line of the session, and the screen shows the session. -/
structure Showing (screen : Screen) (session : Session) (s : LineState) (display : Display) :
    Prop where
  editing : Editing screen session.line s
  curRow_eq : s.curRow = session.above.length
  reads : Reads display session.rows

/-! ## Drawing on rows -/

section Rows

variable {screen : Screen} {display : Display} {above : List (List UInt8)} {text : List UInt8}

theorem paint_draw (display : Display) (col row : Nat) (ch : UInt8) (c r : Nat) :
    (Call.draw col row ch).paint display c r = if c = col ∧ r = row then ch else display c r :=
  rfl

theorem paint_append (display : Display) (first second : List Call) :
    paint display (first ++ second) = paint (paint display first) second :=
  List.foldl_append

theorem drawText_cons (col row : Nat) (b : UInt8) (rest : List UInt8) :
    drawText col row (b :: rest) = .draw col row b :: drawText (col + 1) row rest := by
  unfold drawText
  rw [List.zipIdx_cons, List.map_cons, List.zipIdx_succ, List.map_map]
  refine congrArg _ (List.map_congr_left fun pair _ ↦ ?_)
  show Call.draw (col + (pair.2 + 1)) row pair.1 = .draw (col + 1 + pair.2) row pair.1
  rw [Nat.add_assoc col, Nat.add_comm 1]

/-- A text fills the cells from its column on. -/
theorem paint_drawText (display : Display) (col row : Nat) (text : List UInt8) (c r : Nat) :
    paint display (drawText col row text) c r =
      if r = row ∧ col ≤ c ∧ c < col + text.length then text.getD (c - col) BLANK
      else display c r := by
  induction text generalizing display col with
  | nil =>
      rw [if_neg (by simp only [List.length_nil]; omega)]
      rfl
  | cons b rest ih =>
      rw [drawText_cons]
      show paint ((Call.draw col row b).paint display) (drawText (col + 1) row rest) c r = _
      rw [ih, List.length_cons]
      by_cases hrow : r = row
      · by_cases hfirst : c = col
        · rw [if_neg (by omega), if_pos (by omega), hfirst, Nat.sub_self, paint_draw,
            if_pos ⟨rfl, hrow⟩]
          rfl
        · by_cases hrest : col + 1 ≤ c ∧ c < col + 1 + rest.length
          · rw [if_pos ⟨hrow, hrest⟩, if_pos (by omega),
              show c - col = c - (col + 1) + 1 by omega, List.getD_cons_succ]
          · rw [if_neg (by omega), if_neg (by omega), paint_draw, if_neg (by tauto)]
      · rw [if_neg (by omega), if_neg (by omega), paint_draw, if_neg (by omega)]

/-- The row behind some rows. -/
theorem getD_concat (above : List (List UInt8)) (text : List UInt8) (row : Nat) :
    (above ++ [text]).getD row [] =
      if row = above.length then text else above.getD row [] := by
  rcases Nat.lt_trichotomy row above.length with hlt | rfl | hgt
  · rw [if_neg (Nat.ne_of_lt hlt), List.getD_append _ _ _ _ hlt]
  · rw [if_pos rfl, List.getD_append_right _ _ _ _ (Nat.le_refl _), Nat.sub_self]
    rfl
  · rw [if_neg (Nat.ne_of_gt hgt), List.getD_append_right _ _ _ _ (Nat.le_of_lt hgt),
      List.getD_eq_default _ _ (Nat.le_of_lt hgt), List.getD_eq_default]
    show 1 ≤ row - above.length
    omega

/-- An empty row is no different from none. -/
theorem reads_concat_nil : Reads display (above ++ [[]]) ↔ Reads display above := by
  refine forall₂_congr fun col row ↦ ?_
  rw [getD_concat]
  split
  · next hrow =>
      rw [hrow, List.getD_eq_default above _ (Nat.le_refl _)]
  · rfl

/-- A space behind a text is no different from none. -/
theorem reads_concat_blank :
    Reads display (above ++ [text ++ [BLANK]]) ↔ Reads display (above ++ [text]) := by
  refine forall₂_congr fun col row ↦ ?_
  have htext : (text ++ [BLANK]).getD col BLANK = text.getD col BLANK := by
    rcases Nat.lt_or_ge col text.length with hlt | hge
    · exact List.getD_append _ _ _ _ hlt
    · rw [List.getD_append_right _ _ _ _ hge, List.getD_eq_default _ _ hge]
      cases col - text.length <;> rfl
  rw [getD_concat, getD_concat]
  split
  · rw [htext]
  · rfl

/-- What is drawn in the row behind the others, over the end of its text. -/
theorem Reads.write {old : List UInt8} (h : Reads display (above ++ [text ++ old]))
    (more : List UInt8) (hlength : old.length ≤ more.length) :
    Reads (paint display (drawText text.length above.length more)) (above ++ [text ++ more]) := by
  intro col row
  have hcell := h col row
  rw [getD_concat] at hcell
  rw [paint_drawText, getD_concat, hcell]
  by_cases hrow : row = above.length
  · rw [if_pos hrow, if_pos hrow]
    rcases Nat.lt_or_ge col text.length with hlt | hge
    · rw [if_neg (by omega), List.getD_append _ _ _ _ hlt, List.getD_append _ _ _ _ hlt]
    · rw [List.getD_append_right _ _ _ _ hge, List.getD_append_right _ _ _ _ hge]
      by_cases hmore : col < text.length + more.length
      · rw [if_pos ⟨hrow, hge, hmore⟩]
      · rw [if_neg (by omega), List.getD_eq_default old _ (by omega),
          List.getD_eq_default more _ (by omega)]
  · rw [if_neg (by omega), if_neg hrow, if_neg hrow]

/-- The cursor moves down. -/
theorem Reads.nextRow (screen : Screen) (h : Reads display (above ++ [text])) :
    Reads (paint display (nextRow screen above.length).2) (finishRow screen above text) ∧
      (Shell.nextRow screen above.length).1 = (finishRow screen above text).length := by
  unfold Shell.nextRow finishRow
  split
  · exact ⟨fun _ _ ↦ rfl, rfl⟩
  · refine ⟨h, ?_⟩
    rw [List.length_append]
    rfl

/-- A text is drawn in the row behind the others. -/
theorem Reads.drawText (h : Reads display above) (text : List UInt8) :
    Reads (paint display (drawText 0 above.length text)) (above ++ [text]) := by
  have hempty : Reads display (above ++ [[] ++ []]) := reads_concat_nil.mpr h
  exact hempty.write text (Nat.zero_le _)

/-- The prompt of an empty line, with the cursor. -/
theorem Reads.prompt (h : Reads display above) :
    Reads (paint display (drawPrompt above.length ++
      [.draw SHELL_PROMPT.length above.length 0x5F])) (Session.rows ⟨above, []⟩) := by
  have hprompt : Reads (paint display (drawPrompt above.length)) (above ++ [SHELL_PROMPT ++ []]) :=
    h.drawText SHELL_PROMPT
  rw [paint_append]
  exact hprompt.write [0x5F] (Nat.zero_le 1)

end Rows

/-! ## Keys -/

section Keys

variable {screen : Screen} {session : Session} {s : LineState} {display : Display}

/-- The cursor stands behind the text of its row. -/
theorem Showing.curCol_eq (h : Showing screen session s display) :
    s.curCol = (SHELL_PROMPT ++ session.line).length := by
  rw [List.length_append, h.editing.length_line, h.editing.curCol_eq]

/-- A space in place of the cursor leaves the text of the row. -/
theorem Showing.erase (h : Showing screen session s display) :
    Reads (paint display [.draw s.curCol s.curRow 0x20])
      (session.above ++ [SHELL_PROMPT ++ session.line]) := by
  have hwrite := Reads.write h.reads [BLANK] (Nat.le_refl 1)
  rw [← h.curCol_eq, ← h.curRow_eq] at hwrite
  exact reads_concat_blank.mp hwrite

/-- The echo of a line becomes a row of its own, unless the line is empty. -/
theorem reads_echoLine (h : Editing screen session.line s) {above : List (List UInt8)}
    (hreads : Reads display above) :
    ∃ below echo, echoLine screen s above.length = pure (below, echo) ∧
      below = (if session.line = [] then above
        else finishRow screen above ([0x3E, 0x20] ++ session.line)).length ∧
      Reads (paint display echo) (if session.line = [] then above
        else finishRow screen above ([0x3E, 0x20] ++ session.line)) := by
  have hlength := h.length_line
  unfold echoLine
  by_cases hline : session.line = []
  · have hzero : ¬ 0 < s.lineLen := by
      rw [← hlength, hline]
      exact Nat.lt_irrefl 0
    rw [if_neg hzero, if_pos hline]
    exact ⟨_, _, rfl, rfl, hreads⟩
  · have hpos : 0 < s.lineLen := by
      rw [← hlength]
      exact List.length_pos_iff.mpr hline
    have hmark : Reads (paint display (drawText 0 above.length [0x3E, 0x20]))
        (above ++ [[0x3E, 0x20] ++ []]) := hreads.drawText [0x3E, 0x20]
    have htext := hmark.write session.line (Nat.zero_le _)
    obtain ⟨hnext, hrow⟩ := htext.nextRow screen
    rw [if_pos hpos, if_neg hline, mapM_load (Nat.le_of_lt h.lineLen_lt), pure_bind, h.line_eq]
    refine ⟨_, _, rfl, hrow, ?_⟩
    rw [paint_append, paint_append]
    exact hnext

/-- What a newline makes of the session. -/
theorem reads_newline (h : Showing screen session s display) :
    ∃ after calls, newline screen s = pure (after, calls) ∧
      after.curRow = (session.onKey screen 0x0A).above.length ∧
      Reads (paint display calls) (session.onKey screen 0x0A).rows := by
  obtain ⟨hfirst, hrow⟩ := h.erase.nextRow screen
  obtain ⟨below, echo, hecho, hbelow, hreads⟩ := reads_echoLine h.editing hfirst
  have hprompt := hreads.prompt
  rw [← hbelow, h.curRow_eq] at hprompt
  rw [newline, h.curRow_eq, hrow, hecho]
  refine ⟨_, _, rfl, hbelow, ?_⟩
  rw [List.append_assoc, paint_append, paint_append, paint_append]
  exact hprompt

/-- A backspace takes the cursor back by one cell, unless the line is empty. -/
theorem reads_backspace (h : Showing screen session s display) :
    ∃ after calls, backspace s = pure (after, calls) ∧ after.curRow = s.curRow ∧
      Reads (paint display calls)
        (Session.rows { session with line := session.line.dropLast }) := by
  have hlength := h.editing.length_line
  have hcol := h.curCol_eq
  rw [List.length_append] at hcol
  unfold backspace
  by_cases hpos : 0 < s.lineLen
  · have hne : session.line ≠ [] := by
      rw [← hlength] at hpos
      exact List.length_pos_iff.mp hpos
    have hlen : dec s.lineLen = pure (s.lineLen - 1) := if_neg (Nat.ne_of_gt hpos)
    have hcur : dec s.curCol = pure (s.curCol - 1) := if_neg (by omega)
    have herased := h.erase
    have hback : s.curCol - 1 = (SHELL_PROMPT ++ session.line.dropLast).length := by
      rw [List.length_append, List.length_dropLast]
      omega
    rw [← List.dropLast_append_getLast hne, ← List.append_assoc] at herased
    have hcursor := herased.write [0x5F] (Nat.le_refl 1)
    rw [if_pos hpos, hlen, hcur]
    refine ⟨_, _, rfl, rfl, ?_⟩
    show Reads (paint _ (drawText (s.curCol - 1) s.curRow [0x5F])) _
    rw [hback, h.curRow_eq]
    rw [h.curRow_eq] at hcursor
    exact hcursor
  · have hnil : session.line = [] := List.length_eq_zero_iff.mp (by omega)
    rw [if_neg hpos, hnil]
    refine ⟨_, _, rfl, rfl, ?_⟩
    have hreads := h.reads
    rw [Session.rows, hnil] at hreads
    exact hreads

/-- Any other key is drawn in place of the cursor, unless the line is full. -/
theorem reads_typed (h : Showing screen session s display) (ch : UInt8) :
    ∃ after calls, typed screen s ch = pure (after, calls) ∧ after.curRow = s.curRow ∧
      Reads (paint display calls) (Session.rows { session with
        line := if session.line.length < screen.capacity then session.line ++ [ch]
          else session.line }) := by
  have hcols : dec screen.cols = pure (screen.cols - 1) :=
    if_neg (Nat.ne_of_gt (Nat.lt_of_lt_of_le (by decide) screen.nine_le_cols))
  have hroom := h.editing.room_iff
  rw [typed, hcols, pure_bind]
  by_cases hfull : session.line.length < screen.capacity
  · have hstore : store s.lineBuf s.lineLen ch = pure (s.lineBuf.set s.lineLen ch) :=
      if_pos h.editing.lineLen_lt
    have hwrite := Reads.write h.reads [ch, 0x5F] (Nat.le_succ 1)
    rw [← h.curCol_eq, ← h.curRow_eq] at hwrite
    rw [if_pos (hroom.mpr hfull), if_pos hfull, hstore]
    refine ⟨_, _, rfl, rfl, ?_⟩
    rw [Session.rows, ← List.append_assoc SHELL_PROMPT, List.append_assoc _ [ch]]
    exact hwrite
  · rw [if_neg (mt hroom.mp hfull), if_neg hfull]
    exact ⟨_, _, rfl, rfl, h.reads⟩

/-- A key makes of the screen what it makes of the session. -/
theorem showing_onKey (h : Showing screen session s display) (ch : UInt8) :
    ∃ after calls, onKey screen s ch = pure (after, calls) ∧
      Showing screen (session.onKey screen ch) after (paint display calls) := by
  obtain ⟨after, calls, hkey, hediting, -⟩ := handles_onKey h.editing ch
  have hline : (session.onKey screen ch).line =
      if ch = 0x0A then [] else edit screen.capacity session.line ch := by
    unfold Session.onKey
    split <;> rfl
  suffices hshown : ∃ after calls, onKey screen s ch = pure (after, calls) ∧
      after.curRow = (session.onKey screen ch).above.length ∧
      Reads (paint display calls) (session.onKey screen ch).rows by
    obtain ⟨other, drawn, hother, hrow, hreads⟩ := hshown
    obtain ⟨rfl, rfl⟩ := Prod.mk.inj (Except.ok.inj (hother.symm.trans hkey))
    exact ⟨_, _, hkey, hline ▸ hediting, hrow, hreads⟩
  unfold onKey
  by_cases hnewline : ch = 0x0A
  · subst hnewline
    exact reads_newline h
  rw [if_neg hnewline, Session.onKey, if_neg hnewline, edit, ← h.curRow_eq]
  by_cases hbackspace : ch = 0x08
  · rw [if_pos hbackspace, if_pos hbackspace]
    exact reads_backspace h
  · rw [if_neg hbackspace, if_neg hbackspace]
    exact reads_typed h ch

/-- The screen before the first key. -/
theorem showing_start (screen : Screen) (display : Display) :
    Showing screen ⟨[], []⟩ start (paint display startCalls) where
  editing := editing_start screen
  curRow_eq := rfl
  reads := by
    have hclear : Reads (paint display [.clear]) [] := fun _ _ ↦ rfl
    rw [startCalls, List.append_assoc, paint_append]
    exact hclear.prompt

end Keys

/-! ## Runs -/

/-- Whatever the keys, and whatever the screen showed before, its rows are those of the session that
the keys make. -/
theorem screen_shows_session (screen : Screen) (keys : List UInt8) (display : Display) :
    ∃ s calls, runKeys screen keys = pure (s, calls) ∧
      Showing screen (sessionOf screen keys) s (paint display calls) := by
  induction keys using List.reverseRecOn with
  | nil => exact ⟨start, startCalls, rfl, showing_start screen display⟩
  | append_singleton keys ch ih =>
      obtain ⟨s, calls, hrun, hshowing⟩ := ih
      obtain ⟨after, new, hkey, hnext⟩ := showing_onKey hshowing ch
      have hrun' : runKeys screen (keys ++ [ch]) = pure (after, calls ++ new) := by
        rw [runKeys, List.foldlM_append, ← runKeys, hrun, pure_bind, List.foldlM_cons, hkey]
        rfl
      refine ⟨after, calls ++ new, hrun', ?_⟩
      rw [paint_append, sessionOf, List.foldl_append]
      exact hnext

end Avaria.Shell
