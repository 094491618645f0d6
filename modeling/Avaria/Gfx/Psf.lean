import Avaria.Lib.Slice
import Mathlib.Data.List.Basic

/-!
# PSF1 fonts

`PsfFont::parse`, `glyph_index` and `draw_char` of `psf.rs`. A font has 256 or 512 glyphs of
`charsize` bytes, one byte a row, and may have a table of the code points that each glyph stands
for. Each index and each slice is checked against what it is taken from.

`drawing_in_range` says that no font makes a check fail.
-/

namespace Avaria.Gfx

open Slice

/-! ## The unicode map -/

/-- `MAX_UNICODE_MAPPINGS`. -/
def MAX_UNICODE_MAPPINGS : Nat := 512

/-- `UnicodeMap`: the used part of its array. -/
structure UnicodeMap where
  entries : List (UInt16 × UInt16)
  length_le : entries.length ≤ MAX_UNICODE_MAPPINGS

namespace UnicodeMap

/-- `UnicodeMap::new`. -/
def new : UnicodeMap := ⟨[], Nat.zero_le _⟩

/-- `insert`. A full map stays as it is. -/
def insert (map : UnicodeMap) (codepoint glyph : UInt16) : UnicodeMap :=
  if h : map.entries.length < MAX_UNICODE_MAPPINGS then
    ⟨map.entries ++ [(codepoint, glyph)], by rwa [List.length_append]⟩
  else map

/-- `lookup`. -/
def lookup (map : UnicodeMap) (codepoint : UInt16) : Option UInt16 :=
  (map.entries.find? (·.1 = codepoint)).map (·.2)

end UnicodeMap

/-! ## Fonts -/

/-- `PsfFont`. -/
structure PsfFont where
  glyphs : List UInt8
  charsize : Nat
  width : Nat
  height : Nat
  numGlyphs : Nat
  unicodeMap : UnicodeMap

namespace PsfFont

/-- The loop of `parse` over the unicode table, from an offset on. -/
def readTable (table : List UInt8) (numGlyphs off : Nat) (glyphIdx : UInt16) (map : UnicodeMap) :
    Except Fault UnicodeMap :=
  if off + 1 < table.length ∧ glyphIdx.toNat < numGlyphs then do
    let low ← get table off
    let high ← get table (off + 1)
    let v := low.toUInt16 ||| (high.toUInt16 <<< 8)
    if v = 0xFFFF then readTable table numGlyphs (off + 2) (glyphIdx + 1) map
    else if v = 0xFFFE then readTable table numGlyphs (off + 2) glyphIdx map
    else readTable table numGlyphs (off + 2) glyphIdx (map.insert v glyphIdx)
  else pure map
termination_by table.length - off

/-- `PsfFont::parse`. -/
def parse (data : List UInt8) : Except Fault (Option PsfFont) :=
  if data.length < 4 then pure none
  else do
    if (← get data 0) ≠ 0x36 ∨ (← get data 1) ≠ 0x04 then pure none
    else
      let mode ← get data 2
      let charsize := (← get data 3).toNat
      let numGlyphs := if mode &&& 0x01 ≠ 0 then 512 else 256
      let glyphDataLen := numGlyphs * charsize
      if data.length < 4 + glyphDataLen then pure none
      else
        let unicodeMap ←
          if mode &&& 0x02 ≠ 0 then do
            let table ← slice data (4 + glyphDataLen) data.length
            readTable table numGlyphs 0 0 UnicodeMap.new
          else pure UnicodeMap.new
        let glyphs ← slice data 4 (4 + glyphDataLen)
        pure (some {
          glyphs := glyphs
          charsize := charsize
          width := 8
          height := charsize
          numGlyphs := numGlyphs
          unicodeMap := unicodeMap })

/-- The glyph of `?`. -/
def questionMark : Nat := 0x3F

/-- `glyph_index`. -/
def glyphIndex (font : PsfFont) (codepoint : UInt32) : Nat :=
  if codepoint < 0x80 ∧ codepoint.toNat < font.numGlyphs then codepoint.toNat
  else
    match font.unicodeMap.lookup codepoint.toUInt16 with
    | some idx => idx.toNat
    | none => questionMark

end PsfFont

/-- A call of `put_pixel`. -/
structure Pixel where
  x : Nat
  y : Nat
  r : UInt8
  g : UInt8
  b : UInt8
  deriving DecidableEq, Repr

/-- The pixel of a color `0xRRGGBB`. -/
def colored (x y : Nat) (color : UInt32) : Pixel :=
  ⟨x, y, ((color >>> 16) &&& 0xFF).toUInt8, ((color >>> 8) &&& 0xFF).toUInt8,
    (color &&& 0xFF).toUInt8⟩

namespace PsfFont

/-- The pixels of one row of a glyph. -/
def drawRow (font : PsfFont) (x y : Nat) (fg bg : UInt32) (bits : UInt8) : List Pixel :=
  (List.range font.width).map fun col ↦
    if bits &&& ((0x80 : UInt8) >>> UInt8.ofNat col) ≠ 0 then colored (x + col) y fg
    else colored (x + col) y bg

/-- `draw_char`: the pixels that it puts. -/
def drawChar (font : PsfFont) (x y : Nat) (codepoint fg bg : UInt32) :
    Except Fault (List Pixel) := do
  let idx := font.glyphIndex codepoint
  if font.numGlyphs ≤ idx then pure []
  else
    let glyph ← slice font.glyphs (idx * font.charsize) ((idx + 1) * font.charsize)
    let rows ← (List.range font.height).mapM fun row ↦ do
      let bits ← get glyph row
      pure (font.drawRow x (y + row) fg bg bits)
    pure rows.flatten

end PsfFont

/-! ## Parsing -/

/-- The 16-bit units of a table, low byte first. A single byte at the end is left out. -/
def units : List UInt8 → List UInt16
  | low :: high :: rest => (low.toUInt16 ||| (high.toUInt16 <<< 8)) :: units rest
  | _ => []

/-- What the loop of `parse` makes of the units of the table. -/
def scan (numGlyphs : Nat) : List UInt16 → UInt16 → UnicodeMap → UnicodeMap
  | [], _, map => map
  | v :: rest, glyphIdx, map =>
      if glyphIdx.toNat < numGlyphs then
        if v = 0xFFFF then scan numGlyphs rest (glyphIdx + 1) map
        else if v = 0xFFFE then scan numGlyphs rest glyphIdx map
        else scan numGlyphs rest glyphIdx (map.insert v glyphIdx)
      else map

/-- After the record of the last glyph, the rest of the table is not read. -/
theorem scan_of_not_lt {numGlyphs : Nat} {glyphIdx : UInt16} (h : ¬ glyphIdx.toNat < numGlyphs)
    (table : List UInt16) (map : UnicodeMap) : scan numGlyphs table glyphIdx map = map := by
  cases table with
  | nil => rfl
  | cons v rest => exact if_neg h

theorem units_of_length_le_one {bytes : List UInt8} (h : bytes.length ≤ 1) : units bytes = [] := by
  cases bytes with
  | nil => rfl
  | cons byte rest =>
      rw [List.length_eq_zero_iff.mp (Nat.le_zero.mp (Nat.le_of_succ_le_succ h))]
      rfl

/-- The loop reads the table within its bounds, two bytes at a time. -/
theorem readTable_eq (table : List UInt8) (numGlyphs off : Nat) (glyphIdx : UInt16)
    (map : UnicodeMap) :
    PsfFont.readTable table numGlyphs off glyphIdx map =
      pure (scan numGlyphs (units (table.drop off)) glyphIdx map) := by
  fun_induction PsfFont.readTable table numGlyphs off glyphIdx map with
  | case1 off glyphIdx map h ihEnd ihMarker ihUnit =>
      have hoff : off < table.length := Nat.lt_of_succ_lt h.1
      have hdrop : table.drop off = table[off] :: table[off + 1] :: table.drop (off + 2) := by
        rw [List.drop_eq_getElem_cons hoff, List.drop_eq_getElem_cons h.1]
      rw [get_eq_pure hoff, get_eq_pure h.1, hdrop, units, scan, if_pos h.2]
      simp only [pure_bind]
      split
      · exact ihEnd
      · split
        · exact ihMarker
        · exact ihUnit _ _
  | case2 off glyphIdx map h =>
      by_cases hoff : off + 1 < table.length
      · have hdone : ¬ glyphIdx.toNat < numGlyphs := fun hlt ↦ h ⟨hoff, hlt⟩
        rw [scan_of_not_lt hdone]
      · have hshort : units (table.drop off) = [] := by
          refine units_of_length_le_one ?_
          rw [List.length_drop]
          omega
        rw [hshort, scan]

/-- The number of glyphs that the mode byte gives. -/
def glyphCount (data : List UInt8) : Nat := if data.getD 2 0 &&& 0x01 ≠ 0 then 512 else 256

/-- The bytes of a glyph. -/
def charsizeOf (data : List UInt8) : Nat := (data.getD 3 0).toNat

/-- The image has a unicode table. -/
def HasTable (data : List UInt8) : Prop := data.getD 2 0 &&& 0x02 ≠ 0

instance (data : List UInt8) : Decidable (HasTable data) :=
  inferInstanceAs (Decidable (data.getD 2 0 &&& 0x02 ≠ 0))

/-- The units of the unicode table. -/
def tableOf (data : List UInt8) : List UInt16 :=
  units (data.drop (4 + glyphCount data * charsizeOf data))

/-- The images that `parse` accepts: those with the magic bytes and all glyphs. -/
def Accepted (data : List UInt8) : Prop :=
  4 ≤ data.length ∧ (data.getD 0 0 = 0x36 ∧ data.getD 1 0 = 0x04) ∧
    4 + glyphCount data * charsizeOf data ≤ data.length

instance (data : List UInt8) : Decidable (Accepted data) := inferInstanceAs (Decidable (_ ∧ _))

/-- The font of an image. -/
def fontOf (data : List UInt8) : PsfFont where
  glyphs := (data.drop 4).take (glyphCount data * charsizeOf data)
  charsize := charsizeOf data
  width := 8
  height := charsizeOf data
  numGlyphs := glyphCount data
  unicodeMap :=
    if HasTable data then scan (glyphCount data) (tableOf data) 0 UnicodeMap.new
    else UnicodeMap.new

/-- `parse` makes no access outside the image. -/
theorem parse_eq (data : List UInt8) :
    PsfFont.parse data = pure (if Accepted data then some (fontOf data) else none) := by
  by_cases hheader : data.length < 4
  · rw [PsfFont.parse, if_pos hheader,
      if_neg fun haccepted ↦ Nat.not_le_of_lt hheader haccepted.1]
  · have hlength : 4 ≤ data.length := Nat.not_lt.mp hheader
    have hget : ∀ i < 4, get data i = pure (data.getD i 0) :=
      fun i hi ↦ get_eq_getD (Nat.lt_of_lt_of_le hi hlength) 0
    rw [PsfFont.parse, if_neg hheader, hget 0 (by decide), hget 1 (by decide), hget 2 (by decide),
      hget 3 (by decide)]
    simp only [pure_bind]
    by_cases hmagic : data.getD 0 0 ≠ 0x36 ∨ data.getD 1 0 ≠ 0x04
    · rw [if_pos hmagic, if_neg]
      rintro ⟨-, ⟨hfirst, hsecond⟩, -⟩
      exact hmagic.elim (fun h ↦ h hfirst) fun h ↦ h hsecond
    · rw [not_or, not_not, not_not] at hmagic
      rw [if_neg (by rw [not_or, not_not, not_not]; exact hmagic)]
      show (if data.length < 4 + glyphCount data * charsizeOf data then _ else _) = _
      by_cases hshort : data.length < 4 + glyphCount data * charsizeOf data
      · rw [if_pos hshort, if_neg fun haccepted ↦ Nat.not_le_of_lt hshort haccepted.2.2]
      · have hglyphs : 4 + glyphCount data * charsizeOf data ≤ data.length := Nat.not_lt.mp hshort
        have haccepted : Accepted data := ⟨hlength, hmagic, hglyphs⟩
        have htable : slice data (4 + glyphCount data * charsizeOf data) data.length =
            pure (data.drop (4 + glyphCount data * charsizeOf data)) := by
          rw [slice_eq_pure hglyphs (Nat.le_refl _), ← List.length_drop, List.take_length]
        have hbytes : slice data 4 (4 + glyphCount data * charsizeOf data) =
            pure ((data.drop 4).take (glyphCount data * charsizeOf data)) := by
          rw [slice_eq_pure (Nat.le_add_right 4 _) hglyphs, Nat.add_sub_cancel_left]
        rw [if_neg hshort, if_pos haccepted, fontOf]
        by_cases hmode : data.getD 2 0 &&& 0x02 ≠ 0
        · have hhas : HasTable data := hmode
          rw [if_pos hmode, if_pos hhas]
          show (slice data (4 + glyphCount data * charsizeOf data) data.length >>= _) = _
          rw [htable, pure_bind]
          show (PsfFont.readTable _ (glyphCount data) 0 0 UnicodeMap.new >>= _) = _
          rw [readTable_eq, pure_bind]
          show (slice data 4 (4 + glyphCount data * charsizeOf data) >>= _) = _
          rw [hbytes]
          rfl
        · have hnone : ¬ HasTable data := hmode
          rw [if_neg hmode, if_neg hnone]
          show (slice data 4 (4 + glyphCount data * charsizeOf data) >>= _) = _
          rw [hbytes]
          rfl

/-! ## Drawing -/

/-- What `parse` guarantees of a font: as many bytes as the glyphs have, and a map to glyphs. -/
structure PsfFont.Sound (font : PsfFont) : Prop where
  length_glyphs : font.glyphs.length = font.numGlyphs * font.charsize
  height_eq : font.height = font.charsize
  width_eq : font.width = 8
  questionMark_lt : PsfFont.questionMark < font.numGlyphs
  map_lt : ∀ entry ∈ font.unicodeMap.entries, entry.2.toNat < font.numGlyphs

/-- An entry of a map is one that it had, or the new one. -/
theorem UnicodeMap.mem_insert {map : UnicodeMap} {codepoint glyph : UInt16}
    {entry : UInt16 × UInt16} (h : entry ∈ (map.insert codepoint glyph).entries) :
    entry ∈ map.entries ∨ entry = (codepoint, glyph) := by
  unfold insert at h
  split at h
  · exact (List.mem_append.mp h).imp_right List.mem_singleton.mp
  · exact Or.inl h

/-- The loop of `parse` enters glyphs of the font only. -/
theorem scan_map_lt {numGlyphs : Nat} (table : List UInt16) (glyphIdx : UInt16) {map : UnicodeMap}
    (hmap : ∀ entry ∈ map.entries, entry.2.toNat < numGlyphs) :
    ∀ entry ∈ (scan numGlyphs table glyphIdx map).entries, entry.2.toNat < numGlyphs := by
  induction table generalizing glyphIdx map with
  | nil => exact hmap
  | cons v rest ih =>
      unfold scan
      split
      · next hlt =>
          split
          · exact ih _ hmap
          · split
            · exact ih _ hmap
            · refine ih _ fun entry hentry ↦ ?_
              rcases UnicodeMap.mem_insert hentry with hold | rfl
              · exact hmap entry hold
              · exact hlt
      · exact hmap

theorem sound_fontOf {data : List UInt8} (h : Accepted data) : (fontOf data).Sound where
  length_glyphs := by
    have hlength := h.2.2
    show ((data.drop 4).take (glyphCount data * charsizeOf data)).length = _
    rw [List.length_take, List.length_drop]
    exact Nat.min_eq_left (by omega)
  height_eq := rfl
  width_eq := rfl
  questionMark_lt := by
    show 0x3F < glyphCount data
    unfold glyphCount
    split <;> decide
  map_lt := by
    show ∀ entry ∈ (if HasTable data then scan (glyphCount data) (tableOf data) 0 UnicodeMap.new
      else UnicodeMap.new).entries, entry.2.toNat < glyphCount data
    split
    · exact scan_map_lt _ _ (List.forall_mem_nil _)
    · exact List.forall_mem_nil _

section Draw

variable {font : PsfFont}

/-- Every code point is shown by a glyph of the font. -/
theorem PsfFont.Sound.glyphIndex_lt (h : font.Sound) (codepoint : UInt32) :
    font.glyphIndex codepoint < font.numGlyphs := by
  unfold glyphIndex
  split
  · next hdirect => exact hdirect.2
  · split
    · next idx hlookup =>
        obtain ⟨entry, hfind, rfl⟩ := Option.map_eq_some_iff.mp hlookup
        exact h.map_lt entry (List.mem_of_find?_eq_some hfind)
    · exact h.questionMark_lt

/-- The bytes of a glyph. -/
def PsfFont.glyphBytes (font : PsfFont) (idx : Nat) : List UInt8 :=
  (font.glyphs.drop (idx * font.charsize)).take font.charsize

/-- The slice of `draw_char` lies inside the glyph data. -/
theorem PsfFont.Sound.slice_glyphs (h : font.Sound) {idx : Nat} (hidx : idx < font.numGlyphs) :
    slice font.glyphs (idx * font.charsize) ((idx + 1) * font.charsize) =
      pure (font.glyphBytes idx) ∧ (font.glyphBytes idx).length = font.height := by
  have hend : (idx + 1) * font.charsize ≤ font.glyphs.length := by
    rw [h.length_glyphs]
    exact Nat.mul_le_mul_right _ hidx
  have hwidth : (idx + 1) * font.charsize - idx * font.charsize = font.charsize := by
    rw [Nat.succ_mul, Nat.add_sub_cancel_left]
  constructor
  · rw [slice_eq_pure (Nat.mul_le_mul_right _ (Nat.le_succ idx)) hend, hwidth, glyphBytes]
  · rw [glyphBytes, List.length_take, List.length_drop, h.height_eq]
    exact Nat.min_eq_left (by omega)

/-- `draw_char` puts the pixels of the glyph, row by row. -/
theorem PsfFont.Sound.drawChar_eq (h : font.Sound) (x y : Nat) (codepoint fg bg : UInt32) :
    font.drawChar x y codepoint fg bg =
      pure ((List.range font.height).map fun row ↦ font.drawRow x (y + row) fg bg
        ((font.glyphBytes (font.glyphIndex codepoint)).getD row 0)).flatten := by
  have hidx := h.glyphIndex_lt codepoint
  obtain ⟨hslice, hlength⟩ := h.slice_glyphs hidx
  have hrow : ∀ row ∈ List.range font.height,
      (do
        let bits ← get (font.glyphBytes (font.glyphIndex codepoint)) row
        pure (font.drawRow x (y + row) fg bg bits)) =
      (pure (font.drawRow x (y + row) fg bg
        ((font.glyphBytes (font.glyphIndex codepoint)).getD row 0)) : Except Fault _) := by
    intro row hrow
    have hlt : row < (font.glyphBytes (font.glyphIndex codepoint)).length := by
      rw [hlength]
      exact List.mem_range.mp hrow
    rw [get_eq_getD hlt 0, pure_bind]
  rw [drawChar, if_neg (Nat.not_le_of_lt hidx), hslice, pure_bind, mapM_eq_pure hrow, pure_bind]

end Draw

/-- `parse` returns for every byte slice, and `draw_char` for every code point and position, with
the font that `parse` returned: no access lies outside the image or the glyph data. -/
theorem drawing_in_range (data : List UInt8) :
    ∃ parsed, PsfFont.parse data = pure parsed ∧
      ∀ font ∈ parsed, ∀ x y codepoint fg bg,
        ∃ pixels, font.drawChar x y codepoint fg bg = pure pixels := by
  refine ⟨_, parse_eq data, fun font hfont x y codepoint fg bg ↦ ?_⟩
  split at hfont
  · next haccepted =>
      cases hfont
      exact ⟨_, (sound_fontOf haccepted).drawChar_eq x y codepoint fg bg⟩
  · cases hfont

end Avaria.Gfx
