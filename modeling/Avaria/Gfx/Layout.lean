import Avaria.Gfx.Psf
import Avaria.Mm.Pages

/-!
# Text layout

`draw_str` of `psf.rs` and `put_pixel` of `vesa.rs`. A string is drawn character by character into
cells of the size of a glyph, from left to right; a cell that does not fit on the line goes to the
next one, and drawing ends at the bottom of the framebuffer.

`text_layout` says that no two cells overlap, and where they lie. Its positions are natural numbers,
and it says from which positions on, and for which framebuffers and strings, the sums of the loop do
not wrap around, so that `drawStrUsize` draws the same cells.
-/

namespace Avaria.Gfx

open Mm Slice

/-- `Framebuffer`, without its address. -/
structure Framebuffer where
  width : Nat
  height : Nat
  pitch : Nat
  bpp : Nat

/-- `put_pixel`: the bytes that it stores, by their offsets. -/
def Framebuffer.putPixel (fb : Framebuffer) (pixel : Pixel) : List (Nat × UInt8) :=
  if fb.width ≤ pixel.x ∨ fb.height ≤ pixel.y then []
  else
    let off := pixel.y * fb.pitch + pixel.x * fb.bpp
    [(off, pixel.b), (off + 1, pixel.g), (off + 2, pixel.r)] ++
      if 4 ≤ fb.bpp then [(off + 3, 0xFF)] else []

/-- A call of `draw_char`. -/
structure Cell where
  x : Nat
  y : Nat
  ch : Char

namespace PsfFont

/-- Where the next character is drawn: on the next line if it does not fit. -/
def nextCell (font : PsfFont) (fb : Framebuffer) (x cx cy : Nat) : Nat × Nat :=
  if fb.width < cx + font.width then (x, cy + font.height) else (cx, cy)

/-- The loop of `draw_str` over the characters that are left, from a position on. -/
def drawStrFrom (font : PsfFont) (fb : Framebuffer) (x : Nat) : List Char → Nat → Nat → List Cell
  | [], _, _ => []
  | ch :: rest, cx, cy =>
      if ch = '\n' then drawStrFrom font fb x rest x (cy + font.height)
      else
        let pos := nextCell font fb x cx cy
        if fb.height < pos.2 + font.height then []
        else ⟨pos.1, pos.2, ch⟩ :: drawStrFrom font fb x rest (pos.1 + font.width) pos.2

/-- `draw_str`: the characters that it draws, and where. -/
def drawStr (font : PsfFont) (fb : Framebuffer) (x y : Nat) (s : String) : List Cell :=
  drawStrFrom font fb x s.toList x y

end PsfFont

namespace Cell

/-- The pixel is one of the cell. -/
def Covers (font : PsfFont) (cell : Cell) (px py : Nat) : Prop :=
  (cell.x ≤ px ∧ px < cell.x + font.width) ∧ cell.y ≤ py ∧ py < cell.y + font.height

/-- One cell comes before another in reading order: on the same line to the left, or on a line
above. -/
def Precedes (font : PsfFont) (cell other : Cell) : Prop :=
  (cell.y = other.y ∧ cell.x + font.width ≤ other.x) ∨ cell.y + font.height ≤ other.y

/-- Cells in reading order have no pixel in common. -/
theorem Precedes.disjoint {font : PsfFont} {cell other : Cell} (h : cell.Precedes font other)
    (px py : Nat) : ¬ (cell.Covers font px py ∧ other.Covers font px py) := by
  rintro ⟨⟨⟨hx, hx'⟩, hy, hy'⟩, ⟨hox, hox'⟩, hoy, hoy'⟩
  rcases h with ⟨-, hleft⟩ | habove
  · omega
  · omega

end Cell

section Layout

variable {font : PsfFont} {fb : Framebuffer} {x : Nat}

/-- The next cell is where the loop is, and fits, or at the start of the next line. -/
theorem nextCell_cases (font : PsfFont) (fb : Framebuffer) (x cx cy : Nat) :
    (font.nextCell fb x cx cy = (cx, cy) ∧ cx + font.width ≤ fb.width) ∨
      font.nextCell fb x cx cy = (x, cy + font.height) := by
  unfold PsfFont.nextCell
  split
  · exact Or.inr rfl
  · next hfits => exact Or.inl ⟨rfl, Nat.not_lt.mp hfits⟩

/-- From a position on, all cells lie at it or after it. -/
theorem drawStrFrom_after (chars : List Char) (cx cy : Nat) :
    ∀ cell ∈ font.drawStrFrom fb x chars cx cy,
      (cy = cell.y ∧ cx ≤ cell.x) ∨ cy + font.height ≤ cell.y := by
  fun_induction font.drawStrFrom fb x chars cx cy with
  | case1 cx cy => exact List.forall_mem_nil _
  | case2 rest cx cy ih =>
      intro cell hcell
      rcases ih cell hcell with ⟨hline, -⟩ | hbelow
      · exact Or.inr (Nat.le_of_eq hline)
      · exact Or.inr (Nat.le_of_add_right_le hbelow)
  | case3 ch rest cx cy hch pos hbottom => exact List.forall_mem_nil _
  | case4 ch rest cx cy hch pos hbottom ih =>
      have hpos : (cy = pos.2 ∧ cx = pos.1) ∨ cy + font.height = pos.2 := by
        rcases nextCell_cases font fb x cx cy with ⟨heq, -⟩ | heq
        · exact Or.inl ⟨(congrArg Prod.snd heq).symm, (congrArg Prod.fst heq).symm⟩
        · exact Or.inr (congrArg Prod.snd heq).symm
      intro cell hcell
      rcases List.mem_cons.mp hcell with rfl | hrest
      · exact hpos.imp (fun h ↦ ⟨h.1, Nat.le_of_eq h.2⟩) Nat.le_of_eq
      · have hafter := ih cell hrest
        omega

/-- The cells come in reading order. -/
theorem pairwise_drawStrFrom (chars : List Char) (cx cy : Nat) :
    (font.drawStrFrom fb x chars cx cy).Pairwise (Cell.Precedes font) := by
  fun_induction font.drawStrFrom fb x chars cx cy with
  | case1 cx cy => exact List.Pairwise.nil
  | case2 rest cx cy ih => exact ih
  | case3 ch rest cx cy hch pos hbottom => exact List.Pairwise.nil
  | case4 ch rest cx cy hch pos hbottom ih =>
      exact List.Pairwise.cons (fun cell hcell ↦ drawStrFrom_after rest _ _ cell hcell) ih

/-- Each cell ends above the bottom, and starts a line or fits on its line. -/
theorem drawStrFrom_inside (chars : List Char) (cx cy : Nat) :
    ∀ cell ∈ font.drawStrFrom fb x chars cx cy,
      cell.y + font.height ≤ fb.height ∧ (cell.x = x ∨ cell.x + font.width ≤ fb.width) := by
  fun_induction font.drawStrFrom fb x chars cx cy with
  | case1 cx cy => exact List.forall_mem_nil _
  | case2 rest cx cy ih => exact ih
  | case3 ch rest cx cy hch pos hbottom => exact List.forall_mem_nil _
  | case4 ch rest cx cy hch pos hbottom ih =>
      have hpos : pos.1 = x ∨ pos.1 + font.width ≤ fb.width := by
        rcases nextCell_cases font fb x cx cy with ⟨heq, hfits⟩ | heq
        · exact Or.inr ((congrArg Prod.fst heq).symm ▸ hfits)
        · exact Or.inl (congrArg Prod.fst heq)
      exact List.forall_mem_cons.mpr ⟨⟨Nat.not_lt.mp hbottom, hpos⟩, ih⟩

/-- The characters are drawn in order, without the newlines, up to where drawing ends. -/
theorem chars_drawStrFrom (chars : List Char) (cx cy : Nat) :
    (font.drawStrFrom fb x chars cx cy).map (·.ch) <+: chars.filter (· ≠ '\n') := by
  fun_induction font.drawStrFrom fb x chars cx cy with
  | case1 cx cy => exact List.nil_prefix
  | case2 rest cx cy ih =>
      rw [List.filter_cons_of_neg (by simp)]
      exact ih
  | case3 ch rest cx cy hch pos hbottom => exact List.nil_prefix
  | case4 ch rest cx cy hch pos hbottom ih =>
      rw [List.filter_cons_of_pos (by simpa using hch), List.map_cons]
      exact List.cons_prefix_cons.mpr ⟨rfl, ih⟩

end Layout

/-! ## Pixels -/

/-- The pixels that `draw_char` puts for a cell are those of the cell. -/
theorem PsfFont.Sound.drawChar_covers {font : PsfFont} (h : font.Sound) (cell : Cell)
    (fg bg : UInt32) {pixels : List Pixel}
    (hpixels : font.drawChar cell.x cell.y cell.ch.val fg bg = pure pixels) (px py : Nat) :
    (∃ pixel ∈ pixels, pixel.x = px ∧ pixel.y = py) ↔ cell.Covers font px py := by
  rw [h.drawChar_eq] at hpixels
  obtain rfl := Except.ok.inj hpixels
  have hcolored (x y : Nat) (bits : UInt8) (col : Nat) :
      (if bits &&& ((0x80 : UInt8) >>> UInt8.ofNat col) ≠ 0 then colored (x + col) y fg
        else colored (x + col) y bg).x = x + col ∧
      (if bits &&& ((0x80 : UInt8) >>> UInt8.ofNat col) ≠ 0 then colored (x + col) y fg
        else colored (x + col) y bg).y = y := by
    split <;> exact ⟨rfl, rfl⟩
  constructor
  · rintro ⟨pixel, hpixel, rfl, rfl⟩
    obtain ⟨line, hline, hmem⟩ := List.mem_flatten.mp hpixel
    obtain ⟨row, hrow, rfl⟩ := List.mem_map.mp hline
    obtain ⟨col, hcol, rfl⟩ := List.mem_map.mp hmem
    obtain ⟨hx, hy⟩ := hcolored cell.x (cell.y + row) _ col
    have hrow' := List.mem_range.mp hrow
    have hcol' := List.mem_range.mp hcol
    rw [hx, hy]
    exact ⟨⟨by omega, by omega⟩, by omega, by omega⟩
  · rintro ⟨⟨hx, hx'⟩, hy, hy'⟩
    have hcol : px - cell.x ∈ List.range font.width := List.mem_range.mpr (by omega)
    have hrow : py - cell.y ∈ List.range font.height := List.mem_range.mpr (by omega)
    obtain ⟨hpx, hpy⟩ := hcolored cell.x (cell.y + (py - cell.y))
      ((font.glyphBytes (font.glyphIndex cell.ch.val)).getD (py - cell.y) 0) (px - cell.x)
    exact ⟨_, List.mem_flatten.mpr ⟨_, List.mem_map_of_mem hrow, List.mem_map_of_mem hcol⟩,
      by omega, by omega⟩

/-- The bytes that `put_pixel` stores are those of a pixel of the framebuffer. -/
theorem Framebuffer.mem_putPixel {fb : Framebuffer} (hbpp : 3 ≤ fb.bpp) {pixel : Pixel} {off : Nat}
    {byte : UInt8} (h : (off, byte) ∈ fb.putPixel pixel) :
    pixel.x < fb.width ∧ ∃ k < fb.bpp, off = pixel.y * fb.pitch + pixel.x * fb.bpp + k := by
  unfold putPixel at h
  split at h
  · exact absurd h List.not_mem_nil
  · next hin =>
      refine ⟨Nat.lt_of_not_le fun hx ↦ hin (Or.inl hx), ?_⟩
      rcases List.mem_append.mp h with hcolor | halpha
      · simp only [List.mem_cons, Prod.mk.injEq, List.not_mem_nil, or_false] at hcolor
        rcases hcolor with ⟨rfl, -⟩ | ⟨rfl, -⟩ | ⟨rfl, -⟩
        · exact ⟨0, by omega, rfl⟩
        · exact ⟨1, by omega, rfl⟩
        · exact ⟨2, by omega, rfl⟩
      · split at halpha
        · next hfour =>
            obtain ⟨rfl, -⟩ := Prod.mk.inj (List.mem_singleton.mp halpha)
            exact ⟨3, hfour, rfl⟩
        · exact absurd halpha List.not_mem_nil

/-- In a framebuffer whose lines hold all their pixels, different pixels have different bytes. -/
theorem Framebuffer.putPixel_apart {fb : Framebuffer} (hbpp : 3 ≤ fb.bpp)
    (hpitch : fb.width * fb.bpp ≤ fb.pitch) {pixel other : Pixel} {off : Nat} {byte byte' : UInt8}
    (h : (off, byte) ∈ fb.putPixel pixel) (hother : (off, byte') ∈ fb.putPixel other) :
    pixel.x = other.x ∧ pixel.y = other.y := by
  have hplace (pixel : Pixel) (byte : UInt8) (h : (off, byte) ∈ fb.putPixel pixel) :
      off / fb.pitch = pixel.y ∧ off % fb.pitch / fb.bpp = pixel.x := by
    obtain ⟨hx, k, hk, rfl⟩ := mem_putPixel hbpp h
    have hline : pixel.x * fb.bpp + k < fb.pitch := by
      calc pixel.x * fb.bpp + k < pixel.x * fb.bpp + fb.bpp := Nat.add_lt_add_left hk _
        _ = (pixel.x + 1) * fb.bpp := (Nat.succ_mul _ _).symm
        _ ≤ fb.width * fb.bpp := Nat.mul_le_mul_right _ hx
        _ ≤ fb.pitch := hpitch
    rw [Nat.add_assoc, Nat.mul_comm pixel.y, Nat.mul_add_div (Nat.zero_lt_of_lt hline),
      Nat.div_eq_of_lt hline, Nat.mul_add_mod, Nat.mod_eq_of_lt hline, Nat.mul_comm pixel.x,
      Nat.mul_add_div (Nat.zero_lt_of_lt hk), Nat.div_eq_of_lt hk]
    exact ⟨rfl, rfl⟩
  obtain ⟨hy, hx⟩ := hplace pixel byte h
  obtain ⟨hy', hx'⟩ := hplace other byte' hother
  exact ⟨hx.symm.trans hx', hy.symm.trans hy'⟩

/-! ## Sums in 64 bits -/

/-- The loop of `draw_str` with sums that wrap around. -/
def PsfFont.drawStrFromUsize (font : PsfFont) (fb : Framebuffer) (x : Nat) :
    List Char → Nat → Nat → List Cell
  | [], _, _ => []
  | ch :: rest, cx, cy =>
      if ch = '\n' then drawStrFromUsize font fb x rest x (usize (cy + font.height))
      else
        let wraps := fb.width < usize (cx + font.width)
        let cx := if wraps then x else cx
        let cy := if wraps then usize (cy + font.height) else cy
        if fb.height < usize (cy + font.height) then []
        else ⟨cx, cy, ch⟩ :: drawStrFromUsize font fb x rest (usize (cx + font.width)) cy

/-- `draw_str` with sums that wrap around. -/
def PsfFont.drawStrUsize (font : PsfFont) (fb : Framebuffer) (x y : Nat) (s : String) : List Cell :=
  font.drawStrFromUsize fb x s.toList x y

/-- No sum wraps around if two cells fit between the lines and `2 ^ 64`, and the lines of the
string, one for each character at most, end below it. -/
theorem drawStrFromUsize_eq {font : PsfFont} {fb : Framebuffer} {x : Nat}
    (hx : x + 2 * font.width < 2 ^ 64) (hwidth : fb.width + 2 * font.width < 2 ^ 64)
    (chars : List Char) (cx cy : Nat) (hcx : cx ≤ max x fb.width + font.width)
    (hcy : cy + chars.length * font.height + 2 * font.height < 2 ^ 64) :
    font.drawStrFromUsize fb x chars cx cy = font.drawStrFrom fb x chars cx cy := by
  induction chars generalizing cx cy with
  | nil => rfl
  | cons ch rest ih =>
      rw [List.length_cons, Nat.succ_mul] at hcy
      have hright : usize (cx + font.width) = cx + font.width := usize_eq (by omega)
      have hdown : usize (cy + font.height) = cy + font.height := usize_eq (by omega)
      rw [PsfFont.drawStrFromUsize, PsfFont.drawStrFrom, hright, hdown]
      by_cases hch : ch = '\n'
      · rw [if_pos hch, if_pos hch]
        exact ih x (cy + font.height) (by omega) (by omega)
      · rw [if_neg hch, if_neg hch]
        unfold PsfFont.nextCell
        by_cases hwraps : fb.width < cx + font.width
        · have hbottom : usize (cy + font.height + font.height) = cy + font.height + font.height :=
            usize_eq (by omega)
          have hnext : usize (x + font.width) = x + font.width := usize_eq (by omega)
          simp only [if_pos hwraps, hbottom, hnext]
          rw [ih (x + font.width) (cy + font.height) (by omega) (by omega)]
        · simp only [if_neg hwraps, hdown, hright]
          rw [ih (cx + font.width) cy (by omega) (by omega)]

/-- Whatever the string, the font, the framebuffer and the start, the cells that `draw_str` draws
come in reading order and have no pixel in common; each lies above the bottom, and starts at `x` or
fits horizontally; and the drawn characters are the first ones of the string that are no
newlines. These are the cells of the loop in 64 bits, if two cells fit between the lines and
`2 ^ 64` and the lines of the string end below it. -/
theorem text_layout (font : PsfFont) (fb : Framebuffer) (x y : Nat) (s : String) :
    let cells := font.drawStr fb x y s
    cells.Pairwise (Cell.Precedes font) ∧
      cells.Pairwise (fun cell other ↦
        ∀ px py, ¬ (cell.Covers font px py ∧ other.Covers font px py)) ∧
      (∀ cell ∈ cells, cell.y + font.height ≤ fb.height ∧
        (cell.x = x ∨ cell.x + font.width ≤ fb.width)) ∧
      cells.map (·.ch) <+: s.toList.filter (· ≠ '\n') ∧
      (max x fb.width + 2 * font.width < 2 ^ 64 →
        y + s.toList.length * font.height + 2 * font.height < 2 ^ 64 →
        font.drawStrUsize fb x y s = cells) := by
  have horder : (font.drawStr fb x y s).Pairwise (Cell.Precedes font) :=
    pairwise_drawStrFrom s.toList x y
  exact ⟨horder, horder.imp Cell.Precedes.disjoint, drawStrFrom_inside s.toList x y,
    chars_drawStrFrom s.toList x y, fun hwidth hheight ↦
      drawStrFromUsize_eq (by omega) (by omega) s.toList x y (by omega) hheight⟩

/-- With a font that `parse` returned, no byte of the framebuffer is stored for two characters. -/
theorem text_stores_apart {font : PsfFont} (h : font.Sound) {fb : Framebuffer} (hbpp : 3 ≤ fb.bpp)
    (hpitch : fb.width * fb.bpp ≤ fb.pitch) (x y : Nat) (s : String) (fg bg : UInt32) :
    (font.drawStr fb x y s).Pairwise fun cell other ↦
      ∀ pixels others, font.drawChar cell.x cell.y cell.ch.val fg bg = pure pixels →
        font.drawChar other.x other.y other.ch.val fg bg = pure others →
        ∀ pixel ∈ pixels, ∀ pixel' ∈ others, ∀ off byte byte',
          (off, byte) ∈ fb.putPixel pixel → (off, byte') ∉ fb.putPixel pixel' := by
  refine (pairwise_drawStrFrom s.toList x y).imp fun {cell other} hprecedes ↦ ?_
  intro pixels others hpixels hothers pixel hpixel pixel' hpixel' off byte byte' hstore hstore'
  obtain ⟨hx, hy⟩ := Framebuffer.putPixel_apart hbpp hpitch hstore hstore'
  have hcell := (h.drawChar_covers cell fg bg hpixels _ _).mp ⟨pixel, hpixel, rfl, rfl⟩
  have hother := (h.drawChar_covers other fg bg hothers _ _).mp ⟨pixel', hpixel', hx.symm, hy.symm⟩
  exact hprecedes.disjoint _ _ ⟨hcell, hother⟩

end Avaria.Gfx
