import Avaria.Gfx.Layout
import Avaria.Lib.ByteMap
import Avaria.Lib.LastWrite
import Mathlib.Data.List.Pairwise

/-!
# What the screen shows

The bytes of the framebuffer after any number of calls of `put_pixel`, and the colors that they
show: in a framebuffer whose lines hold all their pixels, each pixel shows the color that it was
last given (`shown_draw`), and no byte outside the pixels changes (`draw_outside`).

From this follow what `fill_rect` and `clear` of `vesa.rs` leave on the screen, `fill_rect_exact`
and `shown_clear`, and what `draw_str` does, `text_shown`.
-/

namespace Avaria.Gfx

open Mm

/-- The color of a pixel. -/
def Pixel.color (pixel : Pixel) : UInt8 × UInt8 × UInt8 := (pixel.r, pixel.g, pixel.b)

namespace Framebuffer

/-- The memory after some stores, at offsets from the start of the framebuffer. -/
def storeAll (mem : ByteMap) (stores : List (Nat × UInt8)) : ByteMap :=
  stores.foldl (fun mem store ↦ Function.update mem store.1 store.2) mem

/-- The memory after calls of `put_pixel`. -/
def draw (fb : Framebuffer) (mem : ByteMap) (pixels : List Pixel) : ByteMap :=
  pixels.foldl (fun mem pixel ↦ storeAll mem (fb.putPixel pixel)) mem

/-- The position is one of the screen. -/
def Visible (fb : Framebuffer) (x y : Nat) : Prop := x < fb.width ∧ y < fb.height

instance (fb : Framebuffer) (x y : Nat) : Decidable (fb.Visible x y) :=
  inferInstanceAs (Decidable (_ ∧ _))

/-- The offset of a pixel. -/
def offset (fb : Framebuffer) (x y : Nat) : Nat := y * fb.pitch + x * fb.bpp

/-- The color that is shown at a position: blue comes first. -/
def shown (fb : Framebuffer) (mem : ByteMap) (x y : Nat) : UInt8 × UInt8 × UInt8 :=
  (mem (fb.offset x y + 2), mem (fb.offset x y + 1), mem (fb.offset x y))

/-- The offset is that of a byte of a pixel. -/
def OnScreen (fb : Framebuffer) (k : Nat) : Prop :=
  ∃ x y, fb.Visible x y ∧ fb.offset x y ≤ k ∧ k < fb.offset x y + fb.bpp

/-- The lines hold all their pixels, and these have a byte for each of the three colors. -/
structure Sound (fb : Framebuffer) : Prop where
  bpp : 3 ≤ fb.bpp
  pitch : fb.width * fb.bpp ≤ fb.pitch

theorem storeAll_of_forall_ne {mem : ByteMap} {stores : List (Nat × UInt8)} {k : Nat}
    (h : ∀ store ∈ stores, store.1 ≠ k) : storeAll mem stores k = mem k := by
  induction stores generalizing mem with
  | nil => rfl
  | cons store rest ih =>
      show storeAll (Function.update mem store.1 store.2) rest k = mem k
      rw [ih fun other hother ↦ h other (List.mem_cons_of_mem _ hother)]
      exact Function.update_of_ne (h store List.mem_cons_self).symm _ _

variable {fb : Framebuffer}

/-- A pixel that is put at a position of the screen is shown there. -/
theorem shown_putPixel_self {pixel : Pixel} (h : fb.Visible pixel.x pixel.y) (mem : ByteMap) :
    fb.shown (storeAll mem (fb.putPixel pixel)) pixel.x pixel.y = pixel.color := by
  have hin : ¬ (fb.width ≤ pixel.x ∨ fb.height ≤ pixel.y) := by
    rintro (hx | hy)
    · exact absurd h.1 (Nat.not_lt.mpr hx)
    · exact absurd h.2 (Nat.not_lt.mpr hy)
  rw [putPixel, if_neg hin, shown, offset, Pixel.color]
  generalize pixel.y * fb.pitch + pixel.x * fb.bpp = off
  dsimp only
  by_cases hfour : 4 ≤ fb.bpp
  · rw [if_pos hfour]
    simp [storeAll]
  · rw [if_neg hfour]
    simp [storeAll]

/-- A pixel that is put elsewhere changes nothing at a position. -/
theorem shown_putPixel_of_ne (hfb : fb.Sound) {pixel : Pixel} {x y : Nat} (h : fb.Visible x y)
    (hne : ¬ (pixel.x = x ∧ pixel.y = y)) (mem : ByteMap) :
    fb.shown (storeAll mem (fb.putPixel pixel)) x y = fb.shown mem x y := by
  -- the bytes at the position are those of a pixel put there
  have hbyte (k : Nat) (hk : k < 3) :
      storeAll mem (fb.putPixel pixel) (fb.offset x y + k) = mem (fb.offset x y + k) := by
    refine storeAll_of_forall_ne fun store hstore heq ↦ hne ?_
    have hin : ¬ (fb.width ≤ x ∨ fb.height ≤ y) := by
      rintro (hx | hy)
      · exact absurd h.1 (Nat.not_lt.mpr hx)
      · exact absurd h.2 (Nat.not_lt.mpr hy)
    have hthere : (fb.offset x y + k, (0 : UInt8)) ∈ fb.putPixel ⟨x, y, 0, 0, 0⟩ := by
      rw [putPixel, if_neg hin]
      refine List.mem_append_left _ ?_
      obtain rfl | rfl | rfl : k = 0 ∨ k = 1 ∨ k = 2 := by omega
      · exact List.mem_cons_self
      · exact List.mem_cons_of_mem _ List.mem_cons_self
      · exact List.mem_cons_of_mem _ (List.mem_cons_of_mem _ List.mem_cons_self)
    obtain ⟨off, byte⟩ := store
    dsimp only at heq
    subst heq
    exact putPixel_apart hfb.bpp hfb.pitch hstore hthere
  rw [shown, shown, hbyte 2 (by decide), hbyte 1 (by decide)]
  exact congrArg _ (congrArg _ (hbyte 0 (by decide)))

/-- The color that a call of `put_pixel` gives a position. -/
def paints (x y : Nat) (pixel : Pixel) : Option (UInt8 × UInt8 × UInt8) :=
  if pixel.x = x ∧ pixel.y = y then some pixel.color else none

/-- Each position shows the color that it was last given. -/
theorem shown_draw (hfb : fb.Sound) {x y : Nat} (h : fb.Visible x y) (mem : ByteMap)
    (pixels : List Pixel) :
    fb.shown (fb.draw mem pixels) x y =
      (LastWrite.last (paints x y) pixels).getD (fb.shown mem x y) := by
  refine LastWrite.view_foldl (fun mem ↦ fb.shown mem x y) (fun mem pixel ↦ ?_) mem pixels
  rw [paints]
  split
  · rename_i hsame
    obtain ⟨rfl, rfl⟩ := hsame
    exact shown_putPixel_self h mem
  · rename_i hne
    exact shown_putPixel_of_ne hfb h hne mem

/-- A byte that belongs to no pixel of the screen stays. -/
theorem draw_outside (hfb : fb.Sound) {k : Nat} (h : ¬ fb.OnScreen k) (mem : ByteMap)
    (pixels : List Pixel) : fb.draw mem pixels k = mem k := by
  induction pixels generalizing mem with
  | nil => rfl
  | cons pixel rest ih =>
      show fb.draw (storeAll mem (fb.putPixel pixel)) rest k = mem k
      rw [ih]
      refine storeAll_of_forall_ne fun store hstore heq ↦ h ?_
      obtain ⟨off, byte⟩ := store
      obtain ⟨hx, j, hj, rfl⟩ := mem_putPixel hfb.bpp hstore
      have hy : pixel.y < fb.height := by
        by_contra hy
        rw [putPixel, if_pos (Or.inr (Nat.not_lt.mp hy))] at hstore
        exact absurd hstore List.not_mem_nil
      dsimp only at heq
      subst heq
      exact ⟨pixel.x, pixel.y, ⟨hx, hy⟩, Nat.le_add_right _ _, Nat.add_lt_add_left hj _⟩

/-! ## Rectangles -/

/-- `fill_rect`: the calls of `put_pixel`. The bounds of the loops wrap around. -/
def fillRect (x0 y0 w h : Nat) (r g b : UInt8) : List Pixel :=
  (List.range' y0 (usize (y0 + h) - y0)).flatMap fun y ↦
    (List.range' x0 (usize (x0 + w) - x0)).map fun x ↦ ⟨x, y, r, g, b⟩

/-- `clear`. -/
def clear (fb : Framebuffer) (r g b : UInt8) : List Pixel := fillRect 0 0 fb.width fb.height r g b

theorem mem_fillRect {x0 y0 w h : Nat} {r g b : UInt8} {pixel : Pixel} :
    pixel ∈ fillRect x0 y0 w h r g b ↔
      (x0 ≤ pixel.x ∧ pixel.x < usize (x0 + w)) ∧ (y0 ≤ pixel.y ∧ pixel.y < usize (y0 + h)) ∧
        pixel.color = (r, g, b) := by
  rw [fillRect, List.mem_flatMap]
  constructor
  · rintro ⟨y, hy, hpixel⟩
    obtain ⟨x, hx, rfl⟩ := List.mem_map.mp hpixel
    rw [List.mem_range'_1] at hx hy
    exact ⟨⟨hx.1, by show x < _; omega⟩, ⟨hy.1, by show y < _; omega⟩, rfl⟩
  · obtain ⟨x, y, r', g', b'⟩ := pixel
    rintro ⟨⟨hx, hx'⟩, ⟨hy, hy'⟩, hcolor⟩
    obtain ⟨rfl, rfl, rfl⟩ : r' = r ∧ g' = g ∧ b' = b := by simpa [Pixel.color] using hcolor
    dsimp only at hx hx' hy hy'
    exact ⟨y, List.mem_range'_1.mpr (by omega),
      List.mem_map.mpr ⟨x, List.mem_range'_1.mpr (by omega), rfl⟩⟩

/-- After `fill_rect` the positions of the rectangle show its color, and all others what they
did. -/
theorem shown_fillRect (hfb : fb.Sound) {x y : Nat} (hvisible : fb.Visible x y) (mem : ByteMap)
    (x0 y0 w h : Nat) (r g b : UInt8) :
    fb.shown (fb.draw mem (fillRect x0 y0 w h r g b)) x y =
      if (x0 ≤ x ∧ x < usize (x0 + w)) ∧ y0 ≤ y ∧ y < usize (y0 + h) then (r, g, b)
      else fb.shown mem x y := by
  rw [shown_draw hfb hvisible]
  split
  · rename_i hin
    have hlast : LastWrite.last (paints x y) (fillRect x0 y0 w h r g b) = some (r, g, b) := by
      refine LastWrite.last_eq_some (fun pixel hpixel other hother ↦ ?_) ?_
      · obtain ⟨-, heq⟩ := Option.ite_none_right_eq_some.mp hother
        rw [← Option.some.inj heq]
        exact (mem_fillRect.mp hpixel).2.2
      · exact ⟨⟨x, y, r, g, b⟩, mem_fillRect.mpr ⟨hin.1, hin.2, rfl⟩, if_pos ⟨rfl, rfl⟩⟩
    rw [hlast]
    rfl
  · rename_i hout
    have hlast : LastWrite.last (paints x y) (fillRect x0 y0 w h r g b) = none := by
      refine LastWrite.last_eq_none fun pixel hpixel ↦ if_neg ?_
      rintro ⟨rfl, rfl⟩
      obtain ⟨hx, hy, -⟩ := mem_fillRect.mp hpixel
      exact hout ⟨hx, hy⟩
    rw [hlast]
    rfl

/-- After `clear` the whole screen shows the color. -/
theorem shown_clear (hfb : fb.Sound) (hwidth : fb.width < 2 ^ 64) (hheight : fb.height < 2 ^ 64)
    {x y : Nat} (hvisible : fb.Visible x y) (mem : ByteMap) (r g b : UInt8) :
    fb.shown (fb.draw mem (fb.clear r g b)) x y = (r, g, b) := by
  have hright : usize (0 + fb.width) = fb.width := by
    rw [Nat.zero_add]
    exact usize_eq hwidth
  have hbottom : usize (0 + fb.height) = fb.height := by
    rw [Nat.zero_add]
    exact usize_eq hheight
  have hin : (0 ≤ x ∧ x < usize (0 + fb.width)) ∧ 0 ≤ y ∧ y < usize (0 + fb.height) := by
    rw [hright, hbottom]
    exact ⟨⟨Nat.zero_le x, hvisible.1⟩, Nat.zero_le y, hvisible.2⟩
  rw [clear, shown_fillRect hfb hvisible, if_pos hin]

/-- After `fill_rect`, the positions of the screen that lie in the rectangle show its color, all
others show what they did, and no byte of the framebuffer outside the pixels has changed. -/
theorem fill_rect_exact (hfb : fb.Sound) (mem : ByteMap) (x0 y0 w h : Nat) (r g b : UInt8) :
    (∀ x y, fb.Visible x y →
      fb.shown (fb.draw mem (fillRect x0 y0 w h r g b)) x y =
        if (x0 ≤ x ∧ x < usize (x0 + w)) ∧ y0 ≤ y ∧ y < usize (y0 + h) then (r, g, b)
        else fb.shown mem x y) ∧
      ∀ k, ¬ fb.OnScreen k → fb.draw mem (fillRect x0 y0 w h r g b) k = mem k :=
  ⟨fun _ _ hvisible ↦ shown_fillRect hfb hvisible mem x0 y0 w h r g b,
    fun _ hk ↦ draw_outside hfb hk mem _⟩

/-- A red corner on a screen of two lines with unused bytes. -/
theorem fill_rect_exact_corner :
    (⟨4, 2, 32, 4⟩ : Framebuffer).shown ((⟨4, 2, 32, 4⟩ : Framebuffer).draw (fun _ ↦ 7)
      (fillRect 3 1 5 5 0xFF 0 0)) 3 1 = (0xFF, 0, 0) :=
  (fill_rect_exact ⟨by decide, by decide⟩ (fun _ ↦ 7) 3 1 5 5 0xFF 0 0).1 3 1
    ⟨by decide, by decide⟩

end Framebuffer

/-! ## Text -/

namespace PsfFont

/-- `draw_str`: the calls of `put_pixel` for all its characters. -/
def strPixels (font : PsfFont) (fb : Framebuffer) (x y : Nat) (s : String) (fg bg : UInt32) :
    Except Slice.Fault (List Pixel) := do
  let cells ← (font.drawStr fb x y s).mapM fun cell ↦
    font.drawChar cell.x cell.y cell.ch.val fg bg
  pure cells.flatten

/-- The color of a cell at a row and a column, by the bit of its glyph. -/
def cellColor (font : PsfFont) (cell : Cell) (fg bg : UInt32) (row col : Nat) :
    UInt8 × UInt8 × UInt8 :=
  let bits := (font.glyphBytes (font.glyphIndex cell.ch.val)).getD row 0
  (colored 0 0 (if bits &&& ((0x80 : UInt8) >>> UInt8.ofNat col) ≠ 0 then fg else bg)).color

/-- The pixels that `draw_char` puts for a cell. -/
def cellPixels (font : PsfFont) (fg bg : UInt32) (cell : Cell) : List Pixel :=
  ((List.range font.height).map fun row ↦ font.drawRow cell.x (cell.y + row) fg bg
    ((font.glyphBytes (font.glyphIndex cell.ch.val)).getD row 0)).flatten

variable {font : PsfFont} {fb : Framebuffer} {fg bg : UInt32} {cell : Cell}

/-- The pixels of a cell are those of its rows and columns, in their colors. -/
theorem mem_cellPixels {pixel : Pixel} :
    pixel ∈ font.cellPixels fg bg cell ↔
      ∃ row < font.height, ∃ col < font.width, pixel.x = cell.x + col ∧ pixel.y = cell.y + row ∧
        pixel.color = font.cellColor cell fg bg row col := by
  -- both branches of `draw_char` put a pixel at the same position
  have hput (row col : Nat) (bits : UInt8) :
      (if bits &&& ((0x80 : UInt8) >>> UInt8.ofNat col) ≠ 0 then
          colored (cell.x + col) (cell.y + row) fg
        else colored (cell.x + col) (cell.y + row) bg) =
        colored (cell.x + col) (cell.y + row)
          (if bits &&& ((0x80 : UInt8) >>> UInt8.ofNat col) ≠ 0 then fg else bg) := by
    split <;> rfl
  constructor
  · intro hpixel
    obtain ⟨line, hline, hmem⟩ := List.mem_flatten.mp hpixel
    obtain ⟨row, hrow, rfl⟩ := List.mem_map.mp hline
    obtain ⟨col, hcol, rfl⟩ := List.mem_map.mp hmem
    rw [hput]
    exact ⟨row, List.mem_range.mp hrow, col, List.mem_range.mp hcol, rfl, rfl, rfl⟩
  · rintro ⟨row, hrow, col, hcol, hx, hy, hcolor⟩
    refine List.mem_flatten.mpr ⟨_, List.mem_map_of_mem (List.mem_range.mpr hrow), ?_⟩
    refine List.mem_map.mpr ⟨col, List.mem_range.mpr hcol, ?_⟩
    rw [hput]
    obtain ⟨px, py, r, g, b⟩ := pixel
    obtain ⟨rfl, rfl⟩ : px = cell.x + col ∧ py = cell.y + row := ⟨hx, hy⟩
    rw [cellColor, Pixel.color, Pixel.color] at hcolor
    obtain ⟨rfl, hrest⟩ := Prod.mk.inj hcolor
    obtain ⟨rfl, rfl⟩ := Prod.mk.inj hrest
    rfl

/-- With a font that `parse` returned, all characters are drawn. -/
theorem Sound.strPixels_eq (h : font.Sound) (fb : Framebuffer) (x y : Nat) (s : String)
    (fg bg : UInt32) :
    font.strPixels fb x y s fg bg =
      pure ((font.drawStr fb x y s).flatMap (font.cellPixels fg bg)) := by
  rw [strPixels, Slice.mapM_eq_pure fun cell _ ↦ h.drawChar_eq cell.x cell.y cell.ch.val fg bg,
    pure_bind, ← List.flatMap_def]
  rfl

/-- The cells of a string have no pixel in common. -/
theorem cell_unique {x y : Nat} {s : String} {other : Cell} {px py : Nat}
    (hcell : cell ∈ font.drawStr fb x y s) (hother : other ∈ font.drawStr fb x y s)
    (h : cell.Covers font px py) (h' : other.Covers font px py) : other = cell := by
  have hapart : (font.drawStr fb x y s).Pairwise fun cell other ↦
      ∀ px py, ¬ (cell.Covers font px py ∧ other.Covers font px py) :=
    (pairwise_drawStrFrom s.toList x y).imp Cell.Precedes.disjoint
  have hsymm : Std.Symm fun cell other : Cell ↦
      ∀ px py, ¬ (cell.Covers font px py ∧ other.Covers font px py) :=
    ⟨fun _ _ hdisjoint px py hboth ↦ hdisjoint px py hboth.symm⟩
  by_contra hne
  exact hapart.forall hother hcell hne px py ⟨h', h⟩

end PsfFont

/-- Drawing a string with a font that `parse` returned comes to its end. Each cell that is drawn
shows the glyph of its character, as far as it lies on the screen, whatever was there before and
whatever is drawn after it; the positions outside the cells show what they did; and no byte of the
framebuffer outside the pixels has changed. -/
theorem text_shown {font : PsfFont} (hfont : font.Sound) {fb : Framebuffer} (hfb : fb.Sound)
    (mem : ByteMap) (x y : Nat) (s : String) (fg bg : UInt32) :
    ∃ pixels, font.strPixels fb x y s fg bg = pure pixels ∧
      (∀ cell ∈ font.drawStr fb x y s, ∀ row < font.height, ∀ col < font.width,
        fb.Visible (cell.x + col) (cell.y + row) →
        fb.shown (fb.draw mem pixels) (cell.x + col) (cell.y + row) =
          font.cellColor cell fg bg row col) ∧
      (∀ px py, fb.Visible px py → (∀ cell ∈ font.drawStr fb x y s, ¬ cell.Covers font px py) →
        fb.shown (fb.draw mem pixels) px py = fb.shown mem px py) ∧
      ∀ k, ¬ fb.OnScreen k → fb.draw mem pixels k = mem k := by
  have hcovers {cell : Cell} {pixel : Pixel} (h : pixel ∈ font.cellPixels fg bg cell) :
      cell.Covers font pixel.x pixel.y := by
    obtain ⟨row, hrow, col, hcol, hx, hy, -⟩ := PsfFont.mem_cellPixels.mp h
    exact ⟨⟨by omega, by omega⟩, by omega, by omega⟩
  refine ⟨_, hfont.strPixels_eq fb x y s fg bg, fun cell hcell row hrow col hcol hvisible ↦ ?_,
    fun px py hvisible hout ↦ ?_, fun k hk ↦ Framebuffer.draw_outside hfb hk mem _⟩
  · rw [Framebuffer.shown_draw hfb hvisible]
    have hlast : LastWrite.last (Framebuffer.paints (cell.x + col) (cell.y + row))
        ((font.drawStr fb x y s).flatMap (font.cellPixels fg bg)) =
          some (font.cellColor cell fg bg row col) := by
      refine LastWrite.last_eq_some (fun pixel hpixel other hother ↦ ?_) ?_
      · obtain ⟨⟨hx, hy⟩, heq⟩ := Option.ite_none_right_eq_some.mp hother
        rw [← Option.some.inj heq]
        obtain ⟨owner, howner, hmem⟩ := List.mem_flatMap.mp hpixel
        -- only this cell has a pixel there
        have hcell' : cell.Covers font (cell.x + col) (cell.y + row) :=
          ⟨⟨by omega, by omega⟩, by omega, by omega⟩
        obtain rfl := PsfFont.cell_unique hcell howner hcell' (hx ▸ hy ▸ hcovers hmem)
        obtain ⟨row', hrow', col', hcol', hx', hy', hcolor⟩ := PsfFont.mem_cellPixels.mp hmem
        obtain rfl : row' = row := by omega
        obtain rfl : col' = col := by omega
        exact hcolor
      · refine ⟨⟨cell.x + col, cell.y + row, (font.cellColor cell fg bg row col).1,
          (font.cellColor cell fg bg row col).2.1, (font.cellColor cell fg bg row col).2.2⟩,
          List.mem_flatMap.mpr ⟨cell, hcell, PsfFont.mem_cellPixels.mpr
            ⟨row, hrow, col, hcol, rfl, rfl, rfl⟩⟩, if_pos ⟨rfl, rfl⟩⟩
    rw [hlast]
    rfl
  · rw [Framebuffer.shown_draw hfb hvisible]
    have hlast : LastWrite.last (Framebuffer.paints px py)
        ((font.drawStr fb x y s).flatMap (font.cellPixels fg bg)) = none := by
      refine LastWrite.last_eq_none fun pixel hpixel ↦ if_neg ?_
      rintro ⟨rfl, rfl⟩
      obtain ⟨cell, hcell, hmem⟩ := List.mem_flatMap.mp hpixel
      exact hout cell hcell (hcovers hmem)
    rw [hlast]
    rfl

/-- A font whose glyphs are one row, with the left half set. -/
def halfFont : PsfFont where
  glyphs := List.replicate 64 0xF0
  charsize := 1
  width := 8
  height := 1
  numGlyphs := 64
  unicodeMap := UnicodeMap.new

/-- A screen of two lines of two characters. -/
def twoLines : Framebuffer := ⟨16, 2, 64, 4⟩

/-- The second character of a string, at its fifth column. -/
theorem text_shown_half :
    ∃ pixels, halfFont.strPixels twoLines 0 0 "ab" 0xFFFFFF 0x80 = pure pixels ∧
      twoLines.shown (twoLines.draw (fun _ ↦ 7) pixels) 12 0 = (0, 0, 0x80) := by
  have hfont : halfFont.Sound :=
    ⟨by decide, by decide, by decide, by decide, fun _ hentry ↦ absurd hentry List.not_mem_nil⟩
  have hfb : twoLines.Sound := ⟨by decide, by decide⟩
  obtain ⟨pixels, hpixels, hcells, -⟩ :=
    text_shown hfont hfb (fun _ ↦ 7) 0 0 "ab" 0xFFFFFF 0x80
  have hcell : (⟨8, 0, 'b'⟩ : Cell) ∈ halfFont.drawStr twoLines 0 0 "ab" := by
    have hcells : halfFont.drawStr twoLines 0 0 "ab" = [⟨0, 0, 'a'⟩, ⟨8, 0, 'b'⟩] := rfl
    rw [hcells]
    exact List.mem_cons_of_mem _ List.mem_cons_self
  exact ⟨pixels, hpixels, (hcells ⟨8, 0, 'b'⟩ hcell 0 (by decide) 4 (by decide)
    ⟨by decide, by decide⟩).trans (by decide +kernel)⟩

end Avaria.Gfx
