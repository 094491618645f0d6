import Avaria.Gfx.Psf
import Mathlib.Algebra.Group.Nat.Defs
import Mathlib.Data.List.Pairwise

/-!
# The unicode table of a font

The table has a record of 16-bit units for each glyph: single code points, and after the first
`0xFFFE` of the record sequences of code points. `TableGlyph` says which glyph the table gives a
code point, and `unicode_lookup_iff` for which tables `glyph_index` finds it.

`parse` keeps the first 512 units only, those of sequences included, and `glyph_index` looks up the
lower 16 bits of the code point.
-/

namespace Avaria.Gfx

/-! ## Meaning of the table -/

/-- The units of a record that stand alone: those before the first sequence. -/
def standalone (record : List UInt16) : List UInt16 := record.takeWhile (· ≠ 0xFFFE)

/-- The record of a glyph lists a code point. -/
def Lists (table : List UInt16) (glyph : Nat) (codepoint : UInt32) : Prop :=
  ∃ record, (table.splitOn 0xFFFF)[glyph]? = some record ∧
    ∃ unit ∈ standalone record, unit.toNat = codepoint.toNat

/-- The glyph that the table of an image gives a code point: the first whose record lists it, or the
glyph of `?`. -/
def TableGlyph (data : List UInt8) (codepoint : UInt32) (idx : Nat) : Prop :=
  (idx < glyphCount data ∧ Lists (tableOf data) idx codepoint ∧
      ∀ lower < idx, ¬ Lists (tableOf data) lower codepoint) ∨
    ((∀ glyph < glyphCount data, ¬ Lists (tableOf data) glyph codepoint) ∧
      idx = PsfFont.questionMark)

/-! ## Listed units -/

/-- A unit of a table: the glyph of its record, and whether it stands before the sequences. -/
structure Listing where
  unit : UInt16
  glyph : Nat
  alone : Bool
  deriving DecidableEq, Repr

/-- The listed units from a place in the record of a glyph on. -/
def listingsFrom (numGlyphs : Nat) : List UInt16 → Nat → Bool → List Listing
  | [], _, _ => []
  | v :: rest, glyph, alone =>
      if glyph < numGlyphs then
        if v = 0xFFFF then listingsFrom numGlyphs rest (glyph + 1) true
        else if v = 0xFFFE then listingsFrom numGlyphs rest glyph false
        else ⟨v, glyph, alone⟩ :: listingsFrom numGlyphs rest glyph alone
      else []

/-- The listed units of the table of an image, in order. -/
def listings (data : List UInt8) : List Listing :=
  listingsFrom (glyphCount data) (tableOf data) 0 true

/-- The first unit that equals the lower 16 bits of the code point is among those that `parse`
keeps and stands alone, and the code point has 16 bits. -/
def FirstStandsAlone (data : List UInt8) (codepoint : UInt32) : Prop :=
  ∀ first, (listings data).find? (·.unit = codepoint.toUInt16) = some first →
    ((listings data).take MAX_UNICODE_MAPPINGS).find? (·.unit = codepoint.toUInt16) = some first ∧
      first.alone = true ∧ codepoint.toNat < 2 ^ 16

/-- Nothing but the glyph of `?` is listed: with the units that `parse` keeps, and with those that
stand alone, if the code point has 16 bits. -/
def OnlyQuestionMark (data : List UInt8) (codepoint : UInt32) : Prop :=
  (∀ first, ((listings data).take MAX_UNICODE_MAPPINGS).find? (·.unit = codepoint.toUInt16) =
      some first → first.glyph = PsfFont.questionMark) ∧
    (codepoint.toNat < 2 ^ 16 →
      ∀ first, (listings data).find? (fun l ↦ l.unit = codepoint.toUInt16 ∧ l.alone = true) =
        some first → first.glyph = PsfFont.questionMark)

/-! ## The map -/

/-- Taking the first elements once or twice is the same. -/
theorem take_take_append {α : Type*} (n : Nat) (xs ys : List α) :
    (xs.take n ++ ys).take n = (xs ++ ys).take n := by
  rw [List.take_append, List.take_append, List.take_take, Nat.min_self, List.length_take]
  congr 2
  omega

theorem UnicodeMap.entries_insert (map : UnicodeMap) (codepoint glyph : UInt16) :
    (map.insert codepoint glyph).entries =
      (map.entries ++ [(codepoint, glyph)]).take MAX_UNICODE_MAPPINGS := by
  unfold insert
  split
  · next hroom =>
      refine (List.take_of_length_le ?_).symm
      rwa [List.length_append]
  · next hfull =>
      have hlength : map.entries.length = MAX_UNICODE_MAPPINGS :=
        Nat.le_antisymm map.length_le (Nat.not_lt.mp hfull)
      rw [← hlength, List.take_left]

/-- The entry of the map for a listed unit. -/
def Listing.entry (l : Listing) : UInt16 × UInt16 := (l.unit, UInt16.ofNat l.glyph)

/-- The loop of `parse` enters the listed units, as long as there is room. -/
theorem entries_scan {numGlyphs : Nat} (hnum : numGlyphs < 2 ^ 16) (table : List UInt16)
    (glyphIdx : UInt16) (alone : Bool) (map : UnicodeMap) :
    (scan numGlyphs table glyphIdx map).entries =
      (map.entries ++ (listingsFrom numGlyphs table glyphIdx.toNat alone).map Listing.entry).take
        MAX_UNICODE_MAPPINGS := by
  induction table generalizing glyphIdx alone map with
  | nil =>
      rw [scan, listingsFrom, List.map_nil, List.append_nil, List.take_of_length_le map.length_le]
  | cons v rest ih =>
      unfold scan listingsFrom
      by_cases hlt : glyphIdx.toNat < numGlyphs
      · rw [if_pos hlt, if_pos hlt]
        by_cases hend : v = 0xFFFF
        · have hnext : (glyphIdx + 1).toNat = glyphIdx.toNat + 1 := by
            rw [UInt16.toNat_add]
            exact Nat.mod_eq_of_lt (show glyphIdx.toNat + 1 < 2 ^ 16 by omega)
          rw [if_pos hend, if_pos hend, ih _ true, hnext]
        · rw [if_neg hend, if_neg hend]
          by_cases hmarker : v = 0xFFFE
          · rw [if_pos hmarker, if_pos hmarker, ih _ false]
          · rw [if_neg hmarker, if_neg hmarker, ih _ alone, UnicodeMap.entries_insert,
              take_take_append, List.append_assoc]
            show _ = (map.entries ++ ((v, UInt16.ofNat glyphIdx.toNat) :: _)).take _
            rw [UInt16.ofNat_toNat]
            rfl
      · rw [if_neg hlt, if_neg hlt, List.map_nil, List.append_nil,
          List.take_of_length_le map.length_le]

theorem glyphCount_lt (data : List UInt8) : glyphCount data < 2 ^ 16 := by
  unfold glyphCount
  split <;> decide

/-- The glyph that a listed unit stands for, or that of `?`. -/
def glyphOr (found : Option Listing) : Nat := (found.map (·.glyph)).getD PsfFont.questionMark

/-- The glyphs of listed units are those of the font. -/
theorem glyph_lt_of_mem_listingsFrom {numGlyphs : Nat} {table : List UInt16} {glyph : Nat}
    {alone : Bool} {l : Listing} (h : l ∈ listingsFrom numGlyphs table glyph alone) :
    l.glyph < numGlyphs := by
  induction table generalizing glyph alone with
  | nil => exact absurd h List.not_mem_nil
  | cons v rest ih =>
      unfold listingsFrom at h
      split at h
      · next hlt =>
          split at h
          · exact ih h
          · split at h
            · exact ih h
            · rcases List.mem_cons.mp h with rfl | hrest
              · exact hlt
              · exact ih hrest
      · exact absurd h List.not_mem_nil

/-- A code point that is not its own index is looked up in the map. -/
theorem PsfFont.glyphIndex_eq_lookup {font : PsfFont} {codepoint : UInt32}
    (h : ¬ (codepoint < 0x80 ∧ codepoint.toNat < font.numGlyphs)) :
    font.glyphIndex codepoint =
      ((font.unicodeMap.lookup codepoint.toUInt16).map UInt16.toNat).getD questionMark := by
  rw [glyphIndex, if_neg h]
  cases font.unicodeMap.lookup codepoint.toUInt16 <;> rfl

/-- `glyph_index` finds the first of the kept units that equals the lower 16 bits. -/
theorem glyphIndex_fontOf {data : List UInt8} (htable : HasTable data) {codepoint : UInt32}
    (hcodepoint : 0x80 ≤ codepoint) :
    (fontOf data).glyphIndex codepoint =
      glyphOr (((listings data).take MAX_UNICODE_MAPPINGS).find?
        (·.unit = codepoint.toUInt16)) := by
  have hentries : (fontOf data).unicodeMap.entries =
      ((listings data).take MAX_UNICODE_MAPPINGS).map Listing.entry := by
    show (if HasTable data then scan (glyphCount data) (tableOf data) 0 UnicodeMap.new
      else UnicodeMap.new).entries = _
    rw [if_pos htable, entries_scan (glyphCount_lt data) _ _ true, List.map_take]
    rfl
  have hdirect : ¬ (codepoint < 0x80 ∧ codepoint.toNat < (fontOf data).numGlyphs) :=
    fun h ↦ UInt32.not_lt.mpr hcodepoint h.1
  rw [PsfFont.glyphIndex_eq_lookup hdirect, UnicodeMap.lookup, hentries, List.find?_map]
  show ((((List.find? (fun l ↦ l.unit = codepoint.toUInt16) _).map Listing.entry).map
    Prod.snd).map UInt16.toNat).getD PsfFont.questionMark = _
  cases hfind : ((listings data).take MAX_UNICODE_MAPPINGS).find?
      (fun l ↦ l.unit = codepoint.toUInt16) with
  | none => rfl
  | some l =>
      have hmem : l ∈ listings data := List.mem_of_mem_take (List.mem_of_find?_eq_some hfind)
      have hlt : l.glyph < 2 ^ 16 :=
        Nat.lt_trans (glyph_lt_of_mem_listingsFrom hmem) (glyphCount_lt data)
      exact UInt16.toNat_ofNat_of_lt' hlt

/-! ## Records -/

/-- Units are listed glyph by glyph, and within a record first those that stand alone. -/
def Listing.Before (l other : Listing) : Prop :=
  l.glyph < other.glyph ∨ (l.glyph = other.glyph ∧ (other.alone = true → l.alone = true))

/-- What is listed from a place on comes after the place. -/
theorem after_of_mem_listingsFrom {numGlyphs : Nat} {table : List UInt16} {glyph : Nat}
    {alone : Bool} {l : Listing} (h : l ∈ listingsFrom numGlyphs table glyph alone) :
    Listing.Before ⟨l.unit, glyph, alone⟩ l := by
  induction table generalizing glyph alone with
  | nil => exact absurd h List.not_mem_nil
  | cons v rest ih =>
      unfold listingsFrom at h
      split at h
      · split at h
        · rcases ih h with hlt | ⟨heq, -⟩
          · exact Or.inl (Nat.lt_of_succ_lt hlt)
          · exact Or.inl (Nat.lt_of_succ_le (Nat.le_of_eq heq))
        · split at h
          · rcases ih h with hlt | ⟨heq, halone⟩
            · exact Or.inl hlt
            · exact Or.inr ⟨heq, fun hl ↦ absurd (halone hl) Bool.false_ne_true⟩
          · rcases List.mem_cons.mp h with rfl | hrest
            · exact Or.inr ⟨rfl, id⟩
            · exact ih hrest
      · exact absurd h List.not_mem_nil

theorem pairwise_listingsFrom (numGlyphs : Nat) (table : List UInt16) (glyph : Nat)
    (alone : Bool) : (listingsFrom numGlyphs table glyph alone).Pairwise Listing.Before := by
  induction table generalizing glyph alone with
  | nil => exact List.Pairwise.nil
  | cons v rest ih =>
      unfold listingsFrom
      split
      · split
        · exact ih _ _
        · split
          · exact ih _ _
          · exact List.Pairwise.cons (fun l hl ↦ after_of_mem_listingsFrom hl) (ih _ _)
      · exact List.Pairwise.nil

/-- A unit stands alone in one of the records from a place in the record of a glyph on. Behind a
sequence, none does in the rest of that record. -/
def StandsIn (table : List UInt16) (glyph : Nat) (alone : Bool) (l : Listing) : Prop :=
  ∃ k record, l.glyph = glyph + k ∧ (table.splitOn 0xFFFF)[k]? = some record ∧
    (k = 0 → alone = true) ∧ l.unit ∈ standalone record

section StandsIn

variable {v : UInt16} {rest : List UInt16} {glyph : Nat} {alone : Bool} {l : Listing}

theorem not_standsIn_nil : ¬ StandsIn [] glyph alone l := by
  rintro ⟨k, record, -, hrecord, -, hmem⟩
  rw [List.splitOn_nil] at hrecord
  obtain rfl := List.mem_singleton.mp (List.mem_of_getElem? hrecord)
  exact absurd hmem List.not_mem_nil

theorem standsIn_end :
    StandsIn (0xFFFF :: rest) glyph alone l ↔ StandsIn rest (glyph + 1) true l := by
  rw [StandsIn, List.splitOn_cons_eq_if_modifyHead, if_pos (beq_self_eq_true _)]
  constructor
  · rintro ⟨k, record, hglyph, hrecord, -, hmem⟩
    cases k with
    | zero =>
        cases hrecord
        exact absurd hmem List.not_mem_nil
    | succ k => exact ⟨k, record, by omega, hrecord, fun _ ↦ rfl, hmem⟩
  · rintro ⟨k, record, hglyph, hrecord, -, hmem⟩
    exact ⟨k + 1, record, by omega, hrecord, nofun, hmem⟩

/-- A unit that ends no record is one of the first. -/
theorem splitOn_cons_of_ne (h : v ≠ 0xFFFF) (rest : List UInt16) :
    ∃ first others, rest.splitOn 0xFFFF = first :: others ∧
      (v :: rest).splitOn 0xFFFF = (v :: first) :: others := by
  obtain ⟨first, others, hrest⟩ :=
    List.exists_cons_of_ne_nil (List.splitOn_ne_nil (0xFFFF : UInt16) rest)
  refine ⟨first, others, hrest, ?_⟩
  rw [List.splitOn_cons_eq_if_modifyHead, if_neg (mt beq_iff_eq.mp h), hrest, List.modifyHead_cons]

theorem standsIn_marker :
    StandsIn (0xFFFE :: rest) glyph alone l ↔ StandsIn rest glyph false l := by
  obtain ⟨first, others, hrest, hcons⟩ := splitOn_cons_of_ne (v := 0xFFFE) (by decide) rest
  rw [StandsIn, StandsIn, hrest, hcons]
  constructor
  · rintro ⟨k, record, hglyph, hrecord, -, hmem⟩
    cases k with
    | zero =>
        cases hrecord
        exact absurd hmem List.not_mem_nil
    | succ k => exact ⟨k + 1, record, hglyph, hrecord, nofun, hmem⟩
  · rintro ⟨k, record, hglyph, hrecord, hzero, hmem⟩
    cases k with
    | zero => exact absurd (hzero rfl) Bool.false_ne_true
    | succ k => exact ⟨k + 1, record, hglyph, hrecord, nofun, hmem⟩

theorem standsIn_unit (hend : v ≠ 0xFFFF) (hmarker : v ≠ 0xFFFE) :
    StandsIn (v :: rest) glyph alone l ↔
      (l.unit = v ∧ l.glyph = glyph ∧ alone = true) ∨ StandsIn rest glyph alone l := by
  obtain ⟨first, others, hrest, hcons⟩ := splitOn_cons_of_ne hend rest
  have hstand : standalone (v :: first) = v :: standalone first :=
    List.takeWhile_cons_of_pos (decide_eq_true hmarker)
  rw [StandsIn, StandsIn, hrest, hcons]
  constructor
  · rintro ⟨k, record, hglyph, hrecord, hzero, hmem⟩
    cases k with
    | zero =>
        cases hrecord
        rw [hstand] at hmem
        rcases List.mem_cons.mp hmem with hunit | hlater
        · exact Or.inl ⟨hunit, hglyph, hzero rfl⟩
        · exact Or.inr ⟨0, first, hglyph, rfl, hzero, hlater⟩
    | succ k => exact Or.inr ⟨k + 1, record, hglyph, hrecord, nofun, hmem⟩
  · rintro (⟨hunit, hglyph, halone⟩ | ⟨k, record, hglyph, hrecord, hzero, hmem⟩)
    · refine ⟨0, v :: first, hglyph, rfl, fun _ ↦ halone, ?_⟩
      rw [hstand, hunit]
      exact List.mem_cons_self
    · cases k with
      | zero =>
          cases hrecord
          refine ⟨0, v :: first, hglyph, rfl, hzero, ?_⟩
          rw [hstand]
          exact List.mem_cons_of_mem v hmem
      | succ k => exact ⟨k + 1, record, hglyph, hrecord, nofun, hmem⟩

end StandsIn

/-- The units that stand alone are those of the records of the glyphs. -/
theorem mem_listingsFrom_iff {numGlyphs : Nat} {table : List UInt16} {glyph : Nat} {alone : Bool}
    {l : Listing} (hl : l.alone = true) :
    l ∈ listingsFrom numGlyphs table glyph alone ↔
      l.glyph < numGlyphs ∧ StandsIn table glyph alone l := by
  induction table generalizing glyph alone with
  | nil => exact iff_of_false List.not_mem_nil fun h ↦ not_standsIn_nil h.2
  | cons v rest ih =>
      unfold listingsFrom
      by_cases hlt : glyph < numGlyphs
      · rw [if_pos hlt]
        by_cases hend : v = 0xFFFF
        · rw [if_pos hend, ih, hend, standsIn_end]
        · by_cases hmarker : v = 0xFFFE
          · rw [if_neg hend, if_pos hmarker, ih, hmarker, standsIn_marker]
          · rw [if_neg hend, if_neg hmarker, List.mem_cons, ih, standsIn_unit hend hmarker,
              and_or_left]
            refine or_congr_left ⟨?_, ?_⟩
            · rintro rfl
              exact ⟨hlt, rfl, rfl, hl⟩
            · rintro ⟨-, rfl, rfl, rfl⟩
              rw [← hl]
      · rw [if_neg hlt]
        refine iff_of_false List.not_mem_nil ?_
        rintro ⟨hlt', k, record, hglyph, -⟩
        omega

/-! ## First units -/

/-- The first element with a property comes before the others that have it. -/
theorem find?_before {α : Type*} {R : α → α → Prop} {xs : List α} {p : α → Bool} {first x : α}
    (hpairwise : xs.Pairwise R) (hfind : xs.find? p = some first) (hx : x ∈ xs) (hp : p x = true) :
    x = first ∨ R first x := by
  obtain ⟨-, before, after, rfl, hbefore⟩ := List.find?_eq_some_iff_append.mp hfind
  rcases List.mem_append.mp hx with hmem | hmem
  · have hnot := hbefore x hmem
    rw [hp] at hnot
    exact absurd hnot Bool.false_ne_true
  · rcases List.mem_cons.mp hmem with rfl | hafter
    · exact Or.inl rfl
    · have hcons := (List.pairwise_append.mp hpairwise).2.1
      exact Or.inr ((List.pairwise_cons.mp hcons).1 x hafter)

/-- The first unit that is the code point and stands alone. -/
def firstAlone (data : List UInt8) (codepoint : UInt32) : Option Listing :=
  if codepoint.toNat < 2 ^ 16 then
    (listings data).find? fun l ↦ l.unit = codepoint.toUInt16 ∧ l.alone = true
  else none

section First

variable {data : List UInt8} {codepoint : UInt32} {l first : Listing} {glyph idx : Nat}

theorem unit_eq_iff (h : codepoint.toNat < 2 ^ 16) (unit : UInt16) :
    unit = codepoint.toUInt16 ↔ unit.toNat = codepoint.toNat := by
  rw [← UInt16.toNat_inj, UInt32.toNat_toUInt16, Nat.mod_eq_of_lt h]

theorem lists_iff (hglyph : glyph < glyphCount data) :
    Lists (tableOf data) glyph codepoint ↔
      ∃ l ∈ listings data, l.alone = true ∧ l.glyph = glyph ∧
        l.unit.toNat = codepoint.toNat := by
  constructor
  · rintro ⟨record, hrecord, unit, hmem, hunit⟩
    refine ⟨⟨unit, glyph, true⟩, (mem_listingsFrom_iff rfl).mpr ⟨hglyph, ?_⟩, rfl, rfl, hunit⟩
    exact ⟨glyph, record, (Nat.zero_add glyph).symm, hrecord, fun _ ↦ rfl, hmem⟩
  · rintro ⟨l, hl, halone, rfl, hunit⟩
    obtain ⟨-, k, record, hk, hrecord, -, hmem⟩ := (mem_listingsFrom_iff halone).mp hl
    rw [Nat.zero_add] at hk
    exact ⟨record, hk ▸ hrecord, l.unit, hmem, hunit⟩

theorem firstAlone_eq_none (h : firstAlone data codepoint = none) (hl : l ∈ listings data)
    (halone : l.alone = true) : l.unit.toNat ≠ codepoint.toNat := by
  intro hunit
  have hlt : codepoint.toNat < 2 ^ 16 := hunit ▸ l.unit.toNat_lt
  rw [firstAlone, if_pos hlt, List.find?_eq_none] at h
  exact h l hl (decide_eq_true ⟨(unit_eq_iff hlt l.unit).mpr hunit, halone⟩)

theorem firstAlone_eq_some (h : firstAlone data codepoint = some first) :
    first ∈ listings data ∧ first.alone = true ∧ first.unit.toNat = codepoint.toNat ∧
      ∀ l ∈ listings data, l.alone = true → l.unit.toNat = codepoint.toNat →
        first.glyph ≤ l.glyph := by
  unfold firstAlone at h
  split at h
  · next hlt =>
      have hfirst : first.unit = codepoint.toUInt16 ∧ first.alone = true := by
        simpa using List.find?_some h
      refine ⟨List.mem_of_find?_eq_some h, hfirst.2, (unit_eq_iff hlt _).mp hfirst.1, ?_⟩
      intro l hl halone hunit
      have hp := decide_eq_true (p := l.unit = codepoint.toUInt16 ∧ l.alone = true)
        ⟨(unit_eq_iff hlt _).mpr hunit, halone⟩
      rcases find?_before (pairwise_listingsFrom _ _ _ _) h hl hp with rfl | hbefore
      · exact Nat.le_refl _
      · exact hbefore.elim Nat.le_of_lt fun heq ↦ Nat.le_of_eq heq.1
  · cases h

/-- The table gives a code point the glyph of the first unit that stands alone. -/
theorem tableGlyph_iff :
    TableGlyph data codepoint idx ↔ idx = glyphOr (firstAlone data codepoint) := by
  cases hfirst : firstAlone data codepoint with
  | none =>
      have hnone (glyph : Nat) (hglyph : glyph < glyphCount data) :
          ¬ Lists (tableOf data) glyph codepoint := by
        rw [lists_iff hglyph]
        rintro ⟨l, hl, halone, -, hunit⟩
        exact firstAlone_eq_none hfirst hl halone hunit
      constructor
      · rintro (⟨hlt, hlists, -⟩ | ⟨-, rfl⟩)
        · exact absurd hlists (hnone idx hlt)
        · rfl
      · exact fun heq ↦ Or.inr ⟨hnone, heq⟩
  | some first =>
      obtain ⟨hmem, halone, hunit, hleast⟩ := firstAlone_eq_some hfirst
      have hlt : first.glyph < glyphCount data := glyph_lt_of_mem_listingsFrom hmem
      have hlists : Lists (tableOf data) first.glyph codepoint :=
        (lists_iff hlt).mpr ⟨first, hmem, halone, rfl, hunit⟩
      have hlower (lower : Nat) (hlow : lower < first.glyph) :
          ¬ Lists (tableOf data) lower codepoint := by
        rw [lists_iff (Nat.lt_trans hlow hlt)]
        rintro ⟨l, hl, halone', rfl, hunit'⟩
        exact Nat.not_le_of_lt hlow (hleast l hl halone' hunit')
      constructor
      · rintro (⟨-, hlists', hlower'⟩ | ⟨hnone, -⟩)
        · refine Nat.le_antisymm (Nat.not_lt.mp fun hlow ↦ ?_) (Nat.not_lt.mp fun hlow ↦ ?_)
          · exact hlower' _ hlow hlists
          · exact hlower _ hlow hlists'
        · exact absurd hlists (hnone _ hlt)
      · rintro rfl
        exact Or.inl ⟨hlt, hlists, hlower⟩

theorem glyphOr_eq_questionMark {found : Option Listing} :
    glyphOr found = PsfFont.questionMark ↔
      ∀ first, found = some first → first.glyph = PsfFont.questionMark := by
  cases found with
  | none => exact iff_of_true rfl nofun
  | some first => exact ⟨fun h other hother ↦ Option.some.inj hother ▸ h, fun h ↦ h first rfl⟩

/-- Both searches end with the glyph of `?`. -/
theorem onlyQuestionMark_iff :
    OnlyQuestionMark data codepoint ↔
      glyphOr (((listings data).take MAX_UNICODE_MAPPINGS).find?
        (·.unit = codepoint.toUInt16)) = PsfFont.questionMark ∧
      glyphOr (firstAlone data codepoint) = PsfFont.questionMark := by
  rw [glyphOr_eq_questionMark, glyphOr_eq_questionMark, OnlyQuestionMark]
  refine and_congr_right fun _ ↦ ?_
  by_cases hlt : codepoint.toNat < 2 ^ 16
  · rw [firstAlone, if_pos hlt]
    exact forall_prop_of_true hlt
  · rw [firstAlone, if_neg hlt]
    exact iff_of_true (fun h ↦ absurd h hlt) nofun

/-- If the first unit that is the code point stands alone, no other one is found. -/
theorem firstAlone_of_alone (hlt : codepoint.toNat < 2 ^ 16)
    (hfirst : (listings data).find? (·.unit = codepoint.toUInt16) = some first)
    (halone : first.alone = true) : firstAlone data codepoint = some first := by
  obtain ⟨hunit, before, after, hsplit, hbefore⟩ := List.find?_eq_some_iff_append.mp hfirst
  rw [firstAlone, if_pos hlt, List.find?_eq_some_iff_append]
  refine ⟨decide_eq_true ⟨of_decide_eq_true hunit, halone⟩, before, after, hsplit, ?_⟩
  intro l hl
  have hnot : ¬ l.unit = codepoint.toUInt16 := by simpa using hbefore l hl
  simp [hnot]

/-- Where no unit equals the lower 16 bits, none stands alone. -/
theorem firstAlone_of_find?_eq_none
    (h : (listings data).find? (·.unit = codepoint.toUInt16) = none) :
    firstAlone data codepoint = none := by
  unfold firstAlone
  split
  · rw [List.find?_eq_none] at h ⊢
    intro l hl hp
    exact h l hl (decide_eq_true (of_decide_eq_true hp).1)
  · rfl

theorem firstStandsAlone_iff
    (hfirst : (listings data).find? (·.unit = codepoint.toUInt16) = some first) :
    FirstStandsAlone data codepoint ↔
      ((listings data).take MAX_UNICODE_MAPPINGS).find? (·.unit = codepoint.toUInt16) =
        some first ∧ first.alone = true ∧ codepoint.toNat < 2 ^ 16 := by
  refine ⟨fun h ↦ h first hfirst, fun h other hother ↦ ?_⟩
  cases hfirst.symm.trans hother
  exact h

/-- If it does not, another glyph is found. -/
theorem glyph_ne_of_not_alone
    (hfirst : (listings data).find? (·.unit = codepoint.toUInt16) = some first)
    (hnot : ¬ (first.alone = true ∧ codepoint.toNat < 2 ^ 16))
    (hl : firstAlone data codepoint = some l) : first.glyph ≠ l.glyph := by
  obtain ⟨hmem, halone, hunit, -⟩ := firstAlone_eq_some hl
  have hlt : codepoint.toNat < 2 ^ 16 := hunit ▸ l.unit.toNat_lt
  have hp : decide (l.unit = codepoint.toUInt16) = true :=
    decide_eq_true ((unit_eq_iff hlt _).mpr hunit)
  rcases find?_before (pairwise_listingsFrom _ _ _ _) hfirst hmem hp with rfl | hlower | ⟨-, hkept⟩
  · exact absurd ⟨halone, hlt⟩ hnot
  · exact Nat.ne_of_lt hlower
  · exact absurd ⟨hkept halone, hlt⟩ hnot

end First

/-- `glyph_index` gives a code point from `0x80` on the glyph of the table exactly if the first unit
that equals its lower 16 bits is kept and stands alone, and the code point has 16 bits, or if the
glyph of `?` is all that is listed. -/
theorem unicode_lookup_iff {data : List UInt8} {font : PsfFont}
    (hparse : PsfFont.parse data = pure (some font)) (htable : HasTable data) {codepoint : UInt32}
    (hcodepoint : 0x80 ≤ codepoint) :
    TableGlyph data codepoint (font.glyphIndex codepoint) ↔
      FirstStandsAlone data codepoint ∨ OnlyQuestionMark data codepoint := by
  obtain rfl : fontOf data = font := by
    rw [parse_eq] at hparse
    split at hparse
    · exact Option.some.inj (Except.ok.inj hparse)
    · cases Except.ok.inj hparse
  rw [tableGlyph_iff, glyphIndex_fontOf htable hcodepoint, onlyQuestionMark_iff]
  cases hfirst : (listings data).find? (·.unit = codepoint.toUInt16) with
  | none =>
      -- No unit is the code point: both searches fail.
      have hkept : ((listings data).take MAX_UNICODE_MAPPINGS).find?
          (·.unit = codepoint.toUInt16) = none :=
        (List.take_prefix _ _).find?_eq_none hfirst
      rw [hkept, firstAlone_of_find?_eq_none hfirst]
      refine iff_of_true rfl (Or.inl fun first h ↦ ?_)
      cases hfirst.symm.trans h
  | some first =>
      rw [firstStandsAlone_iff hfirst]
      cases hkept : ((listings data).take MAX_UNICODE_MAPPINGS).find?
          (·.unit = codepoint.toUInt16) with
      | none =>
          -- The first unit is not kept: `?` is shown.
          rw [or_iff_right fun h ↦ Option.some_ne_none first h.1.symm]
          exact ⟨fun h ↦ ⟨rfl, h.symm⟩, fun h ↦ h.2.symm⟩
      | some kept =>
          have hsame := (List.take_prefix _ _).find?_eq_some hkept
          cases hfirst.symm.trans hsame
          by_cases hgood : first.alone = true ∧ codepoint.toNat < 2 ^ 16
          · rw [firstAlone_of_alone hgood.2 hfirst hgood.1]
            exact iff_of_true rfl (Or.inl ⟨rfl, hgood⟩)
          · rw [or_iff_right fun h ↦ hgood h.2]
            refine ⟨fun heq ↦ ?_, fun h ↦ h.1.trans h.2.symm⟩
            -- What is found is the first unit: the table says `?`.
            cases hl : firstAlone data codepoint with
            | none =>
                rw [hl] at heq
                exact ⟨heq, rfl⟩
            | some l =>
                rw [hl] at heq
                exact absurd heq (glyph_ne_of_not_alone hfirst hgood hl)

/-- An image with glyphs of one row and a unicode table. -/
def imageWith (table : List UInt8) : List UInt8 :=
  [0x36, 0x04, 0x02, 0x01] ++ List.replicate 256 0 ++ table

/-- A code point that one record lists. -/
theorem listed_code_point_found :
    TableGlyph (imageWith [0xFF, 0xFF, 0xC9, 0x00, 0xFF, 0xFF]) 0xC9 1 := by
  have hparse : PsfFont.parse (imageWith [0xFF, 0xFF, 0xC9, 0x00, 0xFF, 0xFF]) =
      pure (some (fontOf (imageWith [0xFF, 0xFF, 0xC9, 0x00, 0xFF, 0xFF]))) := by
    rw [parse_eq, if_pos (by decide +kernel)]
  have hfirst : FirstStandsAlone (imageWith [0xFF, 0xFF, 0xC9, 0x00, 0xFF, 0xFF]) 0xC9 := by
    intro first h
    have hlisting : (listings (imageWith [0xFF, 0xFF, 0xC9, 0x00, 0xFF, 0xFF])).find?
        (·.unit = (0xC9 : UInt32).toUInt16) = some ⟨0xC9, 1, true⟩ := by decide +kernel
    cases hlisting.symm.trans h
    exact ⟨by decide +kernel, rfl, by decide⟩
  have hglyph := (unicode_lookup_iff hparse (by decide +kernel) (by decide)).mpr (Or.inl hfirst)
  have hidx : (fontOf (imageWith [0xFF, 0xFF, 0xC9, 0x00, 0xFF, 0xFF])).glyphIndex 0xC9 = 1 := by
    decide +kernel
  rwa [hidx] at hglyph

/-- A code point above `0xFFFF` gets the glyph of another one. -/
theorem upper_plane_not_question_mark :
    PsfFont.parse (imageWith [0xC9, 0x00, 0xFF, 0xFF]) =
        pure (some (fontOf (imageWith [0xC9, 0x00, 0xFF, 0xFF]))) ∧
      HasTable (imageWith [0xC9, 0x00, 0xFF, 0xFF]) ∧
      ¬ TableGlyph (imageWith [0xC9, 0x00, 0xFF, 0xFF]) 0x100C9
        ((fontOf (imageWith [0xC9, 0x00, 0xFF, 0xFF])).glyphIndex 0x100C9) := by
  refine ⟨?_, by decide +kernel, ?_⟩
  · rw [parse_eq, if_pos (by decide +kernel)]
  · have hidx : (fontOf (imageWith [0xC9, 0x00, 0xFF, 0xFF])).glyphIndex 0x100C9 = 0 := by
      decide +kernel
    rw [hidx]
    rintro (⟨-, ⟨record, -, unit, -, hunit⟩, -⟩ | ⟨-, hzero⟩)
    · exact absurd unit.toNat_lt (hunit ▸ by decide)
    · exact absurd hzero (by decide)

end Avaria.Gfx
