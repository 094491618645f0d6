import Avaria.Fs.Archive
import Avaria.Lib.Cursor

/-!
# Parsing arbitrary bytes

`TarFs::parse` once more, where each index and each slice is checked against the bytes it is taken
from, and the difference in `parse_octal` against 0: the kernel ends with a fault where a check
fails.

`parseFromChecked_next` is one iteration of the loop at a header. `parse_total_iff` says for which
archives the parser returns: those whose headers, as far as the loop walks, are sound.
-/

namespace Avaria.Fs

/-! ## Checked functions -/

/-- What ends the kernel in `TarFs::parse`. -/
inductive ParseFault where
  | outOfRange
  | underflow
  deriving DecidableEq, Repr

/-- `bytes[i]`. -/
def byteAt (bytes : List UInt8) (i : Nat) : Except ParseFault UInt8 :=
  if i < bytes.length then .ok (bytes.getD i 0) else .error .outOfRange

/-- `bytes[start..stop]`. -/
def slice (bytes : List UInt8) (start stop : Nat) : Except ParseFault (List UInt8) :=
  if start ≤ stop ∧ stop ≤ bytes.length then .ok ((bytes.drop start).take (stop - start))
  else .error .outOfRange

/-- The loop of `parse_octal`. -/
def parseOctalCheckedFrom (val : Nat) : List UInt8 → Except ParseFault Nat
  | [] => .ok val
  | b :: rest =>
      if b = 0 ∨ b = 0x20 then .ok val
      else if b < 0x30 then .error .underflow
      else parseOctalCheckedFrom (val * 8 + (b - 0x30).toNat) rest

/-- `parse_octal`. -/
def parseOctalChecked (data : List UInt8) : Except ParseFault Nat := parseOctalCheckedFrom 0 data

namespace TarFs

/-- The loop of `TarFs::parse`, from an offset on, with the entries so far. -/
def parseFromChecked (archive : List UInt8) (offset : Nat) (entries : List TarEntry) :
    Except ParseFault (Option TarFs) :=
  if offset + 512 ≤ archive.length ∧ entries.length < MAX_ENTRIES then do
    if (← byteAt archive offset) = 0 then pure (some ⟨entries⟩)
    else
      let header ← slice archive offset (offset + 512)
      let nameEnd := ((← slice header 0 100).findIdx? (· = 0)).getD 100
      let name ← slice header 0 nameEnd
      if isUtf8 name = false then pure none
      else
        let name := trimStartDotSlash name
        if name = [] then
          let size ← parseOctalChecked (← slice header 124 136)
          parseFromChecked archive (offset + (512 + blockBytes size)) entries
        else
          let typeflag ← byteAt header 156
          let isDir := decide (typeflag = 0x35) || decide (name.getLast? = some 0x2F)
          let size ← if isDir then pure 0 else parseOctalChecked (← slice header 124 136)
          let dataStart := offset + 512
          let data ← if isDir then pure [] else slice archive dataStart (dataStart + size)
          parseFromChecked archive (dataStart + blockBytes size) (entries ++ [⟨name, data, isDir⟩])
  else pure (some ⟨entries⟩)
termination_by archive.length - offset

/-- `TarFs::parse`. -/
def parseChecked (archive : List UInt8) : Except ParseFault (Option TarFs) :=
  parseFromChecked archive 0 []

end TarFs

/-! ## Headers -/

/-- The header at an offset. -/
def headerAt (archive : List UInt8) (offset : Nat) : List UInt8 := (archive.drop offset).take 512

/-- The name of an entry, as its header has it. -/
def entryNameOf (header : List UInt8) : List UInt8 := trimStartDotSlash (headerName header)

/-- The header is that of a directory. -/
def isDirHeader (header : List UInt8) : Bool :=
  decide (header.getD 156 0 = 0x35) || decide ((entryNameOf header).getLast? = some 0x2F)

/-- The size field. -/
def sizeField (header : List UInt8) : List UInt8 := (header.drop 124).take 12

/-- Up to the byte that ends the number, there is none below the digit 0. -/
def DigitsSound (field : List UInt8) : Prop :=
  ∀ b ∈ field.takeWhile fun b ↦ b ≠ 0 ∧ b ≠ 0x20, 0x30 ≤ b

instance (field : List UInt8) : Decidable (DigitsSound field) :=
  inferInstanceAs (Decidable (∀ b ∈ _, _))

/-- The bytes of a header are such that an iteration of the loop succeeds: the size is a number,
unless it is not read, and the data of a file ends inside the archive. -/
structure SoundHeader (archive : List UInt8) (offset : Nat) : Prop where
  digits : entryNameOf (headerAt archive offset) = [] ∨
    isDirHeader (headerAt archive offset) = false →
      DigitsSound (sizeField (headerAt archive offset))
  data : entryNameOf (headerAt archive offset) ≠ [] →
    isDirHeader (headerAt archive offset) = false →
      offset + 512 + headerSize (headerAt archive offset) ≤ archive.length

/-- What the loop enters for a header: nothing for the root. -/
def headerEntries (archive : List UInt8) (offset : Nat) : List TarEntry :=
  let header := headerAt archive offset
  if entryNameOf header = [] then []
  else
    let data := (archive.drop (offset + 512)).take (headerSize header)
    [⟨entryNameOf header, if isDirHeader header then [] else data, isDirHeader header⟩]

/-- The offset of the next header and the number of entries before it, unless the loop ends at this
one. -/
def nextHeader (archive : List UInt8) (pos : Nat × Nat) : Option (Nat × Nat) :=
  let header := headerAt archive pos.1
  if (pos.1 + 512 ≤ archive.length ∧ pos.2 < MAX_ENTRIES) ∧ archive.getD pos.1 0 ≠ 0 ∧
      isUtf8 (headerName header) = true then
    if entryNameOf header = [] then some (pos.1 + (512 + blockBytes (headerSize header)), pos.2)
    else
      let size := if isDirHeader header then 0 else headerSize header
      some (pos.1 + 512 + blockBytes size, pos.2 + 1)
  else none

/-- The headers of an archive, along their sizes. -/
def headerCursor (archive : List UInt8) : Cursor (Nat × Nat) where
  next := nextHeader archive
  left pos := archive.length - pos.1
  left_lt := by
    intro pos after h
    unfold nextHeader at h
    dsimp only at h
    split at h
    · next hguard =>
        have hsize := hguard.1.1
        split at h
        all_goals
          cases h
          dsimp only
          omega
    · cases h

/-- The offsets of the headers at which the loop enters a file or directory, or skips the root. -/
def headerOffsets (archive : List UInt8) : List Nat :=
  ((headerCursor archive).trail (0, 0)).map Prod.fst

/-- The data of an entry is a slice of the archive. -/
def TarEntry.Inside (archive : List UInt8) (entry : TarEntry) : Prop :=
  ∃ start, start + entry.data.length ≤ archive.length ∧
    entry.data = (archive.drop start).take entry.data.length

/-- The parser returns `None` or `Some(fs)`, and all data of `fs` lies in the archive. -/
def ParseTotal (archive : List UInt8) : Prop :=
  ∃ result, TarFs.parseChecked archive = .ok result ∧
    ∀ fs, result = some fs → ∀ entry ∈ fs.entries, entry.Inside archive

/-! ## Octal numbers -/

theorem digitsSound_cons (b : UInt8) (rest : List UInt8) :
    DigitsSound (b :: rest) ↔ ¬ (b = 0 ∨ b = 0x20) → 0x30 ≤ b ∧ DigitsSound rest := by
  unfold DigitsSound
  rw [List.takeWhile_cons]
  by_cases hend : b = 0 ∨ b = 0x20
  · rw [if_neg (by simpa using fun hne ↦ hend.resolve_left hne)]
    exact iff_of_true nofun fun hne ↦ absurd hend hne
  · rw [if_pos (by simpa using hend), List.forall_mem_cons, forall_prop_of_true hend]

/-- The checks of `parse_octal` fail exactly at a byte below the digits. -/
theorem parseOctalCheckedFrom_eq (val : Nat) (field : List UInt8) :
    parseOctalCheckedFrom val field =
      if DigitsSound field then .ok (parseOctalFrom val field) else .error .underflow := by
  induction field generalizing val with
  | nil =>
      have hnil : DigitsSound [] := List.forall_mem_nil _
      exact (if_pos hnil).symm
  | cons b rest ih =>
      have hcons := digitsSound_cons b rest
      rw [parseOctalCheckedFrom, parseOctalFrom]
      by_cases hend : b = 0 ∨ b = 0x20
      · rw [if_pos hend, if_pos hend, if_pos (hcons.mpr fun hne ↦ absurd hend hne)]
      · rw [forall_prop_of_true hend] at hcons
        rw [if_neg hend, if_neg hend, ih]
        by_cases hlow : b < 0x30
        · rw [if_pos hlow, if_neg fun h ↦ UInt8.not_le.mpr hlow (hcons.mp h).1]
        · rw [if_neg hlow]
          exact if_congr ((and_iff_right (UInt8.not_lt.mp hlow)).symm.trans hcons.symm) rfl rfl

theorem parseOctalChecked_sizeField {header : List UInt8} (h : DigitsSound (sizeField header)) :
    parseOctalChecked (sizeField header) = .ok (headerSize header) :=
  (parseOctalCheckedFrom_eq 0 _).trans (if_pos h)

/-- The numbers stay small: nothing in `parse_octal` overflows. -/
theorem parseOctalFrom_le (val : Nat) (field : List UInt8) :
    parseOctalFrom val field + 37 ≤ (val + 37) * 8 ^ field.length := by
  induction field generalizing val with
  | nil => exact (Nat.mul_one _).ge
  | cons b rest ih =>
      rw [parseOctalFrom, List.length_cons]
      split
      · exact Nat.le_mul_of_pos_right _ (Nat.pow_pos (by decide))
      · have hdigit := (b - 0x30).toNat_lt
        calc parseOctalFrom (val * 8 + (b - 0x30).toNat) rest + 37
            ≤ (val * 8 + (b - 0x30).toNat + 37) * 8 ^ rest.length := ih _
          _ ≤ ((val + 37) * 8) * 8 ^ rest.length := Nat.mul_le_mul_right _ (by omega)
          _ = (val + 37) * 8 ^ (rest.length + 1) := by rw [Nat.pow_succ']; exact Nat.mul_assoc _ _ _

theorem headerSize_lt (header : List UInt8) : headerSize header < 2 ^ 42 := by
  have hle := parseOctalFrom_le 0 (sizeField header)
  have hlength : (sizeField header).length ≤ 12 := List.length_take_le 12 _
  have hpow : 8 ^ (sizeField header).length ≤ 8 ^ 12 := Nat.pow_le_pow_right (by decide) hlength
  show parseOctalFrom 0 (sizeField header) < 2 ^ 42
  omega

/-! ## Checks that never fail -/

section Header

variable {archive : List UInt8} {offset : Nat}

theorem slice_of_le {bytes : List UInt8} {start stop : Nat} (hstart : start ≤ stop)
    (hstop : stop ≤ bytes.length) :
    slice bytes start stop = .ok ((bytes.drop start).take (stop - start)) :=
  if_pos ⟨hstart, hstop⟩

theorem length_headerAt (h : offset + 512 ≤ archive.length) :
    (headerAt archive offset).length = 512 := by
  rw [headerAt, List.length_take, List.length_drop]
  omega

theorem slice_header (h : offset + 512 ≤ archive.length) :
    slice archive offset (offset + 512) = .ok (headerAt archive offset) := by
  rw [slice_of_le (Nat.le_add_right _ _) h, Nat.add_sub_cancel_left]
  rfl

theorem nameEnd_le (header : List UInt8) :
    ((header.take 100).findIdx? (· = 0)).getD 100 ≤ 100 := by
  cases hfind : (header.take 100).findIdx? (· = 0) with
  | none => exact le_rfl
  | some i =>
      have hlt : i < (header.take 100).length := (List.findIdx?_eq_some_iff_getElem.mp hfind).1
      exact hlt.le.trans (List.length_take_le 100 header)

section Fields

variable {header : List UInt8} (hlength : header.length = 512)
include hlength

theorem slice_nameField : slice header 0 100 = .ok (header.take 100) :=
  slice_of_le (by decide) (by omega)

theorem slice_headerName :
    slice header 0 (((header.take 100).findIdx? (· = 0)).getD 100) = .ok (headerName header) := by
  have hend := nameEnd_le header
  exact slice_of_le (Nat.zero_le _) (by omega)

theorem slice_sizeField : slice header 124 136 = .ok (sizeField header) :=
  slice_of_le (by decide) (by omega)

theorem byteAt_typeflag : byteAt header 156 = .ok (header.getD 156 0) := if_pos (by omega)

end Fields

/-- With a whole header in the archive, only the size and the slice of the data can fail. -/
theorem parseFromChecked_eq {entries : List TarEntry}
    (hguard : offset + 512 ≤ archive.length ∧ entries.length < MAX_ENTRIES) :
    TarFs.parseFromChecked archive offset entries =
      let header := headerAt archive offset
      if archive.getD offset 0 = 0 then .ok (some ⟨entries⟩)
      else if isUtf8 (headerName header) = false then .ok none
      else if entryNameOf header = [] then
        (parseOctalChecked (sizeField header)).bind fun size ↦
          TarFs.parseFromChecked archive (offset + (512 + blockBytes size)) entries
      else if isDirHeader header then
        TarFs.parseFromChecked archive (offset + 512 + blockBytes 0)
          (entries ++ [⟨entryNameOf header, [], isDirHeader header⟩])
      else
        (parseOctalChecked (sizeField header)).bind fun size ↦
          (slice archive (offset + 512) (offset + 512 + size)).bind fun data ↦
            TarFs.parseFromChecked archive (offset + 512 + blockBytes size)
              (entries ++ [⟨entryNameOf header, data, isDirHeader header⟩]) := by
  have hlength : (headerAt archive offset).length = 512 := length_headerAt hguard.1
  have hfirst : byteAt archive offset = .ok (archive.getD offset 0) := if_pos (by omega)
  rw [TarFs.parseFromChecked, if_pos hguard, hfirst]
  dsimp only [bind, Except.bind]
  rw [slice_header hguard.1]
  dsimp only
  rw [slice_nameField hlength]
  dsimp only
  rw [slice_headerName hlength]
  dsimp only
  rw [byteAt_typeflag hlength, slice_sizeField hlength]
  refine if_congr Iff.rfl rfl (if_congr Iff.rfl rfl (if_congr Iff.rfl rfl ?_))
  have hdir : (decide ((headerAt archive offset).getD 156 0 = 0x35) ||
      decide ((trimStartDotSlash (headerName (headerAt archive offset))).getLast? = some 0x2F)) =
        isDirHeader (headerAt archive offset) := rfl
  dsimp only
  rw [hdir]
  cases isDirHeader (headerAt archive offset) with
  | false =>
      simp only [Bool.false_eq_true, if_false]
      rfl
  | true =>
      simp only [if_true]
      rfl

/-- The same iteration, as `parse` makes it. -/
theorem parseFrom_eq {entries : List TarEntry}
    (hguard : offset + 512 ≤ archive.length ∧ entries.length < MAX_ENTRIES) :
    TarFs.parseFrom archive offset entries =
      let header := headerAt archive offset
      if archive.getD offset 0 = 0 then some (some ⟨entries⟩)
      else if isUtf8 (headerName header) = false then some none
      else if entryNameOf header = [] then
        TarFs.parseFrom archive (offset + (512 + blockBytes (headerSize header))) entries
      else if isDirHeader header then
        TarFs.parseFrom archive (offset + 512 + blockBytes 0)
          (entries ++ [⟨entryNameOf header, [], isDirHeader header⟩])
      else if archive.length < offset + 512 + headerSize header then none
      else
        let data := (archive.drop (offset + 512)).take (headerSize header)
        TarFs.parseFrom archive (offset + 512 + blockBytes (headerSize header))
          (entries ++ [⟨entryNameOf header, data, isDirHeader header⟩]) := by
  have hdir : (decide ((headerAt archive offset).getD 156 0 = 0x35) ||
      decide ((entryNameOf (headerAt archive offset)).getLast? = some 0x2F)) =
        isDirHeader (headerAt archive offset) := rfl
  rw [TarFs.parseFrom, if_pos hguard]
  refine if_congr Iff.rfl rfl (if_congr Iff.rfl rfl (if_congr Iff.rfl rfl ?_))
  rw [← headerAt, ← entryNameOf]
  dsimp only
  rw [hdir]
  cases isDirHeader (headerAt archive offset) with
  | false =>
      simp only [Bool.false_eq_true, if_false, true_and]
  | true =>
      simp only [Bool.true_eq_false, false_and, if_true, if_false]

/-! ## The loop -/

variable {entries : List TarEntry} {after : Nat × Nat}

/-- The loop goes on at a header that is not the end of the archive and has a valid name. -/
theorem nextHeader_eq_some (h : nextHeader archive (offset, entries.length) = some after) :
    ((offset + 512 ≤ archive.length ∧ entries.length < MAX_ENTRIES) ∧ archive.getD offset 0 ≠ 0 ∧
      ¬ isUtf8 (headerName (headerAt archive offset)) = false) ∧
    after = if entryNameOf (headerAt archive offset) = [] then
        (offset + (512 + blockBytes (headerSize (headerAt archive offset))), entries.length)
      else if isDirHeader (headerAt archive offset) then
        (offset + 512 + blockBytes 0, entries.length + 1)
      else
        (offset + 512 + blockBytes (headerSize (headerAt archive offset)), entries.length + 1) := by
  unfold nextHeader at h
  dsimp only at h
  split at h
  · next hguard =>
      refine ⟨⟨hguard.1, hguard.2.1, Bool.not_eq_false _ ▸ hguard.2.2⟩, ?_⟩
      split at h
      · next hroot => exact (Option.some.inj h).symm.trans (if_pos hroot).symm
      · next hroot =>
          rw [if_neg hroot, ← Option.some.inj h]
          cases isDirHeader (headerAt archive offset) <;> rfl
  · cases h

/-- Where the loop ends, no check fails. -/
theorem parseFromChecked_stop (h : nextHeader archive (offset, entries.length) = none) :
    ∃ result, TarFs.parseFromChecked archive offset entries = .ok result ∧
      TarFs.parseFrom archive offset entries = some result ∧
      (result = none ∨ result = some ⟨entries⟩) := by
  by_cases hguard : offset + 512 ≤ archive.length ∧ entries.length < MAX_ENTRIES
  · rw [parseFromChecked_eq hguard, TarFs.parseFrom, if_pos hguard]
    dsimp only
    by_cases hzero : archive.getD offset 0 = 0
    · rw [if_pos hzero, if_pos hzero]
      exact ⟨some ⟨entries⟩, rfl, rfl, Or.inr rfl⟩
    · rw [if_neg hzero, if_neg hzero]
      by_cases hutf8 : isUtf8 (headerName (headerAt archive offset)) = true
      · unfold nextHeader at h
        rw [if_pos ⟨hguard, hzero, hutf8⟩] at h
        split at h <;> cases h
      · rw [Bool.not_eq_true] at hutf8
        refine ⟨none, if_pos hutf8, if_pos hutf8, Or.inl rfl⟩
  · rw [TarFs.parseFromChecked, TarFs.parseFrom, if_neg hguard, if_neg hguard]
    exact ⟨some ⟨entries⟩, rfl, rfl, Or.inr rfl⟩

/-- An iteration at a sound header enters what the header says. -/
theorem parseFromChecked_next (h : nextHeader archive (offset, entries.length) = some after)
    (hsound : SoundHeader archive offset) :
    TarFs.parseFromChecked archive offset entries =
        TarFs.parseFromChecked archive after.1 (entries ++ headerEntries archive offset) ∧
      TarFs.parseFrom archive offset entries =
        TarFs.parseFrom archive after.1 (entries ++ headerEntries archive offset) ∧
      after.2 = (entries ++ headerEntries archive offset).length := by
  obtain ⟨⟨hguard, hzero, hutf8⟩, rfl⟩ := nextHeader_eq_some h
  rw [parseFromChecked_eq hguard, parseFrom_eq hguard, headerEntries]
  dsimp only
  rw [if_neg hzero, if_neg hzero, if_neg hutf8, if_neg hutf8]
  by_cases hroot : entryNameOf (headerAt archive offset) = []
  · have hsize := parseOctalChecked_sizeField (hsound.digits (Or.inl hroot))
    rw [if_pos hroot, if_pos hroot, if_pos hroot, if_pos hroot, hsize, List.append_nil]
    exact ⟨rfl, rfl, rfl⟩
  · rw [if_neg hroot, if_neg hroot, if_neg hroot, if_neg hroot]
    cases hdir : isDirHeader (headerAt archive offset) with
    | true =>
        rw [if_pos rfl, if_pos rfl, if_pos rfl, if_pos rfl]
        exact ⟨rfl, rfl, by rw [List.length_append]; rfl⟩
    | false =>
        have hsize := parseOctalChecked_sizeField (hsound.digits (Or.inr hdir))
        have hinside := hsound.data hroot hdir
        simp only [Bool.false_eq_true, if_false]
        rw [hsize, if_neg (not_lt.mpr hinside)]
        refine ⟨?_, rfl, by rw [List.length_append]; rfl⟩
        show (slice archive (offset + 512) _).bind _ = _
        rw [slice_of_le (Nat.le_add_right _ _) hinside, Nat.add_sub_cancel_left]
        rfl

/-- At a header that is not sound, a check fails. -/
theorem parseFromChecked_fault (h : nextHeader archive (offset, entries.length) = some after)
    (hunsound : ¬ SoundHeader archive offset) :
    ∃ fault, TarFs.parseFromChecked archive offset entries = .error fault := by
  obtain ⟨⟨hguard, hzero, hutf8⟩, -⟩ := nextHeader_eq_some h
  have hsize : parseOctalChecked (sizeField (headerAt archive offset)) = _ :=
    parseOctalCheckedFrom_eq 0 _
  rw [parseFromChecked_eq hguard]
  dsimp only
  rw [if_neg hzero, if_neg hutf8, hsize]
  by_cases hroot : entryNameOf (headerAt archive offset) = []
  · have hdigits : ¬ DigitsSound (sizeField (headerAt archive offset)) :=
      fun hdigits ↦ hunsound ⟨fun _ ↦ hdigits, fun hne ↦ absurd hroot hne⟩
    rw [if_pos hroot, if_neg hdigits]
    exact ⟨.underflow, rfl⟩
  · rw [if_neg hroot]
    cases hdir : isDirHeader (headerAt archive offset) with
    | true =>
        -- neither the size nor the data of a directory is read
        refine absurd ⟨fun hread ↦ ?_, fun _ hfile ↦ ?_⟩ hunsound
        · exact absurd (hdir.symm.trans (hread.resolve_left hroot)) (by decide)
        · exact absurd (hdir.symm.trans hfile) (by decide)
    | false =>
        simp only [Bool.false_eq_true, if_false]
        by_cases hdigits : DigitsSound (sizeField (headerAt archive offset))
        · have hlong : ¬ offset + 512 + headerSize (headerAt archive offset) ≤ archive.length :=
            fun hinside ↦ hunsound ⟨fun _ ↦ hdigits, fun _ _ ↦ hinside⟩
          rw [if_pos hdigits]
          show ∃ fault, (slice archive (offset + 512) _).bind _ = _
          rw [slice, if_neg fun hcase ↦ hlong hcase.2]
          exact ⟨.outOfRange, rfl⟩
        · rw [if_neg hdigits]
          exact ⟨.underflow, rfl⟩

/-- What the loop enters for a sound header is a slice of the archive. -/
theorem inside_of_mem_headerEntries (hsound : SoundHeader archive offset) {entry : TarEntry}
    (h : entry ∈ headerEntries archive offset) : entry.Inside archive := by
  unfold headerEntries at h
  dsimp only at h
  split at h
  · cases h
  · next hroot =>
      obtain rfl := List.mem_singleton.mp h
      unfold TarEntry.Inside
      dsimp only
      cases hdir : isDirHeader (headerAt archive offset) with
      | true => exact ⟨0, Nat.zero_le _, rfl⟩
      | false =>
          have hinside := hsound.data hroot hdir
          have hlength : ((archive.drop (offset + 512)).take
              (headerSize (headerAt archive offset))).length =
                headerSize (headerAt archive offset) := by
            rw [List.length_take, List.length_drop]
            omega
          simp only [Bool.false_eq_true, if_false]
          rw [hlength]
          exact ⟨offset + 512, hinside, rfl⟩

end Header

/-! ## The whole archive -/

section Archive

variable {archive : List UInt8}

/-- With sound headers only, the checked loop returns what the loop returns, and enters what the
headers say. -/
theorem parseFromChecked_ok (pos : Nat × Nat) (entries : List TarEntry)
    (hcount : pos.2 = entries.length)
    (hsound : ∀ p ∈ (headerCursor archive).trail pos, SoundHeader archive p.1) :
    ∃ result, TarFs.parseFromChecked archive pos.1 entries = .ok result ∧
      TarFs.parseFrom archive pos.1 entries = some result ∧
      ∀ fs, result = some fs → fs.entries = entries ++
        ((headerCursor archive).trail pos).flatMap fun p ↦ headerEntries archive p.1 := by
  fun_induction (headerCursor archive).trail pos generalizing entries with
  | case1 pos hnext =>
      have hstop : nextHeader archive (pos.1, entries.length) = none := hcount ▸ hnext
      obtain ⟨result, hchecked, hparse, hresult⟩ := parseFromChecked_stop hstop
      refine ⟨result, hchecked, hparse, ?_⟩
      rintro fs rfl
      rcases hresult with hnone | hsome
      · cases hnone
      · cases hsome
        exact (List.append_nil entries).symm
  | case2 pos after hnext ih =>
      have hgo : nextHeader archive (pos.1, entries.length) = some after := hcount ▸ hnext
      obtain ⟨hhead, hrest⟩ := List.forall_mem_cons.mp hsound
      obtain ⟨hchecked, hparse, hafter⟩ := parseFromChecked_next hgo hhead
      rw [hchecked, hparse, List.flatMap_cons, ← List.append_assoc]
      exact ih _ hafter hrest

/-- With a header that is not sound, the checked loop ends with a fault. -/
theorem parseFromChecked_error (pos : Nat × Nat) (entries : List TarEntry)
    (hcount : pos.2 = entries.length)
    (hunsound : ¬ ∀ p ∈ (headerCursor archive).trail pos, SoundHeader archive p.1) :
    ∃ fault, TarFs.parseFromChecked archive pos.1 entries = .error fault := by
  fun_induction (headerCursor archive).trail pos generalizing entries with
  | case1 pos hnext => exact absurd (List.forall_mem_nil _) hunsound
  | case2 pos after hnext ih =>
      have hgo : nextHeader archive (pos.1, entries.length) = some after := hcount ▸ hnext
      by_cases hhead : SoundHeader archive pos.1
      · obtain ⟨hchecked, -, hafter⟩ := parseFromChecked_next hgo hhead
        rw [hchecked]
        refine ih _ hafter fun hrest ↦ hunsound ?_
        exact List.forall_mem_cons.mpr ⟨hhead, hrest⟩
      · exact parseFromChecked_fault hgo hhead

/-- Without a fault the checked parser agrees with `parse`. -/
theorem parse_of_parseChecked {result : Option TarFs}
    (h : TarFs.parseChecked archive = .ok result) : TarFs.parse archive = some result := by
  by_cases hsound : ∀ p ∈ (headerCursor archive).trail (0, 0), SoundHeader archive p.1
  · obtain ⟨other, hchecked, hparse, -⟩ := parseFromChecked_ok (0, 0) [] rfl hsound
    cases h.symm.trans hchecked
    exact hparse
  · obtain ⟨fault, herror⟩ := parseFromChecked_error (0, 0) [] rfl hsound
    cases h.symm.trans herror

end Archive

/-- The parser returns, with all data inside the archive, exactly if each header that it walks over
is sound: its size is a number, and the data of a file ends inside the archive. -/
theorem parse_total_iff (archive : List UInt8) :
    ParseTotal archive ↔ ∀ offset ∈ headerOffsets archive, SoundHeader archive offset := by
  rw [headerOffsets, List.forall_mem_map]
  constructor
  · intro h
    obtain ⟨result, hchecked, -⟩ := h
    by_contra hunsound
    obtain ⟨fault, herror⟩ := parseFromChecked_error (0, 0) [] rfl hunsound
    cases hchecked.symm.trans herror
  · intro hsound
    obtain ⟨result, hchecked, -, hentries⟩ :=
      parseFromChecked_ok (0, 0) [] rfl hsound
    refine ⟨result, hchecked, ?_⟩
    intro fs hfs entry hentry
    rw [hentries fs hfs] at hentry
    obtain ⟨p, hp, hmem⟩ := List.mem_flatMap.mp hentry
    exact inside_of_mem_headerEntries (hsound p hp) hmem

/-- The header of a file "a" of one byte, without the byte. -/
def truncatedArchive : List UInt8 := header [0x61] 1 0x30 blankRest

/-- The slice of the missing data ends the kernel. -/
theorem parse_truncated : ¬ ParseTotal truncatedArchive := by
  intro h
  obtain ⟨result, hok, -⟩ := h
  have hdrop : truncatedArchive.drop 0 = header [0x61] 1 0x30 blankRest ++ [] :=
    (List.append_nil _).symm
  have hpanic : TarFs.parse truncatedArchive = none := by
    rw [TarFs.parse, parseFrom_header hdrop (by decide) (by decide) (by decide) (by decide +kernel)
      (by decide) (by decide)]
    rfl
  cases hpanic.symm.trans (parse_of_parseChecked hok)

end Avaria.Fs
