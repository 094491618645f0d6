import Avaria.Elf.LoadImage

/-!
# The stride of the program header table

`program_headers` checks that a table of entries of `e_phentsize` bytes lies in the file, and makes
a slice of `Elf64Phdr` of it, whose elements are 56 bytes apart. Both agree for files that use the
usual entry size; a file may use a larger one, and then all entries but the first are read from the
wrong place (`records_at_stride_iff`).

`PhdrRecord` has all fields of `Elf64Phdr`, so that an element stands for its 56 bytes
(`recordAt_eq_iff`). `programHeaders_eq_map` says that the loader's view of the slice is the one
that forgets the fields the loader does not read.
-/

namespace Avaria.Elf

/-- `struct Elf64Phdr` with the fields that the loader does not read. -/
structure PhdrRecord extends Elf64Phdr where
  p_flags : UInt32
  p_paddr : UInt64
  p_align : UInt64
  deriving DecidableEq, Repr

/-- The little-endian decoding of the 56 bytes at an offset. -/
def recordAt (bytes : ByteMap) (offset : Nat) : PhdrRecord where
  toElf64Phdr := phdrAt bytes offset
  p_flags := UInt32.ofNat (bytes.fromLe (offset + 4) 4)
  p_paddr := UInt64.ofNat (bytes.fromLe (offset + 24) 8)
  p_align := UInt64.ofNat (bytes.fromLe (offset + 48) 8)

/-- The elements of a slice of `count` entries. -/
def recordTable (bytes : ByteMap) (offset count : Nat) : List PhdrRecord :=
  (List.range count).map fun i ↦ recordAt bytes (offset + PHDR_SIZE * i)

/-- `program_headers`, with every field of the elements. -/
def programHeaderRecords (data : Slice) (hdr : Elf64Header) :
    Except Fault (Except ElfError (List PhdrRecord)) :=
  let off := hdr.e_phoff.toNat
  let count := hdr.e_phnum.toNat
  if hdr.tableEnd.toNat > data.length ∨ hdr.e_phentsize.toNat < PHDR_SIZE then .ok (.error .badPhdr)
  else if off + count * PHDR_SIZE ≤ data.length then .ok (.ok (recordTable data.bytes off count))
  else .error .outOfBounds

/-- The loader's view of the slice. -/
theorem programHeaders_eq_map (data : Slice) (hdr : Elf64Header) :
    programHeaders data hdr =
      (programHeaderRecords data hdr).map (Except.map (List.map PhdrRecord.toElf64Phdr)) := by
  have htable : phdrTable data.bytes hdr.e_phoff.toNat hdr.e_phnum.toNat =
      (recordTable data.bytes hdr.e_phoff.toNat hdr.e_phnum.toNat).map
        PhdrRecord.toElf64Phdr := by
    unfold phdrTable recordTable
    rw [List.map_map]
    rfl
  unfold programHeaders programHeaderRecords
  dsimp only
  rw [htable]
  split_ifs <;> rfl

/-- A slice that is returned has its elements 56 bytes apart. -/
theorem programHeaderRecords_eq_ok {data : Slice} {hdr : Elf64Header} {records : List PhdrRecord}
    (h : programHeaderRecords data hdr = .ok (.ok records)) :
    records = recordTable data.bytes hdr.e_phoff.toNat hdr.e_phnum.toNat := by
  unfold programHeaderRecords at h
  dsimp only at h
  split_ifs at h
  · cases h
  · cases h
    rfl

/-! ## Records and their bytes -/

variable {bytes other : ByteMap} {offset start : Nat}

theorem ofNat_fromLe_four_eq_iff :
    UInt32.ofNat (bytes.fromLe offset 4) = UInt32.ofNat (other.fromLe start 4) ↔
      ∀ k < 4, bytes (offset + k) = other (start + k) := by
  have hleft : bytes.fromLe offset 4 < 2 ^ 32 := bytes.fromLe_lt offset 4
  have hright : other.fromLe start 4 < 2 ^ 32 := other.fromLe_lt start 4
  rw [← UInt32.toNat_inj, UInt32.toNat_ofNat_of_lt' hleft, UInt32.toNat_ofNat_of_lt' hright]
  exact ByteMap.fromLe_eq_iff

theorem ofNat_fromLe_eight_eq_iff :
    UInt64.ofNat (bytes.fromLe offset 8) = UInt64.ofNat (other.fromLe start 8) ↔
      ∀ k < 8, bytes (offset + k) = other (start + k) := by
  have hleft : bytes.fromLe offset 8 < 2 ^ 64 := bytes.fromLe_lt offset 8
  have hright : other.fromLe start 8 < 2 ^ 64 := other.fromLe_lt start 8
  rw [← UInt64.toNat_inj, UInt64.toNat_ofNat_of_lt' hleft, UInt64.toNat_ofNat_of_lt' hright]
  exact ByteMap.fromLe_eq_iff

/-- A byte of a record is a byte of the field that covers it. -/
theorem byte_of_field {field width : Nat}
    (h : ∀ k < width, bytes (offset + field + k) = other (start + field + k)) {k : Nat}
    (hle : field ≤ k) (hlt : k < field + width) : bytes (offset + k) = other (start + k) := by
  have hbyte := h (k - field) (by omega)
  rwa [Nat.add_assoc, Nat.add_assoc, Nat.add_sub_cancel' hle] at hbyte

/-- Records are the same when their bytes are: the fields cover all 56. -/
theorem recordAt_eq_iff :
    recordAt bytes offset = recordAt other start ↔
      ∀ k < PHDR_SIZE, bytes (offset + k) = other (start + k) := by
  simp only [recordAt, phdrAt, PhdrRecord.mk.injEq, Elf64Phdr.mk.injEq, ofNat_fromLe_four_eq_iff,
    ofNat_fromLe_eight_eq_iff]
  constructor
  · rintro ⟨⟨htype, hoffset, hvaddr, hfilesz, hmemsz⟩, hflags, hpaddr, halign⟩ k hk
    rw [PHDR_SIZE] at hk
    rcases (by omega : k < 4 ∨ 4 ≤ k ∧ k < 8 ∨ 8 ≤ k ∧ k < 16 ∨ 16 ≤ k ∧ k < 24 ∨
      24 ≤ k ∧ k < 32 ∨ 32 ≤ k ∧ k < 40 ∨ 40 ≤ k ∧ k < 48 ∨ 48 ≤ k ∧ k < 56) with
      hk | ⟨hle, hlt⟩ | ⟨hle, hlt⟩ | ⟨hle, hlt⟩ | ⟨hle, hlt⟩ | ⟨hle, hlt⟩ | ⟨hle, hlt⟩ | ⟨hle, hlt⟩
    · exact htype k hk
    · exact byte_of_field hflags hle hlt
    · exact byte_of_field hoffset hle hlt
    · exact byte_of_field hvaddr hle hlt
    · exact byte_of_field hpaddr hle hlt
    · exact byte_of_field hfilesz hle hlt
    · exact byte_of_field hmemsz hle hlt
    · exact byte_of_field halign hle hlt
  · intro h
    have hfield : ∀ field width, field + width ≤ PHDR_SIZE → ∀ k < width,
        bytes (offset + field + k) = other (start + field + k) := by
      intro field width hfits k hk
      rw [Nat.add_assoc, Nat.add_assoc]
      exact h (field + k) (by omega)
    exact ⟨⟨hfield 0 4 (by decide), hfield 8 8 (by decide), hfield 16 8 (by decide),
      hfield 32 8 (by decide), hfield 40 8 (by decide)⟩, hfield 4 4 (by decide),
      hfield 24 8 (by decide), hfield 48 8 (by decide)⟩

/-! ## The two strides -/

/-- There are `e_phnum` elements, and each is the decoding of the 56 bytes at the place that the
file's entry size gives it. -/
def AtFileStride (data : Slice) (hdr : Elf64Header) (records : List PhdrRecord) : Prop :=
  records.length = hdr.e_phnum.toNat ∧ ∀ i < hdr.e_phnum.toNat,
    records[i]? =
      some (recordAt data.bytes (hdr.e_phoff.toNat + i * hdr.e_phentsize.toNat))

/-- Every entry has the same 56 bytes at the file's entry size as it has 56 bytes apart. -/
def EntriesAgree (data : Slice) (hdr : Elf64Header) : Prop :=
  ∀ i < hdr.e_phnum.toNat, ∀ k < 56,
    data.bytes (hdr.e_phoff.toNat + i * 56 + k) =
      data.bytes (hdr.e_phoff.toNat + i * hdr.e_phentsize.toNat + k)

instance (data : Slice) (hdr : Elf64Header) (records : List PhdrRecord) :
    Decidable (AtFileStride data hdr records) := inferInstanceAs (Decidable (_ ∧ _))

/-- Entries of 56 bytes agree, and so does a single entry of any size. -/
theorem entriesAgree_of_usual {data : Slice} {hdr : Elf64Header}
    (h : hdr.e_phentsize.toNat = 56 ∨ hdr.e_phnum.toNat ≤ 1) : EntriesAgree data hdr := by
  intro i hi k hk
  rcases h with hsize | hcount
  · rw [hsize]
  · obtain rfl : i = 0 := by omega
    simp

/-- The elements of the slice are the file's entries exactly when the bytes agree. -/
theorem atFileStride_iff {data : Slice} {hdr : Elf64Header} {records : List PhdrRecord}
    (h : programHeaderRecords data hdr = .ok (.ok records)) :
    AtFileStride data hdr records ↔ EntriesAgree data hdr := by
  obtain rfl := programHeaderRecords_eq_ok h
  have hlength : (recordTable data.bytes hdr.e_phoff.toNat hdr.e_phnum.toNat).length =
      hdr.e_phnum.toNat := by simp [recordTable]
  unfold AtFileStride EntriesAgree
  rw [and_iff_right hlength]
  refine forall₂_congr fun i hi ↦ ?_
  have helement : (recordTable data.bytes hdr.e_phoff.toNat hdr.e_phnum.toNat)[i]? =
      some (recordAt data.bytes (hdr.e_phoff.toNat + i * 56)) := by
    simp [recordTable, hi, PHDR_SIZE, Nat.mul_comm]
  rw [helement, Option.some.injEq, recordAt_eq_iff]
  rfl

/-! ## Which headers are safe -/

/-- A table inside the slice is accepted. -/
theorem programHeaderRecords_of_fits {data : Slice} {hdr : Elf64Header}
    (hentry : PHDR_SIZE ≤ hdr.e_phentsize.toNat)
    (hinside : hdr.e_phoff.toNat + hdr.e_phnum.toNat * hdr.e_phentsize.toNat ≤ data.length) :
    programHeaderRecords data hdr =
      .ok (.ok (recordTable data.bytes hdr.e_phoff.toNat hdr.e_phnum.toNat)) := by
  have hlength := data.length_lt
  have hend := hdr.toNat_tableEnd
  rw [Nat.mod_eq_of_lt (by omega)] at hend
  have hstride : hdr.e_phnum.toNat * PHDR_SIZE ≤ hdr.e_phnum.toNat * hdr.e_phentsize.toNat :=
    Nat.mul_le_mul_left _ hentry
  unfold programHeaderRecords
  dsimp only
  rw [if_neg (by omega), if_pos (by omega)]

/-- All files with a header are read at their own stride exactly when its entries have 56 bytes or
there is at most one. -/
theorem stride_safe_iff {hdr : Elf64Header} (hentry : PHDR_SIZE ≤ hdr.e_phentsize.toNat)
    (hfits : hdr.e_phoff.toNat + hdr.e_phnum.toNat * hdr.e_phentsize.toNat < 2 ^ 63) :
    (∀ (data : Slice) (records : List PhdrRecord),
      programHeaderRecords data hdr = .ok (.ok records) → AtFileStride data hdr records) ↔
      hdr.e_phentsize.toNat = 56 ∨ hdr.e_phnum.toNat ≤ 1 := by
  constructor
  · intro h
    by_contra hcase
    rw [not_or, not_le] at hcase
    obtain ⟨hsize, hcount⟩ := hcase
    -- a file whose only nonzero byte is the first one of the second element
    let data : Slice := ⟨hdr.e_phoff.toNat + hdr.e_phnum.toNat * hdr.e_phentsize.toNat,
      fun k ↦ if k = hdr.e_phoff.toNat + 56 then 1 else 0, hfits⟩
    have hcall := @programHeaderRecords_of_fits data hdr hentry le_rfl
    have hagree : EntriesAgree data hdr := (atFileStride_iff hcall).mp (h _ _ hcall)
    have hbyte := hagree 1 hcount 0 (by decide)
    simp [data, hsize] at hbyte
  · intro h data records hcall
    exact (atFileStride_iff hcall).mpr (entriesAgree_of_usual h)

/-- A slice is returned only for a table inside the file, with entries of at least 56 bytes. -/
theorem fits_of_programHeaderRecords {data : Slice} {hdr : Elf64Header} {records : List PhdrRecord}
    (h : programHeaderRecords data hdr = .ok (.ok records)) :
    PHDR_SIZE ≤ hdr.e_phentsize.toNat ∧
      hdr.e_phoff.toNat + hdr.e_phnum.toNat * hdr.e_phentsize.toNat < 2 ^ 63 := by
  have hend := hdr.toNat_tableEnd
  have hlength := data.length_lt
  have hcount := hdr.e_phnum.toNat_lt
  have hsize := hdr.e_phentsize.toNat_lt
  have htable : hdr.e_phnum.toNat * hdr.e_phentsize.toNat ≤ 2 ^ 16 * 2 ^ 16 :=
    Nat.mul_le_mul hcount.le hsize.le
  unfold programHeaderRecords at h
  dsimp only at h
  split_ifs at h with hbad hinside
  · cases h
  · rw [not_or, not_lt, not_lt] at hbad
    rw [Nat.mod_eq_of_lt (by omega)] at hend
    exact ⟨hbad.2, by omega⟩

/-- When `program_headers` returns a slice, its elements are the entries at the file's own stride
exactly when the entries have 56 bytes, or there is at most one, or the bytes at both strides are
the same. The header alone makes sure of it, for every file, in the first two cases only. -/
theorem records_at_stride_iff {data : Slice} {hdr : Elf64Header} {records : List PhdrRecord}
    (h : programHeaderRecords data hdr = .ok (.ok records)) :
    (AtFileStride data hdr records ↔
      hdr.e_phentsize.toNat = 56 ∨ hdr.e_phnum.toNat ≤ 1 ∨ EntriesAgree data hdr) ∧
    ((∀ (other : Slice) (found : List PhdrRecord),
      programHeaderRecords other hdr = .ok (.ok found) → AtFileStride other hdr found) ↔
        hdr.e_phentsize.toNat = 56 ∨ hdr.e_phnum.toNat ≤ 1) := by
  obtain ⟨hentry, hfits⟩ := fits_of_programHeaderRecords h
  refine ⟨?_, stride_safe_iff hentry hfits⟩
  rw [atFileStride_iff h, ← or_assoc]
  exact (or_iff_right_of_imp entriesAgree_of_usual).symm

/-- An executable with two loadable segments and entries of `size` bytes: the table follows the
header, and what is behind the 56 bytes of an entry is zero. -/
def encodeWide (size : Nat) : List UInt8 :=
  (encodeHeader 0x1000 HEADER_SIZE 2).take 54 ++ ByteMap.toLe 2 size ++ ByteMap.toLe 2 2 ++
    List.replicate 6 0 ++ encodePhdr ⟨PT_LOAD, 0, 0x1000, 4, 4⟩ ++ List.replicate (size - 56) 0 ++
    encodePhdr ⟨PT_LOAD, 4, 0x2000, 4, 4⟩ ++ List.replicate (size - 56) 0

/-- The executable with entries of 64 bytes. -/
def wideImage : Slice := .ofList (encodeWide 64) (by decide +kernel)

/-- The executable with entries of the usual size. -/
def usualImage : Slice := .ofList (encodeWide 56) (by decide +kernel)

theorem records_at_stride_usual :
    ∃ records, programHeaderRecords usualImage (headerAt usualImage.bytes) = .ok (.ok records) ∧
      AtFileStride usualImage (headerAt usualImage.bytes) records := by
  have hcall : programHeaderRecords usualImage (headerAt usualImage.bytes) =
      .ok (.ok (recordTable usualImage.bytes 64 2)) := by decide +kernel
  exact ⟨_, hcall, (records_at_stride_iff hcall).1.mpr (Or.inl (by decide +kernel))⟩

/-- The second element starts in what is behind the first entry. -/
theorem records_not_at_stride :
    ¬ ∀ (data : Slice) (hdr : Elf64Header) (records : List PhdrRecord),
      parseHeader data = .ok hdr → programHeaderRecords data hdr = .ok (.ok records) →
        AtFileStride data hdr records := by
  intro h
  have hvalid : ValidHeader wideImage := ⟨by decide +kernel, by decide +kernel, by decide +kernel,
    by decide +kernel, by decide +kernel, by decide +kernel⟩
  have hcall : programHeaderRecords wideImage (headerAt wideImage.bytes) =
      .ok (.ok (recordTable wideImage.bytes 64 2)) := by decide +kernel
  exact absurd (h _ _ _ hvalid.parseHeader_eq hcall) (by decide +kernel)

end Avaria.Elf
