import Avaria.Lib.ByteMap
import Mathlib.Data.UInt

/-!
# ELF headers

`parse_header` and `program_headers` of `header.rs`. A byte slice has at most `isize::MAX` bytes, so
its length is below `2 ^ 63`; the additions are those of the release build and wrap around.
`program_headers` checks a sum that may have wrapped, so the table that it returns can lie outside
the slice; reading it there is a fault of the model.
-/

namespace Avaria.Elf

/-- A byte slice. -/
structure Slice where
  length : Nat
  bytes : ByteMap
  length_lt : length < 2 ^ 63

/-- The slice of a list of bytes. -/
def Slice.ofList (bytes : List UInt8) (h : bytes.length < 2 ^ 63) : Slice :=
  ⟨bytes.length, fun k ↦ bytes.getD k 0, h⟩

/-- An access outside a slice: a panic of the index check, or a read that nothing checks. -/
inductive Fault where
  | sliceIndex
  | outOfBounds
  deriving DecidableEq, Repr

/-- `enum ElfError`. -/
inductive ElfError where
  | tooSmall
  | badMagic
  | not64Bit
  | notLittleEndian
  | notExecutable
  | notX86_64
  | badPhdr
  deriving DecidableEq, Repr

/-- `ELF_MAGIC`. -/
def ELF_MAGIC : List UInt8 := [0x7F, 0x45, 0x4C, 0x46]

/-- `ELFCLASS64`. -/
def ELFCLASS64 : UInt8 := 2

/-- `ELFDATA2LSB`. -/
def ELFDATA2LSB : UInt8 := 1

/-- `ET_EXEC`. -/
def ET_EXEC : UInt16 := 2

/-- `ET_DYN`. -/
def ET_DYN : UInt16 := 3

/-- `EM_X86_64`. -/
def EM_X86_64 : UInt16 := 62

/-- `PT_LOAD`. -/
def PT_LOAD : UInt32 := 1

/-- The fields of `struct Elf64Header` that the loader reads. -/
structure Elf64Header where
  e_ident : List UInt8
  e_type : UInt16
  e_machine : UInt16
  e_entry : UInt64
  e_phoff : UInt64
  e_phentsize : UInt16
  e_phnum : UInt16

/-- `size_of::<Elf64Header>()`. -/
def HEADER_SIZE : Nat := 64

/-- The fields of `struct Elf64Phdr` that the loader reads. -/
structure Elf64Phdr where
  p_type : UInt32
  p_offset : UInt64
  p_vaddr : UInt64
  p_filesz : UInt64
  p_memsz : UInt64
  deriving DecidableEq, Repr

/-- `size_of::<Elf64Phdr>()`. -/
def PHDR_SIZE : Nat := 56

/-- The header at the start of the bytes, with the field offsets of the `repr(C)` layout. -/
def headerAt (bytes : ByteMap) : Elf64Header where
  e_ident := (List.range 16).map bytes
  e_type := UInt16.ofNat (bytes.fromLe 16 2)
  e_machine := UInt16.ofNat (bytes.fromLe 18 2)
  e_entry := UInt64.ofNat (bytes.fromLe 24 8)
  e_phoff := UInt64.ofNat (bytes.fromLe 32 8)
  e_phentsize := UInt16.ofNat (bytes.fromLe 54 2)
  e_phnum := UInt16.ofNat (bytes.fromLe 56 2)

/-- The program header at an offset, with the field offsets of the `repr(C)` layout. -/
def phdrAt (bytes : ByteMap) (offset : Nat) : Elf64Phdr where
  p_type := UInt32.ofNat (bytes.fromLe offset 4)
  p_offset := UInt64.ofNat (bytes.fromLe (offset + 8) 8)
  p_vaddr := UInt64.ofNat (bytes.fromLe (offset + 16) 8)
  p_filesz := UInt64.ofNat (bytes.fromLe (offset + 32) 8)
  p_memsz := UInt64.ofNat (bytes.fromLe (offset + 40) 8)

/-- `parse_header`. -/
def parseHeader (data : Slice) : Except ElfError Elf64Header :=
  if data.length < HEADER_SIZE then .error .tooSmall
  else
    let hdr := headerAt data.bytes
    if hdr.e_ident.take 4 ≠ ELF_MAGIC then .error .badMagic
    else if hdr.e_ident.getD 4 0 ≠ ELFCLASS64 then .error .not64Bit
    else if hdr.e_ident.getD 5 0 ≠ ELFDATA2LSB then .error .notLittleEndian
    else if hdr.e_type ≠ ET_EXEC ∧ hdr.e_type ≠ ET_DYN then .error .notExecutable
    else if hdr.e_machine ≠ EM_X86_64 then .error .notX86_64
    else .ok hdr

/-- The program headers of a table of `count` entries. -/
def phdrTable (bytes : ByteMap) (offset count : Nat) : List Elf64Phdr :=
  (List.range count).map fun i ↦ phdrAt bytes (offset + PHDR_SIZE * i)

/-- The sum that `program_headers` checks. -/
def Elf64Header.tableEnd (hdr : Elf64Header) : UInt64 :=
  hdr.e_phoff + hdr.e_phnum.toUInt64 * hdr.e_phentsize.toUInt64

/-- `program_headers`. The entries of the slice that it makes are `PHDR_SIZE` apart, whatever
`e_phentsize` is. -/
def programHeaders (data : Slice) (hdr : Elf64Header) :
    Except Fault (Except ElfError (List Elf64Phdr)) :=
  let off := hdr.e_phoff.toNat
  let count := hdr.e_phnum.toNat
  if hdr.tableEnd.toNat > data.length ∨ hdr.e_phentsize.toNat < PHDR_SIZE then .ok (.error .badPhdr)
  else if off + count * PHDR_SIZE ≤ data.length then .ok (.ok (phdrTable data.bytes off count))
  else .error .outOfBounds

/-- A valid header of an x86-64 little-endian executable. -/
structure ValidHeader (data : Slice) : Prop where
  length : HEADER_SIZE ≤ data.length
  magic : (headerAt data.bytes).e_ident.take 4 = ELF_MAGIC
  class64 : (headerAt data.bytes).e_ident.getD 4 0 = ELFCLASS64
  littleEndian : (headerAt data.bytes).e_ident.getD 5 0 = ELFDATA2LSB
  executable : (headerAt data.bytes).e_type = ET_EXEC ∨ (headerAt data.bytes).e_type = ET_DYN
  x86_64 : (headerAt data.bytes).e_machine = EM_X86_64

/-- A valid header is accepted. -/
theorem ValidHeader.parseHeader_eq {data : Slice} (h : ValidHeader data) :
    parseHeader data = .ok (headerAt data.bytes) := by
  have htype : ¬ ((headerAt data.bytes).e_type ≠ ET_EXEC ∧ (headerAt data.bytes).e_type ≠ ET_DYN) :=
    fun hcase ↦ h.executable.elim hcase.1 hcase.2
  unfold parseHeader
  rw [if_neg (not_lt.mpr h.length)]
  dsimp only
  rw [if_neg (not_not.mpr h.magic), if_neg (not_not.mpr h.class64),
    if_neg (not_not.mpr h.littleEndian), if_neg htype, if_neg (not_not.mpr h.x86_64)]

/-- `parse_header` accepts valid headers only, and returns the header at the start of the slice. -/
theorem parseHeader_eq_ok {data : Slice} {hdr : Elf64Header} (h : parseHeader data = .ok hdr) :
    ValidHeader data ∧ hdr = headerAt data.bytes := by
  unfold parseHeader at h
  dsimp only at h
  split_ifs at h with hlength hmagic hclass hendian htype hmachine
  refine ⟨⟨not_lt.mp hlength, not_not.mp hmagic, not_not.mp hclass, not_not.mp hendian, ?_,
    not_not.mp hmachine⟩, (Except.ok.inj h).symm⟩
  rwa [not_and_or, not_not, not_not] at htype

/-- The checked sum did not wrap around. -/
def Elf64Header.TableFits (hdr : Elf64Header) : Prop :=
  hdr.e_phoff.toNat + hdr.e_phnum.toNat * hdr.e_phentsize.toNat < 2 ^ 64

instance (hdr : Elf64Header) : Decidable hdr.TableFits := inferInstanceAs (Decidable (_ < _))

/-- Both factors have sixteen bits, so only the sum can wrap around. -/
theorem Elf64Header.toNat_tableEnd (hdr : Elf64Header) :
    hdr.tableEnd.toNat =
      (hdr.e_phoff.toNat + hdr.e_phnum.toNat * hdr.e_phentsize.toNat) % 2 ^ 64 := by
  rw [tableEnd, UInt64.toNat_add, UInt64.toNat_mul, UInt16.toNat_toUInt64, UInt16.toNat_toUInt64]
  omega

/-- Everything `program_headers` can do: refuse the table, return a table inside the slice, or, if
the sum wrapped around, return one outside. -/
theorem programHeaders_cases (data : Slice) (hdr : Elf64Header) :
    ((data.length < hdr.tableEnd.toNat ∨ hdr.e_phentsize.toNat < PHDR_SIZE) ∧
      programHeaders data hdr = .ok (.error .badPhdr)) ∨
    (hdr.tableEnd.toNat ≤ data.length ∧ PHDR_SIZE ≤ hdr.e_phentsize.toNat ∧ hdr.TableFits ∧
      programHeaders data hdr =
        .ok (.ok (phdrTable data.bytes hdr.e_phoff.toNat hdr.e_phnum.toNat))) ∨
    (hdr.tableEnd.toNat ≤ data.length ∧ PHDR_SIZE ≤ hdr.e_phentsize.toNat ∧ ¬ hdr.TableFits ∧
      programHeaders data hdr = .error .outOfBounds) := by
  have hlength := data.length_lt
  have hend := hdr.toNat_tableEnd
  have hoff := hdr.e_phoff.toNat_lt
  have hcount := hdr.e_phnum.toNat_lt
  have hsize := hdr.e_phentsize.toNat_lt
  unfold programHeaders
  dsimp only
  by_cases hrefused : hdr.tableEnd.toNat > data.length ∨ hdr.e_phentsize.toNat < PHDR_SIZE
  · rw [if_pos hrefused]
    exact Or.inl ⟨hrefused, rfl⟩
  · rw [if_neg hrefused]
    rw [not_or, not_lt, not_lt] at hrefused
    obtain ⟨hinside, hentry⟩ := hrefused
    refine Or.inr ?_
    have hproduct : hdr.e_phnum.toNat * hdr.e_phentsize.toNat ≤ 2 ^ 16 * 2 ^ 16 :=
      Nat.mul_le_mul hcount.le hsize.le
    have hstride : hdr.e_phnum.toNat * PHDR_SIZE ≤ hdr.e_phnum.toNat * hdr.e_phentsize.toNat :=
      Nat.mul_le_mul_left _ hentry
    by_cases hfits : hdr.TableFits
    · have htable : hdr.e_phoff.toNat + hdr.e_phnum.toNat * PHDR_SIZE ≤ data.length := by
        rw [hend, Nat.mod_eq_of_lt hfits] at hinside
        omega
      rw [if_pos htable]
      exact Or.inl ⟨hinside, hentry, hfits, rfl⟩
    · have hwrapped : 2 ^ 64 ≤ hdr.e_phoff.toNat + hdr.e_phnum.toNat * hdr.e_phentsize.toNat :=
        not_lt.mp hfits
      -- the offset itself lies behind every slice
      rw [if_neg (by omega)]
      exact Or.inr ⟨hinside, hentry, hfits, rfl⟩

end Avaria.Elf
