import Avaria.Elf.Loader
import Mathlib.Data.List.Pairwise
import Mathlib.Order.Bounds.Basic

/-!
# Loading a well-formed image

`WellFormed` says what a valid executable is, without reference to the loader. On such an image
`load_at` succeeds, and the buffer holds the memory image that the program headers describe,
whatever it held before (`load_image`).
-/

namespace Avaria.Elf

/-- The addresses of the segment. -/
def Elf64Phdr.memory (phdr : Elf64Phdr) : Extent := ⟨phdr.p_vaddr.toNat, phdr.p_memsz.toNat⟩

/-- The addresses that the bytes of the segment in the file belong to. -/
def Elf64Phdr.filePart (phdr : Elf64Phdr) : Extent := ⟨phdr.p_vaddr.toNat, phdr.p_filesz.toNat⟩

/-- A well-formed image: its header is valid, its table of program headers lies inside the file,
some segment is loadable, and the loadable segments lie inside the file and at separate addresses.
-/
structure WellFormed (data : Slice) : Prop where
  header : ValidHeader data
  phentsize : (headerAt data.bytes).e_phentsize.toNat = PHDR_SIZE
  table : (headerAt data.bytes).e_phoff.toNat + (headerAt data.bytes).e_phnum.toNat * PHDR_SIZE ≤
    data.length
  exists_load : ∃ phdr ∈ segments data, phdr.p_vaddr.toNat < 2 ^ 64 - 1
  filesz_le : ∀ phdr ∈ segments data, phdr.p_filesz ≤ phdr.p_memsz
  source : ∀ phdr ∈ segments data, phdr.p_offset.toNat + phdr.p_filesz.toNat ≤ data.length
  memory : ∀ phdr ∈ segments data, phdr.p_vaddr.toNat + phdr.p_memsz.toNat < 2 ^ 64
  disjoint : (segments data).Pairwise fun phdr other ↦
    Disjoint phdr.memory.addresses other.memory.addresses

/-- The start of the image: the least address of a loadable segment. -/
def IsImageStart (data : Slice) (start : Nat) : Prop :=
  IsLeast {addr | ∃ phdr ∈ segments data, phdr.p_vaddr.toNat = addr} start

/-- The end of the image: the greatest end of a loadable segment. -/
def IsImageEnd (data : Slice) (stop : Nat) : Prop :=
  IsGreatest {addr | ∃ phdr ∈ segments data, phdr.p_vaddr.toNat + phdr.p_memsz.toNat = addr} stop

namespace WellFormed

variable {data : Slice}

/-- The table of a well-formed image is inside the file. -/
theorem tableInside (h : WellFormed data) : TableInside data := by
  have htable := h.table
  have hlength := data.length_lt
  have hfits : (headerAt data.bytes).TableFits := by
    rw [Elf64Header.TableFits, h.phentsize]
    omega
  refine ⟨⟨h.header, ?_, h.phentsize.ge⟩, hfits⟩
  rw [Elf64Header.toNat_tableEnd, Nat.mod_eq_of_lt hfits, h.phentsize]
  exact htable

/-- The loader computes the start of the image. -/
theorem lowestVaddr_eq {start : Nat} (hstart : IsImageStart data start) :
    lowestVaddr (segments data) = start := by
  obtain ⟨⟨phdr, hmem, rfl⟩, hleast⟩ := hstart
  refine le_antisymm (lowestVaddr_le hmem) ?_
  rcases lowestVaddr_mem (segments data) with hmax | ⟨lowest, hlowest, heq⟩
  · have hlt := phdr.p_vaddr.toNat_lt
    omega
  · exact hleast ⟨lowest, hlowest, heq⟩

/-- The loader computes the end of the image, since no end wraps around. -/
theorem highestEnd_eq (h : WellFormed data) {stop : Nat} (hstop : IsImageEnd data stop) :
    highestEnd (segments data) = stop := by
  obtain ⟨⟨phdr, hmem, rfl⟩, hgreatest⟩ := hstop
  have hend : ∀ other ∈ segments data,
      (other.p_vaddr.toNat + other.p_memsz.toNat) % 2 ^ 64 =
        other.p_vaddr.toNat + other.p_memsz.toNat :=
    fun other hother ↦ Nat.mod_eq_of_lt (h.memory other hother)
  refine le_antisymm ?_ ?_
  · rcases highestEnd_mem (segments data) with hzero | ⟨highest, hhighest, heq⟩
    · omega
    · rw [← heq, hend highest hhighest]
      exact hgreatest ⟨highest, hhighest, rfl⟩
  · rw [← hend phdr hmem]
    exact le_highestEnd hmem

/-- Two segments that have an address in common are the same. -/
theorem eq_of_contains (h : WellFormed data) {phdr other : Elf64Phdr} (hphdr : phdr ∈ segments data)
    (hother : other ∈ segments data) {addr : Nat} (hcontains : phdr.filePart.Contains addr)
    (hcontains' : other.filePart.Contains addr) : phdr = other := by
  by_contra hne
  have hsymm : Std.Symm fun phdr other : Elf64Phdr ↦
      Disjoint phdr.memory.addresses other.memory.addresses := ⟨fun _ _ hdisjoint ↦ hdisjoint.symm⟩
  have hdisjoint := h.disjoint.forall hphdr hother hne
  have hfile := UInt64.le_iff_toNat_le.mp (h.filesz_le phdr hphdr)
  have hfile' := UInt64.le_iff_toNat_le.mp (h.filesz_le other hother)
  have hmem : addr ∈ phdr.memory.addresses :=
    ⟨hcontains.1, lt_of_lt_of_le hcontains.2 (Nat.add_le_add_left hfile _)⟩
  have hmem' : addr ∈ other.memory.addresses :=
    ⟨hcontains'.1, lt_of_lt_of_le hcontains'.2 (Nat.add_le_add_left hfile' _)⟩
  exact Set.disjoint_left.mp hdisjoint hmem hmem'

/-- The loader computes the length of the image. -/
theorem imageSpan_eq (h : WellFormed data) {start stop : Nat} (hstart : IsImageStart data start)
    (hstop : IsImageEnd data stop) : imageSpan (segments data) = stop - start := by
  have hhigh := h.highestEnd_eq hstop
  have hlt : stop < 2 ^ 64 := hhigh ▸ highestEnd_lt (segments data)
  obtain ⟨phdr, hphdr, -⟩ := h.exists_load
  have hstart' : start ≤ phdr.p_vaddr.toNat := hstart.2 ⟨phdr, hphdr, rfl⟩
  have hstop' : phdr.p_vaddr.toNat + phdr.p_memsz.toNat ≤ stop := hstop.2 ⟨phdr, hphdr, rfl⟩
  rw [imageSpan, lowestVaddr_eq hstart, hhigh]
  omega

/-- A copy ends inside the image, because the file part of a segment is no longer than its range in
memory. -/
theorem placed_le (h : WellFormed data) {start stop : Nat} (hstart : IsImageStart data start)
    (hstop : IsImageEnd data stop) {phdr : Elf64Phdr} (hphdr : phdr ∈ segments data) :
    InSlice (phdr.placed start).target (stop - start) := by
  have hstart' : start ≤ phdr.p_vaddr.toNat := hstart.2 ⟨phdr, hphdr, rfl⟩
  have hstop' : phdr.p_vaddr.toNat + phdr.p_memsz.toNat ≤ stop := hstop.2 ⟨phdr, hphdr, rfl⟩
  have hfile := UInt64.le_iff_toNat_le.mp (h.filesz_le phdr hphdr)
  show phdr.p_vaddr.toNat - start + phdr.p_filesz.toNat ≤ stop - start
  omega

/-- A well-formed image that fits the buffer is accepted. -/
theorem accepted (h : WellFormed data) {start stop length : Nat}
    (hstart : IsImageStart data start) (hstop : IsImageEnd data stop)
    (hspan : stop - start ≤ length) : Accepted data length := by
  have hlow := lowestVaddr_eq hstart
  refine ⟨h.tableInside, ?_, ?_, fun phdr hphdr ↦ ⟨h.source phdr hphdr, ?_⟩⟩
  · obtain ⟨phdr, hphdr, hlt⟩ := h.exists_load
    have hle := lowestVaddr_le hphdr
    omega
  · rw [h.imageSpan_eq hstart hstop]
    exact hspan
  · rw [hlow]
    exact (h.placed_le hstart hstop hphdr).trans hspan

/-- A copy covers the bytes of the buffer at which the file part of the segment belongs. -/
theorem placed_contains_iff {start : Nat} (hstart : IsImageStart data start) {phdr : Elf64Phdr}
    (hphdr : phdr ∈ segments data) (k : Nat) :
    (phdr.placed start).target.Contains k ↔ phdr.filePart.Contains (start + k) := by
  have hstart' : start ≤ phdr.p_vaddr.toNat := hstart.2 ⟨phdr, hphdr, rfl⟩
  unfold Elf64Phdr.placed Elf64Phdr.filePart Extent.Contains
  dsimp only
  omega

/-- Where the file part of a segment belongs, the image holds its bytes. -/
theorem imageBytes_of_filePart (h : WellFormed data) {start : Nat}
    (hstart : IsImageStart data start) (bytes : ByteMap) {phdr : Elf64Phdr}
    (hphdr : phdr ∈ segments data) {k : Nat} (hcontains : phdr.filePart.Contains (start + k)) :
    imageBytes data bytes (segments data) k =
      data.bytes (phdr.p_offset.toNat + (start + k - phdr.p_vaddr.toNat)) := by
  rw [imageBytes, lowestVaddr_eq hstart]
  refine ByteMap.copies_of_covered ⟨phdr.placed start, List.mem_map_of_mem hphdr,
    (placed_contains_iff hstart hphdr k).mpr hcontains⟩ ?_
  intro transfer htransfer hcovers
  obtain ⟨other, hother, rfl⟩ := List.mem_map.mp htransfer
  have hcontains' := (placed_contains_iff hstart hother k).mp hcovers
  obtain rfl := h.eq_of_contains hphdr hother hcontains hcontains'
  have hstart' : start ≤ phdr.p_vaddr.toNat := hstart.2 ⟨phdr, hphdr, rfl⟩
  have hle : phdr.p_vaddr.toNat ≤ start + k := hcontains.1
  show data.bytes (phdr.p_offset.toNat + (k - (phdr.p_vaddr.toNat - start))) = _
  congr 2
  omega

/-- Where no file part belongs, the image holds what the fill left. -/
theorem imageBytes_of_not_filePart {start : Nat} (hstart : IsImageStart data start)
    (bytes : ByteMap) {k : Nat}
    (hnone : ∀ phdr ∈ segments data, ¬ phdr.filePart.Contains (start + k)) :
    imageBytes data bytes (segments data) k =
      bytes.fill ⟨0, imageSpan (segments data)⟩ 0 k := by
  rw [imageBytes, lowestVaddr_eq hstart]
  refine ByteMap.copies_of_not_covered fun transfer htransfer hcovers ↦ ?_
  obtain ⟨other, hother, rfl⟩ := List.mem_map.mp htransfer
  exact hnone other hother ((placed_contains_iff hstart hother k).mp hcovers)

end WellFormed

/-- On a well-formed image whose span fits the buffer, `load_at` succeeds for every prior content of
the buffer. Afterwards the buffer holds the bytes of the file where the file part of a segment
belongs, 0 in the rest of the span, and what it held before behind the span; and the entry point is
relocated by the distance between the buffer and the image. -/
theorem load_image {data : Slice} (h : WellFormed data) {start stop : Nat}
    (hstart : IsImageStart data start) (hstop : IsImageEnd data stop) (buffer : Buffer)
    (hspan : stop - start ≤ buffer.length) :
    ∃ loaded after, loadAt data buffer = .ok (.ok loaded, after) ∧
      after.length = buffer.length ∧ after.base = buffer.base ∧
      (∀ k < stop - start,
        (∀ phdr ∈ segments data, phdr.filePart.Contains (start + k) →
          after.bytes k = data.bytes (phdr.p_offset.toNat + (start + k - phdr.p_vaddr.toNat))) ∧
        ((∀ phdr ∈ segments data, ¬ phdr.filePart.Contains (start + k)) → after.bytes k = 0)) ∧
      (∀ k, stop - start ≤ k → after.bytes k = buffer.bytes k) ∧
      loaded.load_size.toNat = stop - start ∧ loaded.load_base = buffer.base ∧
      loaded.entry - loaded.load_base =
        (headerAt data.bytes).e_entry - UInt64.ofNat start := by
  have hlow := WellFormed.lowestVaddr_eq hstart
  have hsize := h.imageSpan_eq hstart hstop
  refine ⟨_, _, loadAt_eq_ok_iff.mpr ⟨h.accepted hstart hstop hspan, rfl, rfl⟩, rfl, rfl,
    ?_, ?_, ?_, rfl, ?_⟩
  · intro k hk
    constructor
    · intro phdr hphdr hcontains
      exact h.imageBytes_of_filePart hstart buffer.bytes hphdr hcontains
    · intro hnone
      refine (WellFormed.imageBytes_of_not_filePart hstart buffer.bytes hnone).trans ?_
      have hlt : k < 0 + (stop - start) := by omega
      rw [hsize]
      exact ByteMap.fill_of_contains ⟨Nat.zero_le k, hlt⟩
  · intro k hk
    have hnone : ∀ phdr ∈ segments data, ¬ phdr.filePart.Contains (start + k) := by
      intro phdr hphdr hcontains
      have hcovers := (WellFormed.placed_contains_iff hstart hphdr k).mpr hcontains
      exact absurd hcovers.2 (not_lt.mpr ((h.placed_le hstart hstop hphdr).trans hk))
    refine (WellFormed.imageBytes_of_not_filePart hstart buffer.bytes hnone).trans ?_
    rw [hsize]
    refine ByteMap.fill_of_not_contains fun hcontains ↦ ?_
    have hlt : k < 0 + (stop - start) := hcontains.2
    omega
  · show (UInt64.ofNat (imageSpan (segments data))).toNat = stop - start
    rw [UInt64.toNat_ofNat', Nat.mod_eq_of_lt (imageSpan_lt _), hsize]
  · show (headerAt data.bytes).e_entry +
      (buffer.base - UInt64.ofNat (lowestVaddr (segments data))) - buffer.base = _
    rw [hlow]
    grind

/-- The bytes of an executable with a table of program headers at `phoff`. -/
def encodeHeader (entry phoff phnum : Nat) : List UInt8 :=
  ELF_MAGIC ++ [ELFCLASS64, ELFDATA2LSB] ++ List.replicate 10 0 ++
    ByteMap.toLe 2 ET_EXEC.toNat ++ ByteMap.toLe 2 EM_X86_64.toNat ++ ByteMap.toLe 4 1 ++
    ByteMap.toLe 8 entry ++ ByteMap.toLe 8 phoff ++ List.replicate 14 0 ++
    ByteMap.toLe 2 PHDR_SIZE ++ ByteMap.toLe 2 phnum ++ List.replicate 6 0

/-- The bytes of a program header. -/
def encodePhdr (phdr : Elf64Phdr) : List UInt8 :=
  ByteMap.toLe 4 phdr.p_type.toNat ++ List.replicate 4 0 ++ ByteMap.toLe 8 phdr.p_offset.toNat ++
    ByteMap.toLe 8 phdr.p_vaddr.toNat ++ List.replicate 8 0 ++
    ByteMap.toLe 8 phdr.p_filesz.toNat ++ ByteMap.toLe 8 phdr.p_memsz.toNat ++ List.replicate 8 0

/-- An executable whose program headers follow the header. -/
def encodeImage (entry : Nat) (phdrs : List Elf64Phdr) (payload : List UInt8) : List UInt8 :=
  encodeHeader entry HEADER_SIZE phdrs.length ++ phdrs.flatMap encodePhdr ++ payload

/-- A data segment before a text segment, with a segment between them that is not loadable. -/
def sampleImage : Slice :=
  .ofList (encodeImage 0x1000 [⟨PT_LOAD, 235, 0x1010, 1, 4⟩, ⟨4, 0, 0, 8, 8⟩,
    ⟨PT_LOAD, 232, 0x1000, 3, 8⟩] [0xAA, 0xBB, 0xCC, 0xDD]) (by decide +kernel)

theorem segments_sampleImage :
    segments sampleImage = [⟨PT_LOAD, 235, 0x1010, 1, 4⟩, ⟨PT_LOAD, 232, 0x1000, 3, 8⟩] := by
  decide +kernel

/-- A buffer of 32 bytes, all 255. -/
def sampleBuffer : Buffer := ⟨⟨32, fun _ ↦ 0xFF, by decide⟩, 0x200000, by decide⟩

theorem wellFormed_sampleImage : WellFormed sampleImage := by
  refine ⟨⟨by decide +kernel, by decide +kernel, by decide +kernel, by decide +kernel,
    by decide +kernel, by decide +kernel⟩, by decide +kernel, by decide +kernel, ?_, ?_, ?_, ?_, ?_⟩
  all_goals rw [segments_sampleImage]
  · decide
  · decide
  · decide +kernel
  · decide
  · refine List.pairwise_pair.mpr ((Extent.apart_iff_disjoint ?_ ?_).mp ?_) <;> decide

/-- The segments of `sampleImage` in a buffer with other contents before. -/
theorem load_image_sample :
    ∃ loaded after, loadAt sampleImage sampleBuffer = .ok (.ok loaded, after) ∧
      after.bytes 1 = 0xBB ∧ after.bytes 7 = 0 ∧ after.bytes 16 = 0xDD ∧ after.bytes 20 = 0xFF := by
  have hstart : IsImageStart sampleImage 0x1000 := by
    rw [IsImageStart, segments_sampleImage]
    exact ⟨by decide, fun addr haddr ↦ by simp at haddr; omega⟩
  have hstop : IsImageEnd sampleImage 0x1014 := by
    rw [IsImageEnd, segments_sampleImage]
    exact ⟨by decide, fun addr haddr ↦ by simp at haddr; omega⟩
  obtain ⟨loaded, after, hload, -, -, hspan, hbehind, -⟩ :=
    load_image wellFormed_sampleImage hstart hstop sampleBuffer (by decide)
  rw [segments_sampleImage] at hspan
  refine ⟨loaded, after, hload, ?_, ?_, ?_, hbehind 20 (by decide)⟩
  · exact (hspan 1 (by decide)).1 ⟨PT_LOAD, 232, 0x1000, 3, 8⟩ (by decide) (by decide)
  · exact (hspan 7 (by decide)).2 (by decide)
  · exact (hspan 16 (by decide)).1 ⟨PT_LOAD, 235, 0x1010, 1, 4⟩ (by decide) (by decide)

end Avaria.Elf
