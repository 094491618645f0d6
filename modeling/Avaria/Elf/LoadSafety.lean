import Avaria.Elf.LoadImage

/-!
# The ELF loader on arbitrary input

`load_at` checks sums that can wrap around, checks the source of a copy but not its target, and does
not check the entry point. `load_in_range_iff` says for which images and buffers no access leaves
the slices, and `load_confined_iff` for which accepted images everything that was written, and the
entry point, lie in the range that the loader reports.
-/

namespace Avaria.Elf

/-- The checked sum of `program_headers` does not wrap around when the table is accepted; and as far
as the second loop gets, no source range wraps around and every copy ends inside the buffer. -/
structure InRange (data : Slice) (length : Nat) : Prop where
  table : TableAccepted data → (headerAt data.bytes).TableFits
  copies : TableInside data → lowestVaddr (segments data) ≠ 2 ^ 64 - 1 →
    imageSpan (segments data) ≤ length →
    ∀ phdr ∈ (segments data).takeWhile (Elf64Phdr.sourceAccepted data),
      phdr.p_offset.toNat + phdr.p_filesz.toNat < 2 ^ 64 ∧
        phdr.p_vaddr.toNat - lowestVaddr (segments data) + phdr.p_filesz.toNat ≤ length

/-- A source range that passes the check lies inside the file exactly if it does not wrap around. -/
theorem Elf64Phdr.placeable_iff {data : Slice} {length : Nat} {phdr : Elf64Phdr}
    (haccepted : phdr.sourceAccepted data) :
    phdr.Placeable data length ↔ phdr.p_offset.toNat + phdr.p_filesz.toNat < 2 ^ 64 ∧
      phdr.p_vaddr.toNat - lowestVaddr (segments data) + phdr.p_filesz.toNat ≤ length := by
  have hlength := data.length_lt
  rw [Elf64Phdr.sourceAccepted, decide_eq_true_iff, UInt64.toNat_add] at haccepted
  refine and_congr ?_ Iff.rfl
  show phdr.p_offset.toNat + phdr.p_filesz.toNat ≤ data.length ↔ _
  constructor
  · intro hinside
    omega
  · intro hlt
    rwa [Nat.mod_eq_of_lt hlt] at haccepted

/-- On an image and a buffer, `load_at` returns without an access outside the two slices exactly if
no accepted table wraps around and the segments that are copied neither wrap around in the file nor
reach past the end of the buffer. -/
theorem load_in_range_iff (data : Slice) (buffer : Buffer) :
    (∃ result, loadAt data buffer = .ok result) ↔ InRange data buffer.length := by
  rcases loadAt_cases data buffer with
    ⟨htable, error, heq⟩ | ⟨htable, hfits, heq⟩ | ⟨hinside, hrefused, heq⟩ |
      ⟨⟨hinside, hempty, hspan⟩, hcases⟩
  · exact iff_of_true ⟨_, heq⟩ ⟨fun haccepted ↦ absurd haccepted htable,
      fun hinside ↦ absurd hinside.toTableAccepted htable⟩
  · rw [heq]
    exact iff_of_false (fun ⟨_, hresult⟩ ↦ by cases hresult) fun hrange ↦
      hfits (hrange.table htable)
  · refine iff_of_true ⟨_, heq⟩ ⟨fun _ ↦ hinside.fits, fun _ hempty hspan ↦ ?_⟩
    rcases hrefused with hlowest | hlong
    · exact absurd hlowest hempty
    · exact absurd hspan (not_le.mpr hlong)
  · have hplaceable : (∀ phdr ∈ (segments data).takeWhile (Elf64Phdr.sourceAccepted data),
        phdr.Placeable data buffer.length) ↔
        ∀ phdr ∈ (segments data).takeWhile (Elf64Phdr.sourceAccepted data),
          phdr.p_offset.toNat + phdr.p_filesz.toNat < 2 ^ 64 ∧
            phdr.p_vaddr.toNat - lowestVaddr (segments data) + phdr.p_filesz.toNat ≤
              buffer.length :=
      forall_congr' fun phdr ↦ imp_congr_right fun hphdr ↦
        Elf64Phdr.placeable_iff (List.mem_takeWhile_imp hphdr)
    rcases hcases with ⟨hall, heq⟩ | ⟨hall, heq⟩
    · rw [heq]
      exact iff_of_false (fun ⟨_, hresult⟩ ↦ by cases hresult) fun hrange ↦
        hall (hplaceable.mpr (hrange.copies hinside hempty hspan))
    · exact iff_of_true ⟨_, heq⟩ ⟨fun _ ↦ hinside.fits, fun _ _ _ ↦ hplaceable.mp hall⟩

/-- A segment with 40 bytes in the file and one in memory. -/
def oversizedImage : Slice :=
  .ofList (encodeImage 0x1000 [⟨PT_LOAD, 120, 0x1000, 40, 1⟩] (List.replicate 40 0xAA))
    (by decide +kernel)

/-- A header whose table starts 56 bytes before the file. -/
def wrappedImage : Slice := .ofList (encodeHeader 0x1000 (2 ^ 64 - 56) 1) (by decide +kernel)

/-- The copy of the oversized segment leaves the buffer, and the wrapped table is read outside the
file. -/
theorem load_out_of_range :
    (¬ ∃ result, loadAt oversizedImage sampleBuffer = .ok result) ∧
      ¬ ∃ result, loadAt wrappedImage sampleBuffer = .ok result := by
  have hoversized : (loadAt oversizedImage sampleBuffer).toOption.isSome = false := by
    decide +kernel
  have hwrapped : (loadAt wrappedImage sampleBuffer).toOption.isSome = false := by
    decide +kernel
  constructor
  · intro hcase
    obtain ⟨result, hresult⟩ := hcase
    rw [hresult] at hoversized
    cases hoversized
  · intro hcase
    obtain ⟨result, hresult⟩ := hcase
    rw [hresult] at hwrapped
    cases hwrapped

/-! ## The reported range -/

/-- Every byte that `load_at` changed is in the reported range, and so is the entry point. -/
structure Confined (buffer after : Buffer) (loaded : LoadedElf) : Prop where
  changed : ∀ k, after.bytes k ≠ buffer.bytes k → k < loaded.load_size.toNat
  base_le : loaded.load_base.toNat ≤ loaded.entry.toNat
  lt_end : loaded.entry.toNat < loaded.load_base.toNat + loaded.load_size.toNat

/-- No segment with bytes in the file reaches past the greatest end in memory, and the entry point
is less than that end away from the least address. -/
structure Inside (data : Slice) : Prop where
  copies : ∀ phdr ∈ segments data, 0 < phdr.p_filesz.toNat →
    phdr.p_vaddr.toNat - lowestVaddr (segments data) + phdr.p_filesz.toNat ≤
      imageSpan (segments data)
  entry : (2 ^ 64 - lowestVaddr (segments data) + (headerAt data.bytes).e_entry.toNat) % 2 ^ 64 <
    imageSpan (segments data)

/-- The entry point is in the reported range exactly if it is in the range of the image. -/
theorem entry_mem_iff {data : Slice} {length : Nat} (h : Accepted data length) {base : UInt64}
    (hbase : base.toNat + length ≤ 2 ^ 64) :
    base.toNat ≤ (loadedElf data base).entry.toNat ∧
        (loadedElf data base).entry.toNat < base.toNat + imageSpan (segments data) ↔
      (2 ^ 64 - lowestVaddr (segments data) + (headerAt data.bytes).e_entry.toNat) % 2 ^ 64 <
        imageSpan (segments data) := by
  have hlow := lowestVaddr_le_max (segments data)
  have hspan := h.span
  have hentry : (loadedElf data base).entry.toNat = ((headerAt data.bytes).e_entry.toNat +
      (2 ^ 64 - lowestVaddr (segments data) + base.toNat) % 2 ^ 64) % 2 ^ 64 := by
    rw [loadedElf, UInt64.toNat_add, UInt64.toNat_sub, UInt64.toNat_ofNat',
      Nat.mod_eq_of_lt (a := lowestVaddr _) (by omega)]
  rw [hentry]
  omega

/-- The value of a byte that a copy covers does not depend on the buffer. -/
theorem imageBytes_congr {data : Slice} {phdr : Elf64Phdr} (hphdr : phdr ∈ segments data) {k : Nat}
    (hcovers : (phdr.placed (lowestVaddr (segments data))).target.Contains k)
    (bytes bytes' : ByteMap) :
    imageBytes data bytes (segments data) k = imageBytes data bytes' (segments data) k :=
  ByteMap.copies_congr ⟨_, List.mem_map_of_mem hphdr, hcovers⟩

/-- When `load_at` accepts an image, then for every prior content of the buffer all changed bytes
and the entry point are in the reported range, exactly if no segment has bytes in the file behind
the greatest end in memory and the entry point is in the range of the image. -/
theorem load_confined_iff {data : Slice} {buffer after : Buffer} {loaded : LoadedElf}
    (h : loadAt data buffer = .ok (.ok loaded, after)) :
    (∀ bytes loaded after, loadAt data (buffer.withBytes bytes) = .ok (.ok loaded, after) →
      Confined (buffer.withBytes bytes) after loaded) ↔ Inside data := by
  obtain ⟨haccepted, -, -⟩ := loadAt_eq_ok_iff.mp h
  have hspan : (UInt64.ofNat (imageSpan (segments data))).toNat = imageSpan (segments data) := by
    rw [UInt64.toNat_ofNat', Nat.mod_eq_of_lt (imageSpan_lt _)]
  have hentry := entry_mem_iff haccepted buffer.base_add_le
  constructor
  · intro hconfined
    have hresult := fun bytes ↦ hconfined bytes (loadedElf data buffer.base)
      ((buffer.withBytes bytes).withBytes (imageBytes data bytes (segments data)))
      (loadAt_eq_ok_iff.mpr ⟨haccepted, rfl, rfl⟩)
    refine ⟨fun phdr hphdr hfilesz ↦ ?_, ?_⟩
    · -- fill the buffer with a byte other than the last one that the segment brings
      set k := phdr.p_vaddr.toNat - lowestVaddr (segments data) + phdr.p_filesz.toNat - 1 with hk
      have hcovers : (phdr.placed (lowestVaddr (segments data))).target.Contains k := by
        show phdr.p_vaddr.toNat - lowestVaddr (segments data) ≤ k ∧
          k < phdr.p_vaddr.toNat - lowestVaddr (segments data) + phdr.p_filesz.toNat
        omega
      have hchanged := (hresult fun _ ↦ imageBytes data (fun _ ↦ 0) (segments data) k + 1).changed k
      have hlt : k < imageSpan (segments data) := by
        rw [← hspan]
        refine hchanged ?_
        show imageBytes data _ (segments data) k ≠ imageBytes data _ (segments data) k + 1
        rw [imageBytes_congr hphdr hcovers _ fun _ ↦ 0]
        intro heq
        have hbyte := congrArg UInt8.toNat heq
        rw [UInt8.toNat_add] at hbyte
        have hone : (1 : UInt8).toNat = 1 := rfl
        omega
      omega
    · have hbase := hresult buffer.bytes
      exact hentry.mp ⟨hbase.base_le, hspan ▸ hbase.lt_end⟩
  · intro hinside bytes loaded after hload
    obtain ⟨-, rfl, rfl⟩ := loadAt_eq_ok_iff.mp hload
    obtain ⟨hbase, hend⟩ := hentry.mpr hinside.entry
    refine ⟨fun k hchanged ↦ ?_, hbase, hspan.symm ▸ hend⟩
    show k < (UInt64.ofNat (imageSpan (segments data))).toNat
    rw [hspan]
    by_contra hbehind
    refine hchanged ((ByteMap.copies_of_not_covered fun transfer htransfer hcovers ↦ ?_).trans
      (ByteMap.fill_of_not_contains fun hcontains ↦ ?_))
    · obtain ⟨phdr, hphdr, rfl⟩ := List.mem_map.mp htransfer
      have hstart : phdr.p_vaddr.toNat - lowestVaddr (segments data) ≤ k := hcovers.1
      have hlt : k < phdr.p_vaddr.toNat - lowestVaddr (segments data) + phdr.p_filesz.toNat :=
        hcovers.2
      have hle := hinside.copies phdr hphdr (by omega)
      omega
    · have hlt : k < 0 + imageSpan (segments data) := hcontains.2
      omega

/-- An image with a text segment whose part in the file is as long as in memory. -/
theorem load_confined_sample :
    ∃ loaded after, loadAt sampleImage sampleBuffer = .ok (.ok loaded, after) ∧
      Confined sampleBuffer after loaded := by
  have hlow : lowestVaddr (segments sampleImage) = 0x1000 := by
    rw [segments_sampleImage]
    decide
  have hspan : imageSpan (segments sampleImage) = 0x14 := by
    rw [segments_sampleImage]
    decide
  have haccepted : Accepted sampleImage sampleBuffer.length := by
    refine ⟨wellFormed_sampleImage.tableInside, ?_, ?_, ?_⟩
    · rw [hlow]
      decide
    · rw [hspan]
      decide
    · rw [segments_sampleImage]
      decide +kernel
  have hinside : Inside sampleImage := by
    constructor
    · rw [hlow, hspan, segments_sampleImage]
      decide
    · rw [hlow, hspan]
      decide +kernel
  have hload := loadAt_eq_ok_iff.mpr ⟨haccepted, rfl, rfl⟩
  exact ⟨_, _, hload, (load_confined_iff hload).mpr hinside sampleBuffer.bytes _ _ hload⟩

/-- A segment with four bytes in the file and one in memory, and an entry point outside. -/
def overlongImage : Slice :=
  .ofList (encodeImage 0x5000 [⟨PT_LOAD, 120, 0x1000, 4, 1⟩] [0xAA, 0xBB, 0xCC, 0xDD])
    (by decide +kernel)

/-- The loader reports one byte, writes four, and the entry point is elsewhere. -/
theorem load_not_confined :
    ∃ loaded after, loadAt overlongImage sampleBuffer = .ok (.ok loaded, after) ∧
      loaded.load_size = 1 ∧ after.bytes 3 = 0xDD ∧ loaded.entry = 0x204000 ∧
      ¬ Confined sampleBuffer after loaded := by
  have hsegments : segments overlongImage = [⟨PT_LOAD, 120, 0x1000, 4, 1⟩] := by decide +kernel
  have haccepted : Accepted overlongImage sampleBuffer.length := by
    refine ⟨⟨⟨⟨?_, ?_, ?_, ?_, ?_, ?_⟩, ?_, ?_⟩, ?_⟩, ?_, ?_, ?_⟩
    all_goals decide +kernel
  have hbyte : imageBytes overlongImage sampleBuffer.bytes (segments overlongImage) 3 = 0xDD := by
    decide +kernel
  refine ⟨_, _, loadAt_eq_ok_iff.mpr ⟨haccepted, rfl, rfl⟩, by decide +kernel, hbyte,
    by decide +kernel, fun hconfined ↦ ?_⟩
  have hchanged := hconfined.changed 3
  revert hchanged
  decide +kernel

end Avaria.Elf
