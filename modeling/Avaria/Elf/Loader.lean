import Avaria.Elf.Header
import Mathlib.Data.List.TakeWhile

/-!
# The ELF loader

`load_at` of `loader.rs`: a pass over the program headers for the address range of the loadable
segments, a fill of that range in the buffer, and a pass that copies the segments.

`copyLoop_eq` says what the second pass does in terms of the loadable segments alone: it copies the
segments before the first that fails the source check, unless one of these does not fit.
-/

namespace Avaria.Elf

/-- A mutable byte slice with its address. -/
structure Buffer extends Slice where
  base : UInt64
  base_add_le : base.toNat + length ≤ 2 ^ 64

/-- The buffer with other contents. -/
def Buffer.withBytes (buffer : Buffer) (bytes : ByteMap) : Buffer := { buffer with bytes }

@[simp] theorem Buffer.withBytes_bytes (buffer : Buffer) (bytes : ByteMap) :
    (buffer.withBytes bytes).bytes = bytes := rfl

@[simp] theorem Buffer.withBytes_withBytes (buffer : Buffer) (bytes bytes' : ByteMap) :
    (buffer.withBytes bytes).withBytes bytes' = buffer.withBytes bytes' := rfl

/-- `u64::MAX`. -/
def U64_MAX : UInt64 := 0xFFFFFFFFFFFFFFFF

/-- `struct LoadedElf`. -/
structure LoadedElf where
  entry : UInt64
  load_base : UInt64
  load_size : UInt64
  deriving DecidableEq, Repr

/-- The range of the index expression `[start..stop]`, which panics on a range outside the slice. -/
def sliceRange (length : Nat) (start stop : UInt64) : Option Extent :=
  if start ≤ stop ∧ stop.toNat ≤ length then some ⟨start.toNat, stop.toNat - start.toNat⟩ else none

/-- The segment is loadable. -/
def Elf64Phdr.isLoad (phdr : Elf64Phdr) : Bool := decide (phdr.p_type = PT_LOAD)

/-- One step of the first loop of `load_at`, on `vaddr_min` and `vaddr_max`. -/
def widen (range : UInt64 × UInt64) (phdr : Elf64Phdr) : UInt64 × UInt64 :=
  if phdr.isLoad then
    let stop := phdr.p_vaddr + phdr.p_memsz
    (if phdr.p_vaddr < range.1 then phdr.p_vaddr else range.1,
      if stop > range.2 then stop else range.2)
  else range

/-- The first loop of `load_at`. -/
def vaddrRange (phdrs : List Elf64Phdr) : UInt64 × UInt64 :=
  phdrs.foldl widen (U64_MAX, 0)

/-- The second loop of `load_at`. -/
def copyLoop (data : Slice) (vaddrMin : UInt64) :
    List Elf64Phdr → Buffer → Except Fault (Except ElfError Unit × Buffer)
  | [], buffer => .ok (.ok (), buffer)
  | phdr :: rest, buffer =>
      if phdr.isLoad then
        let srcOff := phdr.p_offset
        let filesz := phdr.p_filesz
        let dstOff := phdr.p_vaddr - vaddrMin
        if (srcOff + filesz).toNat > data.length then .ok (.error .badPhdr, buffer)
        else
          match sliceRange buffer.length dstOff (dstOff + filesz),
              sliceRange data.length srcOff (srcOff + filesz) with
          | some target, some source =>
              if target.length = source.length then
                copyLoop data vaddrMin rest
                  (buffer.withBytes (buffer.bytes.copy target data.bytes source.start))
              else .error .sliceIndex
          | _, _ => .error .sliceIndex
      else copyLoop data vaddrMin rest buffer

/-- `load_at`. The buffer is part of every result, since an error may come after some copies. -/
def loadAt (data : Slice) (buffer : Buffer) : Except Fault (Except ElfError LoadedElf × Buffer) :=
  match parseHeader data with
  | .error error => .ok (.error error, buffer)
  | .ok hdr =>
      match programHeaders data hdr with
      | .error fault => .error fault
      | .ok (.error error) => .ok (.error error, buffer)
      | .ok (.ok phdrs) =>
          let (vaddrMin, vaddrMax) := vaddrRange phdrs
          if vaddrMin = U64_MAX then .ok (.error .badPhdr, buffer)
          else
            let totalSize := vaddrMax - vaddrMin
            if totalSize.toNat > buffer.length then .ok (.error .badPhdr, buffer)
            else
              let filled := buffer.withBytes (buffer.bytes.fill ⟨0, totalSize.toNat⟩ 0)
              let relocOffset := buffer.base - vaddrMin
              match copyLoop data vaddrMin phdrs filled with
              | .error fault => .error fault
              | .ok (.error error, buffer) => .ok (.error error, buffer)
              | .ok (.ok (), buffer) =>
                  .ok (.ok ⟨hdr.e_entry + relocOffset, buffer.base, totalSize⟩, buffer)

/-! ## The copies -/

/-- An index range given by its start and its size is in range if it is as a range of numbers. -/
theorem sliceRange_add {length : Nat} (hlength : length < 2 ^ 63) (start size : UInt64) :
    sliceRange length start (start + size) =
      if start.toNat + size.toNat ≤ length then some ⟨start.toNat, size.toNat⟩ else none := by
  have hstart := start.toNat_lt
  have hsize := size.toNat_lt
  have hadd : (start + size).toNat = (start.toNat + size.toNat) % 2 ^ 64 := UInt64.toNat_add ..
  unfold sliceRange
  simp only [UInt64.le_iff_toNat_le, hadd]
  by_cases hfits : start.toNat + size.toNat ≤ length
  · rw [Nat.mod_eq_of_lt (show start.toNat + size.toNat < 2 ^ 64 by omega),
      if_pos ⟨Nat.le_add_right .., hfits⟩, if_pos hfits, Nat.add_sub_cancel_left]
  · rw [if_neg hfits, if_neg (by omega)]

/-- The loadable segments. -/
def loads (phdrs : List Elf64Phdr) : List Elf64Phdr := phdrs.filter Elf64Phdr.isLoad

/-- The source check of `load_at`. -/
def Elf64Phdr.sourceAccepted (data : Slice) (phdr : Elf64Phdr) : Bool :=
  decide ((phdr.p_offset + phdr.p_filesz).toNat ≤ data.length)

/-- The bytes of the segment in the file. -/
def Elf64Phdr.source (phdr : Elf64Phdr) : Extent := ⟨phdr.p_offset.toNat, phdr.p_filesz.toNat⟩

/-- The range of the buffer that the segment is copied to. -/
def Elf64Phdr.target (vaddrMin : UInt64) (phdr : Elf64Phdr) : Extent :=
  ⟨(phdr.p_vaddr - vaddrMin).toNat, phdr.p_filesz.toNat⟩

/-- The range ends inside a slice. -/
def InSlice (range : Extent) (length : Nat) : Prop := range.start + range.length ≤ length

instance (range : Extent) (length : Nat) : Decidable (InSlice range length) :=
  inferInstanceAs (Decidable (_ ≤ _))

/-- Both ranges of the copy are in range. -/
def Elf64Phdr.Fits (data : Slice) (vaddrMin : UInt64) (length : Nat) (phdr : Elf64Phdr) : Prop :=
  InSlice phdr.source data.length ∧ InSlice (phdr.target vaddrMin) length

instance (data : Slice) (vaddrMin : UInt64) (length : Nat) (phdr : Elf64Phdr) :
    Decidable (phdr.Fits data vaddrMin length) := inferInstanceAs (Decidable (_ ∧ _))

/-- The copy of a segment in a buffer that starts at the least address. -/
def Elf64Phdr.placed (lowest : Nat) (phdr : Elf64Phdr) : ByteMap.Transfer :=
  ⟨⟨phdr.p_vaddr.toNat - lowest, phdr.p_filesz.toNat⟩, phdr.p_offset.toNat⟩

/-- The copy of the segment. -/
def Elf64Phdr.transfer (vaddrMin : UInt64) (phdr : Elf64Phdr) : ByteMap.Transfer :=
  ⟨phdr.target vaddrMin, phdr.p_offset.toNat⟩

/-- One step of the second loop. -/
theorem copyLoop_cons (data : Slice) (vaddrMin : UInt64) (phdr : Elf64Phdr)
    (rest : List Elf64Phdr) (buffer : Buffer) :
    copyLoop data vaddrMin (phdr :: rest) buffer =
      if phdr.isLoad then
        if phdr.sourceAccepted data then
          if phdr.Fits data vaddrMin buffer.length then
            copyLoop data vaddrMin rest (buffer.withBytes
              (buffer.bytes.copy (phdr.target vaddrMin) data.bytes phdr.p_offset.toNat))
          else .error .sliceIndex
        else .ok (.error .badPhdr, buffer)
      else copyLoop data vaddrMin rest buffer := by
  conv_lhs => unfold copyLoop
  by_cases hload : phdr.isLoad
  · simp only [hload, ↓reduceIte]
    by_cases haccepted : (phdr.p_offset + phdr.p_filesz).toNat ≤ data.length
    · rw [if_neg (not_lt.mpr haccepted),
        if_pos (by simpa [Elf64Phdr.sourceAccepted] using haccepted),
        sliceRange_add buffer.length_lt, sliceRange_add data.length_lt]
      by_cases htarget : (phdr.p_vaddr - vaddrMin).toNat + phdr.p_filesz.toNat ≤ buffer.length
      · by_cases hsource : phdr.p_offset.toNat + phdr.p_filesz.toNat ≤ data.length
        · rw [if_pos htarget, if_pos hsource,
            if_pos (show phdr.Fits data vaddrMin buffer.length from ⟨hsource, htarget⟩)]
          exact if_pos rfl
        · rw [if_neg hsource,
            if_neg fun hfits : phdr.Fits data vaddrMin buffer.length ↦ hsource hfits.1]
          split <;> simp_all
      · rw [if_neg htarget,
          if_neg fun hfits : phdr.Fits data vaddrMin buffer.length ↦ htarget hfits.2]
    · rw [if_pos (not_le.mp haccepted),
        if_neg (by simpa [Elf64Phdr.sourceAccepted] using not_le.mp haccepted)]
  · simp only [hload, Bool.false_eq_true, ↓reduceIte]

/-- The segments that the second loop copies: those before the first that fails the source
check. -/
def copied (data : Slice) (phdrs : List Elf64Phdr) : List Elf64Phdr :=
  (loads phdrs).takeWhile (Elf64Phdr.sourceAccepted data)

/-- What the second loop does: it copies segments up to the first that fails the source check, and
faults if one of them does not fit. -/
theorem copyLoop_eq (data : Slice) (vaddrMin : UInt64) (phdrs : List Elf64Phdr) (buffer : Buffer) :
    copyLoop data vaddrMin phdrs buffer =
      if ∀ phdr ∈ copied data phdrs, phdr.Fits data vaddrMin buffer.length then
        .ok (if ∀ phdr ∈ loads phdrs, phdr.sourceAccepted data then .ok () else .error .badPhdr,
          buffer.withBytes (ByteMap.copies data.bytes buffer.bytes
            ((copied data phdrs).map (Elf64Phdr.transfer vaddrMin))))
      else .error .sliceIndex := by
  induction phdrs generalizing buffer with
  | nil => simp [copyLoop, copied, loads, ByteMap.copies, Buffer.withBytes]
  | cons phdr rest ih =>
      rw [copyLoop_cons]
      by_cases hload : phdr.isLoad
      · have hloads : loads (phdr :: rest) = phdr :: loads rest := List.filter_cons_of_pos hload
        rw [if_pos hload]
        by_cases haccepted : phdr.sourceAccepted data
        · have hcopied : copied data (phdr :: rest) = phdr :: copied data rest := by
            rw [copied, hloads, List.takeWhile_cons_of_pos haccepted, copied]
          rw [if_pos haccepted, hcopied, hloads]
          simp only [List.forall_mem_cons, haccepted, true_and]
          by_cases hfits : phdr.Fits data vaddrMin buffer.length
          · rw [if_pos hfits, ih]
            simp only [hfits, true_and]
            rfl
          · rw [if_neg hfits, if_neg fun hall ↦ hfits hall.1]
        · have hcopied : copied data (phdr :: rest) = [] := by
            rw [copied, hloads, List.takeWhile_cons_of_neg haccepted]
          rw [if_neg haccepted, hcopied, hloads, if_pos (by simp), if_neg (by simp [haccepted])]
          rfl
      · have hloads : loads (phdr :: rest) = loads rest := List.filter_cons_of_neg hload
        rw [if_neg hload, ih, copied, copied, hloads]

/-! ## The address range -/

/-- The least address of the segments, and `u64::MAX` if there are none. -/
def lowestVaddr (segments : List Elf64Phdr) : Nat :=
  segments.foldr (fun phdr lowest ↦ min phdr.p_vaddr.toNat lowest) (2 ^ 64 - 1)

/-- The greatest end of the segments in memory, each end modulo `2 ^ 64`. -/
def highestEnd (segments : List Elf64Phdr) : Nat :=
  segments.foldr (fun phdr highest ↦
    max ((phdr.p_vaddr.toNat + phdr.p_memsz.toNat) % 2 ^ 64) highest) 0

/-- The length of the range from the least address to the greatest end, modulo `2 ^ 64`. -/
def imageSpan (segments : List Elf64Phdr) : Nat :=
  (2 ^ 64 - lowestVaddr segments + highestEnd segments) % 2 ^ 64

theorem lowestVaddr_le {segments : List Elf64Phdr} {phdr : Elf64Phdr} (h : phdr ∈ segments) :
    lowestVaddr segments ≤ phdr.p_vaddr.toNat := by
  induction segments with
  | nil => cases h
  | cons head rest ih =>
      show min head.p_vaddr.toNat (lowestVaddr rest) ≤ _
      rcases List.mem_cons.mp h with rfl | hmem
      · exact min_le_left _ _
      · exact (min_le_right _ _).trans (ih hmem)

theorem lowestVaddr_mem (segments : List Elf64Phdr) :
    lowestVaddr segments = 2 ^ 64 - 1 ∨
      ∃ phdr ∈ segments, phdr.p_vaddr.toNat = lowestVaddr segments := by
  induction segments with
  | nil => exact Or.inl rfl
  | cons head rest ih =>
      have hmin : lowestVaddr (head :: rest) = min head.p_vaddr.toNat (lowestVaddr rest) := rfl
      rcases min_choice head.p_vaddr.toNat (lowestVaddr rest) with hhead | hrest
      · exact Or.inr ⟨head, List.mem_cons_self, by rw [hmin, hhead]⟩
      · rw [hmin, hrest]
        refine ih.imp_right fun hcase ↦ ?_
        obtain ⟨phdr, hmem, heq⟩ := hcase
        exact ⟨phdr, List.mem_cons_of_mem _ hmem, heq⟩

theorem le_highestEnd {segments : List Elf64Phdr} {phdr : Elf64Phdr} (h : phdr ∈ segments) :
    (phdr.p_vaddr.toNat + phdr.p_memsz.toNat) % 2 ^ 64 ≤ highestEnd segments := by
  induction segments with
  | nil => cases h
  | cons head rest ih =>
      show _ ≤ max ((head.p_vaddr.toNat + head.p_memsz.toNat) % 2 ^ 64) (highestEnd rest)
      rcases List.mem_cons.mp h with rfl | hmem
      · exact le_max_left _ _
      · exact (ih hmem).trans (le_max_right _ _)

theorem highestEnd_mem (segments : List Elf64Phdr) :
    highestEnd segments = 0 ∨ ∃ phdr ∈ segments,
      (phdr.p_vaddr.toNat + phdr.p_memsz.toNat) % 2 ^ 64 = highestEnd segments := by
  induction segments with
  | nil => exact Or.inl rfl
  | cons head rest ih =>
      have hmax : highestEnd (head :: rest) =
          max ((head.p_vaddr.toNat + head.p_memsz.toNat) % 2 ^ 64) (highestEnd rest) := rfl
      rcases max_choice ((head.p_vaddr.toNat + head.p_memsz.toNat) % 2 ^ 64) (highestEnd rest) with
        hhead | hrest
      · exact Or.inr ⟨head, List.mem_cons_self, by rw [hmax, hhead]⟩
      · rw [hmax, hrest]
        refine ih.imp_right fun hcase ↦ ?_
        obtain ⟨phdr, hmem, heq⟩ := hcase
        exact ⟨phdr, List.mem_cons_of_mem _ hmem, heq⟩

/-- The first loop computes the least address and the greatest end of the loadable segments. -/
theorem foldl_widen (phdrs : List Elf64Phdr) (range : UInt64 × UInt64) :
    ((phdrs.foldl widen range).1.toNat = min (lowestVaddr (loads phdrs)) range.1.toNat) ∧
    ((phdrs.foldl widen range).2.toNat = max (highestEnd (loads phdrs)) range.2.toNat) := by
  induction phdrs generalizing range with
  | nil =>
      have hlow := range.1.toNat_lt
      constructor
      · show range.1.toNat = min (2 ^ 64 - 1) range.1.toNat
        omega
      · show range.2.toNat = max 0 range.2.toNat
        omega
  | cons phdr rest ih =>
      obtain ⟨hlow, hhigh⟩ := ih (widen range phdr)
      rw [List.foldl_cons, hlow, hhigh]
      by_cases hload : phdr.isLoad
      · have hloads : loads (phdr :: rest) = phdr :: loads rest := List.filter_cons_of_pos hload
        have hwiden : widen range phdr =
            (if phdr.p_vaddr < range.1 then phdr.p_vaddr else range.1,
              if phdr.p_vaddr + phdr.p_memsz > range.2 then phdr.p_vaddr + phdr.p_memsz
              else range.2) := if_pos hload
        have hend : (phdr.p_vaddr + phdr.p_memsz).toNat =
            (phdr.p_vaddr.toNat + phdr.p_memsz.toNat) % 2 ^ 64 := UInt64.toNat_add ..
        rw [hwiden, hloads]
        constructor
        · show _ = min (min phdr.p_vaddr.toNat (lowestVaddr (loads rest))) range.1.toNat
          dsimp only
          split
          · rename_i hless
            rw [UInt64.lt_iff_toNat_lt] at hless
            omega
          · rename_i hless
            rw [UInt64.lt_iff_toNat_lt] at hless
            omega
        · show _ = max (max ((phdr.p_vaddr.toNat + phdr.p_memsz.toNat) % 2 ^ 64)
            (highestEnd (loads rest))) range.2.toNat
          dsimp only
          split
          · rename_i hgreater
            rw [gt_iff_lt, UInt64.lt_iff_toNat_lt] at hgreater
            omega
          · rename_i hgreater
            rw [gt_iff_lt, UInt64.lt_iff_toNat_lt] at hgreater
            omega
      · have hloads : loads (phdr :: rest) = loads rest := List.filter_cons_of_neg hload
        rw [show widen range phdr = range from if_neg hload, hloads]
        exact ⟨rfl, rfl⟩

theorem lowestVaddr_le_max (segments : List Elf64Phdr) : lowestVaddr segments ≤ 2 ^ 64 - 1 := by
  cases segments with
  | nil => exact le_rfl
  | cons phdr rest =>
      have hlow := phdr.p_vaddr.toNat_lt
      exact (lowestVaddr_le List.mem_cons_self).trans (by omega)

theorem highestEnd_lt (segments : List Elf64Phdr) : highestEnd segments < 2 ^ 64 := by
  induction segments with
  | nil => exact Nat.two_pow_pos 64
  | cons phdr rest ih => exact max_lt (Nat.mod_lt _ (Nat.two_pow_pos 64)) ih

theorem toNat_vaddrRange_fst (phdrs : List Elf64Phdr) :
    (vaddrRange phdrs).1.toNat = lowestVaddr (loads phdrs) := by
  have hle := lowestVaddr_le_max (loads phdrs)
  rw [vaddrRange, (foldl_widen phdrs _).1]
  exact min_eq_left hle

theorem toNat_vaddrRange_snd (phdrs : List Elf64Phdr) :
    (vaddrRange phdrs).2.toNat = highestEnd (loads phdrs) := by
  rw [vaddrRange, (foldl_widen phdrs _).2]
  exact max_eq_left (Nat.zero_le _)

/-- `total_size`. -/
theorem toNat_vaddrRange_sub (phdrs : List Elf64Phdr) :
    ((vaddrRange phdrs).2 - (vaddrRange phdrs).1).toNat = imageSpan (loads phdrs) := by
  rw [UInt64.toNat_sub, toNat_vaddrRange_fst, toNat_vaddrRange_snd]
  rfl

/-- The copy of a segment, relative to the least address. -/
theorem transfer_eq {phdrs : List Elf64Phdr} {phdr : Elf64Phdr} (h : phdr ∈ loads phdrs) :
    phdr.transfer (vaddrRange phdrs).1 = phdr.placed (lowestVaddr (loads phdrs)) := by
  have hle : (vaddrRange phdrs).1 ≤ phdr.p_vaddr := by
    rw [UInt64.le_iff_toNat_le, toNat_vaddrRange_fst]
    exact lowestVaddr_le h
  rw [Elf64Phdr.transfer, Elf64Phdr.target, UInt64.toNat_sub_of_le _ _ hle, toNat_vaddrRange_fst]
  rfl

/-- The second loop after the first: its copies, relative to the least address. -/
theorem copyLoop_vaddrRange (data : Slice) (phdrs : List Elf64Phdr) (buffer : Buffer)
    (bytes : ByteMap) :
    copyLoop data (vaddrRange phdrs).1 phdrs (buffer.withBytes bytes) =
      if ∀ phdr ∈ (loads phdrs).takeWhile (Elf64Phdr.sourceAccepted data),
          InSlice phdr.source data.length ∧
            InSlice (phdr.placed (lowestVaddr (loads phdrs))).target buffer.length then
        .ok (if ∀ phdr ∈ loads phdrs, phdr.sourceAccepted data then .ok () else .error .badPhdr,
          buffer.withBytes (ByteMap.copies data.bytes bytes
            (((loads phdrs).takeWhile (Elf64Phdr.sourceAccepted data)).map
              (Elf64Phdr.placed (lowestVaddr (loads phdrs))))))
      else .error .sliceIndex := by
  have htransfer : ∀ phdr ∈ copied data phdrs,
      phdr.transfer (vaddrRange phdrs).1 = phdr.placed (lowestVaddr (loads phdrs)) :=
    fun phdr hphdr ↦ transfer_eq ((List.takeWhile_sublist _).subset hphdr)
  have hfits : (∀ phdr ∈ copied data phdrs, phdr.Fits data (vaddrRange phdrs).1 buffer.length) ↔
      ∀ phdr ∈ copied data phdrs, InSlice phdr.source data.length ∧
        InSlice (phdr.placed (lowestVaddr (loads phdrs))).target buffer.length := by
    refine forall_congr' fun phdr ↦ imp_congr_right fun hphdr ↦ ?_
    rw [← htransfer phdr hphdr]
    exact Iff.rfl
  rw [copyLoop_eq, List.map_congr_left htransfer, Buffer.withBytes_withBytes,
    Buffer.withBytes_bytes]
  exact if_congr hfits rfl rfl

/-! ## What the loader does -/

/-- The loadable segments of an image. -/
def segments (data : Slice) : List Elf64Phdr :=
  loads (phdrTable data.bytes (headerAt data.bytes).e_phoff.toNat
    (headerAt data.bytes).e_phnum.toNat)

/-- The header and the table of program headers pass the checks. -/
structure TableAccepted (data : Slice) : Prop where
  header : ValidHeader data
  tableEnd : (headerAt data.bytes).tableEnd.toNat ≤ data.length
  phentsize : PHDR_SIZE ≤ (headerAt data.bytes).e_phentsize.toNat

/-- The table passes the checks, and the checked sum did not wrap around. -/
structure TableInside (data : Slice) : Prop extends TableAccepted data where
  fits : (headerAt data.bytes).TableFits

/-- The segment lies inside the file, and its copy inside a buffer of the given length. -/
def Elf64Phdr.Placeable (data : Slice) (length : Nat) (phdr : Elf64Phdr) : Prop :=
  InSlice phdr.source data.length ∧
    InSlice (phdr.placed (lowestVaddr (segments data))).target length

instance (data : Slice) (length : Nat) (phdr : Elf64Phdr) :
    Decidable (phdr.Placeable data length) := inferInstanceAs (Decidable (_ ∧ _))

/-- What the loader returns on success. -/
def loadedElf (data : Slice) (base : UInt64) : LoadedElf where
  entry := (headerAt data.bytes).e_entry + (base - UInt64.ofNat (lowestVaddr (segments data)))
  load_base := base
  load_size := UInt64.ofNat (imageSpan (segments data))

/-- The buffer after the fill and the copies of some segments. -/
def imageBytes (data : Slice) (bytes : ByteMap) (done : List Elf64Phdr) : ByteMap :=
  ByteMap.copies data.bytes (bytes.fill ⟨0, imageSpan (segments data)⟩ 0)
    (done.map (Elf64Phdr.placed (lowestVaddr (segments data))))

theorem imageSpan_lt (segments : List Elf64Phdr) : imageSpan segments < 2 ^ 64 :=
  Nat.mod_lt _ (Nat.two_pow_pos 64)

/-- Without an accepted table, `load_at` returns an error and leaves the buffer alone. -/
theorem loadAt_of_not_tableAccepted {data : Slice} (h : ¬ TableAccepted data) (buffer : Buffer) :
    ∃ error, loadAt data buffer = .ok (.error error, buffer) := by
  cases hparse : parseHeader data with
  | error error => exact ⟨error, by simp only [loadAt, hparse]⟩
  | ok hdr =>
      obtain ⟨hheader, rfl⟩ := parseHeader_eq_ok hparse
      rcases programHeaders_cases data (headerAt data.bytes) with
        ⟨-, heq⟩ | ⟨hend, hsize, -⟩ | ⟨hend, hsize, -⟩
      · exact ⟨.badPhdr, by simp only [loadAt, hparse, heq]⟩
      · exact absurd ⟨hheader, hend, hsize⟩ h
      · exact absurd ⟨hheader, hend, hsize⟩ h

/-- With a table that is accepted because the checked sum wrapped around, `load_at` reads outside
the file. -/
theorem TableAccepted.loadAt_wrapped {data : Slice} (h : TableAccepted data)
    (hwrapped : ¬ (headerAt data.bytes).TableFits) (buffer : Buffer) :
    loadAt data buffer = .error .outOfBounds := by
  rcases programHeaders_cases data (headerAt data.bytes) with
    ⟨hrefused, -⟩ | ⟨-, -, hfits, -⟩ | ⟨-, -, -, heq⟩
  · exact absurd hrefused (not_or.mpr ⟨not_lt.mpr h.tableEnd, not_lt.mpr h.phentsize⟩)
  · exact absurd hfits hwrapped
  · simp only [loadAt, h.header.parseHeader_eq, heq]

/-- The program headers of a table inside the file are read. -/
theorem TableInside.programHeaders_eq {data : Slice} (h : TableInside data) :
    programHeaders data (headerAt data.bytes) =
      .ok (.ok (phdrTable data.bytes (headerAt data.bytes).e_phoff.toNat
        (headerAt data.bytes).e_phnum.toNat)) := by
  rcases programHeaders_cases data (headerAt data.bytes) with
    ⟨hrefused, -⟩ | ⟨-, -, -, heq⟩ | ⟨-, -, hwrapped, -⟩
  · exact absurd hrefused (not_or.mpr ⟨not_lt.mpr h.tableEnd, not_lt.mpr h.phentsize⟩)
  · exact heq
  · exact absurd h.fits hwrapped

/-- What `load_at` does with a table of program headers that is inside the file. -/
theorem TableInside.loadAt_eq {data : Slice} (h : TableInside data) (buffer : Buffer) :
    loadAt data buffer =
      if lowestVaddr (segments data) = 2 ^ 64 - 1 then .ok (.error .badPhdr, buffer)
      else if buffer.length < imageSpan (segments data) then .ok (.error .badPhdr, buffer)
      else if ∀ phdr ∈ (segments data).takeWhile (Elf64Phdr.sourceAccepted data),
          phdr.Placeable data buffer.length then
        .ok (if ∀ phdr ∈ segments data, phdr.sourceAccepted data then
            .ok (loadedElf data buffer.base)
          else .error .badPhdr,
          buffer.withBytes (imageBytes data buffer.bytes
            ((segments data).takeWhile (Elf64Phdr.sourceAccepted data))))
      else .error .sliceIndex := by
  set phdrs := phdrTable data.bytes (headerAt data.bytes).e_phoff.toNat
    (headerAt data.bytes).e_phnum.toNat with hphdrs
  have hsegments : segments data = loads phdrs := rfl
  have hlow : UInt64.ofNat (lowestVaddr (loads phdrs)) = (vaddrRange phdrs).1 := by
    have hle := lowestVaddr_le_max (loads phdrs)
    rw [← UInt64.toNat_inj, toNat_vaddrRange_fst, UInt64.toNat_ofNat', Nat.mod_eq_of_lt (by omega)]
  have hsize : UInt64.ofNat (imageSpan (loads phdrs)) =
      (vaddrRange phdrs).2 - (vaddrRange phdrs).1 := by
    rw [← UInt64.toNat_inj, toNat_vaddrRange_sub, UInt64.toNat_ofNat',
      Nat.mod_eq_of_lt (imageSpan_lt _)]
  have hempty : (vaddrRange phdrs).1 = U64_MAX ↔ lowestVaddr (loads phdrs) = 2 ^ 64 - 1 := by
    rw [← UInt64.toNat_inj, toNat_vaddrRange_fst]
    rfl
  unfold loadAt loadedElf imageBytes Elf64Phdr.Placeable
  simp only [h.header.parseHeader_eq, h.programHeaders_eq, ← hphdrs, gt_iff_lt, hempty,
    toNat_vaddrRange_sub, hsegments, hlow, hsize, copyLoop_vaddrRange]
  by_cases hlowest : lowestVaddr (loads phdrs) = 2 ^ 64 - 1
  · rw [if_pos hlowest, if_pos hlowest]
  · rw [if_neg hlowest, if_neg hlowest]
    by_cases hlong : buffer.length < imageSpan (loads phdrs)
    · rw [if_pos hlong, if_pos hlong]
    · rw [if_neg hlong, if_neg hlong]
      by_cases hall : ∀ phdr ∈ (loads phdrs).takeWhile (Elf64Phdr.sourceAccepted data),
          InSlice phdr.source data.length ∧
            InSlice (phdr.placed (lowestVaddr (loads phdrs))).target buffer.length
      · rw [if_pos hall, if_pos hall]
        by_cases haccepted : ∀ phdr ∈ loads phdrs, phdr.sourceAccepted data
        · rw [if_pos haccepted, if_pos haccepted]
          rfl
        · rw [if_neg haccepted, if_neg haccepted]
      · rw [if_neg hall, if_neg hall]

/-- Everything `load_at` can do: refuse the table, read a table outside the file, refuse the
segments as a whole, fault in a copy, or copy segments up to the first that is refused. -/
theorem loadAt_cases (data : Slice) (buffer : Buffer) :
    (¬ TableAccepted data ∧ ∃ error, loadAt data buffer = .ok (.error error, buffer)) ∨
    (TableAccepted data ∧ ¬ (headerAt data.bytes).TableFits ∧
      loadAt data buffer = .error .outOfBounds) ∨
    (TableInside data ∧ (lowestVaddr (segments data) = 2 ^ 64 - 1 ∨
        buffer.length < imageSpan (segments data)) ∧
      loadAt data buffer = .ok (.error .badPhdr, buffer)) ∨
    ((TableInside data ∧ lowestVaddr (segments data) ≠ 2 ^ 64 - 1 ∧
        imageSpan (segments data) ≤ buffer.length) ∧
      ((¬ (∀ phdr ∈ (segments data).takeWhile (Elf64Phdr.sourceAccepted data),
            phdr.Placeable data buffer.length) ∧ loadAt data buffer = .error .sliceIndex) ∨
        ((∀ phdr ∈ (segments data).takeWhile (Elf64Phdr.sourceAccepted data),
            phdr.Placeable data buffer.length) ∧
          loadAt data buffer =
            .ok (if ∀ phdr ∈ segments data, phdr.sourceAccepted data then
                .ok (loadedElf data buffer.base)
              else .error .badPhdr,
              buffer.withBytes (imageBytes data buffer.bytes
                ((segments data).takeWhile (Elf64Phdr.sourceAccepted data))))))) := by
  by_cases htable : TableAccepted data
  · by_cases hfits : (headerAt data.bytes).TableFits
    · have hinside : TableInside data := ⟨htable, hfits⟩
      rw [hinside.loadAt_eq]
      by_cases hempty : lowestVaddr (segments data) = 2 ^ 64 - 1
      · rw [if_pos hempty]
        exact Or.inr (Or.inr (Or.inl ⟨hinside, Or.inl hempty, rfl⟩))
      · rw [if_neg hempty]
        by_cases hlong : buffer.length < imageSpan (segments data)
        · rw [if_pos hlong]
          exact Or.inr (Or.inr (Or.inl ⟨hinside, Or.inr hlong, rfl⟩))
        · rw [if_neg hlong]
          refine Or.inr (Or.inr (Or.inr ⟨⟨hinside, hempty, not_lt.mp hlong⟩, ?_⟩))
          by_cases hall : ∀ phdr ∈ (segments data).takeWhile (Elf64Phdr.sourceAccepted data),
              phdr.Placeable data buffer.length
          · rw [if_pos hall]
            exact Or.inr ⟨hall, rfl⟩
          · rw [if_neg hall]
            exact Or.inl ⟨hall, rfl⟩
    · exact Or.inr (Or.inl ⟨htable, hfits, htable.loadAt_wrapped hfits buffer⟩)
  · exact Or.inl ⟨htable, loadAt_of_not_tableAccepted htable buffer⟩

/-! ## Success -/

/-- The images that the loader accepts for a buffer of the given length. -/
structure Accepted (data : Slice) (length : Nat) : Prop extends TableInside data where
  nonempty : lowestVaddr (segments data) ≠ 2 ^ 64 - 1
  span : imageSpan (segments data) ≤ length
  placeable : ∀ phdr ∈ segments data, phdr.Placeable data length

/-- A segment inside the file passes the source check. -/
theorem Elf64Phdr.Placeable.sourceAccepted {data : Slice} {length : Nat} {phdr : Elf64Phdr}
    (h : phdr.Placeable data length) : phdr.sourceAccepted data := by
  have hsource : phdr.p_offset.toNat + phdr.p_filesz.toNat ≤ data.length := h.1
  have hlength := data.length_lt
  rw [Elf64Phdr.sourceAccepted, decide_eq_true_iff, UInt64.toNat_add, Nat.mod_eq_of_lt (by omega)]
  exact hsource

/-- `load_at` succeeds on the accepted images only, and then the buffer holds all segments. -/
theorem loadAt_eq_ok_iff {data : Slice} {buffer after : Buffer} {loaded : LoadedElf} :
    loadAt data buffer = .ok (.ok loaded, after) ↔
      Accepted data buffer.length ∧ loaded = loadedElf data buffer.base ∧
        after = buffer.withBytes (imageBytes data buffer.bytes (segments data)) := by
  rcases loadAt_cases data buffer with
    ⟨htable, error, heq⟩ | ⟨-, hfits, heq⟩ | ⟨-, hrefused, heq⟩ |
      ⟨⟨hinside, hempty, hspan⟩, ⟨hall, heq⟩ | ⟨hall, heq⟩⟩
  · rw [heq]
    exact iff_of_false (by simp) fun hcase ↦ htable hcase.1.toTableAccepted
  · rw [heq]
    exact iff_of_false (by simp) fun hcase ↦ hfits hcase.1.fits
  · rw [heq]
    refine iff_of_false (by simp) fun hcase ↦ ?_
    rcases hrefused with hempty | hlong
    · exact hcase.1.nonempty hempty
    · exact absurd hcase.1.span (not_le.mpr hlong)
  · rw [heq]
    exact iff_of_false (by simp) fun hcase ↦
      hall fun phdr hphdr ↦ hcase.1.placeable phdr ((List.takeWhile_sublist _).subset hphdr)
  · rw [heq]
    by_cases haccepted : ∀ phdr ∈ segments data, phdr.sourceAccepted data
    · rw [List.takeWhile_eq_self_iff.mpr haccepted] at hall ⊢
      rw [if_pos haccepted]
      simp only [Except.ok.injEq, Prod.mk.injEq]
      constructor
      · intro hloaded
        exact ⟨⟨hinside, hempty, hspan, hall⟩, hloaded.1.symm, hloaded.2.symm⟩
      · intro hcase
        exact ⟨hcase.2.1.symm, hcase.2.2.symm⟩
    · rw [if_neg haccepted]
      exact iff_of_false (by simp) fun hcase ↦
        haccepted fun phdr hphdr ↦ (hcase.1.placeable phdr hphdr).sourceAccepted

end Avaria.Elf
