import Avaria.Fs.Inode

/-!
# The block map

The abstract map from the logical blocks of a file to physical blocks: a lookup in a tree of pointer
blocks, along the digits of the logical block to the base of the pointers in a block. A pointer 0 is
a hole at any level.

`resolveBlock_eq` brings `resolve_block` into the same shape, a walk along a path of indices, and
`toNat_resolveBlock` says that it computes the abstract map as long as its reads succeed.
-/

namespace Avaria.Fs

open Mem Mm

/-! ## The abstract map -/

/-- The pointer at an index of a pointer block; block 0 is a hole. -/
def pointerAt (image : ByteMap) (blockSize block index : Nat) : Nat :=
  if block = 0 then 0 else image.fromLe (block * blockSize + index * 4) 4

/-- The block that a path of indices leads to. -/
def follow (image : ByteMap) (blockSize : Nat) : Nat → List Nat → Nat
  | block, [] => block
  | block, index :: path => follow image blockSize (pointerAt image blockSize block index) path

/-- The digits of a number, the most significant one first. -/
def radixPath (radix : Nat) : Nat → Nat → List Nat
  | 0, _ => []
  | depth + 1, value => value / radix ^ depth :: radixPath radix depth (value % radix ^ depth)

/-- The physical block of a logical block: 12 direct pointers, then trees of one, two and three
levels. -/
def blockMap (image : ByteMap) (blockSize : Nat) (pointers : Nat → Nat) (logical : Nat) : Nat :=
  let radix := blockSize / 4
  if logical < 12 then pointers logical
  else if logical < 12 + radix then
    follow image blockSize (pointers 12) (radixPath radix 1 (logical - 12))
  else if logical < 12 + radix + radix ^ 2 then
    follow image blockSize (pointers 13) (radixPath radix 2 (logical - (12 + radix)))
  else if logical < 12 + radix + radix ^ 2 + radix ^ 3 then
    follow image blockSize (pointers 14) (radixPath radix 3 (logical - (12 + radix + radix ^ 2)))
  else 0

/-- Below a hole everything is a hole. -/
theorem follow_zero (image : ByteMap) (blockSize : Nat) (path : List Nat) :
    follow image blockSize 0 path = 0 := by
  induction path with
  | nil => rfl
  | cons index path ih => exact ih

/-- The pointers of an inode. -/
def Inode.pointers (inode : Inode) (i : Nat) : Nat := (inode.ptr i).toNat

/-! ## The walk of resolve_block -/

variable {σ : Type*} [PageSource σ]

/-- Read pointers along a path; the walk ends at a pointer 0. -/
def followPtrs (disk : Disk) (blockSize : UInt32) : UInt32 → List UInt32 → Io σ → UInt32 × Io σ
  | block, [], io => (block, io)
  | block, index :: path, io =>
      if block = 0 then (0, io)
      else
        let (next, io) := readBlockPtr disk io blockSize block index
        followPtrs disk blockSize next path io

/-- The root pointer and the path of indices that `resolve_block` computes. -/
def blockPath (blockSize : UInt32) (inode : Inode) (logical : UInt32) : UInt32 × List UInt32 :=
  let radix := blockSize / 4
  let single := logical - 12
  let double := single - radix
  let triple := double - radix * radix
  if logical < 12 then (inode.ptr logical.toNat, [])
  else if single < radix then (inode.ptr 12, [single])
  else if double < radix * radix then (inode.ptr 13, [double / radix, double % radix])
  else if triple < radix * radix * radix then
    (inode.ptr 14, [triple / (radix * radix), triple % (radix * radix) / radix,
      triple % (radix * radix) % radix])
  else (0, [])

/-- One pointer of a walk. -/
theorem followPtrs_cons (disk : Disk) (blockSize block index : UInt32) (path : List UInt32)
    (io : Io σ) :
    followPtrs disk blockSize block (index :: path) io =
      if block = 0 then (0, io)
      else followPtrs disk blockSize (readBlockPtr disk io blockSize block index).1 path
        (readBlockPtr disk io blockSize block index).2 := rfl

/-- The last pointer of a walk. -/
theorem followPtrs_singleton (disk : Disk) (blockSize block index : UInt32) (io : Io σ) :
    followPtrs disk blockSize block [index] io =
      if block = 0 then (0, io) else readBlockPtr disk io blockSize block index := rfl

/-- `resolve_block` walks along the path that it computes. -/
theorem resolveBlock_eq (disk : Disk) (io : Io σ) (blockSize : UInt32) (inode : Inode)
    (logical : UInt32) :
    resolveBlock disk io blockSize inode logical =
      followPtrs disk blockSize (blockPath blockSize inode logical).1
        (blockPath blockSize inode logical).2 io := by
  unfold resolveBlock blockPath
  dsimp only
  by_cases hdirect : logical < 12
  · rw [if_pos hdirect, if_pos hdirect]
    rfl
  · rw [if_neg hdirect, if_neg hdirect]
    by_cases hlevel1 : logical - 12 < blockSize / 4
    · rw [if_pos hlevel1, if_pos hlevel1, followPtrs_singleton]
    · rw [if_neg hlevel1, if_neg hlevel1]
      by_cases hlevel2 : logical - 12 - blockSize / 4 < blockSize / 4 * (blockSize / 4)
      · rw [if_pos hlevel2, if_pos hlevel2, followPtrs_cons, followPtrs_singleton]
      · rw [if_neg hlevel2, if_neg hlevel2]
        split
        · rw [followPtrs_cons, followPtrs_cons, followPtrs_singleton]
        · rfl

/-- The byte offset of a pointer. -/
def pointerOff (blockSize blockNum index : UInt32) : Nat :=
  blockNum.toNat * blockSize.toNat + index.toNat * 4

/-- `read_block_ptr` leaves what its read of 4 bytes leaves. -/
theorem readBlockPtr_snd (disk : Disk) (io : Io σ) (blockSize blockNum index : UInt32) :
    (readBlockPtr disk io blockSize blockNum index).2 =
      (readBytes disk io (pointerOff blockSize blockNum index) none 4).2 := by
  unfold readBlockPtr
  dsimp only [pointerOff]
  rcases readBytes disk io (blockNum.toNat * blockSize.toNat + index.toNat * 4) none 4 with
    ⟨_ | val, after⟩
  · rfl
  · rfl

/-- If the read succeeds, it returns the number in the bytes that were read. -/
theorem readBlockPtr_fst {disk : Disk} {io : Io σ} {blockSize blockNum index : UInt32}
    {val : ByteMap}
    (h : (readBytes disk io (pointerOff blockSize blockNum index) none 4).1 = some val) :
    (readBlockPtr disk io blockSize blockNum index).1 = UInt32.ofNat (val.fromLe 0 4) := by
  unfold readBlockPtr
  dsimp only [pointerOff] at h ⊢
  rcases hread : readBytes disk io (blockNum.toNat * blockSize.toNat + index.toNat * 4) none 4 with
    ⟨_ | bytes, after⟩
  · rw [hread] at h
    cases h
  · rw [hread] at h
    cases h
    rfl

/-- A read of a pointer is recorded, and gives the pointer on the disk if it succeeds. Then the
memory changes in the temporary buffer. -/
theorem readBlockPtr_spec (disk : Disk) (io : Io σ) (blockSize blockNum index : UInt32) :
    ∃ call : ReadCall, call.count = 4 ∧
      (readBlockPtr disk io blockSize blockNum index).2.calls = call :: io.calls ∧
      (blockSize.toNat ≤ 2 ^ 12 → call.ok = true →
        (readBlockPtr disk io blockSize blockNum index).1.toNat =
            disk.image.fromLe (pointerOff blockSize blockNum index) 4 ∧
          (readBlockPtr disk io blockSize blockNum index).2.memory =
            ByteMap.copies disk.image io.memory
              [(temporary io.heap (pointerOff blockSize blockNum index) 4).1]) := by
  rw [readBlockPtr_snd]
  refine ⟨_, rfl, readBytes_calls disk io _ none 4, fun hsize hok ↦ ?_⟩
  obtain ⟨val, hval⟩ := Option.isSome_iff_exists.mp hok
  have hblock : blockNum.toNat * blockSize.toNat ≤ 2 ^ 32 * 2 ^ 12 :=
    Nat.mul_le_mul blockNum.toNat_lt.le hsize
  have hindex := index.toNat_lt
  obtain ⟨hbytes, hmemory⟩ := readBytes_some (by decide)
    (by rw [pointerOff]; omega) (by omega) hval
  refine ⟨?_, hmemory⟩
  have hnumber : val.fromLe 0 4 = disk.image.fromLe (pointerOff blockSize blockNum index) 4 :=
    ByteMap.fromLe_congr fun i hi ↦ by
      rw [Nat.zero_add]
      exact hbytes i hi
  have hlt := ByteMap.fromLe_lt val 0 4
  rw [readBlockPtr_fst hval, UInt32.toNat_ofNat', Nat.mod_eq_of_lt (by omega), hnumber]

/-- The calls that a walk makes read pointers. -/
theorem followPtrs_calls (disk : Disk) (blockSize block : UInt32) (path : List UInt32) (io : Io σ) :
    ∃ added : List ReadCall, (followPtrs disk blockSize block path io).2.calls = added ++ io.calls ∧
      ∀ call ∈ added, call.count = 4 := by
  induction path generalizing block io with
  | nil => exact ⟨[], rfl, fun _ h ↦ absurd h List.not_mem_nil⟩
  | cons index path ih =>
      rw [followPtrs_cons]
      split
      · exact ⟨[], rfl, fun _ h ↦ absurd h List.not_mem_nil⟩
      · obtain ⟨call, hcount, hcalls, -⟩ := readBlockPtr_spec disk io blockSize block index
        obtain ⟨added, hadded, hpointers⟩ := ih (readBlockPtr disk io blockSize block index).1
          (readBlockPtr disk io blockSize block index).2
        refine ⟨added ++ [call], ?_, ?_⟩
        · rw [hadded, hcalls, List.append_assoc]
          rfl
        · intro other hother
          rcases List.mem_append.mp hother with hother | hother
          · exact hpointers other hother
          · rw [List.mem_singleton.mp hother]
            exact hcount

/-- If all reads of a walk succeed, so does the first one. -/
theorem readBlockPtr_of_walk {disk : Disk} {blockSize : UInt32} (hsize : blockSize.toNat ≤ 2 ^ 12)
    {block index : UInt32} {path : List UInt32} {io : Io σ}
    (hok : ∀ call ∈ (followPtrs disk blockSize (readBlockPtr disk io blockSize block index).1 path
      (readBlockPtr disk io blockSize block index).2).2.calls, call.ok = true) :
    (readBlockPtr disk io blockSize block index).1.toNat =
        disk.image.fromLe (pointerOff blockSize block index) 4 ∧
      (readBlockPtr disk io blockSize block index).2.memory =
        ByteMap.copies disk.image io.memory
          [(temporary io.heap (pointerOff blockSize block index) 4).1] := by
  obtain ⟨call, -, hcalls, hspec⟩ := readBlockPtr_spec disk io blockSize block index
  obtain ⟨added, hadded, -⟩ := followPtrs_calls disk blockSize
    (readBlockPtr disk io blockSize block index).1 path
    (readBlockPtr disk io blockSize block index).2
  refine hspec hsize (hok call ?_)
  rw [hadded, hcalls]
  exact List.mem_append_right _ List.mem_cons_self

/-- A walk whose reads all succeed follows the pointers on the disk. -/
theorem toNat_followPtrs {disk : Disk} {blockSize : UInt32} (hsize : blockSize.toNat ≤ 2 ^ 12)
    {block : UInt32} {path : List UInt32} {io : Io σ}
    (hok : ∀ call ∈ (followPtrs disk blockSize block path io).2.calls, call.ok = true) :
    (followPtrs disk blockSize block path io).1.toNat =
      follow disk.image blockSize.toNat block.toNat (path.map UInt32.toNat) := by
  induction path generalizing block io with
  | nil => rfl
  | cons index path ih =>
      rw [followPtrs_cons] at hok ⊢
      by_cases hhole : block = 0
      · subst hhole
        rw [if_pos rfl]
        exact (follow_zero disk.image blockSize.toNat (path.map UInt32.toNat)).symm
      · rw [if_neg hhole] at hok ⊢
        have hblock : block.toNat ≠ 0 := toNat_ne_zero hhole
        have hnext : (readBlockPtr disk io blockSize block index).1.toNat =
            pointerAt disk.image blockSize.toNat block.toNat index.toNat := by
          rw [pointerAt, if_neg hblock]
          exact (readBlockPtr_of_walk hsize hok).1
        refine (ih hok).trans ?_
        rw [hnext]
        rfl

/-- The reads of a walk on the disk. -/
def pointerReads (image : ByteMap) (blockSize : UInt32) : UInt32 → List UInt32 → List (Nat × Nat)
  | _, [] => []
  | block, index :: path =>
      if block = 0 then []
      else
        (pointerOff blockSize block index, 4) ::
          pointerReads image blockSize
            (UInt32.ofNat (image.fromLe (pointerOff blockSize block index) 4)) path

/-- What a walk whose reads all succeed does to the heap and to the memory. -/
theorem followPtrs_transfers {disk : Disk} {blockSize : UInt32} (hsize : blockSize.toNat ≤ 2 ^ 12)
    {block : UInt32} {path : List UInt32} {io : Io σ}
    (hok : ∀ call ∈ (followPtrs disk blockSize block path io).2.calls, call.ok = true) :
    (followPtrs disk blockSize block path io).2.heap =
        (temporaries io.heap (pointerReads disk.image blockSize block path)).2 ∧
      (followPtrs disk blockSize block path io).2.memory =
        ByteMap.copies disk.image io.memory
          (temporaries io.heap (pointerReads disk.image blockSize block path)).1 := by
  induction path generalizing block io with
  | nil => exact ⟨rfl, rfl⟩
  | cons index path ih =>
      rw [followPtrs_cons] at hok ⊢
      rw [pointerReads]
      by_cases hhole : block = 0
      · rw [if_pos hhole, if_pos hhole]
        exact ⟨rfl, rfl⟩
      · rw [if_neg hhole] at hok
        rw [if_neg hhole, if_neg hhole]
        obtain ⟨hvalue, hmemory⟩ := readBlockPtr_of_walk hsize hok
        have hheap : (readBlockPtr disk io blockSize block index).2.heap =
            (temporary io.heap (pointerOff blockSize block index) 4).2 := by
          rw [readBlockPtr_snd]
          exact readBytes_heap disk io _ none (by decide)
        have hnext : (readBlockPtr disk io blockSize block index).1 =
            UInt32.ofNat (disk.image.fromLe (pointerOff blockSize block index) 4) := by
          rw [← hvalue, UInt32.ofNat_toNat]
        obtain ⟨hheap', hmemory'⟩ := ih hok
        rw [hheap, hnext] at hheap'
        rw [hheap, hnext, hmemory] at hmemory'
        rw [← hnext] at hheap' hmemory' ⊢
        exact ⟨hheap', hmemory'⟩

/-- A walk writes to no destination in the memory. -/
theorem followPtrs_written (disk : Disk) (blockSize block : UInt32) (path : List UInt32)
    (io : Io σ) : (followPtrs disk blockSize block path io).2.written = io.written := by
  induction path generalizing block io with
  | nil => rfl
  | cons index path ih =>
      rw [followPtrs_cons]
      split
      · rfl
      · rw [ih, readBlockPtr_snd, readBytes_written disk io _ none (by decide)]
        split
        · rfl
        · rfl

/-! ## The index arithmetic -/

theorem radixPath_one (radix value : Nat) : radixPath radix 1 value = [value] := by
  simp [radixPath]

theorem radixPath_two (radix value : Nat) :
    radixPath radix 2 value = [value / radix, value % radix] := by
  simp [radixPath]

theorem radixPath_three (radix value : Nat) :
    radixPath radix 3 value =
      [value / radix ^ 2, value % radix ^ 2 / radix, value % radix ^ 2 % radix] := by
  simp [radixPath]

/-- A difference that does not wrap around. -/
theorem toNat_sub_of_not_lt {a b : UInt32} (h : ¬ a < b) : (a - b).toNat = a.toNat - b.toNat :=
  UInt32.toNat_sub_of_le _ _ (UInt32.not_lt.mp h)

/-- The number of pointers in two levels. -/
theorem toNat_doubleRange {blockSize : UInt32} (hsize : blockSize.toNat ≤ 2 ^ 12) :
    (blockSize / 4 * (blockSize / 4)).toNat = (blockSize.toNat / 4) ^ 2 := by
  have hradix : (blockSize / 4).toNat = blockSize.toNat / 4 := UInt32.toNat_div ..
  have hlt : (blockSize.toNat / 4) ^ 2 ≤ (2 ^ 10) ^ 2 := Nat.pow_le_pow_left (by omega) 2
  rw [UInt32.toNat_mul, hradix, ← pow_two, Nat.mod_eq_of_lt (by omega)]

/-- The number of pointers in three levels. -/
theorem toNat_tripleRange {blockSize : UInt32} (hsize : blockSize.toNat ≤ 2 ^ 12) :
    (blockSize / 4 * (blockSize / 4) * (blockSize / 4)).toNat = (blockSize.toNat / 4) ^ 3 := by
  have hradix : (blockSize / 4).toNat = blockSize.toNat / 4 := UInt32.toNat_div ..
  have hcube : (blockSize.toNat / 4) ^ 2 * (blockSize.toNat / 4) = (blockSize.toNat / 4) ^ 3 :=
    (pow_succ _ 2).symm
  have hlt : (blockSize.toNat / 4) ^ 3 ≤ (2 ^ 10) ^ 3 := Nat.pow_le_pow_left (by omega) 3
  rw [UInt32.toNat_mul, toNat_doubleRange hsize, hradix, hcube, Nat.mod_eq_of_lt (by omega)]

/-- For blocks of at most 4096 bytes no range of the index arithmetic wraps around, and the path is
that of the abstract map. -/
theorem follow_blockPath {blockSize : UInt32} (hsize : blockSize.toNat ≤ 2 ^ 12) (image : ByteMap)
    (inode : Inode) (logical : UInt32) :
    follow image blockSize.toNat (blockPath blockSize inode logical).1.toNat
        ((blockPath blockSize inode logical).2.map UInt32.toNat) =
      blockMap image blockSize.toNat inode.pointers logical.toNat := by
  have hradix : (blockSize / 4).toNat = blockSize.toNat / 4 := UInt32.toNat_div ..
  have hdouble := toNat_doubleRange hsize
  have htriple := toNat_tripleRange hsize
  have htwelve : (12 : UInt32).toNat = 12 := rfl
  unfold blockPath blockMap
  dsimp only
  by_cases hdirect : logical < 12
  · have hdirect' : logical.toNat < 12 := UInt32.lt_iff_toNat_lt.mp hdirect
    rw [if_pos hdirect, if_pos hdirect']
    rfl
  · have hdirect' : ¬ logical.toNat < 12 := fun hlt ↦ hdirect (UInt32.lt_iff_toNat_lt.mpr hlt)
    have hsingle := toNat_sub_of_not_lt hdirect
    rw [htwelve] at hsingle
    rw [if_neg hdirect, if_neg hdirect']
    by_cases hlevel1 : logical - 12 < blockSize / 4
    · have hlevel1' : logical.toNat < 12 + blockSize.toNat / 4 := by
        rw [UInt32.lt_iff_toNat_lt, hsingle, hradix] at hlevel1
        omega
      rw [if_pos hlevel1, if_pos hlevel1', radixPath_one, List.map_singleton, hsingle]
      rfl
    · have hrest := toNat_sub_of_not_lt hlevel1
      rw [hsingle, hradix, Nat.sub_sub] at hrest
      have hlevel1' : ¬ logical.toNat < 12 + blockSize.toNat / 4 := by
        rw [UInt32.lt_iff_toNat_lt, hsingle, hradix] at hlevel1
        omega
      rw [if_neg hlevel1, if_neg hlevel1']
      by_cases hlevel2 : logical - 12 - blockSize / 4 < blockSize / 4 * (blockSize / 4)
      · have hlevel2' : logical.toNat < 12 + blockSize.toNat / 4 + (blockSize.toNat / 4) ^ 2 := by
          rw [UInt32.lt_iff_toNat_lt, hrest, hdouble] at hlevel2
          omega
        rw [if_pos hlevel2, if_pos hlevel2', radixPath_two]
        simp only [List.map_cons, List.map_nil, UInt32.toNat_div, UInt32.toNat_mod, hrest, hradix]
        rfl
      · have hlast := toNat_sub_of_not_lt hlevel2
        rw [hrest, hdouble, Nat.sub_sub] at hlast
        have hlevel2' : ¬ logical.toNat < 12 + blockSize.toNat / 4 + (blockSize.toNat / 4) ^ 2 := by
          rw [UInt32.lt_iff_toNat_lt, hrest, hdouble] at hlevel2
          omega
        rw [if_neg hlevel2, if_neg hlevel2']
        by_cases hlevel3 : logical - 12 - blockSize / 4 - blockSize / 4 * (blockSize / 4) <
            blockSize / 4 * (blockSize / 4) * (blockSize / 4)
        · have hlevel3' : logical.toNat < 12 + blockSize.toNat / 4 +
              (blockSize.toNat / 4) ^ 2 + (blockSize.toNat / 4) ^ 3 := by
            rw [UInt32.lt_iff_toNat_lt, hlast, htriple] at hlevel3
            omega
          rw [if_pos hlevel3, if_pos hlevel3', radixPath_three]
          simp only [List.map_cons, List.map_nil, UInt32.toNat_div, UInt32.toNat_mod, hlast,
            hdouble, hradix]
          rfl
        · have hlevel3' : ¬ logical.toNat < 12 + blockSize.toNat / 4 +
              (blockSize.toNat / 4) ^ 2 + (blockSize.toNat / 4) ^ 3 := by
            rw [UInt32.lt_iff_toNat_lt, hlast, htriple] at hlevel3
            omega
          rw [if_neg hlevel3, if_neg hlevel3']
          rfl

/-- `resolve_block` computes the abstract map, for blocks of at most 4096 bytes and as long as its
reads succeed. -/
theorem toNat_resolveBlock {disk : Disk} {io : Io σ} {blockSize : UInt32}
    (hsize : blockSize.toNat ≤ 2 ^ 12) {inode : Inode} {logical : UInt32}
    (hok : ∀ call ∈ (resolveBlock disk io blockSize inode logical).2.calls, call.ok = true) :
    (resolveBlock disk io blockSize inode logical).1.toNat =
      blockMap disk.image blockSize.toNat inode.pointers logical.toNat := by
  rw [resolveBlock_eq] at hok ⊢
  rw [toNat_followPtrs hsize hok, follow_blockPath hsize]

end Avaria.Fs
