import Avaria.Fs.Ext3
import Avaria.Fs.ReadData
import Avaria.Lib.Checked

/-!
# Arithmetic on superblock fields

`block_size`, `read_inode`, `read_inode_data` and `resolve_block` once more, with checked
arithmetic: they end with a fault where the source divides by zero, shifts by the width or leaves
the range of a type. `arithmetic_safe_iff` says for which superblocks none of them does.

The superblock and the inode are values here: those that were mounted and read, and not what a block
of the heap leaves of them later. Without a fault the checked functions agree with the others
(`readInodeChecked_ok`, `readInodeDataChecked_ok`).
-/

namespace Avaria.Fs

open Mem Mm Checked

variable {σ : Type} [PageSource σ]

/-! ## Checked functions -/

/-- `Superblock::block_size`. -/
def Superblock.blockSizeChecked (sb : Superblock) : Except Fault UInt32 :=
  shiftLeft 1024 sb.s_log_block_size

/-- `read_inode`. -/
def readInodeChecked (disk : Disk) (sb : DiskSuperblock) (ino : UInt32) (io : Io σ) :
    Except Fault (Option Nat × Io σ) :=
  if ino = 0 then pure (none, io)
  else do
    let blockSize ← sb.blockSizeChecked
    let group ← div (← sub ino 1) sb.s_inodes_per_group
    let index ← mod (← sub ino 1) sb.s_inodes_per_group
    let inodeSize := sb.inodeSize
    let bgdtBlock := if blockSize = 1024 then 2 else 1
    let bgdOffset ← add64 (← mul64 bgdtBlock blockSize.toNat) (← mul64 group.toNat 32)
    match readBytes disk io bgdOffset none 32 with
    | (none, io) => pure (none, io)
    | (some bgd, io) =>
        let inodeTable := UInt32.ofNat (bgd.fromLe 8 4)
        let inodeTableByte ← mul64 inodeTable.toNat blockSize.toNat
        let inodeByteOff ← add64 inodeTableByte (← mul64 index.toNat inodeSize.toNat)
        let alloc := inodeAllocSize inodeSize
        let (buf, io) := io.kmalloc alloc
        if buf = 0 then pure (none, io)
        else
          let io := io.fill ⟨buf, alloc⟩ 0
          match readBytes disk io inodeByteOff (some buf) inodeSize.toNat with
          | (none, io) => pure (none, io.kfree buf alloc)
          | (some _, io) => pure (some buf, io)

/-- `resolve_block`. -/
def resolveBlockChecked (disk : Disk) (io : Io σ) (sb : Superblock) (inode : Inode)
    (logical : UInt32) : Except Fault (UInt32 × Io σ) := do
  let blockSize ← sb.blockSizeChecked
  let ptrsPerBlock ← div blockSize 4
  if logical < 12 then pure (inode.ptr logical.toNat, io)
  else
    let logical ← sub logical 12
    if logical < ptrsPerBlock then
      let indirectBlock := inode.ptr 12
      if indirectBlock = 0 then pure (0, io)
      else pure (readBlockPtr disk io blockSize indirectBlock logical)
    else
      let logical ← sub logical ptrsPerBlock
      let doubleRange ← mul ptrsPerBlock ptrsPerBlock
      if logical < doubleRange then
        let dblBlock := inode.ptr 13
        if dblBlock = 0 then pure (0, io)
        else
          let idx1 ← div logical ptrsPerBlock
          let idx2 ← mod logical ptrsPerBlock
          let (indBlock, io) := readBlockPtr disk io blockSize dblBlock idx1
          if indBlock = 0 then pure (0, io)
          else pure (readBlockPtr disk io blockSize indBlock idx2)
      else
        let logical ← sub logical doubleRange
        let tripleRange ← mul (← mul ptrsPerBlock ptrsPerBlock) ptrsPerBlock
        if logical < tripleRange then
          let triBlock := inode.ptr 14
          if triBlock = 0 then pure (0, io)
          else
            let idx1 ← div logical (← mul ptrsPerBlock ptrsPerBlock)
            let rem ← mod logical (← mul ptrsPerBlock ptrsPerBlock)
            let idx2 ← div rem ptrsPerBlock
            let idx3 ← mod rem ptrsPerBlock
            let (dbl, io) := readBlockPtr disk io blockSize triBlock idx1
            if dbl = 0 then pure (0, io)
            else
              let (ind, io) := readBlockPtr disk io blockSize dbl idx2
              if ind = 0 then pure (0, io) else pure (readBlockPtr disk io blockSize ind idx3)
        else pure (0, io)

/-- `buf_off` and `bytes_left` after a chunk. -/
def ReadState.countersChecked (st : ReadState σ) (chunk : Nat) : Except Fault (Nat × Nat) := do
  let bufOff ← add64 st.bufOff chunk
  let bytesLeft ← sub64 st.bytesLeft chunk
  pure (bufOff, bytesLeft)

/-- The body of the loop of `read_inode_data`. It leaves the loop with a fault, or when a block
cannot be read. -/
def readStepChecked (disk : Disk) (buf : Nat) (sb : Superblock) (blockSize : UInt32)
    (inode : Inode) (st : ReadState σ) : Except (Fault ⊕ ReadState σ) (ReadState σ) := do
  let (physBlock, io) ←
    (resolveBlockChecked disk st.io sb inode (UInt32.ofNat st.logicalBlock)).mapError .inl
  let chunk := min st.bytesLeft blockSize.toNat
  if physBlock = 0 then
    let (bufOff, bytesLeft) ← (st.countersChecked chunk).mapError .inl
    pure ⟨st.logicalBlock + 1, bytesLeft, bufOff, io.fill ⟨buf + st.bufOff, chunk⟩ 0⟩
  else
    match readBlock disk io physBlock blockSize (buf + st.bufOff) with
    | (true, io) =>
        let (bufOff, bytesLeft) ← (st.countersChecked chunk).mapError .inl
        pure ⟨st.logicalBlock + 1, bytesLeft, bufOff, io⟩
    | (false, io) => throw (.inr { st with io })

/-- `read_inode_data`. -/
def readInodeDataChecked (disk : Disk) (io : Io σ) (sb : Superblock) (inode : Inode) :
    Except Fault (ReadResult σ) :=
  let size := inode.size.toNat
  if size = 0 then pure ⟨0, 0, io⟩
  else
    let (buf, io) := io.kmalloc size
    if buf = 0 then pure ⟨0, 0, io⟩
    else do
      let blockSize ← sb.blockSizeChecked
      let blocksNeeded ← div64 (← sub64 (← add64 size blockSize.toNat) 1) blockSize.toNat
      match ForLoop.loop (readStepChecked disk buf sb blockSize inode) blocksNeeded
          (.start size io) with
      | .ok st => pure ⟨buf, size, st.io⟩
      | .error (.inl fault) => throw fault
      | .error (.inr st) => pure ⟨0, 0, st.io.kfree buf size⟩

/-! ## Block sizes -/

/-- A superblock with a block size of 1, 2 or 4 KiB. -/
theorem Superblock.blockSize_of_le_two {sb : Superblock} (h : sb.s_log_block_size ≤ 2) :
    sb.blockSize.toNat = 1024 ∨ sb.blockSize.toNat = 2048 ∨ sb.blockSize.toNat = 4096 := by
  have hle : sb.s_log_block_size.toNat ≤ 2 := UInt32.le_iff_toNat_le.mp h
  have hshift : sb.blockSize.toNat = 2 ^ (10 + sb.s_log_block_size.toNat % 32) % 2 ^ 32 := by
    rw [Superblock.blockSize, UInt32.toNat_shiftLeft, Nat.shiftLeft_eq, Nat.pow_add]
    rfl
  rw [hshift]
  generalize sb.s_log_block_size.toNat = log at hle
  have hcases : log = 0 ∨ log = 1 ∨ log = 2 := by omega
  rcases hcases with hlog | hlog | hlog
  · subst hlog
    decide
  · subst hlog
    decide
  · subst hlog
    decide

theorem Superblock.blockSizeChecked_eq_pure {sb : Superblock} (h : sb.s_log_block_size ≤ 2) :
    sb.blockSizeChecked = pure sb.blockSize :=
  shiftLeft_eq_pure (UInt32.lt_of_le_of_lt h (by decide))

/-! ## Without a fault -/

/-- The products of at most 1024 pointers to a block fit. -/
theorem square_cube_lt {radix : UInt32} (h : radix.toNat ≤ 1024) :
    radix.toNat * radix.toNat < 2 ^ 32 ∧ (radix * radix).toNat * radix.toNat < 2 ^ 32 := by
  have hsquare : radix.toNat * radix.toNat ≤ 1024 * 1024 := Nat.mul_le_mul h h
  have hlt : radix.toNat * radix.toNat < 2 ^ 32 := by omega
  have hcube : radix.toNat * radix.toNat * radix.toNat ≤ 1024 * 1024 * 1024 :=
    Nat.mul_le_mul hsquare h
  rw [UInt32.toNat_mul, Nat.mod_eq_of_lt hlt]
  omega

theorem square_ne_zero {radix : UInt32} (h : radix ≠ 0) (hle : radix.toNat ≤ 1024) :
    radix * radix ≠ 0 := by
  intro heq
  have hnat : (radix * radix).toNat = 0 := UInt32.toNat_inj.mpr heq
  rw [UInt32.toNat_mul, Nat.mod_eq_of_lt (square_cube_lt hle).1] at hnat
  exact Nat.mul_ne_zero (toNat_ne_zero h) (toNat_ne_zero h) hnat

/-- With blocks of at most 4 KiB, `resolve_block` has no fault. -/
theorem resolveBlockChecked_eq_pure (disk : Disk) (io : Io σ) {sb : Superblock} (inode : Inode)
    (logical : UInt32) (h : sb.s_log_block_size ≤ 2) :
    resolveBlockChecked disk io sb inode logical =
      pure (resolveBlock disk io sb.blockSize inode logical) := by
  have hradix : 256 ≤ (sb.blockSize / 4).toNat ∧ (sb.blockSize / 4).toNat ≤ 1024 := by
    have hsize := sb.blockSize_of_le_two h
    rw [UInt32.toNat_div]
    show 256 ≤ sb.blockSize.toNat / 4 ∧ sb.blockSize.toNat / 4 ≤ 1024
    omega
  unfold resolveBlockChecked resolveBlock
  rw [Superblock.blockSizeChecked_eq_pure h, pure_bind, div_eq_pure (by decide), pure_bind]
  generalize sb.blockSize / 4 = radix at hradix
  have hzero : radix ≠ 0 := by
    intro heq
    rw [heq] at hradix
    exact absurd hradix.1 (by decide)
  have hsquare_zero := square_ne_zero hzero hradix.2
  obtain ⟨hsquare, hcube⟩ := square_cube_lt hradix.2
  -- Each subtraction follows the comparison that makes it safe.
  dsimp only
  by_cases hdirect : logical < 12
  · rw [if_pos hdirect, if_pos hdirect]
  · rw [if_neg hdirect, if_neg hdirect, sub_eq_pure (UInt32.not_lt.mp hdirect), pure_bind]
    by_cases hlevel1 : logical - 12 < radix
    · rw [if_pos hlevel1, if_pos hlevel1]
      split
      · rfl
      · rfl
    · rw [if_neg hlevel1, if_neg hlevel1, sub_eq_pure (UInt32.not_lt.mp hlevel1), pure_bind,
        mul_eq_pure hsquare, pure_bind]
      by_cases hlevel2 : logical - 12 - radix < radix * radix
      · rw [if_pos hlevel2, if_pos hlevel2]
        split
        · rfl
        · rw [div_eq_pure hzero, pure_bind, mod_eq_pure hzero, pure_bind]
          split
          · rfl
          · rfl
      · rw [if_neg hlevel2, if_neg hlevel2, sub_eq_pure (UInt32.not_lt.mp hlevel2), pure_bind,
          pure_bind, mul_eq_pure hcube, pure_bind]
        by_cases hlevel3 : logical - 12 - radix - radix * radix < radix * radix * radix
        · rw [if_pos hlevel3, if_pos hlevel3]
          split
          · rfl
          · rw [pure_bind, div_eq_pure hsquare_zero, pure_bind, pure_bind,
              mod_eq_pure hsquare_zero, pure_bind, div_eq_pure hzero, pure_bind,
              mod_eq_pure hzero, pure_bind]
            split
            · rfl
            · split
              · rfl
              · rfl
        · rw [if_neg hlevel3, if_neg hlevel3]

theorem DiskSuperblock.inodeSize_lt (sb : DiskSuperblock) : sb.inodeSize.toNat < 2 ^ 16 := by
  unfold DiskSuperblock.inodeSize
  split
  · rw [UInt16.toNat_toUInt32]
    exact sb.s_inode_size.toNat_lt
  · decide

theorem one_le_of_ne_zero {a : UInt32} (h : a ≠ 0) : 1 ≤ a := by
  have hne := toNat_ne_zero h
  refine UInt32.le_iff_toNat_le.mpr ?_
  show 1 ≤ a.toNat
  omega

/-- With blocks of at most 4 KiB and inodes in every group, `read_inode` has no fault. -/
theorem readInodeChecked_ok (disk : Disk) {sb : DiskSuperblock} (ino : UInt32) (io : Io σ)
    (h : sb.s_log_block_size ≤ 2) (hgroup : sb.s_inodes_per_group ≠ 0) :
    ∃ result, readInodeChecked disk sb ino io = pure result ∧
      readInode disk sb ino io = some result := by
  have hsize : sb.blockSize.toNat ≤ 4096 := by
    have hcases := sb.toSuperblock.blockSize_of_le_two h
    omega
  unfold readInodeChecked readInode
  by_cases hino : ino = 0
  · rw [if_pos hino, if_pos hino]
    exact ⟨_, rfl, rfl⟩
  · have hle := one_le_of_ne_zero hino
    have hgroupOff : (if sb.blockSize = 1024 then 2 else 1) * sb.blockSize.toNat < 2 ^ 64 := by
      split
      · omega
      · omega
    have hgroupLt := ((ino - 1) / sb.s_inodes_per_group).toNat_lt
    -- An inode number has 32 bits and an inode size 16, so no offset leaves 64 bits.
    have hindex : ((ino - 1) % sb.s_inodes_per_group).toNat * sb.inodeSize.toNat ≤
        2 ^ 32 * 2 ^ 16 :=
      Nat.mul_le_mul ((ino - 1) % sb.s_inodes_per_group).toNat_lt.le sb.inodeSize_lt.le
    rw [if_neg hino, if_neg hino, if_neg hgroup, Superblock.blockSizeChecked_eq_pure h]
    simp only [pure_bind, sub_eq_pure hle, div_eq_pure hgroup, mod_eq_pure hgroup]
    rw [mul64_eq_pure hgroupOff, pure_bind, mul64_eq_pure (by omega), pure_bind,
      add64_eq_pure (by split <;> omega), pure_bind]
    have hbgd : (if sb.blockSize = 1024 then 2 else 1) * sb.blockSize.toNat +
        ((ino - 1) / sb.s_inodes_per_group).toNat * 32 = bgdOffset sb ino := rfl
    rw [hbgd]
    rcases readBytes disk io (bgdOffset sb ino) none 32 with ⟨_ | bgd, first⟩
    · exact ⟨_, rfl, rfl⟩
    · have htable : (UInt32.ofNat (bgd.fromLe 8 4)).toNat * sb.blockSize.toNat ≤
          2 ^ 32 * 4096 :=
        Nat.mul_le_mul (UInt32.ofNat (bgd.fromLe 8 4)).toNat_lt.le hsize
      dsimp only
      rw [mul64_eq_pure (by omega), pure_bind, mul64_eq_pure (by omega), pure_bind,
        add64_eq_pure (by omega), pure_bind]
      have hinode : (UInt32.ofNat (bgd.fromLe 8 4)).toNat * sb.blockSize.toNat +
          ((ino - 1) % sb.s_inodes_per_group).toNat * sb.inodeSize.toNat =
            inodeOffset sb ino (UInt32.ofNat (bgd.fromLe 8 4)) := rfl
      rw [hinode]
      split
      · exact ⟨_, rfl, rfl⟩
      · rcases readBytes disk _ (inodeOffset sb ino
          (UInt32.ofNat (bgd.fromLe 8 4))) _ sb.inodeSize.toNat with ⟨_ | _, last⟩
        · exact ⟨_, rfl, rfl⟩
        · exact ⟨_, rfl, rfl⟩

omit [PageSource σ] in
/-- The counters of an iteration stay within the size of the file. -/
theorem countersChecked_eq_pure {size blockSize count : Nat} {st : ReadState σ}
    (h : AtBlock size blockSize count st) (hsize : size < 2 ^ 64) :
    st.countersChecked (min st.bytesLeft blockSize) =
      pure (st.bufOff + min st.bytesLeft blockSize, st.bytesLeft - min st.bytesLeft blockSize) := by
  have hoff := h.bufOff
  have hleft := h.bytesLeft
  rw [ReadState.countersChecked, add64_eq_pure (by omega), pure_bind, sub64_eq_pure (by omega),
    pure_bind]

/-- With blocks of at most 4 KiB, an iteration has no fault. -/
theorem readStepChecked_eq (disk : Disk) (buf : Nat) {sb : Superblock} (inode : Inode)
    {size count : Nat} {st : ReadState σ} (h : sb.s_log_block_size ≤ 2) (hsize : size < 2 ^ 64)
    (hat : AtBlock size sb.blockSize.toNat count st) :
    readStepChecked disk buf sb sb.blockSize inode st =
      (readStep disk buf sb.blockSize (.const sb) (.const inode) st).mapError .inr := by
  unfold readStepChecked readStep
  rw [resolveBlockChecked_eq_pure disk st.io inode _ h]
  dsimp only [Ref.const]
  rcases resolveBlock disk st.io sb.blockSize inode (UInt32.ofNat st.logicalBlock) with ⟨block, io⟩
  show (if block = 0 then _ else _ : Except (Fault ⊕ ReadState σ) (ReadState σ)) = _
  dsimp only
  rw [countersChecked_eq_pure hat hsize]
  by_cases hhole : block = 0
  · rw [if_pos hhole, if_pos hhole]
    rfl
  · rw [if_neg hhole, if_neg hhole]
    rcases readBlock disk io block sb.blockSize (buf + st.bufOff) with ⟨_ | _, after⟩
    · rfl
    · rfl

theorem loopChecked_eq (disk : Disk) (buf : Nat) (io : Io σ) {sb : Superblock} (inode : Inode)
    {size : Nat} (count : Nat) (h : sb.s_log_block_size ≤ 2) (hsize : size < 2 ^ 64) :
    ForLoop.loop (readStepChecked disk buf sb sb.blockSize inode) count (.start size io) =
      (ForLoop.loop (readStep disk buf sb.blockSize (.const sb) (.const inode)) count
        (.start size io)).mapError .inr :=
  ForLoop.loop_eq_mapError (I := AtBlock size sb.blockSize.toNat) (.start size _ io)
    fun _ _ _ hat ↦ ⟨readStepChecked_eq disk buf inode h hsize hat, fun _ hstep ↦ hat.step hstep⟩

/-- The number of blocks of a file can be computed. -/
def SizeFits (sb : Superblock) (inode : Inode) (io : Io σ) : Prop :=
  inode.size = 0 ∨ (io.kmalloc inode.size.toNat).1 = 0 ∨
    inode.size.toNat + sb.blockSize.toNat < 2 ^ 64

/-- With blocks of at most 4 KiB, `read_inode_data` has no fault for a size that fits. -/
theorem readInodeDataChecked_ok (disk : Disk) {io : Io σ} {sb : Superblock} {inode : Inode}
    (h : sb.s_log_block_size ≤ 2) (hfits : SizeFits sb inode io) :
    ∃ result, readInodeDataChecked disk io sb inode = pure result ∧
      readInodeData disk io (.const sb) (.const inode) = some result := by
  unfold readInodeDataChecked readInodeData
  dsimp only [Ref.const]
  by_cases hsize : inode.size.toNat = 0
  · rw [if_pos hsize]
    exact ⟨_, rfl, if_pos hsize⟩
  · rw [if_neg hsize, if_neg hsize]
    by_cases hnull : (io.kmalloc inode.size.toNat).1 = 0
    · rw [if_pos hnull, if_pos hnull]
      exact ⟨_, rfl, rfl⟩
    · have hsum : inode.size.toNat + sb.blockSize.toNat < 2 ^ 64 := by
        rcases hfits with hempty | hnone | hlt
        · exact absurd (UInt64.toNat_inj.mpr hempty) hsize
        · exact absurd hnone hnull
        · exact hlt
      have hblock := sb.blockSize_of_le_two h
      have hzero : sb.blockSize ≠ 0 := by
        intro heq
        have hnat : sb.blockSize.toNat = 0 := UInt32.toNat_inj.mpr heq
        omega
      have hneeded : (inode.size.toNat + sb.blockSize.toNat - 1) / sb.blockSize.toNat =
          blocksNeeded inode.size.toNat sb.blockSize.toNat := by
        rw [blocksNeeded, usize_eq (by omega)]
      rw [if_neg hnull, if_neg hnull, if_neg hzero, Superblock.blockSizeChecked_eq_pure h]
      rw [pure_bind, add64_eq_pure hsum, pure_bind, sub64_eq_pure (by omega), pure_bind,
        div64_eq_pure (toNat_ne_zero hzero), pure_bind, hneeded,
        loopChecked_eq disk _ _ inode _ h inode.size.toNat_lt]
      cases ForLoop.loop
          (readStep disk (io.kmalloc inode.size.toNat).1 sb.blockSize (.const sb) (.const inode))
          (blocksNeeded inode.size.toNat sb.blockSize.toNat)
          (.start inode.size.toNat (io.kmalloc inode.size.toNat).2) with
      | ok st => exact ⟨_, rfl, rfl⟩
      | error st => exact ⟨_, rfl, rfl⟩

/-- The size of the file that `read_inode_data` reads without a fault fits. -/
theorem sizeFits_of_readInodeDataChecked {disk : Disk} {io : Io σ} {sb : Superblock}
    {inode : Inode} {result : ReadResult σ} (h : sb.s_log_block_size ≤ 2)
    (hdata : readInodeDataChecked disk io sb inode = .ok result) : SizeFits sb inode io := by
  by_cases hsize : inode.size.toNat = 0
  · exact Or.inl (UInt64.toNat_inj.mp hsize)
  · by_cases hnull : (io.kmalloc inode.size.toNat).1 = 0
    · exact Or.inr (Or.inl hnull)
    · unfold readInodeDataChecked at hdata
      dsimp only at hdata
      rw [if_neg hsize, if_neg hnull, Superblock.blockSizeChecked_eq_pure h, pure_bind] at hdata
      cases hsum : add64 inode.size.toNat sb.blockSize.toNat with
      | error fault =>
          rw [hsum] at hdata
          cases hdata
      | ok sum => exact Or.inr (Or.inr (condition_of_guarded hsum))

/-! ## Which superblocks are safe -/

/-- A shift below 32 that gives a block size other than 0 whose cubed number of pointers fits is at
most 2. -/
theorem shift_le_two {log : Nat} (hlt : log < 32) (hne : 1024 * 2 ^ log % 2 ^ 32 ≠ 0)
    (hcube : (1024 * 2 ^ log % 2 ^ 32 / 4) ^ 3 < 2 ^ 32) : log ≤ 2 := by
  revert log
  decide

/-- No computation on a superblock has a fault, and its divisors and products are as they should
be. -/
structure ArithmeticSafe (disk : Disk) (sb : DiskSuperblock) (ino : UInt32) (inode : Inode)
    (io : Io σ) : Prop where
  blockSize : ∃ size, sb.blockSizeChecked = .ok size ∧ size ≠ 0 ∧ (size.toNat / 4) ^ 3 < 2 ^ 32
  inodesPerGroup : sb.s_inodes_per_group ≠ 0
  readInode : ∃ result, readInodeChecked disk sb ino io = .ok result
  readInodeData : ∃ result, readInodeDataChecked disk io sb.toSuperblock inode = .ok result
  resolveBlock : ∀ logical, ∃ result,
    resolveBlockChecked disk io sb.toSuperblock inode logical = .ok result

/-- The arithmetic on a superblock is safe for blocks of at most 4 KiB, inodes in every group and a
file whose size fits, and only for these. -/
theorem arithmetic_safe_iff (disk : Disk) (sb : DiskSuperblock) (ino : UInt32) (inode : Inode)
    (io : Io σ) :
    ArithmeticSafe disk sb ino inode io ↔
      sb.s_log_block_size ≤ 2 ∧ sb.s_inodes_per_group ≠ 0 ∧
        SizeFits sb.toSuperblock inode io := by
  constructor
  · intro h
    have hlog : sb.s_log_block_size ≤ 2 := by
      -- Shifts from 32 on fault, from 22 on give 0, and from 3 on make the cube too large.
      obtain ⟨size, hsize, hne, hcube⟩ := h.blockSize
      have hlt : sb.s_log_block_size.toNat < 32 :=
        UInt32.lt_iff_toNat_lt.mp (condition_of_guarded hsize)
      rw [Superblock.blockSizeChecked, shiftLeft_eq_pure (condition_of_guarded hsize)] at hsize
      cases hsize
      have hshift : (1024 <<< sb.s_log_block_size : UInt32).toNat =
          1024 * 2 ^ sb.s_log_block_size.toNat % 2 ^ 32 := by
        rw [UInt32.toNat_shiftLeft, Nat.shiftLeft_eq, Nat.mod_eq_of_lt hlt]
        rfl
      have hnat := toNat_ne_zero hne
      rw [hshift] at hnat hcube
      exact UInt32.le_iff_toNat_le.mpr (shift_le_two hlt hnat hcube)
    obtain ⟨result, hdata⟩ := h.readInodeData
    exact ⟨hlog, h.inodesPerGroup, sizeFits_of_readInodeDataChecked hlog hdata⟩
  · intro ⟨hlog, hgroup, hfits⟩
    have hblock := sb.toSuperblock.blockSize_of_le_two hlog
    obtain ⟨found, hinode, -⟩ := readInodeChecked_ok disk ino io hlog hgroup
    obtain ⟨data, hdata, -⟩ := readInodeDataChecked_ok disk hlog hfits
    exact {
      blockSize := by
        refine ⟨sb.blockSize, Superblock.blockSizeChecked_eq_pure hlog, ?_, ?_⟩
        · intro heq
          have hnat : sb.blockSize.toNat = 0 := UInt32.toNat_inj.mpr heq
          omega
        · rcases hblock with heq | heq | heq
          · rw [heq]
            decide
          · rw [heq]
            decide
          · rw [heq]
            decide
      inodesPerGroup := hgroup
      readInode := ⟨found, hinode⟩
      readInodeData := ⟨data, hdata⟩
      resolveBlock := fun logical ↦
        ⟨_, resolveBlockChecked_eq_pure disk io inode logical hlog⟩ }

/-- A disk that holds the magic number of a superblock and zeros. -/
def magicDisk : Disk where
  image k := if k = 1024 + 56 then 0x53 else if k = 1024 + 57 then 0xEF else 0
  fails _ := none

/-- Without inodes in a group, `read_inode` divides by zero. -/
theorem readInodeChecked_divisionByZero (disk : Disk) {sb : DiskSuperblock} {ino : UInt32}
    (io : Io σ) (hino : ino ≠ 0) (h : sb.s_log_block_size < 32)
    (hgroup : sb.s_inodes_per_group = 0) :
    readInodeChecked disk sb ino io = .error .divisionByZero := by
  have hle := one_le_of_ne_zero hino
  have hshift : sb.blockSizeChecked = pure sb.blockSize := shiftLeft_eq_pure h
  have hdiv : div (ino - 1) sb.s_inodes_per_group = .error .divisionByZero := by
    rw [hgroup]
    rfl
  unfold readInodeChecked
  rw [if_neg hino, hshift, pure_bind, sub_eq_pure hle, pure_bind, hdiv]
  rfl

/-- The superblock with the magic number and zeros is mounted, and `read_inode` divides by its
number of inodes in a group. -/
theorem mounted_arithmetic_not_safe :
    ∃ fs after, Ext3.mount magicDisk (.start sampleHeap (fun _ ↦ 0) 0) = (some fs, after) ∧
      readInodeChecked magicDisk (after.superblock fs.ptr) ROOT_INO after =
        .error .divisionByZero ∧
      ¬ ArithmeticSafe magicDisk (after.superblock fs.ptr) ROOT_INO sampleInode after := by
  have hfields : (Ext3.mount magicDisk (.start sampleHeap (fun _ ↦ 0) 0)).1.map (fun fs ↦
      (((Ext3.mount magicDisk (.start sampleHeap (fun _ ↦ 0) 0)).2.superblock
          fs.ptr).s_log_block_size,
        ((Ext3.mount magicDisk (.start sampleHeap (fun _ ↦ 0) 0)).2.superblock
          fs.ptr).s_inodes_per_group)) = some (0, 0) := by
    decide +kernel
  obtain ⟨fs, hfs, hpair⟩ := Option.map_eq_some_iff.mp hfields
  rcases hmount : Ext3.mount magicDisk (.start sampleHeap (fun _ ↦ 0) 0) with ⟨found, after⟩
  rw [hmount] at hfs hpair
  obtain ⟨hlog, hgroup⟩ := Prod.ext_iff.mp hpair
  have hlt : (after.superblock fs.ptr).s_log_block_size < 32 := by
    rw [show (after.superblock fs.ptr).s_log_block_size = 0 from hlog]
    decide
  exact ⟨fs, after, Prod.ext hfs rfl,
    readInodeChecked_divisionByZero _ _ (by decide) hlt hgroup, fun h ↦ h.inodesPerGroup hgroup⟩

end Avaria.Fs
