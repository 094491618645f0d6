import Avaria.Fs.Block
import Avaria.Lib.ForLoop

/-!
# Reading the data of an inode

`resolve_block`, `read_block_ptr` and `read_inode_data` of `inode.rs`. The index arithmetic is that
of the source, on 32-bit numbers. A block size of 0, which a superblock can ask for by a large
shift, ends in a division by zero; `readInodeData` returns `none` there.

The superblock and the inode are references. What they lead to lies in the memory, so a block of the
heap may lie over it, and the loop of `read_inode_data` may change it (`Ref`).

The loop of `read_inode_data` is a `ForLoop` with the body `readStep`.
-/

namespace Avaria.Fs

open Mem Mm

/-- `S_IFMT`. -/
def S_IFMT : UInt16 := 0xF000

/-- `S_IFREG`. -/
def S_IFREG : UInt16 := 0x8000

/-- The fields of `struct Inode` that reading the data uses. -/
structure Inode where
  i_mode : UInt16
  i_size : UInt32
  i_block : Fin 15 → UInt32
  i_size_high : UInt32

/-- `Inode::size`. -/
def Inode.size (inode : Inode) : UInt64 :=
  let lo := inode.i_size.toUInt64
  if inode.i_mode &&& S_IFMT = S_IFREG then lo ||| (inode.i_size_high.toUInt64 <<< 32) else lo

/-- `i_block[i]`, for an index less than 15. -/
def Inode.ptr (inode : Inode) (i : Nat) : UInt32 := inode.i_block (Fin.ofNat 15 i)

/-- The field of `struct Superblock` that reading the data uses. -/
structure Superblock where
  s_log_block_size : UInt32

/-- A reference: what it leads to in a memory. -/
abbrev Ref (α : Type*) := ByteMap → α

/-- A reference to a place that is not written to. -/
def Ref.const {α : Type*} (value : α) : Ref α := fun _ ↦ value

/-- Nothing writes behind a shared reference: what it leads to lies apart from the addresses that
are written. -/
def Ref.Apart {α : Type*} (ref : Ref α) (memory : ByteMap) (written : Nat → Prop) : Prop :=
  ∀ after : ByteMap, (∀ addr, ¬ written addr → after addr = memory addr) → ref after = ref memory

/-- `Superblock::block_size`. The release build takes the shift modulo 32. -/
def Superblock.blockSize (sb : Superblock) : UInt32 := 1024 <<< sb.s_log_block_size

variable {σ : Type*} [PageSource σ]

/-- `read_block_ptr`: the pointer, which is 0 if the read fails, and the state after the call. The
offset is less than `2 ^ 64`. -/
def readBlockPtr (disk : Disk) (io : Io σ) (blockSize blockNum index : UInt32) : UInt32 × Io σ :=
  let byteOff := blockNum.toNat * blockSize.toNat + index.toNat * 4
  match readBytes disk io byteOff none 4 with
  | (some val, io) => (UInt32.ofNat (val.fromLe 0 4), io)
  | (none, io) => (0, io)

/-- `resolve_block`. -/
def resolveBlock (disk : Disk) (io : Io σ) (blockSize : UInt32) (inode : Inode)
    (logical : UInt32) : UInt32 × Io σ :=
  let ptrsPerBlock := blockSize / 4
  if logical < 12 then (inode.ptr logical.toNat, io)
  else
    let logical := logical - 12
    if logical < ptrsPerBlock then
      let indirectBlock := inode.ptr 12
      if indirectBlock = 0 then (0, io)
      else readBlockPtr disk io blockSize indirectBlock logical
    else
      let logical := logical - ptrsPerBlock
      let doubleRange := ptrsPerBlock * ptrsPerBlock
      if logical < doubleRange then
        let dblBlock := inode.ptr 13
        if dblBlock = 0 then (0, io)
        else
          let idx1 := logical / ptrsPerBlock
          let idx2 := logical % ptrsPerBlock
          let (indBlock, io) := readBlockPtr disk io blockSize dblBlock idx1
          if indBlock = 0 then (0, io) else readBlockPtr disk io blockSize indBlock idx2
      else
        let logical := logical - doubleRange
        let tripleRange := ptrsPerBlock * ptrsPerBlock * ptrsPerBlock
        if logical < tripleRange then
          let triBlock := inode.ptr 14
          if triBlock = 0 then (0, io)
          else
            let idx1 := logical / (ptrsPerBlock * ptrsPerBlock)
            let rem := logical % (ptrsPerBlock * ptrsPerBlock)
            let idx2 := rem / ptrsPerBlock
            let idx3 := rem % ptrsPerBlock
            let (dbl, io) := readBlockPtr disk io blockSize triBlock idx1
            if dbl = 0 then (0, io)
            else
              let (ind, io) := readBlockPtr disk io blockSize dbl idx2
              if ind = 0 then (0, io) else readBlockPtr disk io blockSize ind idx3
        else (0, io)

/-- The variables of the loop of `read_inode_data`, with the state. -/
structure ReadState (σ : Type*) where
  logicalBlock : Nat
  bytesLeft : Nat
  bufOff : Nat
  io : Io σ

/-- The body of the loop of `read_inode_data`. It leaves the loop when a block cannot be read. -/
def readStep (disk : Disk) (buf : Nat) (blockSize : UInt32) (sb : Ref Superblock)
    (inode : Ref Inode) (st : ReadState σ) : Except (ReadState σ) (ReadState σ) :=
  -- `resolve_block` reads the block size and the pointers again in each iteration
  let (physBlock, io) := resolveBlock disk st.io (sb st.io.memory).blockSize
    (inode st.io.memory) (UInt32.ofNat st.logicalBlock)
  let chunk := min st.bytesLeft blockSize.toNat
  if physBlock = 0 then
    .ok ⟨st.logicalBlock + 1, st.bytesLeft - chunk, st.bufOff + chunk,
      io.fill ⟨buf + st.bufOff, chunk⟩ 0⟩
  else
    match readBlock disk io physBlock blockSize (buf + st.bufOff) with
    | (true, io) => .ok ⟨st.logicalBlock + 1, st.bytesLeft - chunk, st.bufOff + chunk, io⟩
    | (false, io) => .error { st with io }

/-- What `read_inode_data` returns, with the state. -/
structure ReadResult (σ : Type*) where
  ptr : Nat
  length : Nat
  io : Io σ

/-- `blocks_needed`, with the wrapping sum of the release build. -/
def blocksNeeded (size blockSize : Nat) : Nat := usize (size + blockSize - 1) / blockSize

/-- The state before the loop. -/
def ReadState.start (size : Nat) (io : Io σ) : ReadState σ := ⟨0, size, 0, io⟩

/-- `read_inode_data`. -/
def readInodeData (disk : Disk) (io : Io σ) (sb : Ref Superblock) (inode : Ref Inode) :
    Option (ReadResult σ) :=
  let size := (inode io.memory).size.toNat
  if size = 0 then some ⟨0, 0, io⟩
  else
    let (buf, io) := io.kmalloc size
    if buf = 0 then some ⟨0, 0, io⟩
    else
      let blockSize := (sb io.memory).blockSize
      if blockSize = 0 then none
      else
        match ForLoop.loop (readStep disk buf blockSize sb inode)
            (blocksNeeded size blockSize.toNat) (.start size io) with
        | .ok st => some ⟨buf, size, st.io⟩
        | .error st => some ⟨0, 0, st.io.kfree buf size⟩

/-! ## Block sizes -/

theorem toNat_ne_zero {a : UInt32} (h : a ≠ 0) : a.toNat ≠ 0 :=
  fun hzero ↦ h (UInt32.toNat_inj.mp hzero)

/-- A block size that is not 0 has at least 1024 bytes. -/
theorem Superblock.le_blockSize {sb : Superblock} (h : sb.blockSize ≠ 0) :
    1024 ≤ sb.blockSize.toNat := by
  have hshift : sb.blockSize.toNat = 2 ^ (10 + sb.s_log_block_size.toNat % 32) % 2 ^ 32 := by
    rw [Superblock.blockSize, UInt32.toNat_shiftLeft, Nat.shiftLeft_eq, Nat.pow_add]
    rfl
  by_cases hlarge : 32 ≤ 10 + sb.s_log_block_size.toNat % 32
  · refine absurd ?_ h
    rw [← UInt32.toNat_inj, hshift]
    exact Nat.mod_eq_zero_of_dvd (Nat.pow_dvd_pow 2 hlarge)
  · rw [hshift, Nat.mod_eq_of_lt (Nat.pow_lt_pow_right Nat.one_lt_two (not_le.mp hlarge))]
    exact Nat.pow_le_pow_right Nat.two_pos (Nat.le_add_right 10 _)

end Avaria.Fs
