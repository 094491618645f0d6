import Avaria.Fs.Inode

/-!
# Inodes and directories

The superblock fields and `read_inode`, and the directory functions of `dir.rs`: `lookup`,
`resolve_path` and `for_each_entry`. A function returns `none` where the source divides by zero, in
`read_inode` or in `read_inode_data`; the kernel ends there. The output on the serial port is left
out.

`resolve_path` has the address of the superblock. `read_inode` takes all it needs from there before
it writes anything; the inode size is read again to free an inode, and a read in between may have
written there.
-/

namespace Avaria.Fs

open Mem Mm

/-- `EXT_MAGIC`. -/
def EXT_MAGIC : UInt16 := 0xEF53

/-- `ROOT_INO`. -/
def ROOT_INO : UInt32 := 2

/-- `S_IFDIR`. -/
def S_IFDIR : UInt16 := 0x4000

/-- The fields of `struct Superblock` that mounting and reading inodes use on top. -/
structure DiskSuperblock extends Superblock where
  s_inodes_per_group : UInt32
  s_magic : UInt16
  s_rev_level : UInt32
  s_inode_size : UInt16

/-- The superblock at an address. -/
def DiskSuperblock.decode (memory : ByteMap) (ptr : Nat) : DiskSuperblock where
  s_log_block_size := UInt32.ofNat (memory.fromLe (ptr + 24) 4)
  s_inodes_per_group := UInt32.ofNat (memory.fromLe (ptr + 40) 4)
  s_magic := UInt16.ofNat (memory.fromLe (ptr + 56) 2)
  s_rev_level := UInt32.ofNat (memory.fromLe (ptr + 76) 4)
  s_inode_size := UInt16.ofNat (memory.fromLe (ptr + 88) 2)

/-- `Superblock::inode_size`. -/
def DiskSuperblock.inodeSize (sb : DiskSuperblock) : UInt32 :=
  if sb.s_rev_level ≥ 1 ∧ sb.s_inode_size > 0 then sb.s_inode_size.toUInt32 else 128

/-- The inode at an address. -/
def Inode.decode (memory : ByteMap) (ptr : Nat) : Inode where
  i_mode := UInt16.ofNat (memory.fromLe ptr 2)
  i_size := UInt32.ofNat (memory.fromLe (ptr + 4) 4)
  i_block i := UInt32.ofNat (memory.fromLe (ptr + 40 + 4 * i.val) 4)
  i_size_high := UInt32.ofNat (memory.fromLe (ptr + 108) 4)

/-- A pointer to the superblock, for reading data. -/
def superblockAt (ptr : Nat) : Ref Superblock := fun memory ↦
  (DiskSuperblock.decode memory ptr).toSuperblock

/-- A pointer to an inode. -/
def inodeAt (ptr : Nat) : Ref Inode := fun memory ↦ .decode memory ptr

section Apart

variable {ptr : Nat} {memory : ByteMap} {written : Nat → Prop}

end Apart

/-- `Inode::is_dir`. -/
def Inode.isDir (inode : Inode) : Bool := decide (inode.i_mode &&& S_IFMT = S_IFDIR)

/-- `Inode::is_file`. -/
def Inode.isFile (inode : Inode) : Bool := decide (inode.i_mode &&& S_IFMT = S_IFREG)

/-- `inode_alloc_size`. A `struct Inode` has 128 bytes. -/
def inodeAllocSize (inodeSize : UInt32) : Nat :=
  let min := 128
  if inodeSize.toNat > min then inodeSize.toNat else min

/-- The offset of the group descriptor of an inode. -/
def bgdOffset (sb : DiskSuperblock) (ino : UInt32) : Nat :=
  let blockSize := sb.blockSize
  let group := (ino - 1) / sb.s_inodes_per_group
  let bgdtBlock := if blockSize = 1024 then 2 else 1
  bgdtBlock * blockSize.toNat + group.toNat * 32

/-- The offset of an inode, for the inode table that its group descriptor names. -/
def inodeOffset (sb : DiskSuperblock) (ino inodeTable : UInt32) : Nat :=
  let index := (ino - 1) % sb.s_inodes_per_group
  inodeTable.toNat * sb.blockSize.toNat + index.toNat * sb.inodeSize.toNat

variable {σ : Type*} [PageSource σ]

/-- `read_inode`: the buffer, unless it is null. -/
def readInode (disk : Disk) (sb : DiskSuperblock) (ino : UInt32) (io : Io σ) :
    Option (Option Nat × Io σ) :=
  if ino = 0 then some (none, io)
  else if sb.s_inodes_per_group = 0 then none
  else
    match readBytes disk io (bgdOffset sb ino) none 32 with
    | (none, io) => some (none, io)
    | (some bgd, io) =>
        let inodeTable := UInt32.ofNat (bgd.fromLe 8 4)
        let inodeSize := sb.inodeSize
        let alloc := inodeAllocSize inodeSize
        let (buf, io) := io.kmalloc alloc
        if buf = 0 then some (none, io)
        else
          let io := io.fill ⟨buf, alloc⟩ 0
          match readBytes disk io (inodeOffset sb ino inodeTable) (some buf) inodeSize.toNat with
          | (none, io) => some (none, io.kfree buf alloc)
          | (some _, io) => some (some buf, io)

/-! ## Directory entries -/

/-- `struct DirEntry`. -/
structure DirEntry where
  inode : UInt32
  rec_len : UInt16
  name_len : UInt8
  file_type : UInt8

/-- The entry at an offset of the directory data. -/
def DirEntry.decode (data : ByteMap) (off : Nat) : DirEntry where
  inode := UInt32.ofNat (data.fromLe off 4)
  rec_len := UInt16.ofNat (data.fromLe (off + 4) 2)
  name_len := data (off + 6)
  file_type := data (off + 7)

/-- The name that follows an entry. -/
def entryName (data : ByteMap) (off : Nat) : List UInt8 :=
  (List.range (DirEntry.decode data off).name_len.toNat).map fun i ↦ data (off + 8 + i)

/-- `find_in_dir_data`, from an offset on. -/
def findInDirData (data : ByteMap) (size : Nat) (name : List UInt8) (off : Nat) : UInt32 :=
  if off + 8 ≤ size then
    let entry := DirEntry.decode data off
    if entry.rec_len = 0 then 0
    else if entry.inode ≠ 0 ∧ entry.name_len.toNat = name.length ∧ entryName data off = name then
      entry.inode
    else findInDirData data size name (off + entry.rec_len.toNat)
  else 0
termination_by size - off
decreasing_by
  rename_i hsize hlen _
  have hpos : (DirEntry.decode data off).rec_len.toNat ≠ 0 :=
    fun heq ↦ hlen (UInt16.toNat_inj.mp heq)
  omega

/-- The loop of `for_each_entry` from an offset on: the arguments of the calls of the visitor. -/
def visitEntries (data : ByteMap) (size off : Nat) : List (List UInt8 × UInt32 × UInt8) :=
  if off + 8 ≤ size then
    let entry := DirEntry.decode data off
    if entry.rec_len = 0 then []
    else if entry.inode ≠ 0 then
      (entryName data off, entry.inode, entry.file_type) ::
        visitEntries data size (off + entry.rec_len.toNat)
    else visitEntries data size (off + entry.rec_len.toNat)
  else []
termination_by size - off
decreasing_by
  all_goals
    rename_i hsize hlen _
    have hpos : (DirEntry.decode data off).rec_len.toNat ≠ 0 :=
      fun heq ↦ hlen (UInt16.toNat_inj.mp heq)
    omega

/-! ## Directories -/

/-- The superblock that a pointer to it leads to. -/
def Io.superblock (io : Io σ) (sb : Nat) : DiskSuperblock := .decode io.memory sb

/-- The size that an inode is allocated and freed with, by the superblock in the memory. -/
def Io.inodeAlloc (io : Io σ) (sb : Nat) : Nat := inodeAllocSize (io.superblock sb).inodeSize

variable (disk : Disk)

/-- `lookup`. -/
def lookup (sb : Ref Superblock) (dirInode : Ref Inode) (name : List UInt8) (io : Io σ) :
    Option (UInt32 × Io σ) :=
  if (dirInode io.memory).i_mode &&& S_IFMT ≠ S_IFDIR then some (0, io)
  else
    match readInodeData disk io sb dirInode with
    | none => none
    | some data =>
        if data.ptr = 0 ∨ data.length = 0 then some (0, data.io)
        else
          some (findInDirData (data.io.memory.behind data.ptr) data.length name 0,
            data.io.kfree data.ptr data.length)

/-- The loop of `resolve_path` over the components of the path. -/
def resolveComponents (sb : Nat) : UInt32 → List (List UInt8) → Io σ → Option (UInt32 × Io σ)
  | currentIno, [], io => some (currentIno, io)
  | currentIno, component :: rest, io =>
      if component = [] ∨ component = [0x2E] then resolveComponents sb currentIno rest io
      else
        match readInode disk (io.superblock sb) currentIno io with
        | none => none
        | some (none, io) => some (0, io)
        | some (some inoPtr, io) =>
            match lookup disk (superblockAt sb) (inodeAt inoPtr) component io with
            | none => none
            | some (found, io) =>
                let alloc := io.inodeAlloc sb
                let io := io.kfree inoPtr alloc
                if found = 0 then some (0, io) else resolveComponents sb found rest io

/-- `resolve_path`. The path is given by its bytes. -/
def resolvePath (sb : Nat) (startIno : UInt32) (path : List UInt8) (io : Io σ) :
    Option (UInt32 × Io σ) :=
  let path := path.dropWhile (· = 0x2F)
  if path = [] then some (startIno, io)
  else resolveComponents disk sb startIno (path.splitOn 0x2F) io

/-- `for_each_entry`: the arguments of the calls of the visitor. -/
def forEachEntry (sb : Ref Superblock) (dirInode : Ref Inode) (io : Io σ) :
    Option (List (List UInt8 × UInt32 × UInt8) × Io σ) :=
  if (dirInode io.memory).i_mode &&& S_IFMT ≠ S_IFDIR then some ([], io)
  else
    match readInodeData disk io sb dirInode with
    | none => none
    | some data =>
        if data.ptr = 0 ∨ data.length = 0 then some ([], data.io)
        else
          some (visitEntries (data.io.memory.behind data.ptr) data.length 0,
            data.io.kfree data.ptr data.length)

end Avaria.Fs
