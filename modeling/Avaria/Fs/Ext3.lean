import Avaria.Fs.Dir

/-!
# Mounted file systems

`read_superblock` and the operations of `struct Ext3`: `mount`, `read_file`, `exists`, `list_dir`
and `drop`. The superblock stays in its buffer on the heap while the file system is mounted, and is
read there whenever the source does.
-/

namespace Avaria.Fs

open Mem Mm

variable {σ : Type*} [PageSource σ]

/-- `read_superblock`: the buffer, unless it is null. -/
def readSuperblock (disk : Disk) (io : Io σ) : Option Nat × Io σ :=
  let (buf, io) := io.kmallocAligned 4096 4096
  if buf = 0 then (none, io)
  else
    match readBytes disk io 1024 (some buf) 1024 with
    | (none, io) => (none, io.kfree buf 4096)
    | (some _, io) =>
        if (io.superblock buf).s_magic ≠ EXT_MAGIC then (none, io.kfree buf 4096)
        else (some buf, io)

/-- `struct Ext3`, the pointer to the superblock. -/
structure Ext3 where
  ptr : Nat

namespace Ext3

/-- `Ext3::mount`. -/
def mount (disk : Disk) (io : Io σ) : Option Ext3 × Io σ :=
  match readSuperblock disk io with
  | (none, io) => (none, io)
  | (some ptr, io) => (some ⟨ptr⟩, io)

/-- `Ext3::read_file`: the buffer and its size. -/
def readFile (disk : Disk) (fs : Ext3) (path : List UInt8) (io : Io σ) :
    Option (Nat × Nat × Io σ) :=
  match resolvePath disk fs.ptr ROOT_INO path io with
  | none => none
  | some (inoNum, io) =>
      if inoNum = 0 then some (0, 0, io)
      else
        match readInode disk (io.superblock fs.ptr) inoNum io with
        | none => none
        | some (none, io) => some (0, 0, io)
        | some (some inoPtr, io) =>
            if (inodeAt inoPtr io.memory).isFile = false then
              let alloc := io.inodeAlloc fs.ptr
              some (0, 0, io.kfree inoPtr alloc)
            else
              match readInodeData disk io (superblockAt fs.ptr) (inodeAt inoPtr) with
              | none => none
              | some data =>
                  let alloc := data.io.inodeAlloc fs.ptr
                  some (data.ptr, data.length, data.io.kfree inoPtr alloc)

/-- `Ext3::exists`. -/
def pathExists (disk : Disk) (fs : Ext3) (path : List UInt8) (io : Io σ) :
    Option (Bool × Io σ) :=
  match resolvePath disk fs.ptr ROOT_INO path io with
  | none => none
  | some (inoNum, io) => some (decide (inoNum ≠ 0), io)

/-- The inode number that `list_dir` starts from; 0 if there is none. -/
def dirIno (disk : Disk) (fs : Ext3) (path : List UInt8) (io : Io σ) : Option (UInt32 × Io σ) :=
  if path = [] ∨ path = [0x2F] then some (ROOT_INO, io)
  else resolvePath disk fs.ptr ROOT_INO path io

/-- `Ext3::list_dir`: the arguments of the calls of the visitor. -/
def listDir (disk : Disk) (fs : Ext3) (path : List UInt8) (io : Io σ) :
    Option (List (List UInt8 × UInt32 × UInt8) × Io σ) :=
  match dirIno disk fs path io with
  | none => none
  | some (inoNum, io) =>
      if inoNum = 0 then some ([], io)
      else
        match readInode disk (io.superblock fs.ptr) inoNum io with
        | none => none
        | some (none, io) => some ([], io)
        | some (some inoPtr, io) =>
            match forEachEntry disk (superblockAt fs.ptr) (inodeAt inoPtr) io with
            | none => none
            | some (visited, io) =>
                let alloc := io.inodeAlloc fs.ptr
                some (visited, io.kfree inoPtr alloc)

/-- `Ext3::drop`. -/
def drop (fs : Ext3) (io : Io σ) : Io σ := if fs.ptr ≠ 0 then io.kfree fs.ptr 4096 else io

end Ext3

end Avaria.Fs
