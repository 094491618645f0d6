import Avaria.Fs.Ext3
import Avaria.Fs.Path
import Avaria.Fs.ReadData

/-!
# Heap blocks of the file system

Which heap blocks the operations of the file system obtain and give back, on every path through
them: failed reads, failed allocations, missing components, wrong inode types. Each lemma says what
a function adds to the ledger.

An inode is freed with a size that is computed again, from the superblock in the memory. A block
that the heap hands out in between may lie over the superblock. `SizeKept` says that this does not
change the size, and `ext3_heap_balanced_iff` that the operations are balanced exactly then.
-/

namespace Avaria.Fs

open Mem Mm

variable {σ : Type*} [PageSource σ]

/-- Between two states, `kfree` was called for live blocks with their sizes only, and some blocks
more are live than before. -/
def Io.Gains (items : Multiset (Nat × Nat)) (before after : Io σ) : Prop :=
  Ledger.Gains items before.ledger after.ledger

/-- The block behind a pointer, if it is not null. -/
def blockOf (ptr size : Nat) : Multiset (Nat × Nat) := if ptr = 0 then 0 else {(ptr, size)}

theorem blockOf_null (size : Nat) : blockOf 0 size = 0 := if_pos rfl

theorem blockOf_of_ne {ptr : Nat} (h : ptr ≠ 0) (size : Nat) : blockOf ptr size = {(ptr, size)} :=
  if_neg h

namespace Io.Gains

variable {before middle after : Io σ} {items : Multiset (Nat × Nat)}

omit [PageSource σ] in
theorem refl (io : Io σ) : io.Gains 0 io := Ledger.Gains.refl io.ledger

omit [PageSource σ] in
/-- A part that leaves nothing behind comes after. -/
theorem then_balanced (h : Io.Gains items before middle) (hrest : Io.Gains 0 middle after) :
    Io.Gains items before after := by
  have htrans := Ledger.Gains.trans h hrest
  rwa [zero_add] at htrans

omit [PageSource σ] in
/-- A part that leaves nothing behind comes before. -/
theorem balanced_then (h : Io.Gains 0 before middle) (hrest : Io.Gains items middle after) :
    Io.Gains items before after := by
  have htrans := Ledger.Gains.trans h hrest
  rwa [add_zero] at htrans

omit [PageSource σ] in
/-- Blocks are gained by ledgers that are defined. -/
theorem live_ne_none (h : Io.Gains items before after)
    (hempty : Ledger.live before.ledger = some 0) : Ledger.live after.ledger ≠ none := by
  rw [h.live_eq hempty]
  exact Option.some_ne_none _

omit [PageSource σ] in
theorem obtain_block (io : Io σ) (heap : Heap σ) (ptr size : Nat) :
    io.Gains (blockOf ptr size) (io.obtain heap ptr size) := by
  by_cases hnull : ptr = 0
  · subst hnull
    rw [blockOf_null, Io.Gains, io.ledger_obtain_null heap rfl]
    exact Ledger.Gains.refl io.ledger
  · rw [blockOf_of_ne hnull, Io.Gains, Io.obtain, if_neg hnull]
    exact Ledger.Gains.obtain io.ledger (ptr, size)

theorem kmalloc (io : Io σ) (size : Nat) :
    io.Gains (blockOf (io.kmalloc size).1 size) (io.kmalloc size).2 :=
  obtain_block io _ _ size

theorem kmallocAligned (io : Io σ) (size align : Nat) :
    io.Gains (blockOf (io.kmallocAligned size align).1 size) (io.kmallocAligned size align).2 :=
  obtain_block io _ _ size

/-- A block that is live is freed with its size. -/
theorem kfree {ptr size : Nat} (h : Io.Gains (blockOf ptr size) before after) (hptr : ptr ≠ 0) :
    Io.Gains 0 before (after.kfree ptr size) := by
  rw [blockOf_of_ne hptr, ← zero_add {(ptr, size)}] at h
  exact Ledger.Gains.give_back h

/-- The same, where other blocks stay live. -/
theorem kfree_add {ptr size : Nat} (h : Io.Gains (items + {(ptr, size)}) before after) :
    Io.Gains items before (after.kfree ptr size) :=
  Ledger.Gains.give_back h

end Io.Gains

/-! ## Reading -/

/-- `read_bytes` frees its temporary buffer. -/
theorem readBytes_balanced (disk : Disk) (io : Io σ) (byteOff : Nat) (dst : Option Nat)
    (count : Nat) : io.Gains 0 (readBytes disk io byteOff dst count).2 := by
  by_cases hcount : count = 0
  · subst hcount
    exact Io.Gains.refl io
  · have hbuf := Io.Gains.kmallocAligned io (sectorBytes byteOff count) 4096
    rcases readBytes_cases disk io byteOff dst hcount with
      ⟨hnull, heq⟩ | ⟨hptr, ⟨left, -, heq⟩ | ⟨memory, -, -, heq⟩⟩
    · rw [heq]
      rw [show (io.kmallocAligned (sectorBytes byteOff count) 4096).1 = 0 from hnull,
        blockOf_null] at hbuf
      exact hbuf
    · rw [heq]
      exact hbuf.kfree hptr
    · rw [heq]
      cases dst <;> exact hbuf.kfree hptr

theorem readBlockPtr_balanced (disk : Disk) (io : Io σ) (blockSize blockNum index : UInt32) :
    io.Gains 0 (readBlockPtr disk io blockSize blockNum index).2 := by
  rw [readBlockPtr_snd]
  exact readBytes_balanced disk io _ none 4

theorem followPtrs_balanced (disk : Disk) (blockSize block : UInt32) (path : List UInt32)
    (io : Io σ) : io.Gains 0 (followPtrs disk blockSize block path io).2 := by
  induction path generalizing block io with
  | nil => exact Io.Gains.refl io
  | cons index path ih =>
      rw [followPtrs_cons]
      split
      · exact Io.Gains.refl io
      · exact (readBlockPtr_balanced disk io blockSize block index).then_balanced (ih _ _)

theorem resolved_balanced (disk : Disk) (sb : Ref Superblock) (inode : Ref Inode)
    (st : ReadState σ) :
    st.io.Gains 0 (st.resolved disk sb inode).2 := by
  rw [ReadState.resolved, resolveBlock_eq]
  exact followPtrs_balanced disk _ _ _ st.io

theorem dataRead_balanced (disk : Disk) (buf : Nat) (blockSize : UInt32) (sb : Ref Superblock)
    (inode : Ref Inode) (st : ReadState σ) :
    st.io.Gains 0 (st.dataRead disk buf blockSize sb inode).2 :=
  (resolved_balanced disk sb inode st).then_balanced (readBytes_balanced disk _ _ _ _)

/-- An iteration of `read_inode_data` leaves no block behind. -/
theorem readStep_balanced {disk : Disk} {buf : Nat} {blockSize : UInt32} {sb : Ref Superblock}
    {inode : Ref Inode} {st next : ReadState σ}
    (h : readStep disk buf blockSize sb inode st = .ok next) :
    st.io.Gains 0 next.io := by
  rcases readStep_ok h with ⟨-, rfl⟩ | ⟨-, -, rfl⟩
  · exact resolved_balanced disk sb inode st
  · exact dataRead_balanced disk buf blockSize sb inode st

theorem afterBlocks_balanced {disk : Disk} {io : Io σ} {sb : Ref Superblock} {inode : Ref Inode}
    {count : Nat} {st : ReadState σ} (h : afterBlocks disk io sb inode count = .ok st) :
    (io.kmalloc (io.fileSize inode)).2.Gains 0 st.io :=
  ForLoop.invariant (I := fun _ st ↦ (io.kmalloc (io.fileSize inode)).2.Gains 0 st.io) h
    (Io.Gains.refl _) fun _ _ _ _ hinv hstep ↦ hinv.then_balanced (readStep_balanced hstep)

/-- `read_inode_data` leaves the block that it returns. -/
theorem readInodeData_gains {disk : Disk} {io : Io σ} {sb : Ref Superblock} {inode : Ref Inode}
    {result : ReadResult σ} (h : readInodeData disk io sb inode = some result) :
    io.Gains (blockOf result.ptr result.length) result.io := by
  have hbuf := Io.Gains.kmalloc io (io.fileSize inode)
  rcases readInodeData_cases disk io sb inode with
    ⟨-, after, -, hledger, -, heq⟩ | ⟨-, heq⟩ |
      ⟨-, hptr, -, ⟨st, hloop, heq⟩ | ⟨stop, hloop, heq⟩⟩
  · rw [heq] at h
    cases h
    rw [blockOf_null, Io.Gains, hledger]
    exact Ledger.Gains.refl io.ledger
  · rw [heq] at h
    cases h
  · rw [heq] at h
    cases h
    exact hbuf.then_balanced (afterBlocks_balanced hloop)
  · rw [heq] at h
    cases h
    -- The block that could not be read is read in some iteration, and the buffer is freed there.
    obtain ⟨i, -, middle, hmiddle, hstop⟩ := ForLoop.leaves_at hloop
    obtain ⟨-, hio⟩ := readStep_error hstop
    have hbefore := hbuf.then_balanced (afterBlocks_balanced hmiddle)
    have hafter := hbefore.then_balanced
      (dataRead_balanced disk (io.fileBuf inode) (io.blockSize sb) sb inode middle)
    rw [← hio] at hafter
    rw [blockOf_null]
    exact hafter.kfree hptr

/-! ## Inodes and directories -/

/-- `read_inode` leaves the block of the inode, of the size that the superblock gives. -/
theorem readInode_gains {disk : Disk} {sb : DiskSuperblock} {ino : UInt32} {io after : Io σ}
    {found : Option Nat} (h : readInode disk sb ino io = some (found, after)) :
    (found = none → io.Gains 0 after) ∧
      ∀ ptr, found = some ptr → io.Gains {(ptr, inodeAllocSize sb.inodeSize)} after := by
  unfold readInode at h
  by_cases hino : ino = 0
  · rw [if_pos hino] at h
    cases h
    exact ⟨fun _ ↦ Io.Gains.refl io, fun _ hfound ↦ nomatch hfound⟩
  · rw [if_neg hino] at h
    by_cases hgroup : sb.s_inodes_per_group = 0
    · rw [if_pos hgroup] at h
      cases h
    · rw [if_neg hgroup] at h
      have hbgd := readBytes_balanced disk io (bgdOffset sb ino) none 32
      rcases hread : readBytes disk io (bgdOffset sb ino) none 32 with ⟨_ | bgd, first⟩
      · rw [hread] at h hbgd
        cases h
        exact ⟨fun _ ↦ hbgd, fun _ hfound ↦ nomatch hfound⟩
      · rw [hread] at h hbgd
        dsimp only at h
        have hbuf := hbgd.balanced_then (Io.Gains.kmalloc first (inodeAllocSize sb.inodeSize))
        by_cases hnull : (first.kmalloc (inodeAllocSize sb.inodeSize)).1 = 0
        · rw [if_pos hnull] at h
          cases h
          rw [hnull, blockOf_null] at hbuf
          exact ⟨fun _ ↦ hbuf, fun _ hfound ↦ nomatch hfound⟩
        · rw [if_neg hnull] at h
          have hfilled : io.Gains _ ((first.kmalloc (inodeAllocSize sb.inodeSize)).2.fill
            ⟨(first.kmalloc (inodeAllocSize sb.inodeSize)).1, inodeAllocSize sb.inodeSize⟩ 0) :=
              hbuf
          have hinode := hfilled.then_balanced (readBytes_balanced disk _
            (inodeOffset sb ino (UInt32.ofNat (bgd.fromLe 8 4)))
            (some (first.kmalloc (inodeAllocSize sb.inodeSize)).1) sb.inodeSize.toNat)
          rcases hread' : readBytes disk ((first.kmalloc (inodeAllocSize sb.inodeSize)).2.fill
            ⟨(first.kmalloc (inodeAllocSize sb.inodeSize)).1, inodeAllocSize sb.inodeSize⟩ 0)
            (inodeOffset sb ino (UInt32.ofNat (bgd.fromLe 8 4)))
            (some (first.kmalloc (inodeAllocSize sb.inodeSize)).1) sb.inodeSize.toNat with
            ⟨_ | bytes, last⟩
          · rw [hread'] at h hinode
            cases h
            exact ⟨fun _ ↦ hinode.kfree hnull, fun _ hfound ↦ nomatch hfound⟩
          · rw [hread'] at h hinode
            cases h
            rw [blockOf_of_ne hnull] at hinode
            constructor
            · intro hfound
              cases hfound
            · intro ptr hfound
              cases hfound
              exact hinode

variable {disk : Disk} {sb : Nat} {io after : Io σ}

/-- A file of 0 bytes has no buffer. -/
theorem readInodeData_of_empty {sb : Ref Superblock} {inode : Ref Inode} {data : ReadResult σ}
    (h : readInodeData disk io sb inode = some data)
    (hempty : data.ptr = 0 ∨ data.length = 0) : io.Gains 0 data.io := by
  have hgains := readInodeData_gains h
  have hnull : data.ptr = 0 := by
    rcases hempty with hnull | hlength
    · exact hnull
    · rcases readInodeData_cases disk io sb inode with
        ⟨-, after, -, -, -, heq⟩ | ⟨-, heq⟩ | ⟨hsize, -, -, ⟨st, -, heq⟩ | ⟨stop, -, heq⟩⟩
      · rw [heq] at h
        cases h
        rfl
      · rw [heq] at h
        cases h
      · rw [heq] at h
        cases h
        exact absurd hlength hsize
      · rw [heq] at h
        cases h
        rfl
  rwa [hnull, blockOf_null] at hgains

variable (disk sb) in
/-- The state after the data of a directory was read and freed, in `lookup` and `for_each_entry`. -/
def afterDirData (dirInode : Ref Inode) (io : Io σ) : Option (Io σ) :=
  if (dirInode io.memory).i_mode &&& S_IFMT ≠ S_IFDIR then some io
  else
    (readInodeData disk io (superblockAt sb) dirInode).map fun data ↦
      if data.ptr = 0 ∨ data.length = 0 then data.io else data.io.kfree data.ptr data.length

variable (disk sb) in
theorem lookup_after (dirInode : Ref Inode) (name : List UInt8) (io : Io σ) :
    (lookup disk (superblockAt sb) dirInode name io).map Prod.snd =
      afterDirData disk sb dirInode io := by
  unfold lookup afterDirData
  split
  · rfl
  · cases readInodeData disk io (superblockAt sb) dirInode with
    | none => rfl
    | some data =>
        dsimp only [Option.map_some]
        split
        · rfl
        · rfl

variable (disk sb) in
theorem forEachEntry_after (dirInode : Ref Inode) (io : Io σ) :
    (forEachEntry disk (superblockAt sb) dirInode io).map Prod.snd =
      afterDirData disk sb dirInode io := by
  unfold forEachEntry afterDirData
  split
  · rfl
  · cases readInodeData disk io (superblockAt sb) dirInode with
    | none => rfl
    | some data =>
        dsimp only [Option.map_some]
        split
        · rfl
        · rfl

/-- Reading the data of a directory leaves no block behind. -/
theorem afterDirData_balanced {dirInode : Ref Inode}
    (h : afterDirData disk sb dirInode io = some after) : io.Gains 0 after := by
  unfold afterDirData at h
  split at h
  · cases h
    exact Io.Gains.refl io
  · obtain ⟨data, hdata, hafter⟩ := Option.map_eq_some_iff.mp h
    subst hafter
    by_cases hempty : data.ptr = 0 ∨ data.length = 0
    · rw [if_pos hempty]
      exact readInodeData_of_empty hdata hempty
    · rw [if_neg hempty]
      exact (readInodeData_gains hdata).kfree (not_or.mp hempty).1

variable (disk sb) in
/-- The state after the data of a file was read, in `read_file`. -/
def afterFileData (inode : Ref Inode) (io : Io σ) : Option (Io σ) :=
  if (inode io.memory).isFile = false then some io
  else (readInodeData disk io (superblockAt sb) inode).map ReadResult.io

/-! ## Sizes that are computed again -/

section Sizes

variable (use : Ref Inode → Io σ → Option (Io σ)) (disk sb)

/-- When an inode is freed, the superblock in the memory gives the size that it gave when the inode
was read. `use` is what happens in between. -/
def SizeKept (ino : UInt32) (io : Io σ) : Prop :=
  ∀ ptr middle, readInode disk (io.superblock sb) ino io = some (some ptr, middle) →
    ∀ last, use (inodeAt ptr) middle = some last →
      last.inodeAlloc sb = io.inodeAlloc sb

/-- An inode is read, used and freed, unless it cannot be read. Some blocks stay. -/
inductive InodeUse (ino : UInt32) (items : Multiset (Nat × Nat)) (io : Io σ) : Io σ → Prop where
  | missing {after : Io σ}
      (hinode : ∀ ptr middle, readInode disk (io.superblock sb) ino io ≠ some (some ptr, middle))
      (hgains : io.Gains items after) : InodeUse ino items io after
  | freed {ptr : Nat} {middle last : Io σ}
      (hinode : readInode disk (io.superblock sb) ino io = some (some ptr, middle))
      (huse : use (inodeAt ptr) middle = some last)
      (hgains : middle.Gains items last) :
      InodeUse ino items io (last.kfree ptr (last.inodeAlloc sb))

variable {use disk sb} {ino : UInt32} {items held : Multiset (Nat × Nat)}

/-- There is no inode 0. -/
theorem readInode_zero (sb : DiskSuperblock) (io : Io σ) :
    readInode disk sb 0 io = some (none, io) := by
  rw [readInode, if_pos rfl]

/-- Nothing stays of an inode that cannot be read. -/
theorem InodeUse.of_unread {middle : Io σ}
    (hinode : readInode disk (io.superblock sb) ino io = some (none, middle)) :
    InodeUse disk sb use ino 0 io middle := by
  refine .missing ?_ ((readInode_gains hinode).1 rfl)
  intro ptr last hread
  rw [hinode] at hread
  cases hread

/-- Nothing is kept for an inode that cannot be read. -/
theorem sizeKept_of_missing
    (h : ∀ ptr middle, readInode disk (io.superblock sb) ino io ≠ some (some ptr, middle)) :
    SizeKept disk sb use ino io :=
  fun ptr middle hinode ↦ absurd hinode (h ptr middle)

/-- There is one size to compare for an inode that is read. -/
theorem sizeKept_iff {ptr : Nat} {middle last : Io σ}
    (hinode : readInode disk (io.superblock sb) ino io = some (some ptr, middle))
    (huse : use (inodeAt ptr) middle = some last) :
    SizeKept disk sb use ino io ↔ last.inodeAlloc sb = io.inodeAlloc sb := by
  refine ⟨fun h ↦ h ptr middle hinode last huse, fun h ptr' middle' hinode' last' huse' ↦ ?_⟩
  rw [hinode] at hinode'
  cases hinode'
  rw [huse] at huse'
  cases huse'
  exact h

namespace InodeUse

/-- If the size is kept, the inode is given back. -/
theorem gains (h : InodeUse disk sb use ino items io after) (hkept : SizeKept disk sb use ino io) :
    io.Gains items after := by
  cases h with
  | missing hinode hgains => exact hgains
  | freed hinode huse hgains =>
      rw [(sizeKept_iff hinode huse).mp hkept]
      exact Io.Gains.kfree_add (Ledger.Gains.trans ((readInode_gains hinode).2 _ rfl) hgains)

/-- If it is not, something else is. -/
theorem gains_iff (h : InodeUse disk sb use ino items io after)
    (hheld : Ledger.live io.ledger = some held) :
    io.Gains items after ↔ SizeKept disk sb use ino io := by
  cases h with
  | missing hinode hgains => exact iff_of_true hgains (sizeKept_of_missing hinode)
  | freed hinode huse hgains =>
      have hlast := Ledger.Gains.trans ((readInode_gains hinode).2 _ rfl) hgains
      rw [sizeKept_iff hinode huse]
      refine (hlast.give_back_iff hheld).trans ?_
      rw [Prod.mk.injEq]
      exact and_iff_right rfl

/-- A ledger stays undefined. -/
theorem live_eq_none (h : InodeUse disk sb use ino items io after)
    (hnone : Ledger.live io.ledger = none) : Ledger.live after.ledger = none := by
  cases h with
  | missing hinode hgains => exact hgains.live_eq_none hnone
  | freed hinode huse hgains =>
      have hlast := Ledger.Gains.trans ((readInode_gains hinode).2 _ rfl) hgains
      exact congrArg (Option.bind · _) (hlast.live_eq_none hnone)

/-- Where no other block is live, an inode that is freed with another size makes the ledger
undefined. -/
theorem live_eq_none_of_not_kept (h : InodeUse disk sb use ino 0 io after)
    (hempty : Ledger.live io.ledger = some 0) (hkept : ¬ SizeKept disk sb use ino io) :
    Ledger.live after.ledger = none := by
  cases h with
  | missing hinode hgains => exact absurd (sizeKept_of_missing hinode) hkept
  | freed hinode huse hgains =>
      rename_i ptr middle last
      have hlast := Ledger.Gains.trans ((readInode_gains hinode).2 _ rfl) hgains
      refine Ledger.live_gaveBack_of_not_mem (hlast.live_eq hempty) fun hmem ↦ hkept ?_
      rw [sizeKept_iff hinode huse]
      rw [zero_add, add_zero, Multiset.mem_singleton, Prod.mk.injEq] at hmem
      exact hmem.2

end InodeUse

/-! ## Paths -/

variable (disk sb)

/-- The sizes are kept for the directories on the way along the components. -/
def SizesKept (start : UInt32) (components : List (List UInt8)) (io : Io σ) : Prop :=
  ∀ first component rest, components = first ++ component :: rest →
    ∀ ino middle, resolveComponents disk sb start first io = some (ino, middle) →
      SizeKept disk sb (afterDirData disk sb) ino middle

theorem sizesKept_nil (start : UInt32) (io : Io σ) : SizesKept disk sb start [] io :=
  fun first component rest hnil ↦ absurd hnil (by simp)

/-- The way goes on from where the first component leads. -/
theorem sizesKept_cons_iff (start : UInt32) (component : List UInt8) (rest : List (List UInt8))
    (io : Io σ) :
    SizesKept disk sb start (component :: rest) io ↔
      SizeKept disk sb (afterDirData disk sb) start io ∧
        ∀ ino middle, resolveComponents disk sb start [component] io = some (ino, middle) →
          SizesKept disk sb ino rest middle := by
  constructor
  · refine fun h ↦ ⟨h [] component rest rfl start io rfl, ?_⟩
    rintro ino middle hstep first next last rfl ino' middle' hreached
    refine h (component :: first) next last rfl ino' middle' ?_
    rw [← List.singleton_append, resolveComponents_append, hstep]
    exact hreached
  · rintro ⟨hstart, hrest⟩ first next last hsplit ino middle hreached
    cases first with
    | nil =>
        cases hreached
        exact hstart
    | cons other first =>
        obtain ⟨rfl, rfl⟩ := List.cons.inj hsplit
        rw [← List.singleton_append, resolveComponents_append] at hreached
        obtain ⟨⟨ino', middle'⟩, hstep, hreached⟩ := Option.bind_eq_some_iff.mp hreached
        exact hrest ino' middle' hstep first next last rfl ino middle hreached

variable {disk sb}

/-- A component uses the inode of its directory. -/
theorem component_use {component : List UInt8} {found : UInt32}
    (hskip : ¬ (component = [] ∨ component = [0x2E]))
    (h : resolveComponents disk sb ino [component] io = some (found, after)) :
    InodeUse disk sb (afterDirData disk sb) ino 0 io after := by
  rw [resolveComponents, if_neg hskip] at h
  cases hinode : readInode disk (io.superblock sb) ino io with
  | none =>
      rw [hinode] at h
      cases h
  | some result =>
      obtain ⟨_ | ptr, middle⟩ := result
      · rw [hinode] at h
        cases h
        exact .of_unread hinode
      · simp only [hinode] at h
        have hlast := lookup_after disk sb (inodeAt ptr) component middle
        cases hlookup : lookup disk (superblockAt sb) (inodeAt ptr) component middle with
        | none =>
            rw [hlookup] at h
            cases h
        | some looked =>
            obtain ⟨next, last⟩ := looked
            rw [hlookup, Option.map_some] at hlast
            have huse : InodeUse disk sb (afterDirData disk sb) ino 0 io
                (last.kfree ptr (last.inodeAlloc sb)) :=
              .freed hinode hlast.symm (afterDirData_balanced hlast.symm)
            simp only [hlookup] at h
            by_cases hzero : next = 0
            · rw [if_pos hzero] at h
              cases h
              exact huse
            · rw [if_neg hzero] at h
              cases h
              exact huse

/-- The first component of a path, and the others. -/
theorem resolveComponents_cons {component : List UInt8} {rest : List (List UInt8)} {found : UInt32}
    (h : resolveComponents disk sb ino (component :: rest) io = some (found, after)) :
    ∃ next middle, resolveComponents disk sb ino [component] io = some (next, middle) ∧
      resolveComponents disk sb next rest middle = some (found, after) := by
  rw [← List.singleton_append, resolveComponents_append] at h
  obtain ⟨⟨next, middle⟩, hstep, hrest⟩ := Option.bind_eq_some_iff.mp h
  exact ⟨next, middle, hstep, hrest⟩

section Components

variable {components : List (List UInt8)} {found : UInt32}

/-- Each component gives back the inode and the directory that it reads. -/
theorem resolveComponents_balanced
    (hskip : ∀ component ∈ components, ¬ (component = [] ∨ component = [0x2E]))
    (h : resolveComponents disk sb ino components io = some (found, after))
    (hkept : SizesKept disk sb ino components io) : io.Gains 0 after := by
  induction components generalizing ino io with
  | nil =>
      cases h
      exact Io.Gains.refl after
  | cons component rest ih =>
      obtain ⟨next, middle, hstep, hrest⟩ := resolveComponents_cons h
      obtain ⟨hfirst, hway⟩ := (sizesKept_cons_iff disk sb ino component rest io).mp hkept
      have huse := component_use (hskip component List.mem_cons_self) hstep
      exact (huse.gains hfirst).then_balanced
        (ih (fun other hother ↦ hskip other (List.mem_cons_of_mem _ hother)) hrest
          (hway next middle hstep))

/-- A ledger stays undefined. -/
theorem resolveComponents_live_eq_none
    (hskip : ∀ component ∈ components, ¬ (component = [] ∨ component = [0x2E]))
    (h : resolveComponents disk sb ino components io = some (found, after))
    (hnone : Ledger.live io.ledger = none) : Ledger.live after.ledger = none := by
  induction components generalizing ino io with
  | nil =>
      cases h
      exact hnone
  | cons component rest ih =>
      obtain ⟨next, middle, hstep, hrest⟩ := resolveComponents_cons h
      have huse := component_use (hskip component List.mem_cons_self) hstep
      exact ih (fun other hother ↦ hskip other (List.mem_cons_of_mem _ hother)) hrest
        (huse.live_eq_none hnone)

/-- Where no other block is live, the ledger is defined after a path only if all sizes are kept. -/
theorem sizesKept_of_live
    (hskip : ∀ component ∈ components, ¬ (component = [] ∨ component = [0x2E]))
    (h : resolveComponents disk sb ino components io = some (found, after))
    (hempty : Ledger.live io.ledger = some 0) (hlive : Ledger.live after.ledger ≠ none) :
    SizesKept disk sb ino components io := by
  induction components generalizing ino io with
  | nil => exact sizesKept_nil disk sb ino io
  | cons component rest ih =>
      obtain ⟨next, middle, hstep, hrest⟩ := resolveComponents_cons h
      have huse := component_use (hskip component List.mem_cons_self) hstep
      have hothers : ∀ other ∈ rest, ¬ (other = [] ∨ other = [0x2E]) :=
        fun other hother ↦ hskip other (List.mem_cons_of_mem _ hother)
      have hfirst : SizeKept disk sb (afterDirData disk sb) ino io := by
        by_contra hchanged
        exact hlive (resolveComponents_live_eq_none hothers hrest
          (huse.live_eq_none_of_not_kept hempty hchanged))
      refine (sizesKept_cons_iff disk sb ino component rest io).mpr ⟨hfirst, ?_⟩
      intro next' middle' hstep'
      rw [hstep] at hstep'
      cases hstep'
      refine ih hothers hrest ?_
      have hmiddle := (huse.gains hfirst).live_eq hempty
      rwa [zero_add] at hmiddle

end Components

/-- The sizes are kept for the directories on the way along a path. -/
def PathSizesKept (disk : Disk) (sb : Nat) (start : UInt32) (path : List UInt8) (io : Io σ) :
    Prop :=
  SizesKept disk sb start (pathComponents path) io

theorem not_skipped {path component : List UInt8} (h : component ∈ pathComponents path) :
    ¬ (component = [] ∨ component = [0x2E]) := by
  exact of_decide_eq_true (List.mem_filter.mp h).2

/-- Some blocks are gained under a condition, and under no other one where no block was live
before. -/
def Io.GainsIff (items : Multiset (Nat × Nat)) (condition : Prop) (before after : Io σ) : Prop :=
  (condition → before.Gains items after) ∧
    (Ledger.live before.ledger = some 0 → before.Gains items after → condition)

theorem pathSizesKept_of_live {start found : UInt32} {path : List UInt8}
    (h : resolvePath disk sb start path io = some (found, after))
    (hempty : Ledger.live io.ledger = some 0) (hlive : Ledger.live after.ledger ≠ none) :
    PathSizesKept disk sb start path io := by
  rw [resolvePath_eq] at h
  exact sizesKept_of_live (fun _ ↦ not_skipped) h hempty hlive

/-- `resolve_path` gives back all blocks if it computes the sizes that it allocated. -/
theorem resolvePath_gainsIff {start found : UInt32} {path : List UInt8}
    (h : resolvePath disk sb start path io = some (found, after)) :
    io.GainsIff 0 (PathSizesKept disk sb start path io) after := by
  refine ⟨fun hkept ↦ ?_, fun hempty hgains ↦ ?_⟩
  · rw [resolvePath_eq] at h
    exact resolveComponents_balanced (fun _ ↦ not_skipped) h hkept
  · exact pathSizesKept_of_live h hempty (hgains.live_ne_none hempty)

/-- The sizes are kept for the directories on the way along a path from the root, and for the inode
that it leads to. -/
def InodeSizesKept (disk : Disk) (sb : Nat) (use : Ref Inode → Io σ → Option (Io σ))
    (path : List UInt8) (io : Io σ) : Prop :=
  PathSizesKept disk sb ROOT_INO path io ∧
    ∀ ino first, resolvePath disk sb ROOT_INO path io = some (ino, first) →
      SizeKept disk sb use ino first

/-- An operation that resolves a path and uses the inode that it leads to. -/
theorem inodeUse_gainsIff {path : List UInt8} {first : Io σ}
    (hpath : resolvePath disk sb ROOT_INO path io = some (ino, first))
    (huse : InodeUse disk sb use ino items first after) :
    io.GainsIff items (InodeSizesKept disk sb use path io) after := by
  have hbalanced := (resolvePath_gainsIff hpath).1
  constructor
  · rintro ⟨hway, hkept⟩
    exact (hbalanced hway).balanced_then (huse.gains (hkept ino first hpath))
  · intro hempty hgains
    have hlive : Ledger.live first.ledger ≠ none := fun hnone ↦
      hgains.live_ne_none hempty (huse.live_eq_none hnone)
    have hway := pathSizesKept_of_live hpath hempty hlive
    refine ⟨hway, fun ino' first' hpath' ↦ ?_⟩
    rw [hpath] at hpath'
    cases hpath'
    have hfirst := (hbalanced hway).live_eq hempty
    rw [add_zero] at hfirst
    refine (huse.gains_iff hfirst).mp ?_
    rw [Io.Gains, Ledger.Gains, hfirst]
    exact hgains.live_eq hempty

end Sizes

/-! ## Mounted file systems -/

/-- `read_superblock` leaves the buffer that it returns. -/
theorem readSuperblock_gains {found : Option Nat} (h : readSuperblock disk io = (found, after)) :
    (found = none → io.Gains 0 after) ∧
      ∀ ptr, found = some ptr → io.Gains (blockOf ptr 4096) after ∧ ptr ≠ 0 := by
  have hbuf := Io.Gains.kmallocAligned io 4096 4096
  unfold readSuperblock at h
  dsimp only at h
  by_cases hnull : (io.kmallocAligned 4096 4096).1 = 0
  · rw [if_pos hnull] at h
    cases h
    rw [hnull, blockOf_null] at hbuf
    exact ⟨fun _ ↦ hbuf, fun _ hfound ↦ nomatch hfound⟩
  · rw [if_neg hnull] at h
    have hheld := hbuf.then_balanced (readBytes_balanced disk (io.kmallocAligned 4096 4096).2 1024
      (some (io.kmallocAligned 4096 4096).1) 1024)
    rcases hread : readBytes disk (io.kmallocAligned 4096 4096).2 1024
      (some (io.kmallocAligned 4096 4096).1) 1024 with ⟨_ | bytes, last⟩
    · rw [hread] at h hheld
      cases h
      exact ⟨fun _ ↦ hheld.kfree hnull, fun _ hfound ↦ nomatch hfound⟩
    · rw [hread] at h hheld
      dsimp only at h
      split at h
      · cases h
        exact ⟨fun _ ↦ hheld.kfree hnull, fun _ hfound ↦ nomatch hfound⟩
      · cases h
        constructor
        · intro hfound
          cases hfound
        · intro ptr hfound
          cases hfound
          exact ⟨hheld, hnull⟩

namespace Ext3

variable {fs : Ext3} {path : List UInt8}

theorem mount_none_balanced (h : mount disk io = (none, after)) : io.Gains 0 after := by
  rcases hread : readSuperblock disk io with ⟨_ | ptr, last⟩
  · rw [mount, hread] at h
    cases h
    exact (readSuperblock_gains hread).1 rfl
  · rw [mount, hread] at h
    cases h

/-- A file system holds the buffer of its superblock until it is dropped. -/
theorem mount_drop_balanced (h : mount disk io = (some fs, after)) :
    io.Gains 0 (fs.drop after) := by
  rcases hread : readSuperblock disk io with ⟨_ | ptr, last⟩
  · rw [mount, hread] at h
    cases h
  · rw [mount, hread] at h
    cases h
    obtain ⟨hheld, hptr⟩ := (readSuperblock_gains hread).2 ptr rfl
    rw [drop, if_pos hptr]
    exact hheld.kfree hptr

/-- `read_file` uses the inode that its path leads to, and leaves the buffer that it returns. -/
theorem readFile_use {ptr size : Nat} (h : readFile disk fs path io = some (ptr, size, after)) :
    ∃ ino first, resolvePath disk fs.ptr ROOT_INO path io = some (ino, first) ∧
      InodeUse disk fs.ptr (afterFileData disk fs.ptr) ino (blockOf ptr size) first after := by
  unfold readFile at h
  cases hpath : resolvePath disk fs.ptr ROOT_INO path io with
  | none =>
      rw [hpath] at h
      cases h
  | some resolved =>
      obtain ⟨ino, first⟩ := resolved
      refine ⟨ino, first, rfl, ?_⟩
      simp only [hpath] at h
      by_cases hzero : ino = 0
      · subst hzero
        rw [if_pos rfl] at h
        cases h
        exact .of_unread (readInode_zero _ _)
      · rw [if_neg hzero] at h
        cases hinode : readInode disk (first.superblock fs.ptr) ino first with
        | none =>
            rw [hinode] at h
            cases h
        | some result =>
            obtain ⟨_ | inoPtr, middle⟩ := result
            · simp only [hinode] at h
              cases h
              exact .of_unread hinode
            · simp only [hinode] at h
              by_cases hfile : (inodeAt inoPtr middle.memory).isFile = false
              · rw [if_pos hfile] at h
                cases h
                exact .freed hinode (if_pos hfile) (Io.Gains.refl middle)
              · rw [if_neg hfile] at h
                cases hdata : readInodeData disk middle (superblockAt fs.ptr) (inodeAt inoPtr) with
                | none =>
                    rw [hdata] at h
                    cases h
                | some data =>
                    rw [hdata] at h
                    cases h
                    refine .freed hinode ?_ (readInodeData_gains hdata)
                    rw [afterFileData, if_neg hfile, hdata]
                    rfl

/-- `list_dir` resolves "" and "/" as any other path. -/
theorem dirIno_eq (disk : Disk) (fs : Ext3) (path : List UInt8) (io : Io σ) :
    dirIno disk fs path io = resolvePath disk fs.ptr ROOT_INO path io := by
  unfold dirIno
  split
  · next hroot =>
      rcases hroot with rfl | rfl
      · rfl
      · rfl
  · rfl

/-- `list_dir` uses the inode that its path leads to. -/
theorem listDir_use {visited : List (List UInt8 × UInt32 × UInt8)}
    (h : listDir disk fs path io = some (visited, after)) :
    ∃ ino first, resolvePath disk fs.ptr ROOT_INO path io = some (ino, first) ∧
      InodeUse disk fs.ptr (afterDirData disk fs.ptr) ino 0 first after := by
  unfold listDir at h
  rw [dirIno_eq] at h
  cases hpath : resolvePath disk fs.ptr ROOT_INO path io with
  | none =>
      rw [hpath] at h
      cases h
  | some resolved =>
      obtain ⟨ino, first⟩ := resolved
      refine ⟨ino, first, rfl, ?_⟩
      simp only [hpath] at h
      by_cases hzero : ino = 0
      · subst hzero
        rw [if_pos rfl] at h
        cases h
        exact .of_unread (readInode_zero _ _)
      · rw [if_neg hzero] at h
        cases hinode : readInode disk (first.superblock fs.ptr) ino first with
        | none =>
            rw [hinode] at h
            cases h
        | some result =>
            obtain ⟨_ | inoPtr, middle⟩ := result
            · simp only [hinode] at h
              cases h
              exact .of_unread hinode
            · simp only [hinode] at h
              have hlast := forEachEntry_after disk fs.ptr (inodeAt inoPtr) middle
              cases hentries : forEachEntry disk (superblockAt fs.ptr) (inodeAt inoPtr) middle with
              | none =>
                  rw [hentries] at h
                  cases h
              | some entries =>
                  rw [hentries] at h hlast
                  cases h
                  exact .freed hinode hlast.symm (afterDirData_balanced hlast.symm)

theorem pathExists_gainsIff {found : Bool}
    (h : pathExists disk fs path io = some (found, after)) :
    io.GainsIff 0 (PathSizesKept disk fs.ptr ROOT_INO path io) after := by
  unfold pathExists at h
  cases hpath : resolvePath disk fs.ptr ROOT_INO path io with
  | none =>
      rw [hpath] at h
      cases h
  | some resolved =>
      rw [hpath] at h
      cases h
      exact resolvePath_gainsIff hpath

theorem listDir_gainsIff {visited : List (List UInt8 × UInt32 × UInt8)}
    (h : listDir disk fs path io = some (visited, after)) :
    io.GainsIff 0 (InodeSizesKept disk fs.ptr (afterDirData disk fs.ptr) path io) after := by
  obtain ⟨ino, first, hpath, huse⟩ := listDir_use h
  exact inodeUse_gainsIff hpath huse

theorem readFile_gainsIff {ptr size : Nat}
    (h : readFile disk fs path io = some (ptr, size, after)) :
    io.GainsIff (blockOf ptr size) (InodeSizesKept disk fs.ptr (afterFileData disk fs.ptr) path io)
      after := by
  obtain ⟨ino, first, hpath, huse⟩ := readFile_use h
  exact inodeUse_gainsIff hpath huse

end Ext3

/-- No operation of a file system leaks a block or frees one that is not live, exactly if each inode
is freed while the superblock in the memory gives the size that it gave when the inode was read: for
every disk, with any failures of reads and allocations, all blocks are given back then but the
buffer that `read_file` returns. The superblock of a mounted file system is given back by `drop`. -/
theorem ext3_heap_balanced_iff (disk : Disk) (io after : Io σ) :
    (Ext3.mount disk io = (none, after) → io.Gains 0 after) ∧
      ∀ fs : Ext3, (Ext3.mount disk io = (some fs, after) → io.Gains 0 (fs.drop after)) ∧
        ∀ path : List UInt8,
          (∀ start found, resolvePath disk fs.ptr start path io = some (found, after) →
            io.GainsIff 0 (PathSizesKept disk fs.ptr start path io) after) ∧
          (∀ found, fs.pathExists disk path io = some (found, after) →
            io.GainsIff 0 (PathSizesKept disk fs.ptr ROOT_INO path io) after) ∧
          (∀ visited, fs.listDir disk path io = some (visited, after) →
            io.GainsIff 0 (InodeSizesKept disk fs.ptr (afterDirData disk fs.ptr) path io) after) ∧
          ∀ ptr size, fs.readFile disk path io = some (ptr, size, after) →
            io.GainsIff (blockOf ptr size)
              (InodeSizesKept disk fs.ptr (afterFileData disk fs.ptr) path io) after :=
  ⟨Ext3.mount_none_balanced, fun _ ↦ ⟨Ext3.mount_drop_balanced, fun _ ↦
    ⟨fun _ _ h ↦ resolvePath_gainsIff h, fun _ h ↦ Ext3.pathExists_gainsIff h,
      fun _ h ↦ Ext3.listDir_gainsIff h, fun _ _ h ↦ Ext3.readFile_gainsIff h⟩⟩⟩

/-- The bytes that are not 0 of a disk with inodes of 256 bytes. Inode 2 is a directory with one
entry, "f", and inode 3 a file of 12 KiB that is one hole. -/
def sparseBytes : List (Nat × UInt8) :=
  -- inodes per group, magic number, revision and inode size in the superblock
  [(1064, 16), (1080, 0x53), (1081, 0xEF), (1100, 1), (1113, 1)] ++
    -- the block of the inode table in the group descriptor
    [(2056, 5)] ++
    -- mode, size and first block of the directory, and its entry
    [(5377, 0x40), (5381, 4), (5416, 10), (10240, 3), (10245, 4), (10246, 1), (10248, 0x66)] ++
    -- mode and size of the file
    [(5633, 0x80), (5637, 0x30)]

/-- The disk of these bytes. -/
def sparseDisk : Disk where
  image k := (sparseBytes.lookup k).getD 0
  fails _ := none

/-- The file system right after it was mounted, on a heap of 16 pages. -/
def mounted : Option Ext3 × Io BuddyAllocator :=
  Ext3.mount sparseDisk (.start sampleHeap (fun _ ↦ 0) 0)

/-- The buffer for the file lies over the superblock. Filling the hole clears the inode size there,
and the inode is freed with 128 bytes. -/
theorem ext3_heap_not_balanced :
    ¬ ∀ (disk : Disk) (io after : Io BuddyAllocator) (fs : Ext3) (path : List UInt8)
      (start : Io BuddyAllocator) (ptr size : Nat),
      Ext3.mount disk start = (some fs, io) →
      fs.readFile disk path io = some (ptr, size, after) → io.Gains (blockOf ptr size) after := by
  intro h
  have hmount : mounted.1.map Ext3.ptr = some 0x100000 := by decide +kernel
  have hheld : (Ledger.live mounted.2.ledger).isSome = true := by decide +kernel
  have hread : ((Ext3.mk 0x100000).readFile sparseDisk [0x66] mounted.2).map
      (fun result ↦ (Ledger.live result.2.2.ledger).isSome) = some false := by decide +kernel
  obtain ⟨fs, hfs, hptr⟩ := Option.map_eq_some_iff.mp hmount
  obtain ⟨⟨ptr, size, after⟩, hresult, hundefined⟩ := Option.map_eq_some_iff.mp hread
  obtain ⟨held, hheld⟩ := Option.isSome_iff_exists.mp hheld
  have hfs' : fs = ⟨0x100000⟩ := by
    cases fs
    exact congrArg Ext3.mk hptr
  subst hfs'
  have hgains := h sparseDisk mounted.2 after ⟨0x100000⟩ [0x66] (.start sampleHeap (fun _ ↦ 0) 0)
    ptr size (Prod.ext hfs rfl) hresult
  rw [hgains.live_eq hheld] at hundefined
  cases hundefined

end Avaria.Fs
