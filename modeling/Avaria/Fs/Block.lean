import Avaria.Ahci.Command
import Avaria.Lib.ByteMap
import Avaria.Lib.Ledger
import Avaria.Mem.Kmalloc

/-!
# Reading from the disk

`read_bytes` and `read_block` of `block.rs` over a disk: an image, and the pattern of the commands
that fail. A read goes through a temporary buffer of whole sectors from the heap. All blocks of the
heap lie in one byte memory, so the controller writes wherever the heap put the temporary buffer,
also inside a block that is in use.

`readBytes_some` says what a successful read puts where, `read_bytes_exact_iff` which reads are
short enough for it, and `readBytes_calls` how the record of the calls grows. The records do not
influence any result.
-/

namespace Avaria.Fs

open Mem Mm

/-- The disk behind a port: its bytes, and for each command that fails what it leaves in its
buffer. -/
structure Disk where
  image : ByteMap
  fails : Nat → Option ByteMap

/-- A call of `read_bytes` and its result. -/
structure ReadCall where
  byteOff : Nat
  count : Nat
  ok : Bool
  deriving DecidableEq, Repr

/-- The heap, the memory and the number of commands issued, with a record of the calls of
`read_bytes`, a record of the ranges of the memory that the code itself wrote, and a ledger of the
heap blocks: the pointers and sizes that were obtained and given back. -/
structure Io (σ : Type*) where
  heap : Heap σ
  memory : ByteMap
  commands : Nat
  calls : List ReadCall
  written : List Extent
  ledger : List (Ledger.Event (Nat × Nat))

/-- An input-output state with empty records. -/
def Io.start {σ : Type*} (heap : Heap σ) (memory : ByteMap) (commands : Nat) : Io σ :=
  ⟨heap, memory, commands, [], [], []⟩

/-- The pointers and sizes passed to `kfree`, the latest first. -/
def Io.freed {σ : Type*} (io : Io σ) : List (Nat × Nat) := Ledger.returned io.ledger

/-- `ptr::write_bytes`. -/
def Io.fill {σ : Type*} (io : Io σ) (target : Extent) (value : UInt8) : Io σ :=
  { io with
    memory := io.memory.fill target value
    written := target :: io.written }

/-- `ptr::copy_nonoverlapping`. Ranges that overlap are moved as a whole. -/
def Io.copy {σ : Type*} (io : Io σ) (target : Extent) (start : Nat) : Io σ :=
  { io with
    memory := io.memory.copy target io.memory start
    written := target :: io.written }

/-- `SECTOR_SIZE`. -/
def SECTOR_SIZE : Nat := 512

/-- `ahci::read_sectors`: the result, and the memory after the command. A command that fails leaves
any bytes in the buffer. -/
def readSectors (disk : Disk) (command lba : Nat) (count : UInt16) (buf : Nat)
    (memory : ByteMap) : Bool × ByteMap :=
  let byteCount : UInt32 := if count = 0 then 65536 * 512 else count.toUInt32 * 512
  let cmd := Ahci.setupCommand Ahci.ATA_CMD_READ_DMA_EXT (UInt64.ofNat lba) count byteCount false
  match disk.fails command with
  | none => (true, memory.copy ⟨buf, cmd.transferred⟩ disk.image (cmd.fis.lba * SECTOR_SIZE))
  | some left => (false, memory.copy ⟨buf, cmd.transferred⟩ left 0)

variable {σ : Type*} [PageSource σ]

/-- Enter a block in the ledger, unless the allocation returned the null pointer. -/
def Io.obtain (io : Io σ) (heap : Heap σ) (ptr size : Nat) : Io σ :=
  { io with heap, ledger := if ptr = 0 then io.ledger else .obtained (ptr, size) :: io.ledger }

/-- `mem::kmalloc`, recorded. -/
def Io.kmalloc (io : Io σ) (size : Nat) : Nat × Io σ :=
  let (ptr, heap) := io.heap.kmalloc size
  (ptr, io.obtain heap ptr size)

/-- `mem::kmalloc_aligned`, recorded. -/
def Io.kmallocAligned (io : Io σ) (size align : Nat) : Nat × Io σ :=
  let (ptr, heap) := io.heap.kmallocAligned size align
  (ptr, io.obtain heap ptr size)

/-- `mem::kfree`, recorded. -/
def Io.kfree (io : Io σ) (ptr size : Nat) : Io σ :=
  { io with
    heap := io.heap.kfree ptr size
    ledger := .gaveBack (ptr, size) :: io.ledger }

omit [PageSource σ] in
/-- A heap call that returns the null pointer leaves the ledger alone. -/
theorem Io.ledger_obtain_null (io : Io σ) (heap : Heap σ) {ptr : Nat} (h : ptr = 0) (size : Nat) :
    (io.obtain heap ptr size).ledger = io.ledger :=
  if_pos h

/-- Record a call of `read_bytes`. -/
def Io.record (io : Io σ) (call : ReadCall) : Io σ := { io with calls := call :: io.calls }

/-- The copy at the end of `read_bytes`. The destination is an address, or a local variable, which
is no part of the heap. -/
def Io.deliver (io : Io σ) (dst : Option Nat) (count start : Nat) : Io σ :=
  match dst with
  | some addr => io.copy ⟨addr, count⟩ start
  | none => io

/-- `read_bytes`: the bytes that it copied, unless it fails, and the state after the call. -/
def readBytes (disk : Disk) (io : Io σ) (byteOff : Nat) (dst : Option Nat) (count : Nat) :
    Option ByteMap × Io σ :=
  if count = 0 then (some fun _ ↦ 0, io.record ⟨byteOff, count, true⟩)
  else
    let sectorStart := byteOff / SECTOR_SIZE
    let offsetInSector := byteOff % SECTOR_SIZE
    let totalBytes := offsetInSector + count
    let sectorCount := (totalBytes + 511) / SECTOR_SIZE
    let bufSize := sectorCount * SECTOR_SIZE
    let (buf, io) := io.kmallocAligned bufSize 4096
    if buf = 0 then (none, io.record ⟨byteOff, count, false⟩)
    else
      let (ok, memory) :=
        readSectors disk io.commands sectorStart (UInt16.ofNat sectorCount) buf io.memory
      let io := { io with memory, commands := io.commands + 1 }
      if ok then
        (some (io.memory.behind (buf + offsetInSector)),
          ((io.deliver dst count (buf + offsetInSector)).kfree buf bufSize).record
            ⟨byteOff, count, true⟩)
      else (none, (io.kfree buf bufSize).record ⟨byteOff, count, false⟩)

/-- `read_block`. The product of two 32-bit numbers does not wrap around. -/
def readBlock (disk : Disk) (io : Io σ) (blockNum blockSize : UInt32) (dst : Nat) :
    Bool × Io σ :=
  let (bytes, io) := readBytes disk io (blockNum.toNat * blockSize.toNat) (some dst) blockSize.toNat
  (bytes.isSome, io)

/-! ## What one command transfers -/

/-- The bytes that one command transfers for a count field: all sectors, as far as the byte count of
the descriptor has bits for them. -/
def transferSize (count : UInt16) : Nat :=
  ((if count = 0 then 65536 else count.toNat) * SECTOR_SIZE - 1) % 2 ^ 22 + 1

/-- `read_sectors` brings the start of the range that the caller asked for. -/
theorem readSectors_eq (disk : Disk) (command lba : Nat) (count : UInt16) (buf : Nat)
    (memory : ByteMap) :
    readSectors disk command lba count buf memory =
      match disk.fails command with
      | none => (true, memory.copy ⟨buf, transferSize count⟩ disk.image
          (lba % 2 ^ 48 * SECTOR_SIZE))
      | some left => (false, memory.copy ⟨buf, transferSize count⟩ left 0) := by
  unfold readSectors
  have hlt := count.toNat_lt
  have hbytes : (if count = 0 then 65536 * 512 else count.toUInt32 * 512 : UInt32).toNat =
      (if count = 0 then 65536 else count.toNat) * SECTOR_SIZE := by
    by_cases hzero : count = 0
    · rw [if_pos hzero, if_pos hzero]
      rfl
    · rw [if_neg hzero, if_neg hzero, UInt32.toNat_mul, UInt16.toNat_toUInt32]
      exact Nat.mod_eq_of_lt (by show count.toNat * 512 < 2 ^ 32; omega)
  have hpos : 0 < (if count = 0 then 65536 else count.toNat) := by
    by_cases hzero : count = 0
    · rw [if_pos hzero]
      decide
    · rw [if_neg hzero]
      exact Nat.pos_of_ne_zero fun heq ↦ hzero (UInt16.toNat_inj.mp heq)
  have htransferred (bufSize : UInt32)
      (h : bufSize.toNat = (if count = 0 then 65536 else count.toNat) * SECTOR_SIZE) :
      (Ahci.setupCommand Ahci.ATA_CMD_READ_DMA_EXT (UInt64.ofNat lba) count bufSize
        false).transferred = transferSize count := by
    have hdbc : (bufSize - 1).toNat = bufSize.toNat - 1 := by
      refine UInt32.toNat_sub_of_le _ _ (UInt32.le_iff_toNat_le.mpr ?_)
      show 1 ≤ bufSize.toNat
      rw [h, SECTOR_SIZE]
      omega
    rw [Ahci.HbaCommand.transferred, Ahci.setupCommand_sectors, transferSize]
    show min _ ((bufSize - 1).toNat % 2 ^ 22 + 1) = _
    rw [hdbc, h, SECTOR_SIZE]
    omega
  have hlba : (UInt64.ofNat lba).toNat % 2 ^ 48 = lba % 2 ^ 48 := by
    rw [UInt64.toNat_ofNat', Nat.mod_mod_of_dvd lba (Nat.pow_dvd_pow 2 (by decide))]
  simp only [htransferred _ hbytes, Ahci.setupCommand_lba, hlba]

/-- No command transfers more than 4 MiB. -/
theorem transferSize_le (count : UInt16) : transferSize count ≤ 2 ^ 22 := by
  have hmod := Nat.mod_lt
    ((if count = 0 then 65536 else count.toNat) * SECTOR_SIZE - 1) (Nat.two_pow_pos 22)
  rw [transferSize]
  omega

/-- The bytes of the sectors that hold a range of the disk. -/
def sectorBytes (byteOff count : Nat) : Nat :=
  (byteOff % SECTOR_SIZE + count + 511) / SECTOR_SIZE * SECTOR_SIZE

/-- The count field that `read_bytes` passes for a range. -/
def sectorCount (byteOff count : Nat) : UInt16 :=
  UInt16.ofNat ((byteOff % SECTOR_SIZE + count + 511) / SECTOR_SIZE)

/-- One command transfers the sectors of a range of at most 4 MiB. -/
theorem transferSize_sectorCount {byteOff count : Nat} (hcount : count ≠ 0)
    (h : byteOff % 512 + count ≤ 2 ^ 22) :
    transferSize (sectorCount byteOff count) = sectorBytes byteOff count := by
  have hsectors : (sectorCount byteOff count).toNat = (byteOff % 512 + count + 511) / 512 := by
    rw [sectorCount, UInt16.toNat_ofNat', SECTOR_SIZE]
    omega
  have hne : sectorCount byteOff count ≠ 0 := by
    intro hzero
    rw [hzero] at hsectors
    have hzero' : (0 : UInt16).toNat = 0 := rfl
    omega
  rw [transferSize, if_neg hne, hsectors, sectorBytes, SECTOR_SIZE]
  omega

/-! ## What a read does -/

/-- The transfer of a read that succeeds, into the temporary buffer that the heap hands out, and the
heap after the buffer was given back. -/
def temporary (heap : Heap σ) (byteOff count : Nat) : ByteMap.Transfer × Heap σ :=
  let (buf, heap) := heap.kmallocAligned (sectorBytes byteOff count) 4096
  (⟨⟨buf, sectorBytes byteOff count⟩, byteOff / SECTOR_SIZE * SECTOR_SIZE⟩,
    heap.kfree buf (sectorBytes byteOff count))

/-- The transfers of a sequence of reads, given by offsets and sizes, and the heap after them. -/
def temporaries : Heap σ → List (Nat × Nat) → List ByteMap.Transfer × Heap σ
  | heap, [] => ([], heap)
  | heap, (byteOff, count) :: rest =>
      let (transfer, heap) := temporary heap byteOff count
      let (transfers, heap) := temporaries heap rest
      (transfer :: transfers, heap)

theorem temporaries_append (heap : Heap σ) (first second : List (Nat × Nat)) :
    temporaries heap (first ++ second) =
      ((temporaries heap first).1 ++ (temporaries (temporaries heap first).2 second).1,
        (temporaries (temporaries heap first).2 second).2) := by
  induction first generalizing heap with
  | nil => rfl
  | cons read rest ih =>
      obtain ⟨byteOff, count⟩ := read
      show ((temporary heap byteOff count).1 ::
          (temporaries (temporary heap byteOff count).2 (rest ++ second)).1,
        (temporaries (temporary heap byteOff count).2 (rest ++ second)).2) = _
      rw [ih]
      rfl

/-- Everything a read of at least one byte can do: get no buffer, fail, or succeed. -/
theorem readBytes_cases (disk : Disk) (io : Io σ) (byteOff : Nat) (dst : Option Nat) {count : Nat}
    (hcount : count ≠ 0) :
    ((temporary io.heap byteOff count).1.target.start = 0 ∧
      readBytes disk io byteOff dst count =
        (none, (io.kmallocAligned (sectorBytes byteOff count) 4096).2.record
          ⟨byteOff, count, false⟩)) ∨
    ((temporary io.heap byteOff count).1.target.start ≠ 0 ∧
      ((∃ left, disk.fails io.commands = some left ∧
        readBytes disk io byteOff dst count =
          (none, (Io.kfree
            { (io.kmallocAligned (sectorBytes byteOff count) 4096).2 with
              memory := io.memory.copy ⟨(temporary io.heap byteOff count).1.target.start,
                transferSize (sectorCount byteOff count)⟩ left 0
              commands := io.commands + 1 }
            (temporary io.heap byteOff count).1.target.start
            (sectorBytes byteOff count)).record ⟨byteOff, count, false⟩)) ∨
      ∃ memory, disk.fails io.commands = none ∧
        memory = io.memory.copy ⟨(temporary io.heap byteOff count).1.target.start,
          transferSize (sectorCount byteOff count)⟩ disk.image
            (byteOff / SECTOR_SIZE % 2 ^ 48 * SECTOR_SIZE) ∧
        readBytes disk io byteOff dst count =
          (some (memory.behind
            ((temporary io.heap byteOff count).1.target.start + byteOff % SECTOR_SIZE)),
          (Io.kfree (Io.deliver
            { (io.kmallocAligned (sectorBytes byteOff count) 4096).2 with
              memory
              commands := io.commands + 1 } dst count
            ((temporary io.heap byteOff count).1.target.start + byteOff % SECTOR_SIZE))
            (temporary io.heap byteOff count).1.target.start
            (sectorBytes byteOff count)).record ⟨byteOff, count, true⟩))) := by
  unfold readBytes
  rw [if_neg hcount]
  dsimp only
  by_cases hnull : (io.kmallocAligned (sectorBytes byteOff count) 4096).1 = 0
  · exact Or.inl ⟨hnull, if_pos hnull⟩
  · refine Or.inr ⟨hnull, ?_⟩
    rw [if_neg (show (io.kmallocAligned ((byteOff % SECTOR_SIZE + count + 511) / SECTOR_SIZE *
      SECTOR_SIZE) 4096).1 ≠ 0 from hnull), readSectors_eq]
    cases hfails : disk.fails (io.kmallocAligned ((byteOff % SECTOR_SIZE + count + 511) /
        SECTOR_SIZE * SECTOR_SIZE) 4096).2.commands with
    | some left => exact Or.inl ⟨left, hfails, rfl⟩
    | none => exact Or.inr ⟨_, hfails, rfl, rfl⟩

/-- A call of `read_bytes` is recorded with its result. -/
theorem readBytes_calls (disk : Disk) (io : Io σ) (byteOff : Nat) (dst : Option Nat)
    (count : Nat) :
    (readBytes disk io byteOff dst count).2.calls =
      ⟨byteOff, count, (readBytes disk io byteOff dst count).1.isSome⟩ :: io.calls := by
  by_cases hcount : count = 0
  · subst hcount
    rfl
  · rcases readBytes_cases disk io byteOff dst hcount with
      ⟨-, heq⟩ | ⟨-, ⟨left, -, heq⟩ | ⟨memory, -, -, heq⟩⟩
    · rw [heq]
      rfl
    · rw [heq]
      rfl
    · rw [heq]
      cases dst <;> rfl

/-- The code writes the destination of a read that succeeds, if it is in the memory, and nothing
else. -/
theorem readBytes_written (disk : Disk) (io : Io σ) (byteOff : Nat) (dst : Option Nat)
    {count : Nat} (hcount : count ≠ 0) :
    (readBytes disk io byteOff dst count).2.written =
      if (readBytes disk io byteOff dst count).1.isSome then
        dst.toList.map (fun addr ↦ ⟨addr, count⟩) ++ io.written
      else io.written := by
  rcases readBytes_cases disk io byteOff dst hcount with
    ⟨-, heq⟩ | ⟨-, ⟨left, -, heq⟩ | ⟨memory, -, -, heq⟩⟩
  · rw [heq]
    rfl
  · rw [heq]
    rfl
  · rw [heq]
    cases dst <;> rfl

/-- The heap after a read does not depend on the disk. -/
theorem readBytes_heap (disk : Disk) (io : Io σ) (byteOff : Nat) (dst : Option Nat) {count : Nat}
    (hcount : count ≠ 0) :
    (readBytes disk io byteOff dst count).2.heap = (temporary io.heap byteOff count).2 := by
  rcases readBytes_cases disk io byteOff dst hcount with
    ⟨hnull, heq⟩ | ⟨-, ⟨left, -, heq⟩ | ⟨memory, -, -, heq⟩⟩
  · rw [heq]
    -- the null pointer is not given back
    exact (if_pos (Or.inl hnull)).symm
  · rw [heq]
    rfl
  · rw [heq]
    cases dst <;> rfl

/-- The memory after a copy of bytes of the disk to a destination. -/
def delivered (image memory : ByteMap) (byteOff : Nat) (dst : Option Nat) (count : Nat) :
    ByteMap :=
  match dst with
  | some addr => memory.copy ⟨addr, count⟩ image byteOff
  | none => memory

/-- A read that succeeds puts its sectors into the temporary buffer and then the bytes that were
asked for into the destination, if the range is short enough for one command and inside the sector
numbers that a command holds. -/
theorem readBytes_some {disk : Disk} {io : Io σ} {byteOff count : Nat} {dst : Option Nat}
    {bytes : ByteMap} (hcount : count ≠ 0) (hoff : byteOff < 2 ^ 57)
    (hlt : byteOff % 512 + count ≤ 2 ^ 22)
    (h : (readBytes disk io byteOff dst count).1 = some bytes) :
    (∀ i < count, bytes i = disk.image (byteOff + i)) ∧
      (readBytes disk io byteOff dst count).2.memory =
        delivered disk.image (ByteMap.copies disk.image io.memory
          [(temporary io.heap byteOff count).1]) byteOff dst count := by
  rcases readBytes_cases disk io byteOff dst hcount with
    ⟨-, heq⟩ | ⟨-, ⟨left, -, heq⟩ | ⟨memory, -, hmemory, heq⟩⟩
  · rw [heq] at h
    cases h
  · rw [heq] at h
    cases h
  · have hcopied : memory = ByteMap.copies disk.image io.memory
        [(temporary io.heap byteOff count).1] := by
      have hlba : byteOff / SECTOR_SIZE % 2 ^ 48 = byteOff / SECTOR_SIZE := by
        rw [SECTOR_SIZE]
        exact Nat.mod_eq_of_lt (by omega)
      rw [hmemory, transferSize_sectorCount hcount hlt, hlba]
      rfl
    have hbytes : ∀ i < count, memory ((temporary io.heap byteOff count).1.target.start +
        byteOff % SECTOR_SIZE + i) = disk.image (byteOff + i) := by
      intro i hi
      rw [hcopied]
      have hin : (temporary io.heap byteOff count).1.target.Contains
          ((temporary io.heap byteOff count).1.target.start + byteOff % SECTOR_SIZE + i) := by
        refine ⟨by omega, ?_⟩
        show _ < (temporary io.heap byteOff count).1.target.start + sectorBytes byteOff count
        rw [sectorBytes, SECTOR_SIZE]
        omega
      refine (ByteMap.copy_of_contains hin).trans (congrArg disk.image ?_)
      show byteOff / SECTOR_SIZE * SECTOR_SIZE + _ = byteOff + i
      rw [SECTOR_SIZE]
      omega
    rw [heq] at h ⊢
    cases h
    refine ⟨hbytes, ?_⟩
    cases dst with
    | none => exact hcopied
    | some addr =>
        funext k
        show memory.copy ⟨addr, count⟩ memory _ k = ByteMap.copy _ ⟨addr, count⟩ _ _ k
        by_cases hin : (Extent.mk addr count).Contains k
        · have hstart : addr ≤ k := hin.1
          have hend : k < addr + count := hin.2
          rw [ByteMap.copy_of_contains hin, ByteMap.copy_of_contains hin]
          exact hbytes (k - addr) (by omega)
        · rw [ByteMap.copy_of_not_contains hin, ByteMap.copy_of_not_contains hin, hcopied]

/-! ## Which reads are exact -/

/-- A read that returns true has brought the bytes of the disk, whatever the disk holds and whatever
was in the memory before. -/
def ReadsExactly (io : Io σ) (byteOff count : Nat) : Prop :=
  ∀ (disk : Disk) (memory : ByteMap) (dst : Option Nat) (bytes : ByteMap),
    (readBytes disk { io with memory } byteOff dst count).1 = some bytes → ∀ i < count,
      bytes i = disk.image (byteOff + i) ∧
        ∀ addr, dst = some addr →
          (readBytes disk { io with memory } byteOff dst count).2.memory (addr + i) =
            disk.image (byteOff + i)

/-- The temporary buffer of a read can be allocated. -/
def BufferAvailable (io : Io σ) (byteOff count : Nat) : Prop :=
  (io.kmallocAligned ((byteOff % SECTOR_SIZE + count + 511) / SECTOR_SIZE * SECTOR_SIZE) 4096).1 ≠ 0

/-- A disk of zeros. -/
def zeroDisk : Disk := ⟨fun _ ↦ 0, fun _ ↦ none⟩

/-- A range that does not fit one command ends in bytes that were in the buffer before. -/
theorem not_readsExactly {io : Io σ} {byteOff count : Nat} (hcount : count ≠ 0)
    (hbuf : BufferAvailable io byteOff count) (hlong : 2 ^ 22 < byteOff % SECTOR_SIZE + count) :
    ¬ ReadsExactly io byteOff count := by
  intro h
  rcases readBytes_cases zeroDisk { io with memory := fun _ ↦ 1 } byteOff (some 0) hcount with
    ⟨hnull, -⟩ | ⟨-, ⟨left, hfails, -⟩ | ⟨memory, -, hmemory, heq⟩⟩
  · exact hbuf hnull
  · cases hfails
  · have hlast := (h zeroDisk (fun _ ↦ 1) (some 0) _ (by rw [heq]) (count - 1) (by omega)).1
    have hsize := transferSize_le (sectorCount byteOff count)
    rw [hmemory] at hlast
    have hstale := (ByteMap.copy_of_not_contains fun hin ↦ ?_).symm.trans hlast
    · have hdiffer : (1 : UInt8) = 0 := hstale
      exact absurd hdiffer (by decide)
    · have hend := hin.2
      dsimp only at hend
      omega

/-- As long as the sector numbers fit the command, `read_bytes` is exact exactly if the range and
what precedes it in its first sector are at most 4 MiB, unless there is nothing to read or no memory
for the buffer. A block size has 32 bits. -/
theorem read_bytes_exact_iff (io : Io σ) {byteOff : Nat} (count : UInt32)
    (hsectors : byteOff + count.toNat ≤ 2 ^ 48 * 512) :
    ReadsExactly io byteOff count.toNat ↔
      (count = 0 ∨ ¬ BufferAvailable io byteOff count.toNat ∨
        byteOff % 512 + count.toNat ≤ 2 ^ 22) := by
  by_cases hzero : count = 0
  · subst hzero
    exact iff_of_true (fun _ _ _ _ _ i hi ↦ absurd hi (Nat.not_lt_zero i)) (Or.inl rfl)
  · have hcount : count.toNat ≠ 0 := fun heq ↦ hzero (UInt32.toNat_inj.mp heq)
    rw [or_iff_right hzero]
    by_cases hbuf : BufferAvailable io byteOff count.toNat
    · rw [or_iff_right (not_not_intro hbuf)]
      constructor
      · intro hexact
        by_contra hlong
        exact not_readsExactly hcount hbuf (Nat.lt_of_not_le hlong) hexact
      · intro hshort disk memory dst bytes hread i hi
        obtain ⟨hbytes, hmemory⟩ := readBytes_some hcount (by omega) hshort hread
        refine ⟨hbytes i hi, ?_⟩
        rintro addr rfl
        have hin : Extent.Contains ⟨addr, count.toNat⟩ (addr + i) := by
          refine ⟨Nat.le_add_right _ _, ?_⟩
          show addr + i < addr + count.toNat
          omega
        rw [hmemory]
        refine (ByteMap.copy_of_contains hin).trans (congrArg disk.image ?_)
        show byteOff + (addr + i - addr) = byteOff + i
        omega
    · refine iff_of_true (fun disk memory dst bytes hread ↦ ?_) (Or.inl hbuf)
      rcases readBytes_cases disk { io with memory } byteOff dst hcount with
        ⟨-, heq⟩ | ⟨hptr, -⟩
      · rw [heq] at hread
        cases hread
      · exact absurd hptr hbuf

/-- A heap with 4096 free pages. -/
def largeHeap : Heap BuddyAllocator :=
  ⟨SlabAllocator.new, BuddyAllocator.init 0x100000 0x1000000⟩

/-- The second kilobyte of a disk is read exactly. -/
theorem read_bytes_exact_superblock :
    ReadsExactly (.start largeHeap (fun _ ↦ 0) 0) 1024 1024 :=
  (read_bytes_exact_iff (.start largeHeap _ 0) 1024 (by decide)).mpr (Or.inr (Or.inr (by decide)))

/-- A block of 8 MiB is read for its first half only. -/
theorem read_bytes_not_exact : ¬ ReadsExactly (.start largeHeap (fun _ ↦ 0) 0) 0 0x800000 := by
  have hbuf : BufferAvailable (.start largeHeap (fun _ ↦ 0) 0) 0 0x800000 := by
    unfold BufferAvailable
    decide +kernel
  exact not_readsExactly (by decide) hbuf (by decide)

end Avaria.Fs
