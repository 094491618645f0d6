import Avaria.Fs.ReadData

/-!
# The buffer and the errors of a file read

Where `read_inode_data` writes, and what it returns when reads fail.

The read of a block always fills a whole block, also when the file ends inside it;
`writes_in_buffer_iff` says when that read leaves the buffer. A read of a pointer that fails looks
like a hole; `read_failure_reported_iff` says which failures are reported.
-/

namespace Avaria.Fs

open Mem Mm

variable {σ : Type*} [PageSource σ]

/-! ## Writes -/

/-- All ranges that the code has written lie inside a block. -/
def Io.WritesIn (io : Io σ) (block : Extent) : Prop := ∀ range ∈ io.written, range.Within block

/-- The file ends inside a block that is not a hole, and the loop reads it. -/
def ReadsPartialBlock (disk : Disk) (io : Io σ) (sb : Ref Superblock) (inode : Ref Inode) : Prop :=
  io.fileBuf inode ≠ 0 ∧ io.blockSize sb ≠ 0 ∧
    io.fileSize inode % (io.blockSize sb).toNat ≠ 0 ∧
    ∃ last st, blocksNeeded (io.fileSize inode) (io.blockSize sb).toNat = last + 1 ∧
      afterBlocks disk io sb inode last = .ok st ∧
      (st.resolved disk sb inode).1 ≠ 0 ∧
      (st.dataRead disk (io.fileBuf inode) (io.blockSize sb) sb inode).1 = true

omit [PageSource σ] in
theorem Io.WritesIn.cons {io next : Io σ} {buf size start length : Nat}
    (h : io.WritesIn ⟨buf, size⟩) (hwritten : next.written = ⟨buf + start, length⟩ :: io.written)
    (hle : start + length ≤ size) : next.WritesIn ⟨buf, size⟩ := by
  intro range hrange
  rw [hwritten] at hrange
  rcases List.mem_cons.mp hrange with hrange | hrange
  · rw [hrange]
    exact ⟨Nat.le_add_right _ _, by dsimp only; omega⟩
  · exact h range hrange

/-- Looking up a block writes nothing. -/
theorem resolved_written (disk : Disk) (sb : Ref Superblock) (inode : Ref Inode)
    (st : ReadState σ) :
    (st.resolved disk sb inode).2.written = st.io.written := by
  rw [ReadState.resolved, resolveBlock_eq]
  exact followPtrs_written disk _ _ _ st.io

/-- The read of a block writes a whole block, if it succeeds. -/
theorem dataRead_written {disk : Disk} {buf : Nat} {blockSize : UInt32} {sb : Ref Superblock}
    {inode : Ref Inode} {st : ReadState σ} (hpos : blockSize ≠ 0) :
    (st.dataRead disk buf blockSize sb inode).2.written =
      if (st.dataRead disk buf blockSize sb inode).1 = true then
        ⟨buf + st.bufOff, blockSize.toNat⟩ :: st.io.written
      else st.io.written := by
  have hwritten := readBytes_written disk (st.resolved disk sb inode).2
    ((st.resolved disk sb inode).1.toNat * blockSize.toNat) (some (buf + st.bufOff))
    (toNat_ne_zero hpos)
  rw [resolved_written] at hwritten
  exact hwritten

/-- An iteration writes inside the buffer, if its block ends inside the file when it is read. -/
theorem Io.WritesIn.step {disk : Disk} {buf size count : Nat} {blockSize : UInt32}
    {sb : Ref Superblock} {inode : Ref Inode} {st next : ReadState σ} (hpos : blockSize ≠ 0)
    (hat : AtBlock size blockSize.toNat count st)
    (hblock : (st.resolved disk sb inode).1 ≠ 0 →
      (st.dataRead disk buf blockSize sb inode).1 = true → (count + 1) * blockSize.toNat ≤ size)
    (h : st.io.WritesIn ⟨buf, size⟩) (hstep : readStep disk buf blockSize sb inode st = .ok next) :
    next.io.WritesIn ⟨buf, size⟩ := by
  have hoff := hat.bufOff
  have hleft := hat.bytesLeft
  rcases readStep_ok hstep with ⟨-, rfl⟩ | ⟨hmapped, hread, rfl⟩
  · have hwritten : (st.filled disk buf blockSize sb inode).written =
        ⟨buf + st.bufOff, min st.bytesLeft blockSize.toNat⟩ :: st.io.written :=
      congrArg _ (resolved_written disk sb inode st)
    exact h.cons hwritten (by omega)
  · have hend := hblock hmapped hread
    rw [Nat.succ_mul] at hend
    exact h.cons ((dataRead_written hpos).trans (if_pos hread)) (by omega)

/-- An iteration that leaves the loop writes nothing. -/
theorem written_of_error {disk : Disk} {buf : Nat} {blockSize : UInt32} {sb : Ref Superblock}
    {inode : Ref Inode} {st stop : ReadState σ} (hpos : blockSize ≠ 0)
    (h : readStep disk buf blockSize sb inode st = .error stop) :
    stop.io.written = st.io.written := by
  obtain ⟨hread, hio⟩ := readStep_error h
  rw [hio, dataRead_written hpos, if_neg (by rw [hread]; decide)]

/-- A block that does not end inside the file is the last one, and the file ends inside it. -/
theorem last_of_lt {size count : Nat} {blockSize : UInt32} (hpos : blockSize ≠ 0)
    (hsize : size < 2 ^ 64) (hcount : count + 1 ≤ blocksNeeded size blockSize.toNat)
    (hend : size < (count + 1) * blockSize.toNat) :
    count + 1 = blocksNeeded size blockSize.toNat ∧ size % blockSize.toNat ≠ 0 := by
  have hpos' : 0 < blockSize.toNat := Nat.pos_of_ne_zero (toNat_ne_zero hpos)
  have hlt := blockSize.toNat_lt
  have hfits : size + blockSize.toNat - 1 < 2 ^ 64 :=
    fits_of_blocksNeeded_pos hsize (by omega) (by omega)
  constructor
  · by_contra hne
    have hnext : count + 1 < blocksNeeded size blockSize.toNat := by omega
    exact absurd ((lt_blocksNeeded_iff hpos' hfits _).mp hnext) (not_lt.mpr hend.le)
  · intro hmod
    have hstart : count * blockSize.toNat < size := (lt_blocksNeeded_iff hpos' hfits _).mp hcount
    have hdiv := Nat.div_add_mod' size blockSize.toNat
    rw [hmod, Nat.add_zero] at hdiv
    rw [← hdiv] at hstart hend
    have hlow := Nat.lt_of_mul_lt_mul_right hstart
    have hhigh := Nat.lt_of_mul_lt_mul_right hend
    omega

/-- Without a read of a partial block, the loop writes inside the buffer. -/
theorem writesIn_afterBlocks {disk : Disk} {io : Io σ} {sb : Ref Superblock} {inode : Ref Inode}
    (hbuf : io.fileBuf inode ≠ 0) (hpos : io.blockSize sb ≠ 0) (hnone : io.written = [])
    (h : ¬ ReadsPartialBlock disk io sb inode) {count : Nat} {st : ReadState σ}
    (hcount : count ≤ blocksNeeded (io.fileSize inode) (io.blockSize sb).toNat)
    (hst : afterBlocks disk io sb inode count = .ok st) :
    st.io.WritesIn ⟨io.fileBuf inode, io.fileSize inode⟩ := by
  induction count generalizing st with
  | zero =>
      cases hst
      intro range hrange
      have hwritten : range ∈ io.written := hrange
      rw [hnone] at hwritten
      exact absurd hwritten List.not_mem_nil
  | succ count ih =>
      obtain ⟨middle, hmiddle, hstep⟩ := ForLoop.exists_of_loop_succ hst
      have hat : AtBlock (io.fileSize inode) (io.blockSize sb).toNat count middle := .loop hmiddle
      refine Io.WritesIn.step hpos hat (fun hmapped hread ↦ ?_) (ih (by omega) hmiddle) hstep
      by_contra hend
      obtain ⟨hlast, hpartial⟩ :=
        last_of_lt hpos (io.fileSize_lt inode) hcount (Nat.lt_of_not_le hend)
      exact h ⟨hbuf, hpos, hpartial, count, middle, hlast.symm, hmiddle, hmapped, hread⟩

/-- A file that ends inside its last block ends before that block does. -/
theorem last_block_bounds {size last : Nat} {blockSize : UInt32} (hpos : blockSize ≠ 0)
    (hsize : size < 2 ^ 64) (hmod : size % blockSize.toNat ≠ 0)
    (hlast : blocksNeeded size blockSize.toNat = last + 1) :
    last * blockSize.toNat < size ∧ size < last * blockSize.toNat + blockSize.toNat := by
  have hpos' : 0 < blockSize.toNat := Nat.pos_of_ne_zero (toNat_ne_zero hpos)
  have hlt := blockSize.toNat_lt
  have hfits : size + blockSize.toNat - 1 < 2 ^ 64 :=
    fits_of_blocksNeeded_pos hsize (by omega) (by omega)
  have hcover := le_blocksNeeded_mul hpos' hfits
  have hend : size ≠ (last + 1) * blockSize.toNat := by
    intro hend
    rw [hend] at hmod
    exact hmod (Nat.mul_mod_left _ _)
  rw [hlast] at hcover
  rw [Nat.succ_mul] at hcover hend
  exact ⟨(lt_blocksNeeded_iff hpos' hfits last).mp (by omega), by omega⟩

/-- The loop goes on after a block that is read. -/
theorem afterBlocks_succ_of_read {disk : Disk} {io : Io σ} {sb : Ref Superblock} {inode : Ref Inode}
    {count : Nat} {st : ReadState σ} (hst : afterBlocks disk io sb inode count = .ok st)
    (hmapped : (st.resolved disk sb inode).1 ≠ 0)
    (hread : (st.dataRead disk (io.fileBuf inode) (io.blockSize sb) sb inode).1 = true) :
    afterBlocks disk io sb inode (count + 1) =
      .ok (st.advance (io.blockSize sb)
        (st.dataRead disk (io.fileBuf inode) (io.blockSize sb) sb inode).2) := by
  refine (ForLoop.loop_succ count _).trans ?_
  rw [show ForLoop.loop _ count _ = _ from hst]
  rcases readStep_cases disk (io.fileBuf inode) (io.blockSize sb) sb inode st with
    ⟨hhole, -⟩ | ⟨-, -, heq⟩ | ⟨-, hfailed, -⟩
  · exact absurd hhole hmapped
  · exact heq
  · rw [hread] at hfailed
    cases hfailed

/-- The read of a partial block leaves the buffer. -/
theorem ReadsPartialBlock.overrun {disk : Disk} {io : Io σ} {sb : Ref Superblock}
    {inode : Ref Inode} (h : ReadsPartialBlock disk io sb inode) :
    ∃ result, readInodeData disk io sb inode = some result ∧
      ¬ result.io.WritesIn ⟨io.fileBuf inode, io.fileSize inode⟩ := by
  obtain ⟨hbuf, hpos, hmod, last, st, hlast, hst, hmapped, hread⟩ := h
  obtain ⟨hstart, hend⟩ := last_block_bounds hpos (io.fileSize_lt inode) hmod hlast
  have hnext := afterBlocks_succ_of_read hst hmapped hread
  rcases readInodeData_cases disk io sb inode with
    ⟨hempty, -⟩ | ⟨hzero, -⟩ | ⟨-, -, -, ⟨final, hloop, heq⟩ | ⟨stop, hloop, -⟩⟩
  · rcases hempty with hempty | hempty
    · rw [hempty] at hmod
      exact absurd (Nat.zero_mod _) hmod
    · exact absurd hempty hbuf
  · exact absurd hzero hpos
  · rw [hlast, hnext] at hloop
    cases hloop
    refine ⟨_, heq, fun hin ↦ ?_⟩
    have hrange := hin ⟨io.fileBuf inode + st.bufOff, (io.blockSize sb).toNat⟩ (by
      show _ ∈ (st.dataRead disk _ (io.blockSize sb) sb inode).2.written
      rw [dataRead_written hpos, if_pos hread]
      exact List.mem_cons_self)
    have hover : io.fileBuf inode + st.bufOff + (io.blockSize sb).toNat ≤
        io.fileBuf inode + io.fileSize inode := hrange.2
    rw [(AtBlock.loop hst).bufOff] at hover
    omega
  · rw [hlast, hnext] at hloop
    cases hloop

/-- `read_inode_data` writes inside its buffer exactly when it reads no partial block. -/
theorem writes_in_buffer_iff (disk : Disk) (heap : Heap σ) (memory : ByteMap) (commands : Nat)
    (sb : Ref Superblock) (inode : Ref Inode) :
    (∀ result, readInodeData disk (.start heap memory commands) sb inode = some result →
      result.io.WritesIn ⟨(heap.kmalloc (inode memory).size.toNat).1, (inode memory).size.toNat⟩) ↔
      ¬ ReadsPartialBlock disk (.start heap memory commands) sb inode := by
  constructor
  · intro hinside hpartial
    obtain ⟨result, heq, hout⟩ := hpartial.overrun
    exact hout (hinside result heq)
  · intro hpartial result hresult
    rcases readInodeData_cases disk (.start heap memory commands) sb inode with
      ⟨-, after, -, -, hnone, heq⟩ | ⟨-, heq⟩ |
        ⟨-, hbuf, hpos, ⟨st, hloop, heq⟩ | ⟨stop, hloop, heq⟩⟩
    · rw [heq] at hresult
      cases hresult
      intro range hrange
      rw [hnone] at hrange
      exact absurd hrange List.not_mem_nil
    · rw [heq] at hresult
      cases hresult
    · rw [heq] at hresult
      cases hresult
      exact writesIn_afterBlocks hbuf hpos rfl hpartial le_rfl hloop
    · rw [heq] at hresult
      cases hresult
      obtain ⟨i, hi, middle, hmiddle, hstop⟩ := ForLoop.leaves_at hloop
      intro range hrange
      refine writesIn_afterBlocks hbuf hpos rfl hpartial hi.le hmiddle range ?_
      rw [← written_of_error hpos hstop]
      exact hrange

/-- A file of 12289 bytes in blocks of 1024 bytes gets 13312 bytes written. -/
theorem writes_outside_buffer :
    ¬ ∀ (disk : Disk) (heap : Heap BuddyAllocator) (memory : ByteMap) (commands : Nat)
      (sb : Superblock) (inode : Inode) (result : ReadResult BuddyAllocator),
        readInodeData disk (.start heap memory commands) (.const sb) (.const inode) = some result →
        result.io.WritesIn ⟨(heap.kmalloc inode.size.toNat).1, inode.size.toNat⟩ := by
  intro h
  have hwritten : (readInodeData sampleDisk (.start sampleHeap (fun _ ↦ 0) 0) (.const ⟨0⟩)
      (.const sampleInode)).map (fun result ↦ result.io.written.head?) =
        some (some ⟨0x100000 + 12288, 1024⟩) := by decide +kernel
  cases hresult : readInodeData sampleDisk (.start sampleHeap (fun _ ↦ 0) 0) (.const ⟨0⟩)
      (.const sampleInode) with
  | none =>
      rw [hresult] at hwritten
      cases hwritten
  | some result =>
      rw [hresult] at hwritten
      have hhead := List.mem_of_mem_head? (Option.some.inj hwritten)
      have hptr : (sampleHeap.kmalloc sampleInode.size.toNat).1 = 0x100000 := by decide +kernel
      have hrange := h _ _ _ _ _ _ result hresult _ hhead
      rw [hptr] at hrange
      exact absurd hrange (by decide)

/-! ## Errors -/

/-- Every call that is not for a pointer succeeded; a pointer has 4 bytes, a block at least 1024. -/
def DataReadsOk (st : ReadState σ) : Prop :=
  ∀ call ∈ st.io.calls, call.count ≠ 4 → call.ok = true

/-- The loop goes on only if the read of its block succeeds. -/
theorem DataReadsOk.step {disk : Disk} {buf : Nat} {blockSize : UInt32} {sb : Ref Superblock}
    {inode : Ref Inode} {st next : ReadState σ} (h : DataReadsOk st)
    (hstep : readStep disk buf blockSize sb inode st = .ok next) : DataReadsOk next := by
  obtain ⟨added, hadded, hpointers⟩ := resolved_calls disk sb inode st
  have hresolved : ∀ call ∈ (st.resolved disk sb inode).2.calls,
      call.count ≠ 4 → call.ok = true := by
    intro call hcall hdata
    rw [hadded] at hcall
    rcases List.mem_append.mp hcall with hcall | hcall
    · exact absurd (hpointers call hcall) hdata
    · exact h call hcall hdata
  rcases readStep_ok hstep with ⟨-, rfl⟩ | ⟨-, hread, rfl⟩
  · exact hresolved
  · obtain ⟨data, -, hok, hcalls⟩ := dataRead_calls disk buf blockSize sb inode st
    intro call hcall hdata
    have hmem : call ∈ (st.dataRead disk buf blockSize sb inode).2.calls := hcall
    rw [hcalls] at hmem
    rcases List.mem_cons.mp hmem with hcall | hcall
    · rw [hcall, hok, hread]
    · exact hresolved call hcall hdata

/-- A loop that ran to its end read all its blocks. -/
theorem dataReadsOk_afterBlocks {disk : Disk} {heap : Heap σ} {memory : ByteMap} {commands : Nat}
    {sb : Ref Superblock} {inode : Ref Inode} {count : Nat} {st : ReadState σ}
    (h : afterBlocks disk (.start heap memory commands) sb inode count = .ok st) :
    DataReadsOk st :=
  ForLoop.invariant (I := fun _ st ↦ DataReadsOk st) h (fun _ hcall ↦ absurd hcall List.not_mem_nil)
    fun _ _ _ _ hinv hstep ↦ hinv.step hstep

/-- `read_inode_data` reports a failed call, by the null pointer and after it freed its buffer,
exactly when the read of a block fails too if the read of a pointer does. -/
theorem read_failure_reported_iff {disk : Disk} {heap : Heap σ} {memory : ByteMap}
    {commands : Nat} {sb : Ref Superblock} {inode : Ref Inode} {result : ReadResult σ}
    (h : readInodeData disk (.start heap memory commands) sb inode = some result) :
    ((∃ call ∈ result.io.calls, call.ok = false) →
      result.ptr = 0 ∧ result.length = 0 ∧
        result.io.freed.head? =
          some ((heap.kmalloc (inode memory).size.toNat).1, (inode memory).size.toNat)) ↔
    ((∃ call ∈ result.io.calls, call.count = 4 ∧ call.ok = false) →
      ∃ call ∈ result.io.calls, call.count ≠ 4 ∧ call.ok = false) := by
  rcases readInodeData_cases disk (.start heap memory commands) sb inode with
    ⟨-, after, hcalls, -, -, heq⟩ | ⟨-, heq⟩ |
      ⟨-, hbuf, hpos, ⟨st, hloop, heq⟩ | ⟨stop, hloop, heq⟩⟩
  · rw [heq] at h
    cases h
    have hnone : ∀ call, call ∉ after.calls := by
      intro call
      rw [hcalls]
      exact List.not_mem_nil
    constructor
    · intro _ hfailed
      obtain ⟨call, hcall, -⟩ := hfailed
      exact absurd hcall (hnone call)
    · intro _ hfailed
      obtain ⟨call, hcall, -⟩ := hfailed
      exact absurd hcall (hnone call)
  · rw [heq] at h
    cases h
  · rw [heq] at h
    cases h
    have hdata := dataReadsOk_afterBlocks hloop
    constructor
    · intro hreported hfailed
      obtain ⟨call, hcall, -, hok⟩ := hfailed
      exact absurd (hreported ⟨call, hcall, hok⟩).1 hbuf
    · intro hfailures hfailed
      obtain ⟨call, hcall, hok⟩ := hfailed
      have hpointer : call.count = 4 := by
        by_contra hcount
        rw [hdata call hcall hcount] at hok
        cases hok
      obtain ⟨other, hother, hcount, hfailed⟩ := hfailures ⟨call, hcall, hpointer, hok⟩
      rw [hdata other hother hcount] at hfailed
      cases hfailed
  · rw [heq] at h
    cases h
    obtain ⟨call, hcall, hcount, hok⟩ := failed_of_error hloop
    have hlarge : 1024 ≤ ((Io.start heap memory commands).blockSize sb).toNat :=
      Superblock.le_blockSize hpos
    exact iff_of_true (fun _ ↦ ⟨rfl, rfl, rfl⟩) fun _ ↦ ⟨call, hcall, by omega, hok⟩

/-- The sample disk, with one command that fails and leaves zeros. -/
def failingDisk (failing : Nat) : Disk :=
  { sampleDisk with fails := fun command ↦ if command = failing then some fun _ ↦ 0 else none }

/-- The failed read of the first block of the sample file is reported. -/
theorem read_failure_reported_sample :
    ∃ result, readInodeData (failingDisk 0) (.start sampleHeap (fun _ ↦ 0) 0) (.const ⟨0⟩)
        (.const sampleInode) = some result ∧
      result.ptr = 0 ∧ result.length = 0 := by
  have hcalls : (readInodeData (failingDisk 0) (.start sampleHeap (fun _ ↦ 0) 0) (.const ⟨0⟩)
      (.const sampleInode)).map (fun result ↦ result.io.calls) =
        some [⟨5 * 1024, 1024, false⟩] := by decide +kernel
  cases hresult : readInodeData (failingDisk 0) (.start sampleHeap (fun _ ↦ 0) 0) (.const ⟨0⟩)
      (.const sampleInode) with
  | none =>
      rw [hresult] at hcalls
      cases hcalls
  | some result =>
      rw [hresult] at hcalls
      have hcall : ⟨5 * 1024, 1024, false⟩ ∈ result.io.calls := by
        rw [show result.io.calls = _ from Option.some.inj hcalls]
        exact List.mem_cons_self
      obtain ⟨hptr, hlength, -⟩ := (read_failure_reported_iff hresult).mpr
        (fun _ ↦ ⟨_, hcall, by decide, rfl⟩) ⟨_, hcall, rfl⟩
      exact ⟨result, rfl, hptr, hlength⟩

/-- A pointer of the sample file cannot be read; its last block is returned as zeros. -/
theorem read_failure_unreported :
    ¬ ∀ (disk : Disk) (heap : Heap BuddyAllocator) (memory : ByteMap) (commands : Nat)
      (sb : Superblock) (inode : Inode) (result : ReadResult BuddyAllocator), inode.size ≠ 0 →
        readInodeData disk (.start heap memory commands) (.const sb) (.const inode) = some result →
        (∃ call ∈ result.io.calls, call.ok = false) →
        result.ptr = 0 ∧ result.length = 0 ∧
          result.io.freed.head? =
            some ((heap.kmalloc inode.size.toNat).1, inode.size.toNat) := by
  intro h
  have hrun : (readInodeData (failingDisk 1) (.start sampleHeap (fun _ ↦ 0xFF) 0) (.const ⟨0⟩)
      (.const sampleInode)).map (fun result ↦ (result.io.calls, result.length,
        result.io.memory (result.ptr + 12288))) =
        some ([⟨7168, 4, false⟩, ⟨5 * 1024, 1024, true⟩], 12289, 0) := by decide +kernel
  cases hresult : readInodeData (failingDisk 1) (.start sampleHeap (fun _ ↦ 0xFF) 0) (.const ⟨0⟩)
      (.const sampleInode) with
  | none =>
      rw [hresult] at hrun
      cases hrun
  | some result =>
      rw [hresult] at hrun
      obtain ⟨hcalls, hlength, -⟩ := Prod.mk.inj (Option.some.inj hrun) |>.imp_right Prod.mk.inj
      have hcall : ⟨7168, 4, false⟩ ∈ result.io.calls := by
        rw [show result.io.calls = _ from hcalls]
        exact List.mem_cons_self
      have hnull := (h _ _ _ _ _ _ result (by decide) hresult ⟨_, hcall, rfl⟩).2.1
      rw [show result.length = _ from hlength] at hnull
      exact absurd hnull (by decide)

end Avaria.Fs
