import Avaria.Fs.Dir
import Avaria.Lib.Cursor

/-!
# Scanning directory data

Which bytes `find_in_dir_data` and the loop of `for_each_entry` read. Both follow the record lengths
from offset 0 on, as long as a whole entry header fits; the name behind a header is not checked
against the size.

The scans are written once more with the offsets of the bytes that they read; what they return
depends on no other byte (`findTraced_congr`, `visitTraced_congr`). `dir_scans_inside_iff` says for
which directories all of these bytes lie in the data.
-/

namespace Avaria.Fs

/-! ## The chain of entries -/

/-- The offset of the next entry, unless the loop ends at this one. -/
def nextEntry (data : ByteMap) (size off : Nat) : Option Nat :=
  if off + 8 ≤ size ∧ (DirEntry.decode data off).rec_len ≠ 0 then
    some (off + (DirEntry.decode data off).rec_len.toNat)
  else none

theorem nextEntry_eq_some {data : ByteMap} {size off after : Nat} :
    nextEntry data size off = some after ↔
      (off + 8 ≤ size ∧ (DirEntry.decode data off).rec_len ≠ 0) ∧
        off + (DirEntry.decode data off).rec_len.toNat = after := by
  rw [nextEntry]
  split <;> simp_all

/-- There is no next entry where the header does not fit, or the entry has no length. -/
theorem nextEntry_eq_none {data : ByteMap} {size off : Nat} :
    nextEntry data size off = none ↔ (off + 8 ≤ size → (DirEntry.decode data off).rec_len = 0) := by
  rw [nextEntry, ite_eq_right_iff]
  simp only [reduceCtorEq, imp_false, not_and, not_not]

/-- The entries of a directory, along the chain of their record lengths. -/
def dirCursor (data : ByteMap) (size : Nat) : Cursor Nat where
  next := nextEntry data size
  left off := size - off
  left_lt := by
    intro off after h
    obtain ⟨⟨hsize, hlen⟩, rfl⟩ := nextEntry_eq_some.mp h
    have hpos : (DirEntry.decode data off).rec_len.toNat ≠ 0 :=
      fun heq ↦ hlen (UInt16.toNat_inj.mp heq)
    omega

/-- The offsets of the entries. -/
def entryOffsets (data : ByteMap) (size : Nat) : List Nat := (dirCursor data size).trail 0

/-! ## The bytes that are read -/

/-- The bytes of an entry header. -/
def headerBytes (off : Nat) : List Nat := List.range' off 8

/-- The bytes of a name, as far as its length says. -/
def nameBytes (data : ByteMap) (off : Nat) : List Nat :=
  List.range' (off + 8) (DirEntry.decode data off).name_len.toNat

/-- `find_in_dir_data` from an offset on, with the offsets of the bytes that it reads. -/
def findTraced (data : ByteMap) (size : Nat) (name : List UInt8) (off : Nat) :
    UInt32 × List Nat :=
  match _ : nextEntry data size off with
  | none => (0, if off + 8 ≤ size then headerBytes off else [])
  | some after =>
      let entry := DirEntry.decode data off
      if entry.inode ≠ 0 ∧ entry.name_len.toNat = name.length then
        if entryName data off = name then (entry.inode, headerBytes off ++ nameBytes data off)
        else
          let (ino, reads) := findTraced data size name after
          (ino, headerBytes off ++ nameBytes data off ++ reads)
      else
        let (ino, reads) := findTraced data size name after
        (ino, headerBytes off ++ reads)
termination_by size - off
decreasing_by all_goals exact (dirCursor data size).left_lt ‹_›

/-- The loop of `for_each_entry` from an offset on, with the offsets of the bytes that it reads. The
visitor reads the whole name. -/
def visitTraced (data : ByteMap) (size off : Nat) :
    List (List UInt8 × UInt32 × UInt8) × List Nat :=
  match _ : nextEntry data size off with
  | none => ([], if off + 8 ≤ size then headerBytes off else [])
  | some after =>
      let entry := DirEntry.decode data off
      let (visited, reads) := visitTraced data size after
      if entry.inode ≠ 0 then
        ((entryName data off, entry.inode, entry.file_type) :: visited,
          headerBytes off ++ nameBytes data off ++ reads)
      else (visited, headerBytes off ++ reads)
termination_by size - off
decreasing_by exact (dirCursor data size).left_lt ‹_›

section Scans

variable {data : ByteMap} {size off after : Nat} {name : List UInt8}

theorem findInDirData_of_none (h : nextEntry data size off = none) :
    findInDirData data size name off = 0 := by
  rw [findInDirData]
  split
  · next hsize => exact if_pos (nextEntry_eq_none.mp h hsize)
  · rfl

theorem findInDirData_of_some (h : nextEntry data size off = some after) :
    findInDirData data size name off =
      if (DirEntry.decode data off).inode ≠ 0 ∧
          (DirEntry.decode data off).name_len.toNat = name.length ∧ entryName data off = name then
        (DirEntry.decode data off).inode
      else findInDirData data size name after := by
  obtain ⟨⟨hsize, hlen⟩, rfl⟩ := nextEntry_eq_some.mp h
  rw [findInDirData, if_pos hsize]
  exact if_neg hlen

theorem visitEntries_of_none (h : nextEntry data size off = none) :
    visitEntries data size off = [] := by
  rw [visitEntries]
  split
  · next hsize => exact if_pos (nextEntry_eq_none.mp h hsize)
  · rfl

theorem visitEntries_of_some (h : nextEntry data size off = some after) :
    visitEntries data size off =
      if (DirEntry.decode data off).inode ≠ 0 then
        (entryName data off, (DirEntry.decode data off).inode,
          (DirEntry.decode data off).file_type) :: visitEntries data size after
      else visitEntries data size after := by
  obtain ⟨⟨hsize, hlen⟩, rfl⟩ := nextEntry_eq_some.mp h
  rw [visitEntries, if_pos hsize]
  exact if_neg hlen

theorem findTraced_of_none (h : nextEntry data size off = none) :
    findTraced data size name off = (0, if off + 8 ≤ size then headerBytes off else []) := by
  rw [findTraced]
  split
  · rfl
  · next hsome => cases h.symm.trans hsome

theorem findTraced_of_some (h : nextEntry data size off = some after) :
    findTraced data size name off =
      if (DirEntry.decode data off).inode ≠ 0 ∧
          (DirEntry.decode data off).name_len.toNat = name.length then
        if entryName data off = name then
          ((DirEntry.decode data off).inode, headerBytes off ++ nameBytes data off)
        else
          ((findTraced data size name after).1,
            headerBytes off ++ nameBytes data off ++ (findTraced data size name after).2)
      else
        ((findTraced data size name after).1,
          headerBytes off ++ (findTraced data size name after).2) := by
  rw [findTraced]
  split
  · next hnone => cases h.symm.trans hnone
  · next hsome =>
      cases h.symm.trans hsome
      rfl

theorem visitTraced_of_none (h : nextEntry data size off = none) :
    visitTraced data size off = ([], if off + 8 ≤ size then headerBytes off else []) := by
  rw [visitTraced]
  split
  · rfl
  · next hsome => cases h.symm.trans hsome

theorem visitTraced_of_some (h : nextEntry data size off = some after) :
    visitTraced data size off =
      if (DirEntry.decode data off).inode ≠ 0 then
        ((entryName data off, (DirEntry.decode data off).inode,
          (DirEntry.decode data off).file_type) :: (visitTraced data size after).1,
          headerBytes off ++ nameBytes data off ++ (visitTraced data size after).2)
      else
        ((visitTraced data size after).1, headerBytes off ++ (visitTraced data size after).2) := by
  rw [visitTraced]
  split
  · next hnone => cases h.symm.trans hnone
  · next hsome =>
      cases h.symm.trans hsome
      rfl

/-- The traced scan returns what `find_in_dir_data` returns. -/
theorem findTraced_fst (data : ByteMap) (size : Nat) (name : List UInt8) (off : Nat) :
    (findTraced data size name off).1 = findInDirData data size name off := by
  fun_induction findTraced data size name off with
  | case1 off hnext => exact (findInDirData_of_none hnext).symm
  | case2 off after hnext entry hlive hname =>
      rw [findInDirData_of_some hnext, if_pos ⟨hlive.1, hlive.2, hname⟩]
  | case3 off after hnext entry hlive hname ino reads hrest ih =>
      rw [findInDirData_of_some hnext, if_neg fun hmatch ↦ hname hmatch.2.2, ← ih, hrest]
  | case4 off after hnext entry hlive ino reads hrest ih =>
      rw [findInDirData_of_some hnext, if_neg fun hmatch ↦ hlive ⟨hmatch.1, hmatch.2.1⟩, ← ih,
        hrest]

/-- The traced scan makes the calls that `for_each_entry` makes. -/
theorem visitTraced_fst (data : ByteMap) (size off : Nat) :
    (visitTraced data size off).1 = visitEntries data size off := by
  fun_induction visitTraced data size off with
  | case1 off hnext => exact (visitEntries_of_none hnext).symm
  | case2 off after hnext entry visited reads hrest hlive ih =>
      rw [visitEntries_of_some hnext, if_pos hlive, ← ih, hrest]
  | case3 off after hnext entry visited reads hrest hlive ih =>
      rw [visitEntries_of_some hnext, if_neg hlive, ← ih, hrest]

/-! ## No other byte matters -/

section Congr

variable {other : ByteMap}

theorem decode_congr (h : ∀ i ∈ headerBytes off, other i = data i) :
    DirEntry.decode other off = DirEntry.decode data off := by
  have hbyte (k : Nat) (hk : k < 8) : other (off + k) = data (off + k) :=
    h (off + k) (List.mem_range'_1.mpr (by omega))
  have hinode : other.fromLe off 4 = data.fromLe off 4 :=
    ByteMap.fromLe_congr fun k hk ↦ hbyte k (by omega)
  have hlen : other.fromLe (off + 4) 2 = data.fromLe (off + 4) 2 :=
    ByteMap.fromLe_congr fun k hk ↦ by rw [Nat.add_assoc, hbyte (4 + k) (by omega)]
  rw [DirEntry.decode, DirEntry.decode, hinode, hlen, hbyte 6 (by decide), hbyte 7 (by decide)]

theorem nextEntry_congr (h : off + 8 ≤ size → ∀ i ∈ headerBytes off, other i = data i) :
    nextEntry other size off = nextEntry data size off := by
  rw [nextEntry, nextEntry]
  by_cases hsize : off + 8 ≤ size
  · rw [decode_congr (h hsize)]
  · rw [if_neg fun hcase ↦ hsize hcase.1, if_neg fun hcase ↦ hsize hcase.1]

theorem entryName_congr (hheader : ∀ i ∈ headerBytes off, other i = data i)
    (hname : ∀ i ∈ nameBytes data off, other i = data i) :
    entryName other off = entryName data off := by
  rw [entryName, entryName, decode_congr hheader]
  refine List.map_congr_left fun k hk ↦ hname _ (List.mem_range'_1.mpr ?_)
  have hlt := List.mem_range.mp hk
  omega

/-- `find_in_dir_data` depends on the bytes that it reads only. -/
theorem findTraced_congr (h : ∀ i ∈ (findTraced data size name off).2, other i = data i) :
    findTraced other size name off = findTraced data size name off := by
  fun_induction findTraced data size name off with
  | case1 off hnext =>
      have hother : nextEntry other size off = none := by
        rw [nextEntry_congr fun hsize i hi ↦ h i (by rwa [if_pos hsize]), hnext]
      exact findTraced_of_none hother
  | case2 off after hnext entry hlive hname =>
      have hheader : ∀ i ∈ headerBytes off, other i = data i :=
        fun i hi ↦ h i (List.mem_append_left _ hi)
      have hbytes : ∀ i ∈ nameBytes data off, other i = data i :=
        fun i hi ↦ h i (List.mem_append_right _ hi)
      rw [findTraced_of_some ((nextEntry_congr fun _ ↦ hheader).trans hnext), nameBytes,
        decode_congr hheader, entryName_congr hheader hbytes, if_pos hlive, if_pos hname]
      rfl
  | case3 off after hnext entry hlive hname ino reads hrest ih =>
      have hheader : ∀ i ∈ headerBytes off, other i = data i :=
        fun i hi ↦ h i (List.mem_append_left _ (List.mem_append_left _ hi))
      have hbytes : ∀ i ∈ nameBytes data off, other i = data i :=
        fun i hi ↦ h i (List.mem_append_left _ (List.mem_append_right _ hi))
      have htail : findTraced other size name after = findTraced data size name after :=
        ih fun i hi ↦ h i (List.mem_append_right _ (by rwa [hrest] at hi))
      rw [findTraced_of_some ((nextEntry_congr fun _ ↦ hheader).trans hnext), nameBytes,
        decode_congr hheader, entryName_congr hheader hbytes, if_pos hlive, if_neg hname, htail,
        hrest]
      rfl
  | case4 off after hnext entry hlive ino reads hrest ih =>
      have hheader : ∀ i ∈ headerBytes off, other i = data i :=
        fun i hi ↦ h i (List.mem_append_left _ hi)
      have htail : findTraced other size name after = findTraced data size name after :=
        ih fun i hi ↦ h i (List.mem_append_right _ (by rwa [hrest] at hi))
      rw [findTraced_of_some ((nextEntry_congr fun _ ↦ hheader).trans hnext), decode_congr hheader,
        if_neg hlive, htail, hrest]

/-- The loop of `for_each_entry` depends on the bytes that it reads only. -/
theorem visitTraced_congr (h : ∀ i ∈ (visitTraced data size off).2, other i = data i) :
    visitTraced other size off = visitTraced data size off := by
  fun_induction visitTraced data size off with
  | case1 off hnext =>
      have hother : nextEntry other size off = none := by
        rw [nextEntry_congr fun hsize i hi ↦ h i (by rwa [if_pos hsize]), hnext]
      exact visitTraced_of_none hother
  | case2 off after hnext entry visited reads hrest hlive ih =>
      have hheader : ∀ i ∈ headerBytes off, other i = data i :=
        fun i hi ↦ h i (List.mem_append_left _ (List.mem_append_left _ hi))
      have hbytes : ∀ i ∈ nameBytes data off, other i = data i :=
        fun i hi ↦ h i (List.mem_append_left _ (List.mem_append_right _ hi))
      have htail : visitTraced other size after = visitTraced data size after :=
        ih fun i hi ↦ h i (List.mem_append_right _ (by rwa [hrest] at hi))
      rw [visitTraced_of_some ((nextEntry_congr fun _ ↦ hheader).trans hnext), nameBytes,
        decode_congr hheader, entryName_congr hheader hbytes, if_pos hlive, htail, hrest]
      rfl
  | case3 off after hnext entry visited reads hrest hlive ih =>
      have hheader : ∀ i ∈ headerBytes off, other i = data i :=
        fun i hi ↦ h i (List.mem_append_left _ hi)
      have htail : visitTraced other size after = visitTraced data size after :=
        ih fun i hi ↦ h i (List.mem_append_right _ (by rwa [hrest] at hi))
      rw [visitTraced_of_some ((nextEntry_congr fun _ ↦ hheader).trans hnext), decode_congr hheader,
        if_neg hlive, htail, hrest]

end Congr

/-! ## Reads inside the data -/

/-- The name of an entry in use ends inside the data. -/
def NameInside (data : ByteMap) (size off : Nat) : Prop :=
  (DirEntry.decode data off).inode ≠ 0 → off + 8 + (DirEntry.decode data off).name_len.toNat ≤ size

instance (data : ByteMap) (size off : Nat) : Decidable (NameInside data size off) :=
  inferInstanceAs (Decidable (_ → _))

theorem headerBytes_lt (h : off + 8 ≤ size) : ∀ i ∈ headerBytes off, i < size := by
  intro i hi
  have hlt := (List.mem_range'_1.mp hi).2
  omega

theorem nameBytes_lt_iff (h : off + 8 ≤ size) :
    (∀ i ∈ nameBytes data off, i < size) ↔
      off + 8 + (DirEntry.decode data off).name_len.toNat ≤ size := by
  constructor
  · intro hbytes
    by_contra hlong
    have hlast := hbytes (off + 8 + (DirEntry.decode data off).name_len.toNat - 1)
      (List.mem_range'_1.mpr (by omega))
    omega
  · intro hend i hi
    have hlt := (List.mem_range'_1.mp hi).2
    omega

/-- The loop of `for_each_entry` reads inside the data exactly if all names lie there. -/
theorem visitTraced_inside_iff (data : ByteMap) (size off : Nat) :
    (∀ i ∈ (visitTraced data size off).2, i < size) ↔
      ∀ o ∈ (dirCursor data size).trail off, NameInside data size o := by
  fun_induction visitTraced data size off with
  | case1 off hnext =>
      rw [Cursor.trail_of_none hnext]
      refine iff_of_true (fun i hi ↦ ?_) nofun
      split at hi
      · next hsize => exact headerBytes_lt hsize i hi
      · cases hi
  | case2 off after hnext entry visited reads hrest hlive ih =>
      rw [hrest] at ih
      obtain ⟨⟨hsize, _⟩, _⟩ := nextEntry_eq_some.mp hnext
      rw [Cursor.trail_of_some hnext, List.forall_mem_cons, List.forall_mem_append,
        List.forall_mem_append, nameBytes_lt_iff hsize, ← ih]
      refine and_congr_left fun _ ↦ (and_iff_right (headerBytes_lt hsize)).trans ?_
      exact ⟨fun hend _ ↦ hend, fun hinside ↦ hinside hlive⟩
  | case3 off after hnext entry visited reads hrest hlive ih =>
      rw [hrest] at ih
      obtain ⟨⟨hsize, _⟩, _⟩ := nextEntry_eq_some.mp hnext
      rw [Cursor.trail_of_some hnext, List.forall_mem_cons, List.forall_mem_append, ← ih]
      refine and_congr_left fun _ ↦ ?_
      exact iff_of_true (headerBytes_lt hsize) fun hused ↦ absurd hused hlive

/-- `find_in_dir_data` reads no byte that `for_each_entry` would not read. -/
theorem findTraced_subset (data : ByteMap) (size : Nat) (name : List UInt8) (off : Nat) :
    (findTraced data size name off).2 ⊆ (visitTraced data size off).2 := by
  fun_induction findTraced data size name off with
  | case1 off hnext =>
      rw [visitTraced_of_none hnext]
      exact List.Subset.refl _
  | case2 off after hnext entry hlive =>
      rw [visitTraced_of_some hnext, if_pos hlive.1]
      exact List.subset_append_left _ _
  | case3 off after hnext entry hlive hname ino reads hrest =>
      rename_i ih
      rw [visitTraced_of_some hnext, if_pos hlive.1]
      rw [hrest] at ih
      exact List.append_subset.mpr
        ⟨List.subset_append_left _ _, List.subset_append_of_subset_right _ ih⟩
  | case4 off after hnext entry hlive ino reads hrest =>
      rename_i ih
      rw [hrest] at ih
      rw [visitTraced_of_some hnext]
      split
      · exact List.append_subset.mpr
          ⟨List.subset_append_of_subset_left _ (List.subset_append_left _ _),
            List.subset_append_of_subset_right _ ih⟩
      · exact List.append_subset.mpr
          ⟨List.subset_append_left _ _, List.subset_append_of_subset_right _ ih⟩

end Scans

/-- Both scans of directory data end, after at most as many entries as there are bytes, and read
inside the data only. -/
structure ScansInside (data : ByteMap) (size : Nat) (name : List UInt8) : Prop where
  ends : (entryOffsets data size).length ≤ size
  find : ∀ i ∈ (findTraced data size name 0).2, i < size
  visit : ∀ i ∈ (visitTraced data size 0).2, i < size

/-- The scans stay inside the data of a directory exactly if the name of each entry in use, along
the chain of record lengths, ends inside the data. -/
theorem dir_scans_inside_iff (data : ByteMap) (size : Nat) (name : List UInt8) :
    ScansInside data size name ↔ ∀ off ∈ entryOffsets data size, NameInside data size off := by
  constructor
  · intro h
    exact (visitTraced_inside_iff data size 0).mp h.visit
  · intro h
    have hvisit := (visitTraced_inside_iff data size 0).mpr h
    refine ⟨(dirCursor data size).length_trail_le 0, fun i hi ↦ ?_, hvisit⟩
    exact hvisit i (findTraced_subset data size name 0 hi)

/-- Eight bytes of a directory: an entry with a name of 255 bytes. -/
def longName : ByteMap := fun i ↦ [1, 0, 0, 0, 8, 0, 255, 1].getD i 0

/-- `for_each_entry` reads the name behind the end of the data. -/
theorem dir_scan_outside : ¬ ScansInside longName 8 [] := by
  intro h
  have hnext : (dirCursor longName 8).next 0 = some 8 := by decide
  have hinside := (visitTraced_inside_iff longName 8 0).mp h.visit 0
  rw [Cursor.trail_of_some hnext] at hinside
  exact absurd (hinside List.mem_cons_self) (by decide)

end Avaria.Fs
