import Avaria.Fs.DirScan
import Avaria.Fs.Ext3
import Avaria.Fs.Path

/-!
# Lookup and listing

`find_in_dir_data` stops at the first entry with the name, `for_each_entry` passes every entry in
use to its visitor. `lookup_agrees_with_listing` says that the first of the calls with the name
tells what `find_in_dir_data` returns, for the data of a directory, for a directory and for a path.
-/

namespace Avaria.Fs

open Mem Mm

/-- The inode number of the first call of a visitor with the name; 0 if there is none. -/
def firstInode (name : List UInt8) (visited : List (List UInt8 × UInt32 × UInt8)) : UInt32 :=
  match visited.find? fun call ↦ call.1 = name with
  | some call => call.2.1
  | none => 0

/-- A name that can be a component of a path of its own. -/
structure Component where
  bytes : List UInt8
  ne_nil : bytes ≠ []
  ne_dot : bytes ≠ [0x2E]
  no_slash : 0x2F ∉ bytes

/-! ## Directory data -/

theorem length_entryName (data : ByteMap) (off : Nat) :
    (entryName data off).length = (DirEntry.decode data off).name_len.toNat := by
  rw [entryName, List.length_map, List.length_range]

theorem firstInode_cons (name : List UInt8) (call : List UInt8 × UInt32 × UInt8)
    (visited : List (List UInt8 × UInt32 × UInt8)) :
    firstInode name (call :: visited) =
      if call.1 = name then call.2.1 else firstInode name visited := by
  by_cases h : call.1 = name
  · rw [firstInode, List.find?_cons_of_pos (by simpa using h), if_pos h]
  · rw [firstInode, List.find?_cons_of_neg (by simpa using h), if_neg h, firstInode]

/-- The two scans agree from every offset on. -/
theorem findInDirData_eq_firstInode (data : ByteMap) (size : Nat) (name : List UInt8) (off : Nat) :
    findInDirData data size name off = firstInode name (visitEntries data size off) := by
  fun_induction findInDirData data size name off with
  | case1 off hsize entry hlen =>
      rw [visitEntries, if_pos hsize]
      dsimp only
      rw [if_pos hlen]
      rfl
  | case2 off hsize entry hlen hmatch =>
      rw [visitEntries, if_pos hsize]
      dsimp only
      rw [if_neg hlen, if_pos hmatch.1, firstInode_cons, if_pos hmatch.2.2]
  | case3 off hsize entry hlen hmatch ih =>
      rw [visitEntries, if_pos hsize]
      dsimp only
      rw [if_neg hlen]
      split
      · next hlive =>
          have hname : entryName data off ≠ name := fun heq ↦
            hmatch ⟨hlive, by rw [← heq, length_entryName], heq⟩
          rw [firstInode_cons, if_neg hname]
          exact ih
      · exact ih
  | case4 off hsize =>
      rw [visitEntries, if_neg hsize]
      rfl

/-- The visitor is called for entries in use only. -/
theorem inode_ne_zero_of_mem {data : ByteMap} {size off : Nat}
    {call : List UInt8 × UInt32 × UInt8} (h : call ∈ visitEntries data size off) :
    call.2.1 ≠ 0 := by
  fun_induction visitEntries data size off with
  | case1 off hsize entry hlen => cases h
  | case2 off hsize entry hlen hlive ih =>
      rcases List.mem_cons.mp h with rfl | hrest
      · exact hlive
      · exact ih hrest
  | case3 off hsize entry hlen hlive ih => exact ih h
  | case4 off hsize => cases h

/-- `find_in_dir_data` returns 0 exactly if no call has the name. -/
theorem findInDirData_eq_zero_iff (data : ByteMap) (size : Nat) (name : List UInt8) :
    findInDirData data size name 0 = 0 ↔ ∀ call ∈ visitEntries data size 0, call.1 ≠ name := by
  rw [findInDirData_eq_firstInode, firstInode]
  cases hfind : (visitEntries data size 0).find? fun call ↦ call.1 = name with
  | none =>
      refine iff_of_true rfl fun call hcall heq ↦ ?_
      exact List.find?_eq_none.mp hfind call hcall (decide_eq_true heq)
  | some call =>
      have hmem := List.mem_of_find?_eq_some hfind
      refine iff_of_false (inode_ne_zero_of_mem hmem) fun hnone ↦ hnone call hmem ?_
      have hname := List.find?_some hfind
      exact of_decide_eq_true hname

/-! ## Directories -/

section Directories

variable {σ : Type*} [PageSource σ] (disk : Disk)

/-- `lookup` returns what the calls of `for_each_entry` tell. -/
theorem lookup_eq_firstInode (sb : Ref Superblock) (dirInode : Ref Inode) (name : List UInt8)
    (io : Io σ) :
    (lookup disk sb dirInode name io).map Prod.fst =
      (forEachEntry disk sb dirInode io).map fun result ↦ firstInode name result.1 := by
  unfold lookup forEachEntry
  split
  · rfl
  · split
    · rfl
    · split
      · rfl
      · exact congrArg some (findInDirData_eq_firstInode ..)

/-- The directory that `list_dir` starts from is what the path resolves to. -/
theorem dirIno_eq (fs : Ext3) (path : List UInt8) (io : Io σ) :
    Ext3.dirIno disk fs path io = resolvePath disk fs.ptr ROOT_INO path io := by
  unfold Ext3.dirIno
  split
  · next hroot =>
      have hcomponents : pathComponents path = [] := by
        rcases hroot with rfl | rfl
        · exact pathComponents_nil
        · exact pathComponents_slash []
      rw [resolvePath_eq, hcomponents, resolveComponents]
  · rfl

theorem pathComponents_component (name : Component) : pathComponents name.bytes = [name.bytes] := by
  rw [pathComponents, List.splitOn_eq_singleton name.no_slash, List.filter_cons_of_pos]
  · rfl
  · simp [name.ne_nil, name.ne_dot]

/-- A component resolves to what the calls of `list_dir` for the path before it tell. -/
theorem resolvePath_eq_firstInode (fs : Ext3) (path : List UInt8) (name : Component) (io : Io σ) :
    (resolvePath disk fs.ptr ROOT_INO (path ++ 0x2F :: name.bytes) io).map Prod.fst =
      (Ext3.listDir disk fs path io).map fun result ↦ firstInode name.bytes result.1 := by
  rw [resolvePath_eq, pathComponents_append, resolveComponents_append, ← resolvePath_eq,
    ← dirIno_eq, pathComponents_component, Ext3.listDir]
  rcases Ext3.dirIno disk fs path io with _ | ⟨ino, afterPath⟩
  · rfl
  · dsimp only [Option.bind_some]
    by_cases hzero : ino = 0
    · rw [if_pos hzero, hzero, resolveComponents_zero]
      rfl
    · rw [if_neg hzero, resolveComponents, if_neg (not_or.mpr ⟨name.ne_nil, name.ne_dot⟩)]
      rcases readInode disk (afterPath.superblock fs.ptr) ino afterPath with
        _ | ⟨_ | inoPtr, afterInode⟩
      · rfl
      · rfl
      · have hagree := lookup_eq_firstInode disk (superblockAt fs.ptr) (inodeAt inoPtr)
          name.bytes afterInode
        dsimp only
        rcases hlookup : lookup disk (superblockAt fs.ptr) (inodeAt inoPtr) name.bytes
          afterInode with _ | ⟨found, afterLookup⟩
        · rw [hlookup] at hagree
          rw [Option.map_eq_none_iff.mp hagree.symm]
          rfl
        · rw [hlookup] at hagree
          obtain ⟨listed, hlisted, hfound⟩ := Option.map_eq_some_iff.mp hagree.symm
          rw [hlisted]
          show (if found = 0 then _ else _ : Option (UInt32 × Io σ)).map Prod.fst =
            some (firstInode name.bytes listed.1)
          rw [hfound]
          split
          · next hnone => exact congrArg some hnone.symm
          · rfl

/-- `find_in_dir_data` returns the inode number of the first entry with the name that
`for_each_entry` passes to its visitor, and 0 exactly if there is none. So does `lookup` in a
directory, and so does `resolve_path` for the name behind a path that `list_dir` is called for. -/
theorem lookup_agrees_with_listing (data : ByteMap) (size : Nat) (name : List UInt8) (fs : Ext3)
    (io : Io σ) :
    findInDirData data size name 0 = firstInode name (visitEntries data size 0) ∧
      (findInDirData data size name 0 = 0 ↔ ∀ call ∈ visitEntries data size 0, call.1 ≠ name) ∧
      (∀ sb dirInode, (lookup disk sb dirInode name io).map Prod.fst =
        (forEachEntry disk sb dirInode io).map fun result ↦ firstInode name result.1) ∧
      ∀ (path : List UInt8) (child : Component),
        (resolvePath disk fs.ptr ROOT_INO (path ++ 0x2F :: child.bytes) io).map Prod.fst =
          (Ext3.listDir disk fs path io).map fun result ↦ firstInode child.bytes result.1 :=
  ⟨findInDirData_eq_firstInode data size name 0, findInDirData_eq_zero_iff data size name,
    fun sb dirInode ↦ lookup_eq_firstInode disk sb dirInode name io,
    fun path child ↦ resolvePath_eq_firstInode disk fs path child io⟩

end Directories

end Avaria.Fs
