import Avaria.Fs.Dir

/-!
# Paths

What `resolve_path` makes of a path: it walks the components that are neither empty nor ".", and an
inode number 0 on the way is final. `resolvePath_eq` reduces `resolve_path` to its loop over these
components, and `resolve_path_composes` is the result for paths that are put together.

The second of two calls starts in the state that the first one left.
-/

namespace Avaria.Fs

open Mem Mm

/-- The components of a path that are not skipped. -/
def pathComponents (path : List UInt8) : List (List UInt8) :=
  (path.splitOn 0x2F).filter fun component ↦ ¬ (component = [] ∨ component = [0x2E])

/-! ## Components -/

/-- A slash ends a component. -/
theorem pathComponents_append (p q : List UInt8) :
    pathComponents (p ++ 0x2F :: q) = pathComponents p ++ pathComponents q := by
  rw [pathComponents, List.splitOn_append_cons_self, List.filter_append]
  rfl

@[simp] theorem pathComponents_nil : pathComponents [] = [] := rfl

@[simp] theorem pathComponents_dot : pathComponents [0x2E] = [] := by decide

/-- A leading slash adds no component. -/
theorem pathComponents_slash (p : List UInt8) : pathComponents (0x2F :: p) = pathComponents p :=
  pathComponents_append [] p

/-- Trimming the leading slashes keeps the components. -/
theorem pathComponents_dropWhile (path : List UInt8) :
    pathComponents (path.dropWhile (· = 0x2F)) = pathComponents path := by
  induction path with
  | nil => rfl
  | cons b rest ih =>
      rw [List.dropWhile_cons]
      by_cases hslash : b = 0x2F
      · rw [if_pos (decide_eq_true hslash), ih, hslash, pathComponents_slash]
      · rw [if_neg (by simpa using hslash)]

/-! ## The loop -/

section Loop

variable {σ : Type*} [PageSource σ] (disk : Disk) (sb : Nat)

/-- Skipped components change nothing. -/
theorem resolveComponents_filter (ino : UInt32) (components : List (List UInt8)) (io : Io σ) :
    resolveComponents disk sb ino
        (components.filter fun component ↦ ¬ (component = [] ∨ component = [0x2E])) io =
      resolveComponents disk sb ino components io := by
  induction components generalizing ino io with
  | nil => rfl
  | cons component rest ih =>
      by_cases hskip : component = [] ∨ component = [0x2E]
      · rw [List.filter_cons_of_neg (by simp [hskip]), ih, resolveComponents, if_pos hskip]
      · rw [List.filter_cons_of_pos (by simp [hskip]), resolveComponents, resolveComponents]
        simp only [ih]

/-- There is nothing below inode 0. -/
theorem resolveComponents_zero (components : List (List UInt8)) (io : Io σ) :
    resolveComponents disk sb 0 components io = some (0, io) := by
  induction components with
  | nil => rfl
  | cons component rest ih =>
      rw [resolveComponents]
      split
      · exact ih
      · rfl

/-- The components of a second path are walked from where the first one leads. -/
theorem resolveComponents_append (ino : UInt32) (first second : List (List UInt8)) (io : Io σ) :
    resolveComponents disk sb ino (first ++ second) io =
      (resolveComponents disk sb ino first io).bind fun reached ↦
        resolveComponents disk sb reached.1 second reached.2 := by
  induction first generalizing ino io with
  | nil => rfl
  | cons component rest ih =>
      rw [List.cons_append, resolveComponents, resolveComponents]
      by_cases hskip : component = [] ∨ component = [0x2E]
      · rw [if_pos hskip, if_pos hskip, ih]
      · rw [if_neg hskip, if_neg hskip]
        rcases readInode disk (io.superblock sb) ino io with _ | ⟨_ | inoPtr, afterInode⟩
        · rfl
        · exact (resolveComponents_zero disk sb second afterInode).symm
        · dsimp only
          rcases lookup disk (superblockAt sb) (inodeAt inoPtr) component afterInode with
            _ | ⟨found, afterLookup⟩
          · rfl
          · dsimp only
            by_cases hfound : found = 0
            · rw [if_pos hfound, if_pos hfound]
              exact (resolveComponents_zero disk sb second _).symm
            · rw [if_neg hfound, if_neg hfound, ih]

/-- `resolve_path` walks the components that are not skipped. -/
theorem resolvePath_eq (start : UInt32) (path : List UInt8) (io : Io σ) :
    resolvePath disk sb start path io =
      resolveComponents disk sb start (pathComponents path) io := by
  rw [← pathComponents_dropWhile, resolvePath]
  split
  · next hempty =>
      rw [hempty]
      rfl
  · exact (resolveComponents_filter disk sb start _ io).symm

/-- `resolve_path` of two paths put together is `resolve_path` of the second one from where the
first one leads, also where that is inode 0; and it depends on the components of a path only, which
further slashes and "." components leave alone. -/
theorem resolve_path_composes (start : UInt32) (p q : List UInt8) (io : Io σ) :
    resolvePath disk sb start (p ++ 0x2F :: q) io =
        ((resolvePath disk sb start p io).bind fun reached ↦
          resolvePath disk sb reached.1 q reached.2) ∧
      (pathComponents p = pathComponents q →
        resolvePath disk sb start p io = resolvePath disk sb start q io) ∧
      (∀ path ∈ [0x2F :: p, p ++ [0x2F], [0x2E, 0x2F] ++ p, p ++ [0x2F, 0x2E]],
        resolvePath disk sb start path io = resolvePath disk sb start p io) ∧
      ∀ path ∈ [p ++ 0x2F :: 0x2F :: q, p ++ 0x2F :: 0x2E :: 0x2F :: q],
        resolvePath disk sb start path io =
          resolvePath disk sb start (p ++ 0x2F :: q) io := by
  have hcomponents {first second : List UInt8} (h : pathComponents first = pathComponents second) :
      resolvePath disk sb start first io = resolvePath disk sb start second io := by
    rw [resolvePath_eq, resolvePath_eq, h]
  refine ⟨?_, hcomponents, fun path hpath ↦ hcomponents ?_, fun path hpath ↦ hcomponents ?_⟩
  · rw [resolvePath_eq, pathComponents_append, resolveComponents_append, resolvePath_eq]
    simp only [resolvePath_eq]
  · have hdot : pathComponents ([0x2E, 0x2F] ++ p) = pathComponents p :=
      pathComponents_append [0x2E] p
    simp only [List.mem_cons, List.not_mem_nil, or_false] at hpath
    rcases hpath with rfl | rfl | rfl | rfl
    · exact pathComponents_slash p
    · rw [pathComponents_append, pathComponents_nil, List.append_nil]
    · exact hdot
    · rw [pathComponents_append, pathComponents_dot, List.append_nil]
  · have hdot : pathComponents (0x2E :: 0x2F :: q) = pathComponents q :=
      pathComponents_append [0x2E] q
    simp only [List.mem_cons, List.not_mem_nil, or_false] at hpath
    rcases hpath with rfl | rfl
    · rw [pathComponents_append, pathComponents_slash, pathComponents_append]
    · rw [pathComponents_append, hdot, pathComponents_append]

end Loop

end Avaria.Fs
