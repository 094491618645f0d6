import Avaria.Fs.Archive

/-!
# Listing and lookup in the initial file system

`for_each_matching` passes on every file that matches; `read` and `exists` look for the first entry
of a name. Both compare names without trailing slashes, and only the lookup drops leading slashes,
from the path it is given.

`listing_agrees_iff` says for which file systems what is listed can be looked up, and
`Archive.files_agree` that those of well-formed archives are among them.
-/

namespace Avaria.Fs

/-- The name under which an entry is listed and found. -/
def TarEntry.path (entry : TarEntry) : List UInt8 := trimEndSlash entry.name

namespace TarFs

/-- Whatever `for_each_matching` passes on exists and is read as it was passed on. -/
def Agrees (fs : TarFs) : Prop :=
  ∀ namePrefix nameSuffix, ∀ listed ∈ fs.forEachMatching namePrefix nameSuffix,
    fs.pathExists listed.1 = true ∧ fs.read listed.1 = some listed.2

/-- The entry has the name, and none before it has. -/
def First (fs : TarFs) (name : List UInt8) (entry : TarEntry) : Prop :=
  ∃ before after, fs.entries = before ++ entry :: after ∧ entry.path = name ∧
    ∀ earlier ∈ before, earlier.path ≠ name

variable {fs : TarFs} {name : List UInt8} {entry : TarEntry}

/-- `find` returns the first entry of the name. -/
theorem find_eq_some_iff {p : List UInt8} :
    fs.find p = some entry ↔ fs.First (trimStartSlash p) entry := by
  rw [find, List.find?_eq_some_iff_append]
  constructor
  · intro h
    obtain ⟨hname, before, after, hsplit, hbefore⟩ := h
    refine ⟨before, after, hsplit, of_decide_eq_true hname, ?_⟩
    intro earlier hearlier
    simpa [TarEntry.path] using hbefore earlier hearlier
  · intro h
    obtain ⟨before, after, hsplit, hname, hbefore⟩ := h
    refine ⟨decide_eq_true hname, before, after, hsplit, ?_⟩
    intro earlier hearlier
    simpa [TarEntry.path] using hbefore earlier hearlier

theorem read_eq_some_iff {p data : List UInt8} :
    fs.read p = some data ↔
      ∃ entry, fs.First (trimStartSlash p) entry ∧ entry.is_dir = false ∧ entry.data = data := by
  simp only [← find_eq_some_iff]
  rw [read]
  cases fs.find p with
  | none => simp
  | some found => cases hdir : found.is_dir <;> simp [hdir]

/-- What can be read exists. -/
theorem pathExists_of_read {p data : List UInt8} (h : fs.read p = some data) :
    fs.pathExists p = true := by
  rw [pathExists]
  rw [read] at h
  cases hfind : fs.find p with
  | none =>
      rw [hfind] at h
      cases h
  | some found => rfl

/-- The files whose names match are passed on, each with its name and its data. -/
theorem mem_forEachMatching {namePrefix nameSuffix : List UInt8}
    {listed : List UInt8 × List UInt8} :
    listed ∈ fs.forEachMatching namePrefix nameSuffix ↔
      ∃ entry ∈ fs.entries, entry.is_dir = false ∧
        (trimStartSlash namePrefix <+: entry.path ∧ nameSuffix <:+ entry.path) ∧
        (entry.path, entry.data) = listed := by
  rw [forEachMatching]
  dsimp only
  rw [List.mem_filterMap]
  refine exists_congr fun entry ↦ and_congr_right fun _ ↦ ?_
  rw [← List.isPrefixOf_iff_prefix, ← List.isSuffixOf_iff_suffix, ← Bool.and_eq_true]
  cases entry.is_dir with
  | false => simp [TarEntry.path]
  | true => simp

/-- When the first entry of each file's name is a file with its data, what is listed can be looked
up. -/
theorem agrees_of_first
    (h : ∀ entry ∈ fs.entries, entry.is_dir = false →
      ∃ first, fs.First (trimStartSlash entry.path) first ∧ first.is_dir = false ∧
        first.data = entry.data) :
    fs.Agrees := by
  intro namePrefix nameSuffix listed hlisted
  obtain ⟨entry, hentry, hfile, -, rfl⟩ := mem_forEachMatching.mp hlisted
  have hread : fs.read entry.path = some entry.data := read_eq_some_iff.mpr (h entry hentry hfile)
  exact ⟨pathExists_of_read hread, hread⟩

/-- An entry is the first of its name when no other has the name. -/
theorem first_of_nodup (h : (fs.entries.map TarEntry.path).Nodup) (hentry : entry ∈ fs.entries) :
    fs.First entry.path entry := by
  obtain ⟨before, after, hsplit⟩ := List.append_of_mem hentry
  refine ⟨before, after, hsplit, rfl, ?_⟩
  intro earlier hearlier heq
  rw [hsplit, List.map_append, List.map_cons] at h
  have hdisjoint := (List.nodup_append.mp h).2.2
  exact hdisjoint _ (List.mem_map_of_mem hearlier) _ List.mem_cons_self heq

end TarFs

/-- The file system of an archive lists what can be looked up: its paths are different, and none
starts with a slash. -/
theorem Archive.files_agree (archive : Archive) : archive.files.Agrees := by
  refine TarFs.agrees_of_first fun entry hentry hfile ↦ ⟨entry, ?_, hfile, rfl⟩
  obtain ⟨m, hm, rfl⟩ := List.mem_map.mp hentry
  have hpath : trimStartSlash m.entry.path = m.entry.path := m.trimStartSlash_path 0
  rw [hpath]
  refine TarFs.first_of_nodup ?_ hentry
  rw [Archive.files, List.map_map]
  exact archive.distinct

/-- What is listed can be looked up, with the same data, exactly if for every file the first entry
that has the file's name, less leading slashes, is a file with the same data. -/
theorem listing_agrees_iff (fs : TarFs) :
    fs.Agrees ↔ ∀ entry ∈ fs.entries, entry.is_dir = false →
      ∃ first, fs.First (trimStartSlash entry.path) first ∧ first.is_dir = false ∧
        first.data = entry.data := by
  constructor
  · intro h entry hentry hfile
    have hlisted : (entry.path, entry.data) ∈ fs.forEachMatching [] [] :=
      TarFs.mem_forEachMatching.mpr
        ⟨entry, hentry, hfile, ⟨List.nil_prefix, List.nil_suffix⟩, rfl⟩
    exact TarFs.read_eq_some_iff.mp (h [] [] _ hlisted).2
  · exact TarFs.agrees_of_first

/-- An archive with an empty file "/x". -/
def absoluteArchive : List UInt8 := header [0x2F, 0x78] 0 0x30 blankRest

/-- The file is listed as "/x", and there is no "x" to be found. -/
theorem absolute_not_found :
    ∃ fs, TarFs.parse absoluteArchive = some (some fs) ∧ ¬ fs.Agrees := by
  refine ⟨⟨[⟨[0x2F, 0x78], [], false⟩]⟩, ?_, ?_⟩
  · have hdrop : absoluteArchive.drop 0 = header [0x2F, 0x78] 0 0x30 blankRest ++ [] :=
      (List.append_nil _).symm
    have hlength : absoluteArchive.length = 512 := length_header (by decide)
    rw [TarFs.parse, parseFrom_header hdrop (by decide) (by decide) (by decide) (by decide +kernel)
      (by decide) (by decide), if_neg (by decide)]
    -- nothing follows the header
    show TarFs.parseFrom absoluteArchive 512 _ = _
    rw [TarFs.parseFrom, hlength, if_neg fun hguard ↦ absurd hguard.1 (by decide)]
    rfl
  · intro h
    have hfound := (h [] [] ([0x2F, 0x78], []) (by decide)).1
    exact absurd hfound (by decide)

end Avaria.Fs
