import Avaria.Fs.Initrd
import Mathlib.Algebra.Group.Nat.Defs
import Mathlib.Data.List.Infix
import Mathlib.Data.List.Nodup

/-!
# Archives

Tar archives as files and directories, with their encoding, and what `TarFs` makes of an encoded
archive. The header fields that `parse` does not read are arbitrary.

`parseFrom_member` is one step of the loop of `parse` over an encoded member, `parseFrom_members`
the loop, and `initrd_round_trip` the result: the queries of the parsed archive answer from its
members.
-/

namespace Avaria.Fs

/-! ## Encoding -/

/-- The digits of a number in base 8, of the given width. -/
def octal : Nat → Nat → List UInt8
  | 0, _ => []
  | width + 1, value => octal width (value / 8) ++ [UInt8.ofNat (0x30 + value % 8)]

/-- The fields of a header that `parse` does not read: the mode and the owner, the time and the
checksum, and what follows the type. -/
structure HeaderRest where
  owner : List UInt8
  stamp : List UInt8
  tail : List UInt8
  owner_length : owner.length = 24
  stamp_length : stamp.length = 20
  tail_length : tail.length = 355

/-- The name, padded with zeros. -/
def nameField (name : List UInt8) : List UInt8 := name ++ List.replicate (100 - name.length) 0

/-- A header: the name, the size and the type between the other fields. -/
def header (name : List UInt8) (size : Nat) (typeflag : UInt8) (rest : HeaderRest) : List UInt8 :=
  nameField name ++ rest.owner ++ (octal 11 size ++ [0]) ++ rest.stamp ++ [typeflag] ++ rest.tail

/-- A member of an archive: a file with its content, or a directory. -/
structure Member where
  name : List UInt8
  content : Option (List UInt8)
  typeflag : UInt8
  rest : HeaderRest
  utf8 : isUtf8 name = true
  nul_free : 0 ∉ name
  length_le : name.length ≤ 100
  stripped_ne_nil : trimStartDotSlash name ≠ []
  stripped_head : (trimStartDotSlash name).head? ≠ some 0x2F
  typeflag_iff : typeflag = 0x35 ↔ content = none
  file_name : content ≠ none → name.getLast? ≠ some 0x2F
  file_size : ∀ data, content = some data → data.length < 8 ^ 11

namespace Member

/-- The content of a file; a directory has none. -/
def data (m : Member) : List UInt8 := m.content.getD []

/-- The path: the name without leading "./" and trailing '/'. -/
def path (m : Member) : List UInt8 := trimEndSlash (trimStartDotSlash m.name)

/-- A header, and the data padded to whole blocks. -/
def encode (m : Member) : List UInt8 :=
  header m.name m.data.length m.typeflag m.rest ++
    (m.data ++ List.replicate (blockBytes m.data.length - m.data.length) 0)

/-- The entry that `parse` makes of a member. -/
def entry (m : Member) : TarEntry :=
  ⟨trimStartDotSlash m.name, m.data, decide (m.content = none)⟩

end Member

/-- An archive: an entry for the root, if there is one, at most 64 members with different paths, and
zeros. -/
structure Archive where
  root : Option (UInt8 × HeaderRest)
  members : List Member
  trailer : Nat
  length_le : members.length ≤ MAX_ENTRIES
  distinct : (members.map Member.path).Nodup

namespace Archive

/-- The header of the root, which has no data. -/
def encodeRoot : Option (UInt8 × HeaderRest) → List UInt8
  | none => []
  | some (typeflag, rest) => header [0x2E, 0x2F] 0 typeflag rest

/-- The bytes of an archive. -/
def encode (archive : Archive) : List UInt8 :=
  encodeRoot archive.root ++ (archive.members.flatMap Member.encode ++
    List.replicate archive.trailer 0)

end Archive

/-! ## Octal numbers -/

theorem length_octal (width value : Nat) : (octal width value).length = width := by
  induction width generalizing value with
  | zero => rfl
  | succ width ih => simp [octal, ih]

/-- A digit is neither the end of a number nor changed by wrapping. -/
theorem octal_digit : ∀ digit < 8,
    (UInt8.ofNat (0x30 + digit) - 0x30).toNat = digit ∧
      ¬ (UInt8.ofNat (0x30 + digit) = 0 ∨ UInt8.ofNat (0x30 + digit) = 0x20) := by
  decide

/-- `parse_octal` reads the digits. -/
theorem parseOctalFrom_octal (width value val : Nat) (rest : List UInt8) :
    parseOctalFrom val (octal width value ++ rest) =
      parseOctalFrom (val * 8 ^ width + value % 8 ^ width) rest := by
  induction width generalizing value rest with
  | zero => simp [octal, Nat.mod_one]
  | succ width ih =>
      obtain ⟨hdigit, hne⟩ := octal_digit (value % 8) (Nat.mod_lt value (by decide))
      have hsplit : value % 8 ^ (width + 1) = value / 8 % 8 ^ width * 8 + value % 8 := by
        rw [Nat.pow_succ, Nat.mul_comm (8 ^ width), Nat.mod_mul]
        omega
      rw [octal, List.append_assoc, ih, List.singleton_append, parseOctalFrom, if_neg hne, hdigit,
        hsplit, Nat.pow_succ, Nat.add_mul, Nat.mul_assoc, Nat.add_assoc]

/-- The size field of a header holds a number of 11 digits. -/
theorem parseOctal_size {size : Nat} (h : size < 8 ^ 11) :
    parseOctal (octal 11 size ++ [0]) = size := by
  rw [parseOctal, parseOctalFrom_octal, Nat.mod_eq_of_lt h, Nat.zero_mul, Nat.zero_add]
  rfl

/-! ## Headers -/

section Header

variable {name : List UInt8} {size : Nat} {typeflag : UInt8} {rest : HeaderRest}

theorem length_nameField (hname : name.length ≤ 100) : (nameField name).length = 100 := by
  rw [nameField, List.length_append, List.length_replicate]
  omega

theorem length_header (hname : name.length ≤ 100) :
    (header name size typeflag rest).length = 512 := by
  simp only [header, List.length_append, length_nameField hname, length_octal, rest.owner_length,
    rest.stamp_length, rest.tail_length, List.length_cons, List.length_nil]

/-- The name ends at the first 0, or fills its field. -/
theorem nameEnd_eq (hname : name.length ≤ 100) (hnul : 0 ∉ name) :
    ((nameField name).findIdx? (· = 0)).getD 100 = name.length := by
  have hnone : name.findIdx? (· = 0) = none := by
    refine List.findIdx?_eq_none_iff.mpr fun b hb ↦ ?_
    exact decide_eq_false fun hzero ↦ hnul (hzero ▸ hb)
  rw [nameField, List.findIdx?_append, hnone, List.findIdx?_replicate]
  by_cases hfull : name.length = 100
  · simp [hfull]
  · rw [if_pos ⟨by omega, rfl⟩]
    exact Nat.zero_add _

theorem headerName_header (hname : name.length ≤ 100) (hnul : 0 ∉ name) :
    headerName (header name size typeflag rest) = name := by
  have htake : (header name size typeflag rest).take 100 = nameField name := by
    simp only [header, List.append_assoc]
    exact List.take_left' (length_nameField hname)
  rw [headerName, htake, nameEnd_eq hname hnul, header, nameField]
  simp only [List.append_assoc]
  exact List.take_left

theorem headerSize_header (hname : name.length ≤ 100) (hsize : size < 8 ^ 11) :
    headerSize (header name size typeflag rest) = size := by
  have hdrop : (header name size typeflag rest).drop 124 =
      (octal 11 size ++ [0]) ++ (rest.stamp ++ [typeflag] ++ rest.tail) := by
    have hlength : (nameField name ++ rest.owner).length = 124 := by
      rw [List.length_append, length_nameField hname, rest.owner_length]
    rw [header, List.append_assoc, List.append_assoc, List.append_assoc (nameField name ++ _),
      ← List.append_assoc rest.stamp]
    exact List.drop_left' hlength
  have hlength : (octal 11 size ++ [0]).length = 12 := by
    rw [List.length_append, length_octal]
    rfl
  rw [headerSize, hdrop, List.take_left' hlength, parseOctal_size hsize]

theorem typeflag_header (hname : name.length ≤ 100) :
    (header name size typeflag rest).getD 156 0 = typeflag := by
  have hlength : (nameField name ++ rest.owner ++ (octal 11 size ++ [0]) ++ rest.stamp).length =
      156 := by
    simp only [List.length_append, length_nameField hname, length_octal, rest.owner_length,
      rest.stamp_length, List.length_cons, List.length_nil]
  rw [header, List.append_assoc, List.getD_eq_getElem?_getD,
    List.getElem?_append_right hlength.le, hlength]
  rfl

/-! ## The loop of parse -/

variable {archive data more : List UInt8} {offset : Nat} {entries : List TarEntry}

theorem getD_eq_head (archive : List UInt8) (offset : Nat) :
    archive.getD offset 0 = (archive.drop offset).getD 0 0 := by
  rw [List.getD_eq_getElem?_getD, List.getD_eq_getElem?_getD, List.getElem?_drop, Nat.add_zero]

theorem drop_add_of_append (h : archive.drop offset = data ++ more) :
    archive.drop (offset + data.length) = more := by
  rw [← List.drop_drop, h, List.drop_left]

/-- What an iteration does at a header, with the data that follows it. -/
theorem parseFrom_header (h : archive.drop offset = header name size typeflag rest ++ more)
    (hname : name.length ≤ 100) (hne : name ≠ []) (hnul : 0 ∉ name) (hutf8 : isUtf8 name = true)
    (hsize : size < 8 ^ 11) (hentries : entries.length < MAX_ENTRIES) :
    TarFs.parseFrom archive offset entries =
      if trimStartDotSlash name = [] then
        TarFs.parseFrom archive (offset + (512 + blockBytes size)) entries
      else
        let isDir := decide (typeflag = 0x35) ||
          decide ((trimStartDotSlash name).getLast? = some 0x2F)
        let size := if isDir then 0 else size
        if isDir = false ∧ more.length < size then none
        else
          TarFs.parseFrom archive (offset + 512 + blockBytes size)
            (entries ++
              [⟨trimStartDotSlash name, if isDir then [] else more.take size, isDir⟩]) := by
  have hlength : (header name size typeflag rest).length = 512 := length_header hname
  have htotal : archive.length - offset = 512 + more.length := by
    rw [← List.length_drop, h, List.length_append, hlength]
  have hfirst : archive.getD offset 0 ≠ 0 := by
    rw [getD_eq_head, h]
    cases name with
    | nil => exact absurd rfl hne
    | cons b tail =>
        show b ≠ 0
        exact fun hzero ↦ hnul (hzero ▸ List.mem_cons_self)
  have hheader : (archive.drop offset).take 512 = header name size typeflag rest := by
    rw [h]
    exact List.take_left' hlength
  have hmore : archive.drop (offset + 512) = more := by
    have hdrop := drop_add_of_append h
    rwa [hlength] at hdrop
  rw [TarFs.parseFrom, if_pos ⟨by omega, hentries⟩, if_neg hfirst]
  simp only [hheader, headerName_header hname hnul, headerSize_header hname hsize,
    typeflag_header hname, hmore]
  have harchive : archive.length = offset + 512 + more.length := by omega
  rw [hutf8, if_neg (by decide), harchive]
  simp only [Nat.add_lt_add_iff_left]

end Header

theorem le_blockBytes (size : Nat) : size ≤ blockBytes size := by
  show size ≤ (size + 511) / 512 * 512
  omega

/-- Trimming takes a name away at its start only. -/
theorem trimStartDotSlash_suffix (name : List UInt8) : trimStartDotSlash name <:+ name := by
  fun_induction trimStartDotSlash name with
  | case1 dot slash rest hmatch ih =>
      exact ih.trans ((List.suffix_cons slash rest).trans (List.suffix_cons dot _))
  | case2 dot slash rest hmatch => exact List.suffix_rfl
  | case3 name hshort => exact List.suffix_rfl

namespace Member

theorem name_ne_nil (m : Member) : m.name ≠ [] := by
  intro hnil
  have hstripped := m.stripped_ne_nil
  rw [hnil] at hstripped
  exact hstripped rfl

theorem data_of_content {m : Member} {data : List UInt8} (h : m.content = some data) :
    m.data = data := by
  rw [Member.data, h]
  rfl

/-- The type and the name say whether a member is a directory. -/
theorem isDir_eq (m : Member) :
    (decide (m.typeflag = 0x35) ||
      decide ((trimStartDotSlash m.name).getLast? = some 0x2F)) = decide (m.content = none) := by
  by_cases hdir : m.content = none
  · rw [decide_eq_true (m.typeflag_iff.mpr hdir), decide_eq_true hdir]
    rfl
  · have hlast : (trimStartDotSlash m.name).getLast? ≠ some 0x2F := by
      obtain ⟨start, hstart⟩ := trimStartDotSlash_suffix m.name
      intro heq
      refine m.file_name hdir ?_
      rw [← hstart, List.getLast?_append, heq]
      rfl
    rw [decide_eq_false fun h ↦ hdir (m.typeflag_iff.mp h), decide_eq_false hlast,
      decide_eq_false hdir]
    rfl

theorem data_length_lt (m : Member) : m.data.length < 8 ^ 11 := by
  cases hcontent : m.content with
  | none =>
      rw [Member.data, hcontent]
      decide
  | some data =>
      rw [data_of_content hcontent]
      exact m.file_size data hcontent

theorem length_encode (m : Member) : m.encode.length = 512 + blockBytes m.data.length := by
  have hle := le_blockBytes m.data.length
  rw [encode, List.length_append, List.length_append, length_header m.length_le,
    List.length_replicate]
  omega

end Member

variable {archive more : List UInt8} {offset : Nat} {entries : List TarEntry}

/-- An iteration at a member enters it. -/
theorem parseFrom_member {m : Member} (h : archive.drop offset = m.encode ++ more)
    (hentries : entries.length < MAX_ENTRIES) :
    TarFs.parseFrom archive offset entries =
      TarFs.parseFrom archive (offset + m.encode.length) (entries ++ [m.entry]) := by
  rw [Member.encode, List.append_assoc] at h
  rw [parseFrom_header h m.length_le m.name_ne_nil m.nul_free m.utf8 m.data_length_lt hentries,
    if_neg m.stripped_ne_nil, m.isDir_eq, m.length_encode, Member.entry]
  dsimp only
  by_cases hdir : m.content = none
  · -- no data follows the header of a directory
    have hdata : m.data = [] := by
      rw [Member.data, hdir]
      rfl
    rw [decide_eq_true hdir, hdata, if_neg fun hpanic ↦ Bool.noConfusion hpanic.1]
    rfl
  · -- the data of a file lies in the archive, so its slice does not panic
    have hlength : m.data.length ≤ (m.data ++ List.replicate (blockBytes m.data.length -
        m.data.length) 0 ++ more).length := by
      rw [List.length_append, List.length_append]
      omega
    simp only [decide_eq_false hdir, Bool.false_eq_true, if_false, true_and]
    rw [if_neg (not_lt.mpr hlength), List.append_assoc m.data, List.take_left, Nat.add_assoc]

/-- The loop at the members enters all of them. -/
theorem parseFrom_members {members : List Member} {trailer : Nat}
    (h : archive.drop offset = members.flatMap Member.encode ++ List.replicate trailer 0)
    (hlength : entries.length + members.length ≤ MAX_ENTRIES) :
    TarFs.parseFrom archive offset entries = some (some ⟨entries ++ members.map Member.entry⟩) := by
  induction members generalizing offset entries with
  | nil =>
      have hzero : archive.getD offset 0 = 0 := by
        rw [getD_eq_head, h]
        cases trailer with
        | zero => rfl
        | succ trailer => rfl
      rw [TarFs.parseFrom, if_pos hzero, ite_self, List.map_nil, List.append_nil]
  | cons m members ih =>
      rw [List.flatMap_cons, List.append_assoc] at h
      rw [List.length_cons] at hlength
      rw [parseFrom_member h (by omega), ih (drop_add_of_append h) (by simp; omega),
        List.append_assoc]
      rfl

/-- `parse` enters the members of an archive and skips its root. -/
theorem parse_encode (archive : Archive) :
    TarFs.parse archive.encode = some (some ⟨archive.members.map Member.entry⟩) := by
  have hlength : ([] : List TarEntry).length + archive.members.length ≤ MAX_ENTRIES := by
    rw [List.length_nil, Nat.zero_add]
    exact archive.length_le
  unfold TarFs.parse Archive.encode
  cases archive.root with
  | none => exact parseFrom_members rfl hlength
  | some root =>
      obtain ⟨typeflag, rest⟩ := root
      -- The name of the root is empty once "./" is stripped, so its header is skipped.
      have hroot : List.drop 0 (header [0x2E, 0x2F] 0 typeflag rest ++
          (archive.members.flatMap Member.encode ++ List.replicate archive.trailer 0)) =
          header [0x2E, 0x2F] 0 typeflag rest ++ _ := rfl
      have hdrop := drop_add_of_append hroot
      rw [length_header (by decide)] at hdrop
      show TarFs.parseFrom (header [0x2E, 0x2F] 0 typeflag rest ++ _) 0 [] = _
      rw [parseFrom_header hroot (by decide) (by decide) (by decide) (by decide +kernel) (by decide)
        (by decide), if_pos (by decide)]
      exact parseFrom_members hdrop hlength

/-! ## Queries -/

namespace Member

/-- No path starts with a slash. -/
theorem trimStartSlash_path (m : Member) (n : Nat) :
    trimStartSlash (List.replicate n 0x2F ++ m.path) = m.path := by
  induction n with
  | zero =>
      -- The path is a prefix of the stripped name, which starts with something else.
      show m.path.dropWhile (· = 0x2F) = m.path
      refine List.dropWhile_eq_self_iff.mpr fun hpos hslash ↦ m.stripped_head ?_
      obtain ⟨tail, htail⟩ := List.rdropWhile_prefix (· = 0x2F) (trimStartDotSlash m.name)
      have hhead : m.path.head? = some 0x2F := by
        rw [List.head?_eq_getElem?, List.getElem?_eq_getElem hpos]
        exact congrArg some (of_decide_eq_true hslash)
      rw [← htail, List.head?_append]
      exact congrArg (Option.or · _) hhead
  | succ n ih => exact ih

end Member

namespace Archive

variable {archive : Archive}

/-- The members of the archive as a file system. -/
def files (archive : Archive) : TarFs := ⟨archive.members.map Member.entry⟩

theorem find_files (p : List UInt8) :
    archive.files.find p =
      (archive.members.find? fun m ↦ m.path = trimStartSlash p).map Member.entry := by
  exact List.find?_map

/-- The path of a member finds that member. -/
theorem find_path {m : Member} (hm : m ∈ archive.members) :
    archive.members.find? (fun other ↦ other.path = m.path) = some m := by
  cases hfind : archive.members.find? (fun other ↦ other.path = m.path) with
  | none => exact absurd (decide_eq_true rfl) (List.find?_eq_none.mp hfind m hm)
  | some found =>
      have hfound := List.find?_some hfind
      have hpath : found.path = m.path := of_decide_eq_true hfound
      have hmem : found ∈ archive.members := List.mem_of_find?_eq_some hfind
      rw [List.inj_on_of_nodup_map archive.distinct hmem hm hpath]

theorem read_member {m : Member} (hm : m ∈ archive.members) {p : List UInt8}
    (hp : trimStartSlash p = m.path) : archive.files.read p = m.content := by
  rw [TarFs.read, find_files, hp, find_path hm]
  show (if decide (m.content = none) = true then none else some m.data) = m.content
  cases hcontent : m.content with
  | none => rfl
  | some data => exact congrArg some (Member.data_of_content hcontent)

theorem read_absent {p : List UInt8} (h : ∀ m ∈ archive.members, m.path ≠ trimStartSlash p) :
    archive.files.read p = none := by
  have hnone : archive.members.find? (fun m ↦ m.path = trimStartSlash p) = none :=
    List.find?_eq_none.mpr fun m hm hpath ↦ h m hm (of_decide_eq_true hpath)
  rw [TarFs.read, find_files, hnone]
  rfl

theorem pathExists_iff {p : List UInt8} :
    archive.files.pathExists p = true ↔ ∃ m ∈ archive.members, m.path = trimStartSlash p := by
  rw [TarFs.pathExists, find_files, Option.isSome_map, List.find?_isSome]
  simp only [decide_eq_true_eq]

/-- The calls are those for the files with matching paths. -/
theorem forEachMatching_files (namePrefix nameSuffix : List UInt8) :
    archive.files.forEachMatching namePrefix nameSuffix =
      archive.members.filterMap fun m ↦ m.content.bind fun data ↦
        if trimStartSlash namePrefix <+: m.path ∧ nameSuffix <:+ m.path then some (m.path, data)
        else none := by
  rw [TarFs.forEachMatching, files, List.filterMap_map]
  refine congrArg (List.filterMap · archive.members) (funext fun m ↦ ?_)
  show (if decide (m.content = none) = true then none
    else if (trimStartSlash namePrefix).isPrefixOf m.path && nameSuffix.isSuffixOf m.path then
      some (m.path, m.data) else none) = _
  cases hcontent : m.content with
  | none => rfl
  | some data =>
      rw [Member.data_of_content hcontent, if_neg (by simp)]
      simp only [Bool.and_eq_true, List.isPrefixOf_iff_prefix, List.isSuffixOf_iff_suffix]
      rfl

end Archive

/-- The queries of a parsed archive answer from its members: files have their contents, directories
and absent paths none, and the visitor is called for the matching files in order. -/
theorem initrd_round_trip (archive : Archive) :
    ∃ fs, TarFs.parse archive.encode = some (some fs) ∧
      (∀ m ∈ archive.members, ∀ n, fs.read (List.replicate n 0x2F ++ m.path) = m.content) ∧
      (∀ p, (∀ m ∈ archive.members, m.path ≠ trimStartSlash p) → fs.read p = none) ∧
      (∀ p, fs.pathExists p = true ↔ ∃ m ∈ archive.members, m.path = trimStartSlash p) ∧
      ∀ namePrefix nameSuffix, fs.forEachMatching namePrefix nameSuffix =
        archive.members.filterMap fun m ↦ m.content.bind fun data ↦
          if trimStartSlash namePrefix <+: m.path ∧ nameSuffix <:+ m.path then some (m.path, data)
          else none :=
  ⟨archive.files, parse_encode archive,
    fun m hm n ↦ Archive.read_member hm (m.trimStartSlash_path n),
    fun _ ↦ Archive.read_absent, fun _ ↦ Archive.pathExists_iff, Archive.forEachMatching_files⟩

/-- Header fields of zeros. -/
def blankRest : HeaderRest where
  owner := List.replicate 24 0
  stamp := List.replicate 20 0
  tail := List.replicate 355 0
  owner_length := List.length_replicate
  stamp_length := List.length_replicate
  tail_length := List.length_replicate

/-- The directory "./etc/". -/
def sampleDirectory : Member where
  name := [0x2E, 0x2F, 0x65, 0x74, 0x63, 0x2F]
  content := none
  typeflag := 0x35
  rest := blankRest
  utf8 := by decide +kernel
  nul_free := by decide
  length_le := by decide
  stripped_ne_nil := by decide
  stripped_head := by decide
  typeflag_iff := by decide
  file_name := nofun
  file_size := nofun

/-- The file "./etc/fs" with the content "ok". -/
def sampleFile : Member where
  name := [0x2E, 0x2F, 0x65, 0x74, 0x63, 0x2F, 0x66, 0x73]
  content := some [0x6F, 0x6B]
  typeflag := 0x30
  rest := blankRest
  utf8 := by decide +kernel
  nul_free := by decide
  length_le := by decide
  stripped_ne_nil := by decide
  stripped_head := by decide
  typeflag_iff := by decide
  file_name := by decide
  file_size := by
    intro data hdata
    cases hdata
    decide +kernel

/-- An archive with a root, a directory and a file. -/
def sampleArchive : Archive where
  root := some (0x35, blankRest)
  members := [sampleDirectory, sampleFile]
  trailer := 1024
  length_le := by decide
  distinct := by decide +kernel

/-- The file is found as "//etc/fs". -/
theorem initrd_round_trip_sample :
    ∃ fs, TarFs.parse sampleArchive.encode = some (some fs) ∧
      fs.read [0x2F, 0x2F, 0x65, 0x74, 0x63, 0x2F, 0x66, 0x73] = some [0x6F, 0x6B] := by
  obtain ⟨fs, hparse, hread, -⟩ := initrd_round_trip sampleArchive
  have hpath : [0x2F, 0x2F, 0x65, 0x74, 0x63, 0x2F, 0x66, 0x73] =
      List.replicate 2 0x2F ++ sampleFile.path := by decide +kernel
  rw [hpath]
  exact ⟨fs, hparse, hread sampleFile (by simp [sampleArchive]) 2⟩

end Avaria.Fs
