import Mathlib.Data.List.DropRight

/-!
# The initial file system

`TarFs` of `initrd.rs`: `parse` over an archive, and the queries `read`, `exists` and
`for_each_matching`. A `str` is the list of its bytes. `parse` returns `none` where a slice is out
of bounds; the kernel ends there.
-/

namespace Avaria.Fs

/-- `MAX_ENTRIES`. -/
def MAX_ENTRIES : Nat := 64

/-- `struct TarEntry`. -/
structure TarEntry where
  name : List UInt8
  data : List UInt8
  is_dir : Bool
  deriving DecidableEq, Repr

/-- `struct TarFs`: the entries up to `count`. -/
structure TarFs where
  entries : List TarEntry

/-- Whether `str::from_utf8` accepts the bytes. -/
def isUtf8 (bytes : List UInt8) : Bool := bytes.toByteArray.validateUTF8

/-- `trim_start_matches("./")`. -/
def trimStartDotSlash : List UInt8 → List UInt8
  | dot :: slash :: rest =>
      if dot = 0x2E ∧ slash = 0x2F then trimStartDotSlash rest else dot :: slash :: rest
  | name => name

/-- `trim_start_matches('/')`. -/
def trimStartSlash (name : List UInt8) : List UInt8 := name.dropWhile (· = 0x2F)

/-- `trim_end_matches('/')`. -/
def trimEndSlash (name : List UInt8) : List UInt8 := name.rdropWhile (· = 0x2F)

/-- The loop of `parse_octal`. The release build wraps the difference around. -/
def parseOctalFrom (val : Nat) : List UInt8 → Nat
  | [] => val
  | b :: rest =>
      if b = 0 ∨ b = 0x20 then val else parseOctalFrom (val * 8 + (b - 0x30).toNat) rest

/-- `parse_octal`. -/
def parseOctal (data : List UInt8) : Nat := parseOctalFrom 0 data

/-- The bytes of the name in a header, up to `name_end`. -/
def headerName (header : List UInt8) : List UInt8 :=
  let nameEnd := ((header.take 100).findIdx? (· = 0)).getD 100
  header.take nameEnd

/-- The size in a header. -/
def headerSize (header : List UInt8) : Nat := parseOctal ((header.drop 124).take 12)

/-- The size of the data in whole blocks. -/
def blockBytes (size : Nat) : Nat :=
  let blocks := (size + 511) / 512
  blocks * 512

namespace TarFs

/-- The loop of `TarFs::parse`, from an offset on, with the entries so far. -/
def parseFrom (archive : List UInt8) (offset : Nat) (entries : List TarEntry) :
    Option (Option TarFs) :=
  if offset + 512 ≤ archive.length ∧ entries.length < MAX_ENTRIES then
    if archive.getD offset 0 = 0 then some (some ⟨entries⟩)
    else
      let header := (archive.drop offset).take 512
      if isUtf8 (headerName header) = false then some none
      else
        let name := trimStartDotSlash (headerName header)
        if name = [] then
          -- The root: its header is skipped, and its data if it had any.
          parseFrom archive (offset + (512 + blockBytes (headerSize header))) entries
        else
          let typeflag := header.getD 156 0
          let isDir := decide (typeflag = 0x35) || decide (name.getLast? = some 0x2F)
          let size := if isDir then 0 else headerSize header
          let dataStart := offset + 512
          -- The slice of the data panics past the end of the archive.
          if isDir = false ∧ archive.length < dataStart + size then none
          else
            let data := if isDir then [] else (archive.drop dataStart).take size
            parseFrom archive (dataStart + blockBytes size) (entries ++ [⟨name, data, isDir⟩])
  else some (some ⟨entries⟩)
termination_by archive.length - offset

/-- `TarFs::parse`. -/
def parse (archive : List UInt8) : Option (Option TarFs) := parseFrom archive 0 []

/-- `TarFs::find`. -/
def find (fs : TarFs) (path : List UInt8) : Option TarEntry :=
  let path := trimStartSlash path
  fs.entries.find? fun entry ↦ trimEndSlash entry.name = path

/-- `TarFs::for_each_matching`: the arguments of the calls of `f`. -/
def forEachMatching (fs : TarFs) (namePrefix nameSuffix : List UInt8) :
    List (List UInt8 × List UInt8) :=
  let namePrefix := trimStartSlash namePrefix
  fs.entries.filterMap fun entry ↦
    if entry.is_dir then none
    else
      let name := trimEndSlash entry.name
      if namePrefix.isPrefixOf name && nameSuffix.isSuffixOf name then some (name, entry.data)
      else none

/-- `TarFs::read`. -/
def read (fs : TarFs) (path : List UInt8) : Option (List UInt8) :=
  match fs.find path with
  | none => none
  | some entry => if entry.is_dir then none else some entry.data

/-- `TarFs::exists`. -/
def pathExists (fs : TarFs) (path : List UInt8) : Bool := (fs.find path).isSome

end TarFs

end Avaria.Fs
