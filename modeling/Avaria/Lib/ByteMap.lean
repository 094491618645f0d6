import Avaria.Lib.Extent
import Mathlib.Tactic.Ring

/-!
# Byte maps

Memory as a map from addresses to bytes, with the operations of code that moves bytes around:
reading a little-endian number, filling a range, storing bytes, copying ranges from another map, and
a sequence of copies.

Copies that do not agree on an address overwrite each other; `copies_of_covered` is the rule for
sequences in which all copies that cover an address bring the same byte, for instance because their
targets are separate.
-/

/-- A byte for each address. -/
abbrev ByteMap := Nat → UInt8

namespace ByteMap

/-- The bytes from a pointer on. -/
def behind (bytes : ByteMap) (ptr : Nat) : ByteMap := fun k ↦ bytes (ptr + k)

/-! ## Little-endian numbers -/

/-- The number that `width` bytes from `offset` on encode, the least significant byte first. -/
def fromLe (bytes : ByteMap) (offset : Nat) : Nat → Nat
  | 0 => 0
  | width + 1 => (bytes offset).toNat + 256 * fromLe bytes (offset + 1) width

theorem fromLe_lt (bytes : ByteMap) (offset width : Nat) :
    fromLe bytes offset width < 256 ^ width := by
  induction width generalizing offset with
  | zero => exact Nat.one_pos
  | succ width ih =>
      have hbyte : (bytes offset).toNat < 256 := (bytes offset).toNat_lt
      have hrest := ih (offset + 1)
      show (bytes offset).toNat + 256 * fromLe bytes (offset + 1) width < 256 ^ (width + 1)
      rw [pow_succ]
      omega

/-- The number depends on the bytes that encode it only. -/
theorem fromLe_congr {first second : ByteMap} {offset offset' width : Nat}
    (h : ∀ i < width, first (offset + i) = second (offset' + i)) :
    fromLe first offset width = fromLe second offset' width := by
  induction width generalizing offset offset' with
  | zero => rfl
  | succ width ih =>
      have hfirst : first offset = second offset' := h 0 (Nat.zero_lt_succ width)
      have hrest : fromLe first (offset + 1) width = fromLe second (offset' + 1) width := by
        refine ih fun i hi ↦ ?_
        have hi' := h (i + 1) (Nat.succ_lt_succ hi)
        rwa [← Nat.add_assoc, ← Nat.add_assoc, Nat.add_right_comm,
          Nat.add_right_comm offset'] at hi'
      show (first offset).toNat + 256 * fromLe first (offset + 1) width = _
      rw [hfirst, hrest]
      rfl

/-- The number determines the bytes that encode it. -/
theorem fromLe_inj {first second : ByteMap} {offset offset' width : Nat}
    (h : fromLe first offset width = fromLe second offset' width) :
    ∀ i < width, first (offset + i) = second (offset' + i) := by
  induction width generalizing offset offset' with
  | zero => exact fun i hi ↦ absurd hi (Nat.not_lt_zero i)
  | succ width ih =>
      have hsplit : (first offset).toNat + 256 * fromLe first (offset + 1) width =
          (second offset').toNat + 256 * fromLe second (offset' + 1) width := h
      have hfirst : (first offset).toNat < 256 := (first offset).toNat_lt
      have hsecond : (second offset').toNat < 256 := (second offset').toNat_lt
      intro i hi
      cases i with
      | zero => exact UInt8.toNat_inj.mp (by simp only [Nat.add_zero]; omega)
      | succ i =>
          have hrest : fromLe first (offset + 1) width = fromLe second (offset' + 1) width := by
            omega
          rw [Nat.add_comm i, ← Nat.add_assoc, ← Nat.add_assoc]
          exact ih hrest i (Nat.lt_of_succ_lt_succ hi)

theorem fromLe_eq_iff {first second : ByteMap} {offset offset' width : Nat} :
    fromLe first offset width = fromLe second offset' width ↔
      ∀ i < width, first (offset + i) = second (offset' + i) := ⟨fromLe_inj, fromLe_congr⟩

/-- The little-endian bytes of a number. -/
def toLe : Nat → Nat → List UInt8
  | 0, _ => []
  | width + 1, value => UInt8.ofNat value :: toLe width (value / 256)

/-! ## Fills and copies -/

/-- Set all bytes of a range. -/
def fill (bytes : ByteMap) (target : Extent) (value : UInt8) : ByteMap :=
  fun k ↦ if target.Contains k then value else bytes k

/-- Copy the bytes of `source` from `start` on to the range `target`. -/
def copy (bytes : ByteMap) (target : Extent) (source : ByteMap) (start : Nat) : ByteMap :=
  fun k ↦ if target.Contains k then source (start + (k - target.start)) else bytes k

theorem fill_of_contains {bytes : ByteMap} {target : Extent} {value : UInt8} {k : Nat}
    (h : target.Contains k) : bytes.fill target value k = value := if_pos h

theorem fill_of_not_contains {bytes : ByteMap} {target : Extent} {value : UInt8} {k : Nat}
    (h : ¬ target.Contains k) : bytes.fill target value k = bytes k := if_neg h

theorem copy_of_contains {bytes source : ByteMap} {target : Extent} {start k : Nat}
    (h : target.Contains k) :
    bytes.copy target source start k = source (start + (k - target.start)) := if_pos h

theorem copy_of_not_contains {bytes source : ByteMap} {target : Extent} {start k : Nat}
    (h : ¬ target.Contains k) : bytes.copy target source start k = bytes k := if_neg h

/-- One copy of a sequence: the range that it writes and where it reads. -/
structure Transfer where
  target : Extent
  start : Nat

/-- A sequence of copies from one source. -/
def copies (source : ByteMap) (bytes : ByteMap) (transfers : List Transfer) : ByteMap :=
  transfers.foldl (fun bytes transfer ↦ bytes.copy transfer.target source transfer.start) bytes

theorem copies_append (source bytes : ByteMap) (first second : List Transfer) :
    copies source bytes (first ++ second) = copies source (copies source bytes first) second :=
  List.foldl_append

/-- What a sequence of copies leaves at an address depends on what was there only. -/
theorem copies_congr_at {source bytes bytes' : ByteMap} (transfers : List Transfer) {k : Nat}
    (h : bytes k = bytes' k) :
    copies source bytes transfers k = copies source bytes' transfers k := by
  induction transfers generalizing bytes bytes' with
  | nil => exact h
  | cons transfer rest ih =>
      refine ih ?_
      by_cases hin : transfer.target.Contains k
      · exact (copy_of_contains hin).trans (copy_of_contains hin).symm
      · exact (copy_of_not_contains hin).trans (h.trans (copy_of_not_contains hin).symm)

/-- A byte that no copy covers stays. -/
theorem copies_of_not_covered {source bytes : ByteMap} {transfers : List Transfer} {k : Nat}
    (h : ∀ transfer ∈ transfers, ¬ transfer.target.Contains k) :
    copies source bytes transfers k = bytes k := by
  induction transfers generalizing bytes with
  | nil => rfl
  | cons transfer rest ih =>
      show copies source (bytes.copy transfer.target source transfer.start) rest k = bytes k
      rw [ih fun other hother ↦ h other (List.mem_cons_of_mem _ hother)]
      exact copy_of_not_contains (h transfer List.mem_cons_self)

/-- The last copy that covers a byte is the first of the sequence or comes later. -/
theorem covered_cons {transfer : Transfer} {rest : List Transfer} {k : Nat}
    (h : ∃ other ∈ transfer :: rest, other.target.Contains k) :
    (∃ other ∈ rest, other.target.Contains k) ∨
      (transfer.target.Contains k ∧ ∀ other ∈ rest, ¬ other.target.Contains k) := by
  by_cases hrest : ∃ other ∈ rest, other.target.Contains k
  · exact Or.inl hrest
  · have hnone : ∀ other ∈ rest, ¬ other.target.Contains k :=
      fun other hother hcontains ↦ hrest ⟨other, hother, hcontains⟩
    obtain ⟨other, hmem, hcontains⟩ := h
    rcases List.mem_cons.mp hmem with rfl | hmem
    · exact Or.inr ⟨hcontains, hnone⟩
    · exact absurd hcontains (hnone other hmem)

/-- A byte that some copy covers is the one that all copies covering it bring. -/
theorem copies_of_covered {source bytes : ByteMap} {transfers : List Transfer} {k : Nat}
    {value : UInt8} (hcovered : ∃ transfer ∈ transfers, transfer.target.Contains k)
    (hvalue : ∀ transfer ∈ transfers, transfer.target.Contains k →
      source (transfer.start + (k - transfer.target.start)) = value) :
    copies source bytes transfers k = value := by
  induction transfers generalizing bytes with
  | nil =>
      obtain ⟨transfer, hmem, -⟩ := hcovered
      cases hmem
  | cons transfer rest ih =>
      have hrestValue : ∀ other ∈ rest, other.target.Contains k →
          source (other.start + (k - other.target.start)) = value :=
        fun other hother ↦ hvalue other (List.mem_cons_of_mem _ hother)
      show copies source (bytes.copy transfer.target source transfer.start) rest k = value
      rcases covered_cons hcovered with hrest | ⟨hhead, hnone⟩
      · exact ih hrest hrestValue
      · rw [copies_of_not_covered hnone, copy_of_contains hhead]
        exact hvalue transfer List.mem_cons_self hhead

/-- A byte that some copy covers does not depend on what was there before. -/
theorem copies_congr {source bytes bytes' : ByteMap} {transfers : List Transfer} {k : Nat}
    (hcovered : ∃ transfer ∈ transfers, transfer.target.Contains k) :
    copies source bytes transfers k = copies source bytes' transfers k := by
  induction transfers generalizing bytes bytes' with
  | nil =>
      obtain ⟨transfer, hmem, -⟩ := hcovered
      cases hmem
  | cons transfer rest ih =>
      show copies source (bytes.copy transfer.target source transfer.start) rest k =
        copies source (bytes'.copy transfer.target source transfer.start) rest k
      rcases covered_cons hcovered with hrest | ⟨hhead, hnone⟩
      · exact ih hrest
      · rw [copies_of_not_covered hnone, copies_of_not_covered hnone, copy_of_contains hhead,
          copy_of_contains hhead]

/-! ## Stores -/

/-- Store bytes from `offset` on. -/
def store (bytes : ByteMap) (offset : Nat) (values : List UInt8) : ByteMap :=
  fun k ↦ if offset ≤ k then (values[k - offset]?).getD (bytes k) else bytes k

theorem store_outside {bytes : ByteMap} {offset k : Nat} {values : List UInt8}
    (h : k < offset ∨ offset + values.length ≤ k) : bytes.store offset values k = bytes k := by
  unfold store
  split
  · rw [List.getElem?_eq_none (by omega), Option.getD_none]
  · rfl

theorem store_inside {bytes : ByteMap} {offset i : Nat} {values : List UInt8}
    (h : i < values.length) : bytes.store offset values (offset + i) = values[i] := by
  rw [store, if_pos (Nat.le_add_right offset i), Nat.add_sub_cancel_left,
    List.getElem?_eq_getElem h, Option.getD_some]

@[simp] theorem length_toLe (width value : Nat) : (toLe width value).length = width := by
  induction width generalizing value with
  | zero => rfl
  | succ width ih => rw [toLe, List.length_cons, ih]

/-- The bytes of a number encode it. -/
theorem fromLe_of_toLe {bytes : ByteMap} {offset width value : Nat}
    (h : ∀ i (hi : i < (toLe width value).length), bytes (offset + i) = (toLe width value)[i]) :
    fromLe bytes offset width = value % 256 ^ width := by
  induction width generalizing offset value with
  | zero => rw [pow_zero, Nat.mod_one]; rfl
  | succ width ih =>
      have hfirst : bytes offset = UInt8.ofNat value := h 0 (Nat.zero_lt_succ _)
      have hrest : fromLe bytes (offset + 1) width = value / 256 % 256 ^ width := by
        refine ih fun i hi ↦ ?_
        rw [Nat.add_right_comm, Nat.add_assoc]
        exact h (i + 1) (Nat.succ_lt_succ hi)
      show (bytes offset).toNat + 256 * fromLe bytes (offset + 1) width = value % 256 ^ (width + 1)
      rw [hfirst, hrest, pow_succ', Nat.mod_mul]
      rfl

/-- A number that was stored is read back. -/
theorem fromLe_store (bytes : ByteMap) (offset width value : Nat) :
    fromLe (bytes.store offset (toLe width value)) offset width = value % 256 ^ width :=
  fromLe_of_toLe fun _ hi ↦ store_inside hi

/-- A store elsewhere does not change a number. -/
theorem fromLe_store_apart {bytes : ByteMap} {offset width target : Nat} {values : List UInt8}
    (h : offset + width ≤ target ∨ target + values.length ≤ offset) :
    fromLe (bytes.store target values) offset width = fromLe bytes offset width :=
  fromLe_congr fun _ _ ↦ store_outside (by omega)

end ByteMap
