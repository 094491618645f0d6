import Avaria.Arch.Idt
import Avaria.Lib.Slice
import Mathlib.Data.Nat.Digits.Lemmas
import Mathlib.Data.UInt

/-!
# Numbers on the serial port

`hex` and `dec` of `serial.rs`: a loop that stores the characters of a number from the lowest digit
on in a buffer, and one that sends them in the opposite order. The two functions differ in the
`Radix` only; the accesses to the buffer are checked.

`Radix.print_eq` says that the characters are those of the digits of the number, and
`printed_numbers_exact` that they can be read back. The reports of system calls and exceptions have
their numbers from loops without a buffer; `hex_eq` and `dec_eq` say that these are the same.
-/

namespace Avaria.Serial

/-- The value of a digit, as a reader takes it. -/
def digitValue (c : UInt8) : Nat := if c < 0x3A then c.toNat - 0x30 else c.toNat - 0x61 + 10

/-- The number that a sequence of digits stands for. -/
def readNumber (base : Nat) (digits : List UInt8) : Nat :=
  digits.foldl (fun value c ↦ value * base + digitValue c) 0

/-- What `hex` and `dec` do differently: the length of the buffer, the lowest digit of a number, its
character, and the number without it. -/
structure Radix where
  base : Nat
  bufLen : Nat
  low : UInt64 → UInt8
  rest : UInt64 → UInt64
  char : UInt8 → UInt8
  base_gt : 1 < base
  toNat_low : ∀ v, (low v).toNat = v.toNat % base
  toNat_rest : ∀ v, (rest v).toNat = v.toNat / base
  char_zero : char 0 = 0x30
  digitValue_char : ∀ d < base, digitValue (char (UInt8.ofNat d)) = d
  fits : 2 ^ 64 ≤ base ^ bufLen

namespace Radix

theorem toNat_rest_lt (radix : Radix) {v : UInt64} (h : v ≠ 0) :
    (radix.rest v).toNat < v.toNat := by
  have hpos : 0 < v.toNat := Nat.pos_of_ne_zero fun hzero ↦ h (UInt64.toNat_inj.mp hzero)
  rw [radix.toNat_rest]
  exact Nat.div_lt_self hpos radix.base_gt

/-- The loop `while v > 0`: the buffer and the number of characters in it. -/
def storeDigits (radix : Radix) (buf : List UInt8) (i : Nat) (v : UInt64) :
    Except Slice.Fault (List UInt8 × Nat) :=
  if h : v = 0 then .ok (buf, i)
  else if i < buf.length then
    storeDigits radix (buf.set i (radix.char (radix.low v))) (i + 1) (radix.rest v)
  else .error .outOfRange
termination_by v.toNat
decreasing_by exact radix.toNat_rest_lt h

/-- The loop `while i > 0`: the bytes that `putb` sends. -/
def sendDigits (buf : List UInt8) : Nat → Except Slice.Fault (List UInt8)
  | 0 => .ok []
  | i + 1 =>
      match Slice.get buf i with
      | .error fault => .error fault
      | .ok b =>
          match sendDigits buf i with
          | .error fault => .error fault
          | .ok sent => .ok (b :: sent)

/-- The body of `hex` and `dec`: the bytes that are sent. -/
def print (radix : Radix) (v : UInt64) : Except Slice.Fault (List UInt8) :=
  if v = 0 then .ok [0x30]
  else
    match radix.storeDigits (List.replicate radix.bufLen 0) 0 v with
    | .error fault => .error fault
    | .ok (buf, i) => sendDigits buf i

end Radix

/-- The character of a hexadecimal digit. -/
def hexChar (d : UInt8) : UInt8 := if d < 10 then 0x30 + d else 0x61 + d - 10

/-- The lowest digit is that of the lowest four bits. -/
def hexRadix : Radix where
  base := 16
  bufLen := 16
  low v := (v &&& 0xF).toUInt8
  rest v := v >>> 4
  char := hexChar
  base_gt := by decide
  toNat_low v := by
    have hmask : (0xF : UInt64).toNat = 2 ^ 4 - 1 := rfl
    rw [UInt64.toNat_toUInt8, UInt64.toNat_and, hmask, Nat.and_two_pow_sub_one_eq_mod]
    omega
  toNat_rest v := by
    rw [UInt64.toNat_shiftRight]
    exact Nat.shiftRight_eq_div_pow _ _
  char_zero := rfl
  digitValue_char := by decide
  fits := by decide

/-- The lowest digit is the remainder. -/
def decRadix : Radix where
  base := 10
  bufLen := 20
  low v := (v % 10).toUInt8
  rest v := v / 10
  char d := 0x30 + d
  base_gt := by decide
  toNat_low v := by
    have hten : (10 : UInt64).toNat = 10 := rfl
    rw [UInt64.toNat_toUInt8, UInt64.toNat_mod, hten]
    omega
  toNat_rest v := UInt64.toNat_div v 10
  char_zero := rfl
  digitValue_char := by decide
  fits := by decide

/-- `hex`. -/
def hex (v : UInt64) : Except Slice.Fault (List UInt8) := hexRadix.print v

/-- `dec`. -/
def dec (v : UInt64) : Except Slice.Fault (List UInt8) := decRadix.print v

/-! ## The digits -/

namespace Radix

variable (radix : Radix)

/-- The characters of the digits of a number, the lowest first. -/
def chars (v : Nat) : List UInt8 :=
  (radix.base.digits v).map fun d ↦ radix.char (UInt8.ofNat d)

theorem chars_eq_cons {v : UInt64} (h : v ≠ 0) :
    radix.chars v.toNat = radix.char (radix.low v) :: radix.chars (radix.rest v).toNat := by
  have hpos : 0 < v.toNat := Nat.pos_of_ne_zero fun hzero ↦ h (UInt64.toNat_inj.mp hzero)
  rw [chars, Nat.digits_def' radix.base_gt hpos, List.map_cons, ← radix.toNat_low,
    UInt8.ofNat_toNat, ← radix.toNat_rest, chars]

/-- Every number has a place in the buffer. -/
theorem length_chars_le (v : UInt64) : (radix.chars v.toNat).length ≤ radix.bufLen := by
  rw [chars, List.length_map, Nat.digits_length_le_iff radix.base_gt]
  exact Nat.lt_of_lt_of_le v.toNat_lt radix.fits

/-- The first loop stores the characters from an index on. -/
theorem storeDigits_eq (v : UInt64) {buf : List UInt8} {i : Nat}
    (h : i + (radix.chars v.toNat).length ≤ buf.length) :
    ∃ after, radix.storeDigits buf i v = .ok (after, i + (radix.chars v.toNat).length) ∧
      after.take (i + (radix.chars v.toNat).length) = buf.take i ++ radix.chars v.toNat := by
  fun_induction radix.storeDigits buf i v with
  | case1 buf i =>
      have hnil : radix.chars (0 : UInt64).toNat = [] := by
        rw [chars]
        exact congrArg _ (Nat.digits_zero _)
      rw [hnil]
      exact ⟨buf, rfl, (List.append_nil _).symm⟩
  | case2 buf i v hv hlt ih =>
      rw [radix.chars_eq_cons hv, List.length_cons] at h ⊢
      obtain ⟨after, hstore, htake⟩ := ih (by rw [List.length_set]; omega)
      refine ⟨after, ?_, ?_⟩
      · rw [hstore, Nat.add_assoc, Nat.add_comm 1]
      · rw [Nat.add_comm _ 1, ← Nat.add_assoc, htake, List.take_succ_eq_append_getElem (by simpa),
          List.getElem_set_self, List.take_set_of_le (Nat.le_refl i), List.append_assoc]
        rfl
  | case3 buf i v hv hfull =>
      rw [radix.chars_eq_cons hv, List.length_cons] at h
      omega

/-- The second loop sends what is stored below an index, in the opposite order. -/
theorem sendDigits_eq {buf : List UInt8} {i : Nat} (h : i ≤ buf.length) :
    sendDigits buf i = .ok (buf.take i).reverse := by
  induction i with
  | zero => rfl
  | succ i ih =>
      rw [sendDigits, Slice.get_eq_pure h, ih (Nat.le_of_succ_le h),
        List.take_succ_eq_append_getElem h, List.reverse_append]
      rfl

/-- The characters that are sent. -/
theorem print_eq {v : UInt64} (h : v ≠ 0) :
    radix.print v = .ok (radix.chars v.toNat).reverse := by
  have hlength := radix.length_chars_le v
  obtain ⟨after, hstore, htake⟩ := radix.storeDigits_eq v
    (show 0 + _ ≤ (List.replicate radix.bufLen (0 : UInt8)).length by
      rwa [List.length_replicate, Nat.zero_add])
  rw [Nat.zero_add, List.take_zero, List.nil_append] at htake
  rw [Nat.zero_add] at hstore
  have hafter : (radix.chars v.toNat).length ≤ after.length := by
    have hmin := congrArg List.length htake
    rw [List.length_take] at hmin
    omega
  rw [print, if_neg h, hstore]
  exact (sendDigits_eq hafter).trans (by rw [htake])

/-- The digits of a number read back. -/
theorem readNumber_chars (v : Nat) :
    readNumber radix.base (radix.chars v).reverse = v := by
  have hread (digits : List Nat) (h : ∀ d ∈ digits, d < radix.base) :
      readNumber radix.base (digits.map fun d ↦ radix.char (UInt8.ofNat d)).reverse =
        Nat.ofDigits radix.base digits := by
    induction digits with
    | nil => rfl
    | cons d rest ih =>
        rw [List.map_cons, List.reverse_cons, readNumber, List.foldl_append, ← readNumber,
          ih fun other hother ↦ h other (List.mem_cons_of_mem d hother), Nat.ofDigits_cons]
        show _ + digitValue _ = _
        rw [radix.digitValue_char d (h d List.mem_cons_self), Nat.mul_comm, Nat.add_comm]
  rw [chars, hread _ fun d hd ↦ Nat.digits_lt_base radix.base_gt hd, Nat.ofDigits_digits]

/-- What `print` sends are the digits of the number, without leading zeros, and fits into the
buffer. -/
structure Prints (v : UInt64) (sent : List UInt8) : Prop where
  digits : ∀ c ∈ sent, ∃ d < radix.base, c = radix.char (UInt8.ofNat d)
  number : readNumber radix.base sent = v.toNat
  leading : sent.head? = some 0x30 → v = 0
  length_le : sent.length ≤ radix.bufLen

theorem print_exact (v : UInt64) : ∃ sent, radix.print v = .ok sent ∧ radix.Prints v sent := by
  by_cases h : v = 0
  · subst h
    have hbuf : 1 ≤ radix.bufLen := by
      by_contra hzero
      have hfits := radix.fits
      rw [Nat.lt_one_iff.mp (Nat.lt_of_not_le hzero), pow_zero] at hfits
      exact absurd hfits (by decide)
    have hzero : ∀ c ∈ [(0x30 : UInt8)], ∃ d < radix.base, c = radix.char (UInt8.ofNat d) := by
      intro c hc
      refine ⟨0, Nat.lt_trans Nat.zero_lt_one radix.base_gt, ?_⟩
      rw [List.mem_singleton.mp hc]
      exact radix.char_zero.symm
    refine ⟨[0x30], if_pos rfl, hzero, ?_, fun _ ↦ rfl, hbuf⟩
    show 0 * radix.base + digitValue 0x30 = 0
    rw [Nat.zero_mul]
    rfl
  · refine ⟨_, radix.print_eq h, fun c hc ↦ ?_, radix.readNumber_chars _, fun hhead ↦ ?_, ?_⟩
    · obtain ⟨d, hd, rfl⟩ := List.mem_map.mp (List.mem_reverse.mp hc)
      exact ⟨d, Nat.digits_lt_base radix.base_gt hd, rfl⟩
    · -- the first character is that of the highest digit
      have hne : v.toNat ≠ 0 := fun hzero ↦ h (UInt64.toNat_inj.mp hzero)
      have hdigits : radix.base.digits v.toNat ≠ [] := Nat.digits_ne_nil_iff_ne_zero.mpr hne
      rw [List.head?_reverse, chars, List.getLast?_map, List.getLast?_eq_getLast_of_ne_nil hdigits,
        Option.map_some] at hhead
      have hlt := Nat.digits_lt_base radix.base_gt (List.getLast_mem hdigits)
      have hvalue := congrArg digitValue (Option.some.inj hhead)
      rw [radix.digitValue_char _ hlt] at hvalue
      exact absurd hvalue (Nat.getLast_digit_ne_zero radix.base hne)
    · rw [List.length_reverse]
      exact radix.length_chars_le v

/-- A loop that puts the character of the lowest digit in front and goes on with the rest. -/
theorem loop_eq (loop : UInt64 → List UInt8 → List UInt8)
    (hloop : ∀ v printed, loop v printed =
      if v = 0 then printed else loop (radix.rest v) (radix.char (radix.low v) :: printed))
    (v : UInt64) (printed : List UInt8) :
    loop v printed = (radix.chars v.toNat).reverse ++ printed := by
  induction hn : v.toNat using Nat.strong_induction_on generalizing v printed with
  | _ n ih =>
      rw [hloop, ← hn]
      split
      · rename_i hzero
        have hnil : radix.chars v.toNat = [] := by
          rw [hzero, chars]
          exact congrArg _ (Nat.digits_zero _)
        rw [hnil]
        rfl
      · rename_i hv
        rw [ih _ (hn ▸ radix.toNat_rest_lt hv) _ _ rfl, radix.chars_eq_cons hv, List.reverse_cons,
          List.append_assoc]
        rfl

end Radix

/-- The numbers in the report of an exception. -/
theorem hex_eq (v : UInt64) : hex v = .ok (Arch.hex v) := by
  by_cases h : v = 0
  · subst h
    rfl
  · rw [hex, hexRadix.print_eq h, Arch.hex, if_neg h,
      hexRadix.loop_eq Arch.hexLoop (fun v printed ↦ by rw [Arch.hexLoop]; rfl), List.append_nil]

/-- The numbers in the reports of system calls and exceptions. -/
theorem dec_eq (v : UInt64) : dec v = .ok (Kxvm.dec v) := by
  by_cases h : v = 0
  · subst h
    rfl
  · rw [dec, decRadix.print_eq h, Kxvm.dec, if_neg h,
      decRadix.loop_eq Kxvm.decLoop (fun v printed ↦ by rw [Kxvm.decLoop]; rfl), List.append_nil]

/-- For every number, `hex` and `dec` stay inside their buffers of 16 and 20 bytes, and send its
digits, from which the number can be read, without leading zeros. -/
theorem printed_numbers_exact (v : UInt64) :
    (∃ sent, hex v = .ok sent ∧ (∀ c ∈ sent, c ∈ Kxvm.text "0123456789abcdef") ∧
      readNumber 16 sent = v.toNat ∧ (sent.head? = some 0x30 → v = 0) ∧ sent.length ≤ 16) ∧
    ∃ sent, dec v = .ok sent ∧ (∀ c ∈ sent, c ∈ Kxvm.text "0123456789") ∧
      readNumber 10 sent = v.toNat ∧ (sent.head? = some 0x30 → v = 0) ∧ sent.length ≤ 20 := by
  have hhexDigit : ∀ d < 16, hexChar (UInt8.ofNat d) ∈ Kxvm.text "0123456789abcdef" := by
    decide +kernel
  have hdecDigit : ∀ d < 10, 0x30 + UInt8.ofNat d ∈ Kxvm.text "0123456789" := by decide +kernel
  obtain ⟨digits, hdigits, hhex⟩ := hexRadix.print_exact v
  obtain ⟨digits', hdigits', hdec⟩ := decRadix.print_exact v
  refine ⟨⟨digits, hdigits, fun c hc ↦ ?_, hhex.number, hhex.leading, hhex.length_le⟩,
    ⟨digits', hdigits', fun c hc ↦ ?_, hdec.number, hdec.leading, hdec.length_le⟩⟩
  · obtain ⟨d, hd, rfl⟩ := hhex.digits c hc
    exact hhexDigit d hd
  · obtain ⟨d, hd, rfl⟩ := hdec.digits c hc
    exact hdecDigit d hd

end Avaria.Serial
