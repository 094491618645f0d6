import Mathlib.Logic.Function.Basic
import Mathlib.Data.Nat.Bitwise

/-!
# Bit sets packed into machine words

An array of `n` words of `w` bits, read and written one bit at a time with shifts and masks.
`bit` is the flat view: index `i` is bit `i % w` of word `i / w`. `bit_set` and `bit_clear` give
the effect of an update on every flat index, and the word lemmas cover the three idioms of bitmap
code: the lowest clear bit by counting trailing zeros of the complement, the test that a prefix of
a word is full, and the test that the whole array is zero.
-/

namespace PackedBits

/-- An array of `n` words of `w` bits. -/
abbrev Words (n w : Nat) := Fin n → BitVec w

variable {n w : Nat}

/-- The word with exactly this bit set, `1 << index`. -/
def mask (w index : Nat) : BitVec w := 1#w <<< index

/-- The word whose low `count` bits are set, `(1 << count) - 1`. -/
def lowMask (w count : Nat) : BitVec w := 1#w <<< count - 1#w

/-- Set one bit of one word. -/
def set (words : Words n w) (word : Fin n) (index : Nat) : Words n w :=
  Function.update words word (words word ||| mask w index)

/-- Clear one bit of one word. -/
def clear (words : Words n w) (word : Fin n) (index : Nat) : Words n w :=
  Function.update words word (words word &&& ~~~ mask w index)

/-- The bit at a flat index; indices beyond the array read as clear. -/
def bit (words : Words n w) (i : Nat) : Bool :=
  if h : i / w < n then (words ⟨i / w, h⟩).getLsbD (i % w) else false

/-! ## One word -/

theorem getLsbD_mask {index j : Nat} (hj : j < w) :
    (mask w index).getLsbD j = decide (j = index) := by
  unfold mask
  simp only [BitVec.getLsbD_shiftLeft, BitVec.getLsbD_one]
  by_cases h : j = index
  · subst h
    simp [hj, Nat.zero_lt_of_lt hj]
  · by_cases hlt : j < index
    · simp [h, hlt]
    · have hsub : j - index ≠ 0 := by omega
      simp [h, hsub]

/-- Testing a word against a one-bit mask reads that bit. -/
theorem and_mask_ne_zero_iff {word : BitVec w} {index : Nat} (hindex : index < w) :
    word &&& mask w index ≠ 0#w ↔ word.getLsbD index = true := by
  constructor
  · intro hne
    by_contra hclear
    apply hne
    apply BitVec.eq_of_getLsbD_eq
    intro j hj
    rw [BitVec.getLsbD_and, getLsbD_mask hj]
    by_cases h : j = index
    · subst h
      simp [hclear]
    · simp [h]
  · intro hset heq
    have hbit : (word &&& mask w index).getLsbD index = true := by
      simp [getLsbD_mask hindex, hset]
    simp [heq] at hbit

theorem getLsbD_lowMask {count j : Nat} (hcount : count < w) :
    (lowMask w count).getLsbD j = decide (j < count) := by
  have hw : 2 ^ count < 2 ^ w := Nat.pow_lt_pow_right (by decide) hcount
  have hpos : 0 < 2 ^ count := Nat.two_pow_pos count
  have hone : 1 < 2 ^ w := Nat.one_lt_two_pow (by omega)
  have hvalue : (lowMask w count).toNat = 2 ^ count - 1 := by
    unfold lowMask
    rw [BitVec.toNat_sub, BitVec.toNat_shiftLeft, BitVec.toNat_ofNat, Nat.mod_eq_of_lt hone,
      Nat.shiftLeft_eq, Nat.one_mul, Nat.mod_eq_of_lt hw]
    have hsum : 2 ^ w - 1 + 2 ^ count = 2 ^ count - 1 + 2 ^ w := by omega
    rw [hsum, Nat.add_mod_right, Nat.mod_eq_of_lt (by omega)]
  rw [BitVec.getLsbD, hvalue, Nat.testBit_two_pow_sub_one]

/-- A word covers the low mask exactly when its low bits are all set. -/
theorem and_lowMask_eq_iff {word : BitVec w} {count : Nat} (hcount : count < w) :
    word &&& lowMask w count = lowMask w count ↔ ∀ j < count, word.getLsbD j = true := by
  constructor
  · intro h j hj
    have hbit := congrArg (·.getLsbD j) h
    simpa [getLsbD_lowMask hcount, hj] using hbit
  · intro h
    apply BitVec.eq_of_getLsbD_eq
    intro j _
    rw [BitVec.getLsbD_and, getLsbD_lowMask hcount]
    by_cases hj : j < count
    · simp [hj, h j hj]
    · simp [hj]

theorem eq_allOnes_iff {word : BitVec w} :
    word = BitVec.allOnes w ↔ ∀ j < w, word.getLsbD j = true := by
  constructor
  · intro heq j hj
    subst heq
    simp [hj]
  · intro h
    apply BitVec.eq_of_getLsbD_eq
    intro j hj
    simp [h j hj, hj]

/-- When the complement of a word is zero, every bit of the word is set. -/
theorem getLsbD_of_not_eq_zero {word : BitVec w} (h : ~~~ word = 0#w) {j : Nat} (hj : j < w) :
    word.getLsbD j = true := by
  have hbit : (~~~ word).getLsbD j = false := by simp [h]
  simpa [hj] using hbit

/-- Counting the trailing zeros of the complement finds a clear bit of the word. -/
theorem getLsbD_ctz_not {word : BitVec w} (h : ~~~ word ≠ 0#w) :
    (~~~ word).ctz.toNat < w ∧ word.getLsbD (~~~ word).ctz.toNat = false := by
  have hlt : (~~~ word).ctz.toNat < w := by
    have hctz := BitVec.ctz_lt_iff_ne_zero.mpr h
    rw [BitVec.lt_def, BitVec.natCast_eq_ofNat, BitVec.toNat_ofNat] at hctz
    exact lt_of_lt_of_le hctz (Nat.mod_le _ _)
  refine ⟨hlt, ?_⟩
  have hset := BitVec.getLsbD_true_ctz_of_ne_zero h
  simpa [hlt] using hset

/-- Every bit below the count of trailing zeros of the complement is set in the word. -/
theorem getLsbD_of_lt_ctz_not {word : BitVec w} {j : Nat} (hj : j < (~~~ word).ctz.toNat)
    (hw : j < w) : word.getLsbD j = true := by
  have hclear := BitVec.getLsbD_false_of_lt_ctz hj
  simpa [hw] using hclear

/-! ## The flat view -/

theorem bit_of_lt {words : Words n w} {i : Nat} (h : i / w < n) :
    bit words i = (words ⟨i / w, h⟩).getLsbD (i % w) := by
  simp [bit, h]

/-- A flat index is determined by its word and its place in the word. -/
theorem index_eq_iff {i j : Nat} : j = i ↔ j / w = i / w ∧ j % w = i % w := by
  constructor
  · intro heq
    subst heq
    exact ⟨rfl, rfl⟩
  · intro hcase
    obtain ⟨hdiv, hmod⟩ := hcase
    rw [← Nat.div_add_mod j w, ← Nat.div_add_mod i w, hdiv, hmod]

theorem bit_update {words : Words n w} {word : Fin n} {value : BitVec w} {j : Nat} :
    bit (Function.update words word value) j =
      if j / w = word then value.getLsbD (j % w) else bit words j := by
  by_cases h : j / w < n
  · rw [bit_of_lt h, bit_of_lt h]
    by_cases hword : j / w = word
    · obtain rfl : (⟨j / w, h⟩ : Fin n) = word := Fin.ext hword
      simp
    · have hne : (⟨j / w, h⟩ : Fin n) ≠ word := fun heq ↦ hword (congrArg Fin.val heq)
      simp [Function.update_of_ne hne, hword]
  · have hword : j / w ≠ word := by have := word.isLt; omega
    simp [bit, h, hword]

/-- Setting a bit changes that flat index only. -/
theorem bit_set (words : Words n w) {i : Nat} (hw : 0 < w) (h : i / w < n) (j : Nat) :
    bit (set words ⟨i / w, h⟩ (i % w)) j = (decide (j = i) || bit words j) := by
  have hmod : j % w < w := Nat.mod_lt _ hw
  unfold set
  rw [bit_update]
  by_cases hword : j / w = i / w
  · have hj : j / w < n := by omega
    simp only [hword, ↓reduceIte, BitVec.getLsbD_or, getLsbD_mask hmod, bit_of_lt hj,
      index_eq_iff (w := w) (i := i) (j := j), true_and]
    exact Bool.or_comm _ _
  · have hne : j ≠ i := fun heq ↦ hword (by rw [heq])
    simp [hword, hne]

/-- Clearing a bit changes that flat index only. -/
theorem bit_clear (words : Words n w) {i : Nat} (hw : 0 < w) (h : i / w < n) (j : Nat) :
    bit (clear words ⟨i / w, h⟩ (i % w)) j = (!decide (j = i) && bit words j) := by
  have hmod : j % w < w := Nat.mod_lt _ hw
  unfold clear
  rw [bit_update]
  by_cases hword : j / w = i / w
  · have hj : j / w < n := by omega
    simp only [hword, ↓reduceIte, BitVec.getLsbD_and, BitVec.getLsbD_not, hmod,
      getLsbD_mask hmod, bit_of_lt hj, index_eq_iff (w := w) (i := i) (j := j), true_and,
      decide_true, Bool.true_and]
    exact Bool.and_comm _ _
  · have hne : j ≠ i := fun heq ↦ hword (by rw [heq])
    simp [hword, hne]

/-- The array is zero exactly when no flat index is set. -/
theorem eq_zero_iff (hw : 0 < w) {words : Words n w} :
    words = (fun _ ↦ 0#w) ↔ ∀ i, bit words i = false := by
  constructor
  · intro heq i
    subst heq
    simp [bit]
  · intro h
    funext word
    apply BitVec.eq_of_getLsbD_eq
    intro j hj
    have hdiv : (word * w + j) / w = word := by
      rw [Nat.mul_comm, Nat.mul_add_div hw, Nat.div_eq_of_lt hj, Nat.add_zero]
    have hmod : (word * w + j) % w = j := by
      rw [Nat.mul_comm, Nat.mul_add_mod, Nat.mod_eq_of_lt hj]
    have hbit := h (word * w + j)
    rw [bit_of_lt (by rw [hdiv]; exact word.isLt)] at hbit
    simpa [hdiv, hmod] using hbit

end PackedBits
