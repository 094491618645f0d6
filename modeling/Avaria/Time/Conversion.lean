import Mathlib.Algebra.Group.Nat.Defs

/-!
# Converting ticks to time

The conversions of `tsc.rs` and of `avaria-api`, at a frequency in kHz. They multiply in 64 bits
before they divide: `conversions_exact_iff` says when the results are the exact ones.

Vocabulary: the true result is that of the arithmetic without bounds.
-/

namespace Avaria.Time

/-- Ticks times a scale, by the frequency. The product wraps around. -/
def convert (scale freqKhz ticks : UInt64) : UInt64 :=
  if freqKhz = 0 then 0 else ticks * scale / freqKhz

/-- `ticks_to_ns`. -/
def ticksToNs (freqKhz ticks : UInt64) : UInt64 := convert 1000000 freqKhz ticks

/-- `ticks_to_us`. -/
def ticksToUs (freqKhz ticks : UInt64) : UInt64 := convert 1000 freqKhz ticks

/-- `uptime_ms`, at a reading of the counter. -/
def uptimeMs (freqKhz ticks : UInt64) : UInt64 := if freqKhz = 0 then 0 else ticks / freqKhz

namespace Api

/-- `ticks_to_us` of `avariaApi`. -/
def ticksToUs (freqKhz ticks : UInt64) : UInt64 := convert 1000 freqKhz ticks

/-- `ticks_to_ms` of `avariaApi`. -/
def ticksToMs (freqKhz ticks : UInt64) : UInt64 := if freqKhz = 0 then 0 else ticks / freqKhz

end Api

/-! ## Exactness -/

/-- The true result of a conversion. -/
def trueTime (scale : Nat) (freqKhz ticks : UInt64) : Nat :=
  ticks.toNat * scale / freqKhz.toNat

/-- A conversion of some ticks yields the true result if that fits into 64 bits, and then no smaller
number of ticks is converted to more. -/
def ExactAt (scale : Nat) (conversion : UInt64 → UInt64 → UInt64) (freqKhz ticks : UInt64) :
    Prop :=
  trueTime scale freqKhz ticks < 2 ^ 64 →
    (conversion freqKhz ticks).toNat = trueTime scale freqKhz ticks ∧
      ∀ earlier ≤ ticks, conversion freqKhz earlier ≤ conversion freqKhz ticks

/-- The conversions are exact at some ticks, and those of the kernel and of the modules agree. -/
structure ConversionsExact (freqKhz ticks : UInt64) : Prop where
  ns : ExactAt 1000000 ticksToNs freqKhz ticks
  us : ExactAt 1000 ticksToUs freqKhz ticks
  api : ExactAt 1000 Api.ticksToUs freqKhz ticks
  agree : Api.ticksToUs freqKhz ticks = ticksToUs freqKhz ticks

/-- The product fits into 64 bits, if the true result does. -/
def ProductFits (scale : Nat) (freqKhz ticks : UInt64) : Prop :=
  trueTime scale freqKhz ticks < 2 ^ 64 → ticks.toNat * scale < 2 ^ 64

section Convert

variable {scale freqKhz ticks : UInt64}

theorem toNat_convert (h : freqKhz ≠ 0) (scale ticks : UInt64) :
    (convert scale freqKhz ticks).toNat =
      ticks.toNat * scale.toNat % 2 ^ 64 / freqKhz.toNat := by
  rw [convert, if_neg h, UInt64.toNat_div, UInt64.toNat_mul]

theorem toNat_convert_of_lt (h : freqKhz ≠ 0) (hfits : ticks.toNat * scale.toNat < 2 ^ 64) :
    (convert scale freqKhz ticks).toNat = trueTime scale.toNat freqKhz ticks := by
  rw [toNat_convert h, Nat.mod_eq_of_lt hfits, trueTime]

/-- Where the product wraps around, the result is less than the true one. -/
theorem toNat_convert_lt (h : freqKhz ≠ 0) (hwraps : 2 ^ 64 ≤ ticks.toNat * scale.toNat) :
    (convert scale freqKhz ticks).toNat < trueTime scale.toNat freqKhz ticks := by
  have hpos : 0 < freqKhz.toNat :=
    Nat.pos_of_ne_zero fun hzero ↦ h (UInt64.toNat_inj.mp hzero)
  have hfreq : freqKhz.toNat < 2 ^ 64 := freqKhz.toNat_lt
  have hmod : ticks.toNat * scale.toNat % 2 ^ 64 + freqKhz.toNat ≤ ticks.toNat * scale.toNat := by
    omega
  rw [toNat_convert h, trueTime]
  calc ticks.toNat * scale.toNat % 2 ^ 64 / freqKhz.toNat
      < ticks.toNat * scale.toNat % 2 ^ 64 / freqKhz.toNat + 1 := Nat.lt_succ_self _
    _ = (ticks.toNat * scale.toNat % 2 ^ 64 + freqKhz.toNat) / freqKhz.toNat :=
        (Nat.add_div_right _ hpos).symm
    _ ≤ ticks.toNat * scale.toNat / freqKhz.toNat := Nat.div_le_div_right hmod

/-- A conversion is exact where its product fits, and nowhere else. -/
theorem exactAt_convert_iff (h : freqKhz ≠ 0) (scale ticks : UInt64) :
    ExactAt scale.toNat (convert scale) freqKhz ticks ↔
      ProductFits scale.toNat freqKhz ticks := by
  refine forall_congr' fun _ ↦ ⟨fun hexact ↦ ?_, fun hfits ↦ ⟨toNat_convert_of_lt h hfits, ?_⟩⟩
  · refine Nat.lt_of_not_le fun hwraps ↦ ?_
    exact Nat.ne_of_lt (toNat_convert_lt h hwraps) hexact.1
  · intro earlier hle
    have hmul : earlier.toNat * scale.toNat ≤ ticks.toNat * scale.toNat :=
      Nat.mul_le_mul_right _ (UInt64.le_iff_toNat_le.mp hle)
    rw [UInt64.le_iff_toNat_le, toNat_convert_of_lt h hfits,
      toNat_convert_of_lt h (Nat.lt_of_le_of_lt hmul hfits)]
    exact Nat.div_le_div_right hmul

end Convert

/-- `uptime_ms` and `ticks_to_ms` do not multiply, and are exact. -/
theorem exactAt_ms (freqKhz ticks : UInt64) :
    ExactAt 1 uptimeMs freqKhz ticks ∧ ExactAt 1 Api.ticksToMs freqKhz ticks := by
  have hdiv (ticks : UInt64) : (uptimeMs freqKhz ticks).toNat = trueTime 1 freqKhz ticks := by
    rw [trueTime, Nat.mul_one, uptimeMs]
    split
    · next hzero =>
        rw [hzero]
        exact (Nat.div_zero _).symm
    · exact UInt64.toNat_div ticks freqKhz
  have hexact : ExactAt 1 uptimeMs freqKhz ticks := by
    refine fun _ ↦ ⟨hdiv ticks, fun earlier hle ↦ ?_⟩
    rw [UInt64.le_iff_toNat_le, hdiv, hdiv]
    exact Nat.div_le_div_right (Nat.mul_le_mul_right 1 (UInt64.le_iff_toNat_le.mp hle))
  exact ⟨hexact, hexact⟩

/-- The conversions to nanoseconds and microseconds are exact at some ticks, and monotone up to
them, exactly if the products do not wrap around where the true results fit. -/
theorem conversions_exact_iff {freqKhz : UInt64} (h : freqKhz ≠ 0) (ticks : UInt64) :
    ConversionsExact freqKhz ticks ↔
      ProductFits 1000000 freqKhz ticks ∧ ProductFits 1000 freqKhz ticks := by
  have hns : ExactAt 1000000 ticksToNs freqKhz ticks ↔ ProductFits 1000000 freqKhz ticks :=
    exactAt_convert_iff h 1000000 ticks
  have hus : ExactAt 1000 ticksToUs freqKhz ticks ↔ ProductFits 1000 freqKhz ticks :=
    exactAt_convert_iff h 1000 ticks
  exact ⟨fun hexact ↦ ⟨hns.mp hexact.ns, hus.mp hexact.us⟩,
    fun hfits ↦ ⟨hns.mpr hfits.1, hus.mpr hfits.2, hus.mpr hfits.2, rfl⟩⟩

/-- One second at 3 GHz. -/
theorem one_second_exact : ConversionsExact 3000000 3000000000 := by
  refine (conversions_exact_iff (by decide) 3000000000).mpr ⟨fun _ ↦ ?_, fun _ ↦ ?_⟩
  · show 3000000000 * 1000000 < 2 ^ 64
    decide
  · show 3000000000 * 1000 < 2 ^ 64
    decide

/-- Two hours at 3 GHz are converted to less than one. -/
theorem two_hours_not_exact : ¬ ConversionsExact 3000000 21600000000000 := by
  intro h
  have hns := (h.ns (by decide)).1
  exact absurd hns (by decide)

end Avaria.Time
