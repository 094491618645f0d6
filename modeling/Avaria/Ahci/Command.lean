import Mathlib.Data.Nat.Bitwise

/-!
# AHCI commands

The command that `setup_command` of `ahci.rs` leaves in memory for the controller: the header, the
register FIS and the one descriptor of the buffer. The address of the buffer, which the descriptor
holds too, is left out.

`HbaCommand.transferred` is what a controller makes of a READ DMA EXT command: the sectors of the
count field from the 48-bit sector number on, as far as the 22-bit byte count of the descriptor
goes.
-/

namespace Avaria.Ahci

/-- `FIS_TYPE_REG_H2D`. -/
def FIS_TYPE_REG_H2D : UInt8 := 0x27

/-- `ATA_CMD_READ_DMA_EXT`. -/
def ATA_CMD_READ_DMA_EXT : UInt8 := 0x25

/-- `struct FisRegH2D`. -/
structure FisRegH2D where
  fis_type : UInt8
  flags : UInt8
  command : UInt8
  feature_lo : UInt8
  lba0 : UInt8
  lba1 : UInt8
  lba2 : UInt8
  device : UInt8
  lba3 : UInt8
  lba4 : UInt8
  lba5 : UInt8
  feature_hi : UInt8
  count_lo : UInt8
  count_hi : UInt8
  icc : UInt8
  control : UInt8

/-- The fields of `HbaCmdHeader` that a command sets, with the descriptor and the FIS of its table.
-/
structure HbaCommand where
  flags : UInt16
  prdtl : UInt16
  prdbc : UInt32
  dbc : UInt32
  fis : FisRegH2D

/-- A byte of a sector number. -/
def lbaByte (lba shift : UInt64) : UInt8 := ((lba >>> shift) &&& 0xFF).toUInt8

/-- `setup_command`. -/
def setupCommand (command : UInt8) (lba : UInt64) (count : UInt16) (bufSize : UInt32)
    (write : Bool) : HbaCommand where
  flags := if write then (5 : UInt16) ||| ((1 : UInt16) <<< 6) else 5
  prdtl := 1
  prdbc := 0
  dbc := bufSize - 1
  fis :=
    { fis_type := FIS_TYPE_REG_H2D
      flags := 0x80
      command
      device := 0x40
      lba0 := (lba &&& 0xFF).toUInt8
      lba1 := lbaByte lba 8
      lba2 := lbaByte lba 16
      lba3 := lbaByte lba 24
      lba4 := lbaByte lba 32
      lba5 := lbaByte lba 40
      count_lo := (count &&& 0xFF).toUInt8
      count_hi := ((count >>> 8) &&& 0xFF).toUInt8
      feature_lo := 0
      feature_hi := 0
      icc := 0
      control := 0 }

/-! ## The controller -/

/-- The number in the six bytes of the FIS. -/
def FisRegH2D.lba (fis : FisRegH2D) : Nat :=
  fis.lba0.toNat + 2 ^ 8 * fis.lba1.toNat + 2 ^ 16 * fis.lba2.toNat + 2 ^ 24 * fis.lba3.toNat +
    2 ^ 32 * fis.lba4.toNat + 2 ^ 40 * fis.lba5.toNat

/-- The number of sectors that the FIS asks for; 0 stands for 65536. -/
def FisRegH2D.sectors (fis : FisRegH2D) : Nat :=
  let count := fis.count_lo.toNat + 2 ^ 8 * fis.count_hi.toNat
  if count = 0 then 65536 else count

/-- The number of bytes that the controller transfers. -/
def HbaCommand.transferred (cmd : HbaCommand) : Nat :=
  min (cmd.fis.sectors * 512) (cmd.dbc.toNat % 2 ^ 22 + 1)

/-- The FIS holds the low 48 bits of the sector number. -/
theorem setupCommand_lba (command : UInt8) (lba : UInt64) (count : UInt16) (bufSize : UInt32)
    (write : Bool) :
    (setupCommand command lba count bufSize write).fis.lba = lba.toNat % 2 ^ 48 := by
  have hlow : (lba &&& 0xFF).toUInt8.toNat = lba.toNat % 256 := by
    rw [UInt64.toNat_toUInt8, UInt64.toNat_and]
    exact (Nat.mod_eq_of_lt (Nat.lt_of_le_of_lt Nat.and_le_right (by decide))).trans
      (Nat.and_two_pow_sub_one_eq_mod lba.toNat 8)
  have hbyte (shift : UInt64) (hshift : shift.toNat < 64) :
      (lbaByte lba shift).toNat = lba.toNat / 2 ^ shift.toNat % 256 := by
    rw [lbaByte, UInt64.toNat_toUInt8, UInt64.toNat_and, UInt64.toNat_shiftRight,
      Nat.mod_eq_of_lt hshift, Nat.shiftRight_eq_div_pow]
    exact (Nat.mod_eq_of_lt (Nat.lt_of_le_of_lt Nat.and_le_right (by decide))).trans
      (Nat.and_two_pow_sub_one_eq_mod _ 8)
  have h1 := hbyte 8 (by decide)
  have h2 := hbyte 16 (by decide)
  have h3 := hbyte 24 (by decide)
  have h4 := hbyte 32 (by decide)
  have h5 := hbyte 40 (by decide)
  simp only [UInt64.reduceToNat] at h1 h2 h3 h4 h5
  show (lba &&& 0xFF).toUInt8.toNat + 2 ^ 8 * (lbaByte lba 8).toNat +
    2 ^ 16 * (lbaByte lba 16).toNat + 2 ^ 24 * (lbaByte lba 24).toNat +
    2 ^ 32 * (lbaByte lba 32).toNat + 2 ^ 40 * (lbaByte lba 40).toNat = _
  rw [hlow, h1, h2, h3, h4, h5]
  omega

/-- The FIS holds the whole count. -/
theorem setupCommand_sectors (command : UInt8) (lba : UInt64) (count : UInt16) (bufSize : UInt32)
    (write : Bool) : (setupCommand command lba count bufSize write).fis.sectors =
      if count = 0 then 65536 else count.toNat := by
  have hlow : (count &&& 0xFF).toUInt8.toNat = count.toNat % 256 := by
    rw [UInt16.toNat_toUInt8, UInt16.toNat_and]
    exact (Nat.mod_eq_of_lt (Nat.lt_of_le_of_lt Nat.and_le_right (by decide))).trans
      (Nat.and_two_pow_sub_one_eq_mod count.toNat 8)
  have hhigh : ((count >>> 8) &&& 0xFF).toUInt8.toNat = count.toNat / 256 % 256 := by
    rw [UInt16.toNat_toUInt8, UInt16.toNat_and, UInt16.toNat_shiftRight,
      Nat.shiftRight_eq_div_pow]
    exact (Nat.mod_eq_of_lt (Nat.lt_of_le_of_lt Nat.and_le_right (by decide))).trans
      (Nat.and_two_pow_sub_one_eq_mod _ 8)
  have hlt := count.toNat_lt
  have hsum : (count &&& 0xFF).toUInt8.toNat + 2 ^ 8 * ((count >>> 8) &&& 0xFF).toUInt8.toNat =
      count.toNat := by
    rw [hlow, hhigh]
    omega
  show (if (count &&& 0xFF).toUInt8.toNat + 2 ^ 8 * ((count >>> 8) &&& 0xFF).toUInt8.toNat = 0
    then 65536
    else (count &&& 0xFF).toUInt8.toNat + 2 ^ 8 * ((count >>> 8) &&& 0xFF).toUInt8.toNat) = _
  rw [hsum]
  by_cases hzero : count = 0
  · subst hzero
    rfl
  · have hne : count.toNat ≠ 0 := fun heq ↦ hzero (UInt16.toNat_inj.mp heq)
    rw [if_neg hzero, if_neg hne]

end Avaria.Ahci
