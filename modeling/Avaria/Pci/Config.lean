import Mathlib.Algebra.Group.Nat.Defs
import Mathlib.Logic.Function.Basic

/-!
# The PCI configuration space

The accesses of `drv/pci.rs` through the address and the data port of the host bridge. The bridge
decodes the latched address word; `selected_configAddress` and `register_configAddress` say that it
finds the function and the register that the driver means, so that reads show the space whatever the
latch held before (`configRead32_eq`) and writes change one register of one function
(`configWrite32_eq`). The narrow reads shift the register that they read.
-/

namespace Avaria.Pci

/-- `struct PciAddr`. -/
@[ext]
structure PciAddr where
  bus : UInt8
  dev : UInt8
  func : UInt8
  deriving DecidableEq, Repr

/-- `PCI_CONFIG_ADDR`. -/
def PCI_CONFIG_ADDR : UInt16 := 0xCF8

/-- `PCI_CONFIG_DATA`. -/
def PCI_CONFIG_DATA : UInt16 := 0xCFC

/-- The registers of all functions, by the offsets of their first bytes. A function that is not
present reads as ones. -/
abbrev Space := PciAddr → UInt8 → UInt32

/-- The host bridge: the latched address word, the registers, and what a register holds after a
write, given what it held before. -/
structure Host where
  address : UInt32
  space : Space
  accept : PciAddr → UInt8 → UInt32 → UInt32 → UInt32

namespace Host

/-- The function that an address word selects. -/
def selected (address : UInt32) : PciAddr where
  bus := (address >>> 16).toUInt8
  dev := ((address >>> 11) &&& 0x1F).toUInt8
  func := ((address >>> 8) &&& 7).toUInt8

/-- The register that an address word selects. -/
def register (address : UInt32) : UInt8 := (address &&& 0xFC).toUInt8

/-- `outl`. The data port is connected while bit 31 of the latch is set. -/
def outl (host : Host) (port : UInt16) (val : UInt32) : Host :=
  if port = PCI_CONFIG_ADDR then { host with address := val }
  else if port = PCI_CONFIG_DATA ∧ host.address &&& 0x80000000 ≠ 0 then
    let addr := selected host.address
    let reg := register host.address
    { host with
      space := Function.update host.space addr
        (Function.update (host.space addr) reg (host.accept addr reg (host.space addr reg) val)) }
  else host

/-- `inl`. -/
def inl (host : Host) (port : UInt16) : UInt32 :=
  if port = PCI_CONFIG_ADDR then host.address
  else if port = PCI_CONFIG_DATA ∧ host.address &&& 0x80000000 ≠ 0 then
    host.space (selected host.address) (register host.address)
  else 0xFFFFFFFF

end Host

namespace PciAddr

/-- The address word of `config_read32` and `config_write32`. -/
def configAddress (addr : PciAddr) (offset : UInt8) : UInt32 :=
  (0x80000000 : UInt32) ||| addr.bus.toUInt32 <<< 16 ||| addr.dev.toUInt32 <<< 11 |||
    addr.func.toUInt32 <<< 8 ||| (offset.toUInt32 &&& 0xFC)

/-- `config_read32`. -/
def configRead32 (addr : PciAddr) (offset : UInt8) (host : Host) : UInt32 × Host :=
  let host := host.outl PCI_CONFIG_ADDR (addr.configAddress offset)
  (host.inl PCI_CONFIG_DATA, host)

/-- `config_write32`. -/
def configWrite32 (addr : PciAddr) (offset : UInt8) (val : UInt32) (host : Host) : Host :=
  (host.outl PCI_CONFIG_ADDR (addr.configAddress offset)).outl PCI_CONFIG_DATA val

/-- `config_read16`. -/
def configRead16 (addr : PciAddr) (offset : UInt8) (host : Host) : UInt16 × Host :=
  let (val, host) := addr.configRead32 (offset &&& 0xFC) host
  ((val >>> ((offset &&& 2).toUInt32 * 8)).toUInt16, host)

/-- `config_read8`. -/
def configRead8 (addr : PciAddr) (offset : UInt8) (host : Host) : UInt8 × Host :=
  let (val, host) := addr.configRead32 (offset &&& 0xFC) host
  ((val >>> ((offset &&& 3).toUInt32 * 8)).toUInt8, host)

/-- `vendor_id`. -/
def vendorId (addr : PciAddr) : Host → UInt16 × Host := addr.configRead16 0x00

/-- `device_id`. -/
def deviceId (addr : PciAddr) : Host → UInt16 × Host := addr.configRead16 0x02

/-- `class_code`. -/
def classCode (addr : PciAddr) : Host → UInt8 × Host := addr.configRead8 0x0B

/-- `subclass`. -/
def subclass (addr : PciAddr) : Host → UInt8 × Host := addr.configRead8 0x0A

/-- `prog_if`. -/
def progIf (addr : PciAddr) : Host → UInt8 × Host := addr.configRead8 0x09

/-- `header_type`. -/
def headerType (addr : PciAddr) : Host → UInt8 × Host := addr.configRead8 0x0E

/-- `bar`. -/
def bar (addr : PciAddr) (index : UInt8) : Host → UInt32 × Host :=
  addr.configRead32 (0x10 + index * 4)

/-- `bar_mem_base`. -/
def barMemBase (addr : PciAddr) (index : UInt8) (host : Host) : UInt64 × Host :=
  let (bar0, host) := addr.bar index host
  if bar0 &&& 1 ≠ 0 then ((bar0 &&& ~~~0x3).toUInt64, host)
  else
    let barType := (bar0 >>> 1) &&& 0x3
    let baseLo := (bar0 &&& ~~~0xF).toUInt64
    if barType = 2 then
      let (bar1, host) := addr.bar (index + 1) host
      (baseLo ||| bar1.toUInt64 <<< 32, host)
    else (baseLo, host)

/-- `enable_bus_master`. -/
def enableBusMaster (addr : PciAddr) (host : Host) : Host :=
  let (cmd, host) := addr.configRead16 0x04 host
  let newCmd := cmd ||| 0x06
  let (full, host) := addr.configRead32 0x04 host
  addr.configWrite32 0x04 ((full &&& 0xFFFF0000) ||| newCmd.toUInt32) host

/-- An address on the bus: 32 devices of 8 functions. -/
def Valid (addr : PciAddr) : Prop := addr.dev < 32 ∧ addr.func < 8

instance (addr : PciAddr) : Decidable addr.Valid := inferInstanceAs (Decidable (_ ∧ _))

end PciAddr

/-! ## Decoding -/

section Decode

variable {addr : PciAddr} {offset : UInt8}

/-- The bits of a small number. -/
theorem getLsbD_of_lt {n : UInt8} {k i : Nat} (h : n.toNat < 2 ^ k) (hi : k ≤ i) :
    n.toBitVec.getLsbD i = false :=
  Nat.testBit_lt_two_pow (Nat.lt_of_lt_of_le h (Nat.pow_le_pow_right (by decide) hi))

/-- The bits of an address word. -/
theorem getLsbD_configAddress {i : Nat} (hi : i < 32) :
    (addr.configAddress offset).toBitVec.getLsbD i =
      (decide (i = 31) || (decide (16 ≤ i) && addr.bus.toBitVec.getLsbD (i - 16)) ||
        (decide (11 ≤ i) && addr.dev.toBitVec.getLsbD (i - 11)) ||
        (decide (8 ≤ i) && addr.func.toBitVec.getLsbD (i - 8)) ||
        (decide (2 ≤ i) && decide (i < 8) && offset.toBitVec.getLsbD i)) := by
  have hen : ∀ i < 32, (0x80000000#32).getLsbD i = decide (i = 31) := by decide
  have hmask : ∀ i < 32, (0xFC#32).getLsbD i = (decide (2 ≤ i) && decide (i < 8)) := by decide
  simp only [PciAddr.configAddress, UInt32.toBitVec_or, UInt32.toBitVec_and,
    UInt32.toBitVec_shiftLeft, UInt8.toBitVec_toUInt32, UInt32.toBitVec_ofNat, BitVec.getLsbD_or,
    BitVec.getLsbD_and, BitVec.getLsbD_setWidth, BitVec.reduceMod, BitVec.shiftLeft_eq',
    BitVec.reduceToNat, BitVec.getLsbD_shiftLeft, hen i hi, hmask i hi]
  grind

theorem configAddress_enabled : addr.configAddress offset &&& 0x80000000 ≠ 0 := by
  intro hzero
  have hbit : (addr.configAddress offset &&& 0x80000000).toBitVec.getLsbD 31 = true := by
    rw [UInt32.toBitVec_and, BitVec.getLsbD_and, getLsbD_configAddress (by decide)]
    rfl
  rw [hzero] at hbit
  exact absurd hbit (by decide)

/-- The bits of the low byte of a shifted word. -/
theorem getLsbD_byte (word : UInt32) {i k : Nat} (hi : i < 8) (hk : k < 32) :
    (word >>> UInt32.ofNat k).toUInt8.toBitVec.getLsbD i = word.toBitVec.getLsbD (k + i) := by
  have hshift : (UInt32.toBitVec (UInt32.ofNat k) % 32).toNat = k := by
    show k % 2 ^ 32 % 32 = k
    omega
  rw [UInt32.toBitVec_toUInt8, UInt32.toBitVec_shiftRight, BitVec.getLsbD_setWidth,
    BitVec.ushiftRight_eq', BitVec.getLsbD_ushiftRight, decide_eq_true hi, Bool.true_and]
  exact congrArg (fun n ↦ word.toBitVec.getLsbD (n + i)) hshift

theorem selected_configAddress (h : addr.Valid) :
    Host.selected (addr.configAddress offset) = addr := by
  obtain ⟨hdev, hfunc⟩ := h
  have hdev : ∀ i, 5 ≤ i → addr.dev.toBitVec.getLsbD i = false := fun i ↦
    getLsbD_of_lt (UInt8.lt_iff_toNat_lt.mp hdev)
  have hfunc : ∀ i, 3 ≤ i → addr.func.toBitVec.getLsbD i = false := fun i ↦
    getLsbD_of_lt (UInt8.lt_iff_toNat_lt.mp hfunc)
  have hfive : ∀ i < 8, (0x1F#8).getLsbD i = decide (i < 5) := by decide
  have hthree : ∀ i < 8, (7#8).getLsbD i = decide (i < 3) := by decide
  have hbus : (Host.selected (addr.configAddress offset)).bus = addr.bus := by
    apply UInt8.toBitVec_inj.mp
    apply BitVec.eq_of_getLsbD_eq
    intro i hi
    show (addr.configAddress offset >>> UInt32.ofNat 16).toUInt8.toBitVec.getLsbD i = _
    rw [getLsbD_byte _ hi (by decide), getLsbD_configAddress (by omega)]
    grind
  have hdevice : (Host.selected (addr.configAddress offset)).dev = addr.dev := by
    apply UInt8.toBitVec_inj.mp
    apply BitVec.eq_of_getLsbD_eq
    intro i hi
    show (addr.configAddress offset >>> UInt32.ofNat 11 &&& 0x1F).toUInt8.toBitVec.getLsbD i = _
    rw [UInt32.toUInt8_and, UInt8.toBitVec_and, BitVec.getLsbD_and, getLsbD_byte _ hi (by decide),
      getLsbD_configAddress (by omega), show UInt8.toBitVec (UInt32.toUInt8 0x1F) = 0x1F#8 from rfl,
      hfive i hi]
    grind
  have hfunction : (Host.selected (addr.configAddress offset)).func = addr.func := by
    apply UInt8.toBitVec_inj.mp
    apply BitVec.eq_of_getLsbD_eq
    intro i hi
    show (addr.configAddress offset >>> UInt32.ofNat 8 &&& 7).toUInt8.toBitVec.getLsbD i = _
    rw [UInt32.toUInt8_and, UInt8.toBitVec_and, BitVec.getLsbD_and, getLsbD_byte _ hi (by decide),
      getLsbD_configAddress (by omega), show UInt8.toBitVec (UInt32.toUInt8 7) = 7#8 from rfl,
      hthree i hi]
    grind
  exact PciAddr.ext hbus hdevice hfunction

theorem register_configAddress : Host.register (addr.configAddress offset) = offset &&& 0xFC := by
  have hmask : ∀ i < 8, (0xFC#8).getLsbD i = decide (2 ≤ i) := by decide
  apply UInt8.toBitVec_inj.mp
  apply BitVec.eq_of_getLsbD_eq
  intro i hi
  rw [Host.register, UInt32.toUInt8_and, UInt8.toBitVec_and, UInt8.toBitVec_and, BitVec.getLsbD_and,
    BitVec.getLsbD_and, show UInt8.toBitVec (UInt32.toUInt8 0xFC) = 0xFC#8 from rfl,
    show UInt8.toBitVec 0xFC = 0xFC#8 from rfl, hmask i hi, UInt32.toBitVec_toUInt8,
    BitVec.getLsbD_setWidth, getLsbD_configAddress (by omega)]
  grind

end Decode

/-! ## Accesses -/

section Access

variable {addr : PciAddr} {offset : UInt8} {host : Host}

/-- A read shows the space, whatever was latched before. -/
theorem configRead32_eq (h : addr.Valid) (offset : UInt8) (host : Host) :
    addr.configRead32 offset host =
      (host.space addr (offset &&& 0xFC), { host with address := addr.configAddress offset }) := by
  have hport : PCI_CONFIG_DATA ≠ PCI_CONFIG_ADDR := by decide
  simp only [PciAddr.configRead32, Host.outl, Host.inl, hport, configAddress_enabled, ite_true,
    ite_false, selected_configAddress h, register_configAddress, ne_eq, not_false_eq_true,
    and_self]

/-- A write changes one register of one function, whatever was latched before. -/
theorem configWrite32_eq (h : addr.Valid) (offset : UInt8) (val : UInt32) (host : Host) :
    addr.configWrite32 offset val host =
      { host with
        address := addr.configAddress offset
        space := Function.update host.space addr (Function.update (host.space addr)
          (offset &&& 0xFC)
          (host.accept addr (offset &&& 0xFC) (host.space addr (offset &&& 0xFC)) val)) } := by
  have hport : PCI_CONFIG_DATA ≠ PCI_CONFIG_ADDR := by decide
  simp only [PciAddr.configWrite32, Host.outl, hport, configAddress_enabled, ite_true, ite_false,
    selected_configAddress h, register_configAddress, ne_eq, not_false_eq_true, and_self]

/-- Two masks that keep the register of an offset. -/
theorem and_register (offset : UInt8) : offset &&& 0xFC &&& 0xFC = offset &&& 0xFC := by
  rw [UInt8.and_assoc]
  rfl

theorem configRead16_eq (h : addr.Valid) (offset : UInt8) (host : Host) :
    addr.configRead16 offset host =
      ((host.space addr (offset &&& 0xFC) >>> ((offset &&& 2).toUInt32 * 8)).toUInt16,
        { host with address := addr.configAddress (offset &&& 0xFC) }) := by
  rw [PciAddr.configRead16, configRead32_eq h, and_register]

theorem configRead8_eq (h : addr.Valid) (offset : UInt8) (host : Host) :
    addr.configRead8 offset host =
      ((host.space addr (offset &&& 0xFC) >>> ((offset &&& 3).toUInt32 * 8)).toUInt8,
        { host with address := addr.configAddress (offset &&& 0xFC) }) := by
  rw [PciAddr.configRead8, configRead32_eq h, and_register]

end Access

/-! ## Base addresses -/

/-- What a base address register describes: an I/O range, or memory with a 32-bit or a 64-bit
address. -/
inductive Bar where
  | io (base : UInt32)
  | mem32 (base : UInt32) (prefetchable : Bool)
  | mem64 (base : UInt64) (prefetchable : Bool)

namespace Bar

/-- Bit 3 of a memory BAR. -/
def prefetchBit (prefetchable : Bool) : UInt32 := if prefetchable then 8 else 0

/-- The word of the register itself. -/
def low : Bar → UInt32
  | io base => base ||| 1
  | mem32 base prefetchable => base ||| prefetchBit prefetchable
  | mem64 base prefetchable => base.toUInt32 ||| 4 ||| prefetchBit prefetchable

/-- The word of the register after it, where the address goes on. -/
def high : Bar → Option UInt32
  | mem64 base _ => some (base >>> 32).toUInt32
  | _ => none

/-- The range starts on the boundary that the low bits leave room for. -/
def Aligned : Bar → Prop
  | io base => base &&& 3 = 0
  | mem32 base _ => base &&& 0xF = 0
  | mem64 base _ => base &&& 0xF = 0

/-- The address that the range starts at. -/
def base : Bar → UInt64
  | io base => base.toUInt64
  | mem32 base _ => base.toUInt64
  | mem64 base _ => base

/-- The registers from `index` on hold a BAR. -/
def Stored (bar : Bar) (space : UInt8 → UInt32) (index : UInt8) : Prop :=
  space (0x10 + index * 4 &&& 0xFC) = bar.low ∧
    ∀ word ∈ bar.high, space (0x10 + (index + 1) * 4 &&& 0xFC) = word

end Bar

section Bars

variable {addr : PciAddr} {host : Host} {index : UInt8}

/-- Clearing the flags of a word gives the aligned part back. -/
theorem and_not_flags {base flags mask : UInt32} (hbase : base &&& mask = 0)
    (hflags : flags &&& ~~~mask = 0) : (base ||| flags) &&& ~~~mask = base := by
  have hdouble := congrArg UInt32.toBitVec hbase
  have hsingle := congrArg UInt32.toBitVec hflags
  apply UInt32.toBitVec_inj.mp
  apply BitVec.eq_of_getLsbD_eq
  intro i hi
  have hclear := congrArg (BitVec.getLsbD · i) hdouble
  have hkeep := congrArg (BitVec.getLsbD · i) hsingle
  simp only [UInt32.toBitVec_or, UInt32.toBitVec_and, UInt32.toBitVec_not, BitVec.getLsbD_and,
    BitVec.getLsbD_or, BitVec.getLsbD_not, hi, decide_true, Bool.true_and, UInt32.toBitVec_ofNat,
    BitVec.getLsbD_zero] at hclear hkeep ⊢
  grind

/-- What the flags of a word show when the address is aligned. -/
theorem or_and_flags {base flags mask bits : UInt32} (hbase : base &&& mask = 0)
    (hbits : bits &&& ~~~mask = 0) : (base ||| flags) &&& bits = flags &&& bits := by
  have hdouble := congrArg UInt32.toBitVec hbase
  have hsingle := congrArg UInt32.toBitVec hbits
  apply UInt32.toBitVec_inj.mp
  apply BitVec.eq_of_getLsbD_eq
  intro i hi
  have hclear := congrArg (BitVec.getLsbD · i) hdouble
  have hkeep := congrArg (BitVec.getLsbD · i) hsingle
  simp only [UInt32.toBitVec_or, UInt32.toBitVec_and, UInt32.toBitVec_not, BitVec.getLsbD_and,
    BitVec.getLsbD_or, BitVec.getLsbD_not, hi, decide_true, Bool.true_and, UInt32.toBitVec_ofNat,
    BitVec.getLsbD_zero] at hclear hkeep ⊢
  grind

/-- The low three bits of a word show its kind. -/
theorem kind_of_bits {word bits : UInt32} (h : word &&& 7 = bits) :
    word &&& (1 : UInt32) = bits &&& 1 ∧
      (word >>> (1 : UInt32)) &&& (3 : UInt32) = (bits &&& (6 : UInt32)) >>> 1 := by
  subst h
  constructor
  · rw [UInt32.and_assoc]
    rfl
  · rw [UInt32.and_assoc, UInt32.shiftRight_and]
    rfl

/-- The prefetch bit is none of the others that are looked at. -/
theorem prefetchBit_flags (prefetchable : Bool) :
    Bar.prefetchBit prefetchable &&& ~~~(0xF : UInt32) = 0 ∧
      Bar.prefetchBit prefetchable &&& 7 = 0 ∧
      ((4 : UInt32) ||| Bar.prefetchBit prefetchable) &&& ~~~(0xF : UInt32) = 0 ∧
      ((4 : UInt32) ||| Bar.prefetchBit prefetchable) &&& 7 = 4 := by
  cases prefetchable
  · exact ⟨rfl, rfl, rfl, rfl⟩
  · exact ⟨rfl, rfl, rfl, rfl⟩

/-- The parts of a 64-bit address. -/
theorem join_parts (base : UInt64) :
    base.toUInt32.toUInt64 ||| (base >>> 32).toUInt32.toUInt64 <<< 32 = base := by
  apply UInt64.toBitVec_inj.mp
  apply BitVec.eq_of_getLsbD_eq
  intro i hi
  simp only [UInt64.toBitVec_or, UInt64.toBitVec_shiftLeft, UInt64.toBitVec_shiftRight,
    UInt32.toBitVec_toUInt64, UInt64.toBitVec_toUInt32, UInt64.toBitVec_ofNat, BitVec.getLsbD_or,
    BitVec.getLsbD_setWidth, BitVec.reduceMod, BitVec.shiftLeft_eq', BitVec.ushiftRight_eq',
    BitVec.reduceToNat, BitVec.getLsbD_shiftLeft, BitVec.getLsbD_ushiftRight]
  grind

/-- The base address of every BAR is read back, whichever of the three kinds it is. -/
theorem barMemBase_eq (h : addr.Valid) {bar : Bar} (haligned : bar.Aligned)
    (hstored : bar.Stored (host.space addr) index) :
    (addr.barMemBase index host).1 = bar.base := by
  obtain ⟨hlow, hhigh⟩ := hstored
  simp only [PciAddr.barMemBase, PciAddr.bar, configRead32_eq h, hlow]
  cases bar with
  | io base =>
      have hkind : (base ||| 1) &&& 1 ≠ 0 := by
        rw [or_and_flags haligned (by decide)]
        decide
      rw [show Bar.low (.io base) = base ||| 1 from rfl, if_pos hkind]
      exact congrArg UInt32.toUInt64 (and_not_flags haligned (by decide))
  | mem32 base prefetchable =>
      obtain ⟨hflags, htype, -, -⟩ := prefetchBit_flags prefetchable
      have hbits : (base ||| Bar.prefetchBit prefetchable) &&& 7 = 0 := by
        rw [or_and_flags haligned (by decide), htype]
      obtain ⟨hkind, hnarrow⟩ := kind_of_bits hbits
      have hmemory : (base ||| Bar.prefetchBit prefetchable) &&& 1 = 0 := hkind
      rw [show Bar.low (.mem32 base prefetchable) = base ||| Bar.prefetchBit prefetchable from rfl,
        if_neg (not_not_intro hmemory), hnarrow, if_neg (by decide)]
      exact congrArg UInt32.toUInt64 (and_not_flags haligned hflags)
  | mem64 base prefetchable =>
      obtain ⟨-, -, hflags, htype⟩ := prefetchBit_flags prefetchable
      have hlower : base.toUInt32 &&& 0xF = 0 :=
        (UInt64.toUInt32_and base 0xF).symm.trans (congrArg UInt64.toUInt32 haligned)
      have hbits : (base.toUInt32 ||| (4 ||| Bar.prefetchBit prefetchable)) &&& 7 = 4 := by
        rw [or_and_flags hlower (by decide), htype]
      obtain ⟨hkind, hwide⟩ := kind_of_bits hbits
      have hmemory : (base.toUInt32 ||| (4 ||| Bar.prefetchBit prefetchable)) &&& 1 = 0 := hkind
      rw [show Bar.low (.mem64 base prefetchable) =
          base.toUInt32 ||| (4 ||| Bar.prefetchBit prefetchable) from UInt32.or_assoc ..,
        if_neg (not_not_intro hmemory), hwide, if_pos (by decide), hhigh _ rfl,
        and_not_flags hlower hflags]
      exact join_parts base

end Bars

/-! ## Bus mastering -/

section Command

variable {addr : PciAddr} {host : Host}

/-- Setting flags in the low half of a word and keeping its high half. -/
theorem join_halves (word : UInt32) (flags : UInt16) :
    (word &&& 0xFFFF0000) ||| (word.toUInt16 ||| flags).toUInt32 = word ||| flags.toUInt32 := by
  have hmask : ∀ i < 32, (0xFFFF0000#32).getLsbD i = decide (16 ≤ i) := by decide
  apply UInt32.toBitVec_inj.mp
  apply BitVec.eq_of_getLsbD_eq
  intro i hi
  simp only [UInt32.toBitVec_or, UInt32.toBitVec_and, UInt16.toBitVec_toUInt32,
    UInt16.toBitVec_or, UInt32.toBitVec_toUInt16, UInt32.toBitVec_ofNat, BitVec.getLsbD_or,
    BitVec.getLsbD_and, BitVec.getLsbD_setWidth, hmask i hi]
  grind

/-- `enable_bus_master` writes the two flags over the whole command and status word that it read,
to that register of that function only. -/
theorem enableBusMaster_space (h : addr.Valid) (host : Host) :
    (addr.enableBusMaster host).space =
      Function.update host.space addr (Function.update (host.space addr) 4
        (host.accept addr 4 (host.space addr 4) (host.space addr 4 ||| 6))) := by
  have hword : (host.space addr 4 &&& 0xFFFF0000) |||
      ((host.space addr 4 >>> ((4 &&& 2 : UInt8).toUInt32 * 8)).toUInt16 ||| 6).toUInt32 =
        host.space addr 4 ||| 6 := join_halves _ 6
  simp only [PciAddr.enableBusMaster, configRead16_eq h, configRead32_eq h, configWrite32_eq h]
  rw [show (4 &&& 0xFC : UInt8) = 4 from rfl, hword]

/-- What the command and status word holds after a write: the command half takes the value, and the
error flags of the status half are cleared by ones. -/
def commandAccept (old val : UInt32) : UInt32 :=
  (val &&& 0x0000FFFF) ||| (old &&& 0xFFFF0000 &&& ~~~(val &&& 0xF9000000))

/-- Bus mastering and memory decoding are on afterwards and the other command bits stay. The flags
of the status half are cleared, since the word that shows them is written back. Nothing else in the
space changes. -/
theorem enableBusMaster_effect (addr : PciAddr) (host : Host) (h : addr.Valid)
    (haccept : host.accept addr 4 = commandAccept) :
    (addr.enableBusMaster host).space addr 4 = host.space addr 4 &&& 0x06FFFFFF ||| 6 ∧
      (∀ reg ≠ 4, (addr.enableBusMaster host).space addr reg = host.space addr reg) ∧
      ∀ other ≠ addr, (addr.enableBusMaster host).space other = host.space other := by
  rw [enableBusMaster_space h]
  refine ⟨?_, ?_, ?_⟩
  · have hlow : ∀ i < 32, (0x0000FFFF#32).getLsbD i = decide (i < 16) := by decide
    have hhigh : ∀ i < 32, (0xFFFF0000#32).getLsbD i = decide (16 ≤ i) := by decide
    have hkeep : ∀ i < 32, (0x06FFFFFF#32).getLsbD i =
        (decide (i < 16) || !(0xF9000000#32).getLsbD i) := by decide
    have hflags : ∀ i < 32, 16 ≤ i → (6#32).getLsbD i = false := by decide
    rw [Function.update_self, Function.update_self, haccept, commandAccept]
    apply UInt32.toBitVec_inj.mp
    apply BitVec.eq_of_getLsbD_eq
    intro i hi
    have hflag := hflags i hi
    simp only [UInt32.toBitVec_or, UInt32.toBitVec_and, UInt32.toBitVec_not, UInt32.toBitVec_ofNat,
      BitVec.getLsbD_or, BitVec.getLsbD_and, BitVec.getLsbD_not, hlow i hi, hhigh i hi, hkeep i hi,
      hi, decide_true, Bool.true_and]
    grind
  · intro reg hreg
    rw [Function.update_self, Function.update_of_ne hreg]
  · intro other hother
    rw [Function.update_of_ne hother]

end Command

end Avaria.Pci
