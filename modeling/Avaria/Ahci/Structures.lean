import Avaria.Ahci.Command
import Avaria.Lib.ByteMap
import Avaria.Mem.MapMmio

/-!
# The structures of a port in memory

`setup_command` as it writes to memory, and the controller as it reads: from the registers of a port
to the command list, from there to the command table and its descriptor. The driver writes at
virtual addresses and the controller reads at physical ones.

`Wired` says that the registers and the command header of a port lead to the pages that the driver
uses for it. Then the controller fetches the command that was set up (`Wired.fetch_setup`), and
writes outside the two pages change nothing of it (`commandAt_congr`).
-/

namespace Avaria.Ahci

open Mem

/-! ## Writing a command -/

/-- The bytes of `struct FisRegH2D`. -/
def FisRegH2D.bytes (fis : FisRegH2D) : List UInt8 :=
  [fis.fis_type, fis.flags, fis.command, fis.feature_lo, fis.lba0, fis.lba1, fis.lba2, fis.device,
    fis.lba3, fis.lba4, fis.lba5, fis.feature_hi, fis.count_lo, fis.count_hi, fis.icc, fis.control]

/-- The size of `struct HbaCmdTable`. -/
def CMD_TABLE_SIZE : Nat := 144

/-- `setup_command`, with the pages of the port. The pointer to the table in the header stays. -/
def setupCommandIn (clb ctba : Nat) (cmd : HbaCommand) (bufPhys : UInt64) (memory : ByteMap) :
    ByteMap :=
  ((((((((memory.fill ⟨ctba, CMD_TABLE_SIZE⟩ 0).store clb (ByteMap.toLe 2 cmd.flags.toNat)).store
    (clb + 2) (ByteMap.toLe 2 cmd.prdtl.toNat)).store (clb + 4)
    (ByteMap.toLe 4 cmd.prdbc.toNat)).store (ctba + 128)
    (ByteMap.toLe 4 bufPhys.toUInt32.toNat)).store (ctba + 132)
    (ByteMap.toLe 4 (bufPhys >>> 32).toUInt32.toNat)).store (ctba + 136)
    (ByteMap.toLe 4 0)).store (ctba + 140) (ByteMap.toLe 4 cmd.dbc.toNat)).store ctba
    cmd.fis.bytes

/-! ## The controller -/

/-- Memory at physical addresses. -/
def physical (hhdm : UInt64) (memory : ByteMap) : ByteMap := fun addr ↦ memory (addr + hhdm.toNat)

/-- The registers that `init_port` leaves a port with. -/
structure HbaPort where
  clb : UInt32
  clbu : UInt32
  fb : UInt32
  fbu : UInt32
  cmd : UInt32

/-- The address in two registers. -/
def pointer (low high : UInt32) : Nat := low.toNat + 2 ^ 32 * high.toNat

/-- The FIS at an address. -/
def readFis (memory : ByteMap) (addr : Nat) : FisRegH2D where
  fis_type := memory addr
  flags := memory (addr + 1)
  command := memory (addr + 2)
  feature_lo := memory (addr + 3)
  lba0 := memory (addr + 4)
  lba1 := memory (addr + 5)
  lba2 := memory (addr + 6)
  device := memory (addr + 7)
  lba3 := memory (addr + 8)
  lba4 := memory (addr + 9)
  lba5 := memory (addr + 10)
  feature_hi := memory (addr + 11)
  count_lo := memory (addr + 12)
  count_hi := memory (addr + 13)
  icc := memory (addr + 14)
  control := memory (addr + 15)

/-- What a controller makes of a command: all but the count of bytes in the header, which it writes
itself. -/
structure Fetched where
  flags : UInt16
  prdtl : UInt16
  dba : Nat
  dbc : UInt32
  fis : FisRegH2D

/-- The command for the controller. -/
def HbaCommand.fetched (cmd : HbaCommand) (bufPhys : UInt64) : Fetched :=
  ⟨cmd.flags, cmd.prdtl, bufPhys.toNat, cmd.dbc, cmd.fis⟩

/-- The command with its header at one address and its table at another. -/
def commandAt (memory : ByteMap) (header table : Nat) : Fetched where
  flags := UInt16.ofNat (memory.fromLe header 2)
  prdtl := UInt16.ofNat (memory.fromLe (header + 2) 2)
  dba := memory.fromLe (table + 128) 4 + 2 ^ 32 * memory.fromLe (table + 132) 4
  dbc := UInt32.ofNat (memory.fromLe (table + 140) 4)
  fis := readFis memory table

/-- What a controller fetches for slot 0 of a port. -/
def fetch (regs : HbaPort) (memory : ByteMap) : Fetched :=
  let header := pointer regs.clb regs.clbu
  commandAt memory header
    (memory.fromLe (header + 8) 4 + 2 ^ 32 * memory.fromLe (header + 12) 4)

/-! ## What it fetches -/

section Fetch

variable {hhdm : UInt64} {regs : HbaPort} {memory : ByteMap} {clb ctba : Nat}

/-- The page of an address. -/
def page (addr : Nat) : Extent := ⟨addr, 4096⟩

/-- The registers and the header of a port lead to its pages. -/
structure Wired (hhdm : UInt64) (regs : HbaPort) (memory : ByteMap) (clb ctba : Nat) : Prop where
  clb_page : HhdmPage hhdm clb
  ctba_page : HhdmPage hhdm ctba
  ne : clb ≠ ctba
  clb_low : regs.clb = (virtToPhys hhdm clb).toUInt32
  clb_high : regs.clbu = (virtToPhys hhdm clb >>> 32).toUInt32
  table_low : memory.fromLe (clb + 8) 4 = (virtToPhys hhdm ctba).toUInt32.toNat
  table_high : memory.fromLe (clb + 12) 4 = (virtToPhys hhdm ctba >>> 32).toUInt32.toNat

/-- The two halves of an address lead to it. -/
theorem pointer_halves (addr : UInt64) :
    pointer addr.toUInt32 (addr >>> 32).toUInt32 = addr.toNat := by
  have hlt := addr.toNat_lt
  show addr.toNat % 2 ^ 32 + 2 ^ 32 * ((addr >>> 32).toNat % 2 ^ 32) = addr.toNat
  rw [UInt64.toNat_shiftRight, show (32 : UInt64).toNat % 64 = 32 from rfl,
    Nat.shiftRight_eq_div_pow]
  omega

/-- Different pages share no address. -/
theorem page_apart {first second : Nat} (hfirst : HhdmPage hhdm first)
    (hsecond : HhdmPage hhdm second) (hne : first ≠ second) : (page first).Apart (page second) := by
  obtain ⟨ha, -⟩ := hfirst
  obtain ⟨hb, -⟩ := hsecond
  show first + 4096 ≤ second ∨ second + 4096 ≤ first
  omega

theorem fromLe_physical {addr width : Nat} :
    (physical hhdm memory).fromLe addr width = memory.fromLe (addr + hhdm.toNat) width :=
  ByteMap.fromLe_congr fun i _ ↦ by
    show memory (addr + i + hhdm.toNat) = _
    rw [Nat.add_right_comm]

/-- A command in physical memory is one in virtual memory. -/
theorem commandAt_physical {header table : Nat} :
    commandAt (physical hhdm memory) header table =
      commandAt memory (header + hhdm.toNat) (table + hhdm.toNat) := by
  simp only [commandAt, readFis, physical, fromLe_physical, Nat.add_right_comm]

/-- A wired port fetches from the two pages of the driver. -/
theorem Wired.fetch_eq (h : Wired hhdm regs memory clb ctba) :
    fetch regs (physical hhdm memory) = commandAt memory clb ctba := by
  have hclb : pointer regs.clb regs.clbu + hhdm.toNat = clb := by
    rw [h.clb_low, h.clb_high, pointer_halves, h.clb_page.toNat_virtToPhys]
    exact Nat.sub_add_cancel h.clb_page.2.1
  have hwords : memory.fromLe (clb + 8) 4 + 2 ^ 32 * memory.fromLe (clb + 12) 4 =
      (virtToPhys hhdm ctba).toNat := by
    rw [h.table_low, h.table_high]
    exact pointer_halves _
  have htable : (virtToPhys hhdm ctba).toNat + hhdm.toNat = ctba := by
    rw [h.ctba_page.toNat_virtToPhys]
    exact Nat.sub_add_cancel h.ctba_page.2.1
  rw [fetch, commandAt_physical, fromLe_physical, fromLe_physical, Nat.add_right_comm _ 8,
    Nat.add_right_comm _ 12, hclb, hwords, htable]

/-- A command is in the first four bytes of its header and in its table. -/
theorem commandAt_congr {other : ByteMap}
    (hheader : ∀ k, (Extent.mk clb 4).Contains k → other k = memory k)
    (htable : ∀ k, (Extent.mk ctba CMD_TABLE_SIZE).Contains k → other k = memory k) :
    commandAt other clb ctba = commandAt memory clb ctba := by
  have hhead : ∀ offset width, offset + width ≤ 4 →
      other.fromLe (clb + offset) width = memory.fromLe (clb + offset) width :=
    fun offset width hfits ↦ ByteMap.fromLe_congr fun i hi ↦ hheader _ (by
      show clb ≤ _ ∧ _ < clb + 4
      omega)
  have hbyte : ∀ offset < CMD_TABLE_SIZE, other (ctba + offset) = memory (ctba + offset) :=
    fun offset hoffset ↦ htable _ ⟨Nat.le_add_right .., Nat.add_lt_add_left hoffset ctba⟩
  have htail : ∀ offset width, offset + width ≤ CMD_TABLE_SIZE →
      other.fromLe (ctba + offset) width = memory.fromLe (ctba + offset) width :=
    fun offset width hfits ↦ ByteMap.fromLe_congr fun i hi ↦ by
      rw [Nat.add_assoc]
      exact hbyte _ (by omega)
  have hfirst := hhead 0 2 (by decide)
  have hstart := hbyte 0 (by decide)
  rw [Nat.add_zero] at hfirst hstart
  simp only [commandAt, readFis, hfirst, hstart, hhead 2 2 (by decide), htail 140 4 (by decide),
    htail 128 4 (by decide), htail 132 4 (by decide),
    hbyte 1 (by decide), hbyte 2 (by decide), hbyte 3 (by decide), hbyte 4 (by decide),
    hbyte 5 (by decide), hbyte 6 (by decide), hbyte 7 (by decide), hbyte 8 (by decide),
    hbyte 9 (by decide), hbyte 10 (by decide), hbyte 11 (by decide), hbyte 12 (by decide),
    hbyte 13 (by decide), hbyte 14 (by decide), hbyte 15 (by decide)]

/-! ## What `setup_command` changes -/

/-- `setup_command` writes to the table and to the first 8 bytes of the header. -/
theorem setupCommandIn_outside {cmd : HbaCommand} {bufPhys : UInt64} {k : Nat}
    (hheader : ¬(Extent.mk clb 8).Contains k)
    (htable : ¬(Extent.mk ctba CMD_TABLE_SIZE).Contains k) :
    setupCommandIn clb ctba cmd bufPhys memory k = memory k := by
  have hfis : cmd.fis.bytes.length = 16 := rfl
  have hhead : k < clb ∨ clb + 8 ≤ k := by
    simp only [Extent.Contains] at hheader
    omega
  have htail : k < ctba ∨ ctba + 144 ≤ k := by
    simp only [Extent.Contains, CMD_TABLE_SIZE] at htable
    omega
  unfold setupCommandIn
  iterate 8 rw [ByteMap.store_outside (by simp only [ByteMap.length_toLe, hfis]; omega)]
  exact ByteMap.fill_of_not_contains htable

/-- A FIS that was stored is read back. -/
theorem readFis_store (fis : FisRegH2D) (addr : Nat) :
    readFis (memory.store addr fis.bytes) addr = fis := by
  have hbyte : ∀ i (hi : i < 16),
      memory.store addr fis.bytes (addr + i) = fis.bytes.get ⟨i, hi⟩ :=
    fun i hi ↦ @ByteMap.store_inside memory addr i fis.bytes hi
  have hfirst := hbyte 0 (by decide)
  rw [Nat.add_zero] at hfirst
  rw [readFis, hfirst, hbyte 1 (by decide), hbyte 2 (by decide), hbyte 3 (by decide),
    hbyte 4 (by decide), hbyte 5 (by decide), hbyte 6 (by decide), hbyte 7 (by decide),
    hbyte 8 (by decide), hbyte 9 (by decide), hbyte 10 (by decide), hbyte 11 (by decide),
    hbyte 12 (by decide), hbyte 13 (by decide), hbyte 14 (by decide), hbyte 15 (by decide)]
  rfl

/-- The command that was set up is there. -/
theorem commandAt_setupCommandIn {cmd : HbaCommand} {bufPhys : UInt64}
    (hapart : (page clb).Apart (page ctba)) :
    commandAt (setupCommandIn clb ctba cmd bufPhys memory) clb ctba =
      cmd.fetched bufPhys := by
  have hapart : clb + 4096 ≤ ctba ∨ ctba + 4096 ≤ clb := hapart
  have hfis : cmd.fis.bytes.length = 16 := rfl
  have hflags : cmd.flags.toNat % 256 ^ 2 = cmd.flags.toNat := Nat.mod_eq_of_lt cmd.flags.toNat_lt
  have hprdtl : cmd.prdtl.toNat % 256 ^ 2 = cmd.prdtl.toNat := Nat.mod_eq_of_lt cmd.prdtl.toNat_lt
  have hdbc : cmd.dbc.toNat % 256 ^ 4 = cmd.dbc.toNat := Nat.mod_eq_of_lt cmd.dbc.toNat_lt
  have hlow : bufPhys.toUInt32.toNat % 256 ^ 4 = bufPhys.toUInt32.toNat :=
    Nat.mod_eq_of_lt bufPhys.toUInt32.toNat_lt
  have hhigh : (bufPhys >>> 32).toUInt32.toNat % 256 ^ 4 = (bufPhys >>> 32).toUInt32.toNat :=
    Nat.mod_eq_of_lt (bufPhys >>> 32).toUInt32.toNat_lt
  rw [commandAt, setupCommandIn, readFis_store]
  simp (disch := simp only [ByteMap.length_toLe, hfis]; omega) only
    [ByteMap.fromLe_store_apart, ByteMap.fromLe_store]
  have hbuffer : bufPhys.toUInt32.toNat + 2 ^ 32 * (bufPhys >>> 32).toUInt32.toNat =
      bufPhys.toNat := pointer_halves bufPhys
  rw [hflags, hprdtl, hdbc, hlow, hhigh, UInt16.ofNat_toNat, UInt16.ofNat_toNat,
    UInt32.ofNat_toNat, hbuffer]
  rfl

/-- What happens outside the two pages of a port, and in the first half of its header, keeps it
wired. -/
theorem Wired.congr (h : Wired hhdm regs memory clb ctba) {other : ByteMap}
    (hmemory : ∀ k, (Extent.mk (clb + 8) 8).Contains k → other k = memory k) :
    Wired hhdm regs other clb ctba := by
  have hword : ∀ offset width, 8 ≤ offset → offset + width ≤ 16 →
      other.fromLe (clb + offset) width = memory.fromLe (clb + offset) width :=
    fun offset width hfrom hfits ↦ ByteMap.fromLe_congr fun i hi ↦ hmemory _ (by
      show clb + 8 ≤ _ ∧ _ < clb + 8 + 8
      omega)
  exact { h with
    table_low := (hword 8 4 (by decide) (by decide)).trans h.table_low
    table_high := (hword 12 4 (by decide) (by decide)).trans h.table_high }

/-- Setting up a command keeps the port wired. -/
theorem Wired.setup (h : Wired hhdm regs memory clb ctba) (cmd : HbaCommand) (bufPhys : UInt64) :
    Wired hhdm regs (setupCommandIn clb ctba cmd bufPhys memory) clb ctba := by
  have hapart := page_apart h.clb_page h.ctba_page h.ne
  refine h.congr fun k hk ↦ setupCommandIn_outside ?_ ?_
  · simp only [Extent.Contains] at hk ⊢
    omega
  · simp only [Extent.Apart, Extent.Contains, page, CMD_TABLE_SIZE] at hk hapart ⊢
    omega

/-- A wired port fetches the command that was set up. -/
theorem Wired.fetch_setup (h : Wired hhdm regs memory clb ctba) (cmd : HbaCommand)
    (bufPhys : UInt64) :
    fetch regs (physical hhdm (setupCommandIn clb ctba cmd bufPhys memory)) =
      cmd.fetched bufPhys := by
  rw [(h.setup cmd bufPhys).fetch_eq]
  exact commandAt_setupCommandIn (page_apart h.clb_page h.ctba_page h.ne)

end Fetch

end Avaria.Ahci
