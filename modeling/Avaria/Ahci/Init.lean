import Avaria.Ahci.Port
import Avaria.Ahci.Structures
import Avaria.Lib.PackedBits
import Avaria.Mem.Kmalloc
import Avaria.Pci.Scan

/-!
# Bringing up the controller

`ahci::init` finds the controller on the PCI bus, maps its registers and sets up its ports: three
pages for each port with a disk, wired to the registers, and an IDENTIFY command. A port whose pages
could not all be obtained stays inactive and keeps those that were.

`PortsReady` is the invariant of the loop over the ports: the pages of the active ports are all
different and not among those that the page source has left, and each active port is wired to its
own. With it `init_ports` says what `init` leaves behind.
-/

namespace Avaria.Ahci

open Mem Mm Pci Ring3

/-! ## The driver -/

/-- `GHC_AE`. -/
def GHC_AE : UInt32 := (1 : UInt32) <<< 31

/-- `PORT_CMD_ST`. -/
def PORT_CMD_ST : UInt32 := (1 : UInt32) <<< 0

/-- `PORT_CMD_FRE`. -/
def PORT_CMD_FRE : UInt32 := (1 : UInt32) <<< 4

/-- `SATA_SIG_ATA`. -/
def SATA_SIG_ATA : UInt32 := 0x00000101

/-- `ATA_CMD_IDENTIFY`. -/
def ATA_CMD_IDENTIFY : UInt8 := 0xEC

/-- `MAX_PORTS`. -/
def MAX_PORTS : Nat := 32

/-- What the controller shows and does: its registers, CMD as it reads after the polls of
`stop_port`, whether a port becomes ready for IDENTIFY, and what it has written by the time that
`issue_command` returns, given the command list, the receive area and the buffer. -/
structure Controller where
  pi : UInt32
  ssts : Nat → UInt32
  sig : Nat → UInt32
  settled : Nat → UInt32 → UInt32
  ready : Nat → Bool
  dma : Nat → Nat → Nat → Nat → ByteMap → ByteMap

/-- The statics of `ahci.rs` with what they refer to: the PCI bridge, the page tables, the heap, the
memory behind it and the registers. -/
structure Driver (σ : Type*) where
  host : Host
  tables : PhysMem
  heap : Heap σ
  memory : ByteMap
  ghc : UInt32
  regs : Nat → HbaPort
  abar : UInt64
  identifyBuf : Nat
  activePorts : UInt32
  portClb : Nat → Nat
  portFb : Nat → Nat
  portCtba : Nat → Nat

namespace Driver

variable {σ : Type*} [PageSource σ]

/-- `stop_port`. The polls read only, and the port is reused after a timeout as well. -/
def stopPort (ctl : Controller) (i : Nat) (driver : Driver σ) : Driver σ :=
  let cmd := (driver.regs i).cmd &&& ~~~PORT_CMD_ST
  let cmd := cmd &&& ~~~PORT_CMD_FRE
  { driver with
    regs := Function.update driver.regs i { driver.regs i with cmd := ctl.settled i cmd } }

/-- `start_port`. -/
def startPort (i : Nat) (driver : Driver σ) : Driver σ :=
  let cmd := (driver.regs i).cmd ||| PORT_CMD_FRE
  let cmd := cmd ||| PORT_CMD_ST
  { driver with regs := Function.update driver.regs i { driver.regs i with cmd } }

/-- A page of `kmalloc_aligned`, cleared. -/
def allocPage (driver : Driver σ) : Nat × Driver σ :=
  let (ptr, heap) := driver.heap.kmallocAligned 4096 4096
  if ptr = 0 then (0, { driver with heap })
  else (ptr, { driver with heap, memory := driver.memory.fill (page ptr) 0 })

/-- `init_port`: the registers and the header lead to the pages. -/
def connect (hhdm : UInt64) (i clb fb ct : Nat) (driver : Driver σ) : Driver σ :=
  let clbPhys := virtToPhys hhdm clb
  let fbPhys := virtToPhys hhdm fb
  let ctPhys := virtToPhys hhdm ct
  { driver with
    portClb := Function.update driver.portClb i clb
    portFb := Function.update driver.portFb i fb
    portCtba := Function.update driver.portCtba i ct
    regs := Function.update driver.regs i
      { driver.regs i with
        clb := clbPhys.toUInt32
        clbu := (clbPhys >>> 32).toUInt32
        fb := fbPhys.toUInt32
        fbu := (fbPhys >>> 32).toUInt32 }
    memory := (driver.memory.store (clb + 8) (ByteMap.toLe 4 ctPhys.toUInt32.toNat)).store
      (clb + 12) (ByteMap.toLe 4 (ctPhys >>> 32).toUInt32.toNat) }

/-- `init_port`. -/
def initPort (ctl : Controller) (hhdm : UInt64) (i : Nat) (driver : Driver σ) : Bool × Driver σ :=
  let (clb, driver) := (driver.stopPort ctl i).allocPage
  if clb = 0 then (false, driver)
  else
    let (fb, driver) := driver.allocPage
    if fb = 0 then (false, driver)
    else
      let (ct, driver) := driver.allocPage
      if ct = 0 then (false, driver)
      else (true, (driver.connect hhdm i clb fb ct).startPort i)

/-- `identify_device`, up to the output of what was read. -/
def identifyDevice (ctl : Controller) (hhdm : UInt64) (i : Nat) (driver : Driver σ) : Driver σ :=
  if driver.identifyBuf = 0 then driver
  else
    let memory := driver.memory.fill ⟨driver.identifyBuf, 512⟩ 0
    if ctl.ready i then
      let cmd := setupCommand ATA_CMD_IDENTIFY 0 1 512 false
      { driver with
        memory := ctl.dma i (driver.portClb i) (driver.portFb i) driver.identifyBuf
          (setupCommandIn (driver.portClb i) (driver.portCtba i) cmd
            (virtToPhys hhdm driver.identifyBuf) memory) }
    else { driver with memory }

/-- `init`: the tests for a port that has a disk. -/
def HasDisk (ctl : Controller) (i : Nat) : Prop :=
  ctl.pi &&& (1 : UInt32) <<< UInt32.ofNat i ≠ 0 ∧ ctl.ssts i &&& 0x0F = 3 ∧
    (ctl.ssts i >>> 8) &&& 0x0F = 1 ∧ ctl.sig i = SATA_SIG_ATA

instance (ctl : Controller) (i : Nat) : Decidable (HasDisk ctl i) :=
  inferInstanceAs (Decidable (_ ∧ _ ∧ _ ∧ _))

/-- `init`: the body of the loop over the ports. -/
def visitPort (ctl : Controller) (hhdm : UInt64) (driver : Driver σ) (i : Nat) : Driver σ :=
  if HasDisk ctl i then
    match driver.initPort ctl hhdm i with
    | (false, driver) => driver
    | (true, driver) =>
        identifyDevice ctl hhdm i
          { driver with activePorts := driver.activePorts ||| (1 : UInt32) <<< UInt32.ofNat i }
  else driver

/-- `init`: the loop over the ports. -/
def visitPorts (ctl : Controller) (hhdm : UInt64) (driver : Driver σ) : Driver σ :=
  (List.range MAX_PORTS).foldl (visitPort ctl hhdm) driver

/-- `init`: the number of pages that the registers take. -/
def abarPages (offset : UInt64) : Nat := (offset.toNat + 0x1100 + 0xFFF) / 0x1000

/-- `init`: the call of `map_mmio`. -/
def mapAbar (hhdm cr3 physBase : UInt64) (numPages : Nat) (driver : Driver σ) :
    UInt64 × Driver σ :=
  let (state, mapped) := mapMmio hhdm cr3 physBase numPages ⟨driver.tables, driver.heap.buddy⟩
  (mapped,
    { driver with tables := state.mem, heap := { driver.heap with buddy := state.source } })

/-- `init`: from the call of `map_mmio` on. -/
def useAbar (ctl : Controller) (hhdm cr3 physBase offset : UInt64) (numPages : Nat)
    (driver : Driver σ) : Driver σ :=
  let (mapped, driver) := driver.mapAbar hhdm cr3 physBase numPages
  if mapped = 0 then driver
  else
    visitPorts ctl hhdm
      { driver with
        abar := mapped + offset
        ghc := if driver.ghc &&& GHC_AE = 0 then driver.ghc ||| GHC_AE else driver.ghc }

/-- `init`, once the controller is known. -/
def initController (ctl : Controller) (hhdm cr3 : UInt64) (addr : PciAddr) (driver : Driver σ) :
    Driver σ :=
  let (abarPhys, host) := addr.barMemBase 5 (addr.enableBusMaster driver.host)
  let driver := { driver with host }
  if abarPhys = 0 then driver
  else
    let aligned := abarPhys &&& ~~~0xFFF
    let offset := abarPhys - aligned
    driver.useAbar ctl hhdm cr3 aligned offset (abarPages offset)

/-- `init`. -/
def init (ctl : Controller) (hhdm cr3 : UInt64) (table : Inventory) (driver : Driver σ) :
    Driver σ :=
  let (idBuf, heap) := driver.heap.kmallocAligned 4096 4096
  let driver := { driver with heap }
  if idBuf = 0 then driver
  else
    let driver := { driver with identifyBuf := idBuf }
    match table.findByClass 0x01 0x06 0x01 with
    | none => driver
    | some addr => initController ctl hhdm cr3 addr driver

/-- `read_sectors`: the tests before the first access to the port. -/
def Accepts (driver : Driver σ) (port : Nat) : Prop :=
  port < MAX_PORTS ∧ driver.activePorts &&& (1 : UInt32) <<< UInt32.ofNat port ≠ 0

instance (driver : Driver σ) (port : Nat) : Decidable (driver.Accepts port) :=
  inferInstanceAs (Decidable (_ ∧ _))

/-! ## The active ports -/

section Active

variable {driver : Driver σ} {i j : Nat}

/-- A port that is marked as active. -/
def Active (driver : Driver σ) (i : Nat) : Prop :=
  driver.activePorts.toBitVec.getLsbD i = true

omit [PageSource σ] in
/-- `1 << i` is the word with one bit. -/
theorem toBitVec_bit (hi : i < 32) :
    ((1 : UInt32) <<< UInt32.ofNat i).toBitVec = PackedBits.mask 32 i := by
  have hsmall : (UInt32.ofNat i).toBitVec.toNat % 32 = i := by
    show i % 2 ^ 32 % 32 = i
    omega
  rw [UInt32.toBitVec_shiftLeft, BitVec.shiftLeft_eq', BitVec.toNat_umod]
  show (1#32 : BitVec 32) <<< ((UInt32.ofNat i).toBitVec.toNat % 32) = _
  rw [hsmall]
  rfl

omit [PageSource σ] in
theorem accepts_iff : driver.Accepts i ↔ driver.Active i := by
  by_cases hi : i < 32
  · have hword : driver.activePorts &&& (1 : UInt32) <<< UInt32.ofNat i ≠ 0 ↔
        driver.activePorts.toBitVec &&& PackedBits.mask 32 i ≠ 0#32 := by
      rw [← toBitVec_bit hi, ← UInt32.toBitVec_and, ne_eq, ne_eq, ← UInt32.toBitVec_inj]
      rfl
    rw [Accepts, and_iff_right (show i < MAX_PORTS from hi), hword,
      PackedBits.and_mask_ne_zero_iff hi]
    rfl
  · refine iff_of_false (fun h ↦ hi h.1) fun h ↦ ?_
    rw [Active, BitVec.getLsbD_of_ge _ _ (Nat.le_of_not_lt hi)] at h
    cases h

omit [PageSource σ] in
/-- Marking a port as active. -/
theorem active_mark (hi : i < 32) :
    ({ driver with activePorts :=
        driver.activePorts ||| (1 : UInt32) <<< UInt32.ofNat i } : Driver σ).Active j ↔
      j = i ∨ driver.Active j := by
  unfold Active
  rw [UInt32.toBitVec_or, toBitVec_bit hi, BitVec.getLsbD_or]
  by_cases hj : j < 32
  · rw [PackedBits.getLsbD_mask hj, Bool.or_eq_true, decide_eq_true_eq, or_comm]
  · have hge : 32 ≤ j := Nat.le_of_not_lt hj
    have hne : j ≠ i := by omega
    rw [BitVec.getLsbD_of_ge _ _ hge, BitVec.getLsbD_of_ge _ _ hge]
    exact iff_of_false (by decide) fun h ↦ h.elim hne (by decide)

end Active

/-! ## Pages -/

/-- The three pages of a port. -/
inductive Slot where
  | commandList
  | receivedFis
  | commandTable
  deriving DecidableEq

/-- The page of a port. -/
def slot (driver : Driver σ) (i : Nat) : Slot → Nat
  | .commandList => driver.portClb i
  | .receivedFis => driver.portFb i
  | .commandTable => driver.portCtba i

/-- The ports are ready: the pages of the active ones and the IDENTIFY buffer are all different, and
none of them is left with the page source; each active port is wired to its pages and started. -/
structure PortsReady (spare : σ → Set Nat → Prop) (hhdm : UInt64) (driver : Driver σ) : Prop where
  supply : ∃ pages, spare driver.heap.buddy pages ∧ ∀ p ∈ pages, HhdmPage hhdm p ∧
    p ≠ driver.identifyBuf ∧ ∀ i, driver.Active i → ∀ s, driver.slot i s ≠ p
  identify : HhdmPage hhdm driver.identifyBuf
  apart : ∀ i, driver.Active i → ∀ s, driver.slot i s ≠ driver.identifyBuf
  distinct : ∀ i j s t, driver.Active i → driver.Active j →
    driver.slot i s = driver.slot j t → i = j ∧ s = t
  pages : ∀ i, driver.Active i → ∀ s, HhdmPage hhdm (driver.slot i s)
  wired : ∀ i, driver.Active i →
    Wired hhdm (driver.regs i) driver.memory (driver.portClb i) (driver.portCtba i)
  received : ∀ i, driver.Active i →
    pointer (driver.regs i).fb (driver.regs i).fbu = (virtToPhys hhdm (driver.portFb i)).toNat
  started : ∀ i, driver.Active i →
    (driver.regs i).cmd &&& (PORT_CMD_ST ||| PORT_CMD_FRE) = PORT_CMD_ST ||| PORT_CMD_FRE

section Pages

/-- Bits that were set are set. -/
theorem or_and_self (word bits : UInt32) : (word ||| bits) &&& bits = bits := by
  apply UInt32.toBitVec_inj.mp
  apply BitVec.eq_of_getLsbD_eq
  intro i hi
  simp only [UInt32.toBitVec_and, UInt32.toBitVec_or, BitVec.getLsbD_and, BitVec.getLsbD_or]
  grind

variable {spare : σ → Set Nat → Prop} {hhdm : UInt64} {pages rest : Set Nat}

/-- A request for a page takes it from those that are left. -/
theorem kmallocAligned_page (hsupplies : Supplies spare) {heap : Heap σ}
    (hspare : spare heap.buddy pages) :
    ∃ rest, rest ⊆ pages ∧ spare (heap.kmallocAligned 4096 4096).2.buddy rest ∧
      ((heap.kmallocAligned 4096 4096).1 ≠ 0 →
        (heap.kmallocAligned 4096 4096).1 ∈ pages ∧
          (heap.kmallocAligned 4096 4096).1 ∉ rest) := by
  have horder : orderFor (Heap.alignedSize 4096 4096) = 0 := orderFor_of_le_page (by decide)
  have hcall : heap.kmallocAligned 4096 4096 =
      (Heap.pointer (heap.allocOrder 0).1, (heap.allocOrder 0).2) := by
    rw [← horder]
    rfl
  rw [hcall]
  rcases heap.allocOrder_cases 0 with ⟨addr, buddy, halloc, heq⟩ | ⟨-, heq⟩ <;> rw [heq]
  · obtain ⟨hmem, hrest⟩ := hsupplies _ _ _ _ hspare halloc
    exact ⟨pages \ {addr}, Set.sdiff_subset, hrest, fun _ ↦ ⟨hmem, fun h ↦ h.2 rfl⟩⟩
  · exact ⟨pages, subset_rfl, hspare, fun hne ↦ absurd rfl hne⟩

/-- What `init_port` may do to a port that is not active before it is wired: take pages, clear them,
and write to the registers of the port. -/
structure Prepared (spare : σ → Set Nat → Prop) (i : Nat) (pages : Set Nat)
    (driver next : Driver σ) (rest : Set Nat) : Prop where
  subset : rest ⊆ pages
  supply : spare next.heap.buddy rest
  memory : ∀ k, (∀ p ∈ pages, ¬(page p).Contains k) → next.memory k = driver.memory k
  regs : ∀ j ≠ i, next.regs j = driver.regs j
  identifyBuf : next.identifyBuf = driver.identifyBuf
  activePorts : next.activePorts = driver.activePorts
  slots : next.slot = driver.slot

omit [PageSource σ] in
/-- `stop_port` prepares. -/
theorem prepared_stop (hspare : spare driver.heap.buddy pages) (ctl : Controller) (i : Nat) :
    Prepared spare i pages driver (driver.stopPort ctl i) pages :=
  ⟨subset_rfl, hspare, fun _ _ ↦ rfl, fun _ hj ↦ Function.update_of_ne hj .., rfl, rfl, rfl⟩

/-- So does taking a page, which is not left afterwards. -/
theorem Prepared.alloc (hsupplies : Supplies spare) {i : Nat} {driver next : Driver σ}
    (h : Prepared spare i pages driver next rest) :
    ∃ after, after ⊆ rest ∧ Prepared spare i pages driver next.allocPage.2 after ∧
      (next.allocPage.1 ≠ 0 → next.allocPage.1 ∈ rest ∧ next.allocPage.1 ∉ after) := by
  obtain ⟨after, hsub, hspare, hnew⟩ := kmallocAligned_page hsupplies h.supply
  refine ⟨after, hsub, ?_⟩
  rcases hcall : next.heap.kmallocAligned 4096 4096 with ⟨ptr, heap⟩
  rw [hcall] at hspare hnew
  by_cases hptr : ptr = 0
  · have heq : next.allocPage = (0, { next with heap }) := by
      simp only [allocPage, hcall, hptr, ite_true]
    rw [heq]
    exact ⟨⟨hsub.trans h.subset, hspare, h.memory, h.regs, h.identifyBuf, h.activePorts, h.slots⟩,
      fun hne ↦ absurd rfl hne⟩
  · have heq : next.allocPage =
        (ptr, { next with heap, memory := next.memory.fill (page ptr) 0 }) := by
      simp only [allocPage, hcall, hptr, ite_false]
    rw [heq]
    refine ⟨⟨hsub.trans h.subset, hspare, fun k hk ↦ ?_, h.regs, h.identifyBuf, h.activePorts,
      h.slots⟩, hnew⟩
    have hpage := hk _ (h.subset (hnew hptr).1)
    exact (ByteMap.fill_of_not_contains hpage).trans (h.memory k hk)

omit [PageSource σ] in
/-- The pages that were left are left as far as the active ports are concerned. -/
theorem Prepared.keeps {i : Nat} {driver next : Driver σ}
    (hprep : Prepared spare i pages driver next rest)
    (hpages : ∀ p ∈ pages, HhdmPage hhdm p ∧ p ≠ driver.identifyBuf ∧
      ∀ i, driver.Active i → ∀ s, driver.slot i s ≠ p) :
    ∀ p ∈ pages, HhdmPage hhdm p ∧ p ≠ next.identifyBuf ∧
      ∀ i, next.Active i → ∀ s, next.slot i s ≠ p := by
  intro p hp
  obtain ⟨hpage, hbuf, hslots⟩ := hpages p hp
  rw [hprep.identifyBuf, hprep.slots]
  refine ⟨hpage, hbuf, fun j hj ↦ hslots j ?_⟩
  rw [Active, hprep.activePorts] at hj
  exact hj

omit [PageSource σ] in
/-- A port that is only prepared changes nothing for the active ones. -/
theorem PortsReady.prepared {i : Nat} {driver next : Driver σ} (h : PortsReady spare hhdm driver)
    (hi : ¬driver.Active i)
    (hpages : ∀ p ∈ pages, HhdmPage hhdm p ∧ p ≠ driver.identifyBuf ∧
      ∀ i, driver.Active i → ∀ s, driver.slot i s ≠ p)
    (hprep : Prepared spare i pages driver next rest) : PortsReady spare hhdm next := by
  have hactive : ∀ j, next.Active j ↔ driver.Active j := fun j ↦ by
    rw [Active, hprep.activePorts]
    rfl
  have hclb : ∀ j, next.portClb j = driver.portClb j := fun j ↦
    congrFun (congrFun hprep.slots j) .commandList
  have hfb : ∀ j, next.portFb j = driver.portFb j := fun j ↦
    congrFun (congrFun hprep.slots j) .receivedFis
  have hctba : ∀ j, next.portCtba j = driver.portCtba j := fun j ↦
    congrFun (congrFun hprep.slots j) .commandTable
  have hregs : ∀ j, driver.Active j → next.regs j = driver.regs j := fun j hj ↦
    hprep.regs j (by rintro rfl; exact hi hj)
  constructor
  · exact ⟨rest, hprep.supply, fun p hp ↦ hprep.keeps hpages p (hprep.subset hp)⟩
  · rw [hprep.identifyBuf]
    exact h.identify
  · intro j hj s
    rw [hprep.identifyBuf, hprep.slots]
    exact h.apart j ((hactive j).mp hj) s
  · intro j k s t hj hk
    rw [hprep.slots]
    exact h.distinct j k s t ((hactive j).mp hj) ((hactive k).mp hk)
  · intro j hj s
    rw [hprep.slots]
    exact h.pages j ((hactive j).mp hj) s
  · intro j hj
    have hj := (hactive j).mp hj
    rw [hregs j hj, hclb j, hctba j]
    refine (h.wired j hj).congr fun k hk ↦ hprep.memory k fun p hp hin ↦ ?_
    -- the header of an active port is in a page that was not left
    obtain ⟨hpage, -, hslots⟩ := hpages p hp
    have hapart := page_apart (h.pages j hj .commandList) hpage (hslots j hj .commandList)
    refine hapart.not_contains ?_ hin
    show driver.portClb j ≤ k ∧ k < driver.portClb j + 4096
    simp only [Extent.Contains] at hk
    omega
  · intro j hj
    have hj := (hactive j).mp hj
    rw [hregs j hj, hfb j]
    exact h.received j hj
  · intro j hj
    have hj := (hactive j).mp hj
    rw [hregs j hj]
    exact h.started j hj

section Joined

omit [PageSource σ]

/-- The driver with port `i` wired to the pages `new`, started and marked as active. -/
def joined (hhdm : UInt64) (driver : Driver σ) (i : Nat) (new : Slot → Nat) : Driver σ :=
  { (driver.connect hhdm i (new .commandList) (new .receivedFis)
      (new .commandTable)).startPort i with
    activePorts := driver.activePorts ||| (1 : UInt32) <<< UInt32.ofNat i }

variable {i j : Nat} {driver : Driver σ} {new : Slot → Nat}

theorem active_joined (hlt : i < 32) :
    (driver.joined hhdm i new).Active j ↔ j = i ∨ driver.Active j :=
  active_mark hlt

/-- The port has the new pages. -/
theorem slot_joined_self : (driver.joined hhdm i new).slot i = new := by
  funext s
  cases s with
  | commandList => exact Function.update_self ..
  | receivedFis => exact Function.update_self ..
  | commandTable => exact Function.update_self ..

/-- The others keep theirs. -/
theorem slot_joined_of_ne (hj : j ≠ i) :
    (driver.joined hhdm i new).slot j = driver.slot j := by
  funext s
  cases s with
  | commandList => exact Function.update_of_ne hj ..
  | receivedFis => exact Function.update_of_ne hj ..
  | commandTable => exact Function.update_of_ne hj ..

theorem regs_joined_self : (driver.joined hhdm i new).regs i =
    { clb := (virtToPhys hhdm (new .commandList)).toUInt32
      clbu := (virtToPhys hhdm (new .commandList) >>> 32).toUInt32
      fb := (virtToPhys hhdm (new .receivedFis)).toUInt32
      fbu := (virtToPhys hhdm (new .receivedFis) >>> 32).toUInt32
      cmd := (driver.regs i).cmd ||| PORT_CMD_FRE ||| PORT_CMD_ST } := by
  simp only [joined, startPort, Driver.connect, Function.update_self]

theorem regs_joined_of_ne (hj : j ≠ i) :
    (driver.joined hhdm i new).regs j = driver.regs j :=
  (Function.update_of_ne hj ..).trans (Function.update_of_ne hj ..)

theorem memory_joined : (driver.joined hhdm i new).memory =
    (driver.memory.store (new .commandList + 8)
      (ByteMap.toLe 4 (virtToPhys hhdm (new .commandTable)).toUInt32.toNat)).store
        (new .commandList + 12)
        (ByteMap.toLe 4 (virtToPhys hhdm (new .commandTable) >>> 32).toUInt32.toNat) :=
  rfl

/-- The new command header points to the new command table. -/
theorem wired_joined_self (hpages : ∀ s, HhdmPage hhdm (new s))
    (hinj : ∀ s t, new s = new t → s = t) :
    Wired hhdm ((driver.joined hhdm i new).regs i) (driver.joined hhdm i new).memory
      (new .commandList) (new .commandTable) := by
  rw [regs_joined_self, memory_joined]
  refine ⟨hpages _, hpages _, fun hsame ↦ ?_, rfl, rfl, ?_, ?_⟩
  · cases hinj _ _ hsame
  · have hapart : new .commandList + 8 + 4 ≤ new .commandList + 12 := Nat.le_refl _
    rw [ByteMap.fromLe_store_apart (.inl hapart), ByteMap.fromLe_store]
    exact Nat.mod_eq_of_lt (UInt32.toNat_lt _)
  · rw [ByteMap.fromLe_store]
    exact Nat.mod_eq_of_lt (UInt32.toNat_lt _)

/-- Memory outside the new command list is as it was. -/
theorem memory_joined_of_not_contains {k : Nat} (hk : ¬(page (new .commandList)).Contains k) :
    (driver.joined hhdm i new).memory k = driver.memory k := by
  simp only [page, Extent.Contains] at hk
  rw [memory_joined, ByteMap.store_outside (by rw [ByteMap.length_toLe]; omega),
    ByteMap.store_outside (by rw [ByteMap.length_toLe]; omega)]

end Joined

omit [PageSource σ] in
/-- Wiring a port to three pages of its own and marking it as active. -/
theorem PortsReady.connect {i : Nat} {driver : Driver σ} (h : PortsReady spare hhdm driver)
    (hlt : i < 32) (hi : ¬driver.Active i) (hspare : spare driver.heap.buddy rest)
    (hrest : ∀ p ∈ rest, HhdmPage hhdm p ∧ p ≠ driver.identifyBuf ∧
      ∀ i, driver.Active i → ∀ s, driver.slot i s ≠ p)
    {new : Slot → Nat} (hinj : ∀ s t, new s = new t → s = t) (hleft : ∀ s, new s ∉ rest)
    (hnew : ∀ s, HhdmPage hhdm (new s) ∧ new s ≠ driver.identifyBuf ∧
      ∀ i, driver.Active i → ∀ t, driver.slot i t ≠ new s) :
    PortsReady spare hhdm (driver.joined hhdm i new) := by
  have hactive : ∀ j, (driver.joined hhdm i new).Active j → j = i ∨ driver.Active j ∧ j ≠ i := by
    intro j hj
    obtain hj | hold := (active_joined hlt).mp hj
    · exact .inl hj
    · exact .inr ⟨hold, by rintro rfl; exact hi hold⟩
  constructor
  · refine ⟨rest, hspare, fun p hp ↦ ?_⟩
    obtain ⟨hpage, hbuffer, hslots⟩ := hrest p hp
    refine ⟨hpage, hbuffer, fun j hj s ↦ ?_⟩
    obtain rfl | ⟨hj, hne⟩ := hactive j hj
    · rw [slot_joined_self]
      rintro rfl
      exact hleft s hp
    · rw [slot_joined_of_ne hne]
      exact hslots j hj s
  · exact h.identify
  · intro j hj s
    obtain rfl | ⟨hj, hne⟩ := hactive j hj
    · rw [slot_joined_self]
      exact (hnew s).2.1
    · rw [slot_joined_of_ne hne]
      exact h.apart j hj s
  · intro j k s t hj hk hsame
    obtain rfl | ⟨hold, hne⟩ := hactive j hj
    · obtain rfl | ⟨hk, hne⟩ := hactive k hk
      · rw [slot_joined_self] at hsame
        exact ⟨rfl, hinj s t hsame⟩
      · rw [slot_joined_self, slot_joined_of_ne hne] at hsame
        exact absurd hsame.symm ((hnew s).2.2 k hk t)
    · obtain rfl | ⟨hk, hne'⟩ := hactive k hk
      · rw [slot_joined_self, slot_joined_of_ne hne] at hsame
        exact absurd hsame ((hnew t).2.2 j hold s)
      · rw [slot_joined_of_ne hne, slot_joined_of_ne hne'] at hsame
        exact h.distinct j k s t hold hk hsame
  · intro j hj s
    obtain rfl | ⟨hj, hne⟩ := hactive j hj
    · rw [slot_joined_self]
      exact (hnew s).1
    · rw [slot_joined_of_ne hne]
      exact h.pages j hj s
  · intro j hj
    show Wired hhdm ((driver.joined hhdm i new).regs j) (driver.joined hhdm i new).memory
      ((driver.joined hhdm i new).slot j .commandList)
      ((driver.joined hhdm i new).slot j .commandTable)
    obtain rfl | ⟨hj, hne⟩ := hactive j hj
    · rw [slot_joined_self]
      exact wired_joined_self (fun s ↦ (hnew s).1) hinj
    · rw [slot_joined_of_ne hne, regs_joined_of_ne hne]
      refine (h.wired j hj).congr fun k hk ↦ memory_joined_of_not_contains ?_
      -- the header of the other port is in another page
      have hapart := page_apart (h.pages j hj .commandList) (hnew .commandList).1
        ((hnew .commandList).2.2 j hj .commandList)
      refine hapart.not_contains ?_
      show driver.portClb j ≤ k ∧ k < driver.portClb j + 4096
      simp only [Extent.Contains] at hk
      omega
  · intro j hj
    show _ = (virtToPhys hhdm ((driver.joined hhdm i new).slot j .receivedFis)).toNat
    obtain rfl | ⟨hj, hne⟩ := hactive j hj
    · rw [slot_joined_self, regs_joined_self]
      exact pointer_halves _
    · rw [slot_joined_of_ne hne, regs_joined_of_ne hne]
      exact h.received j hj
  · intro j hj
    obtain rfl | ⟨hj, hne⟩ := hactive j hj
    · rw [regs_joined_self]
      show ((driver.regs j).cmd ||| PORT_CMD_FRE ||| PORT_CMD_ST) &&& _ = _
      rw [UInt32.or_assoc, UInt32.or_comm PORT_CMD_FRE]
      exact or_and_self _ _
    · rw [regs_joined_of_ne hne]
      exact h.started j hj

/-- The pages of a port, by what they are for. -/
def slotPages (clb fb ct : Nat) : Slot → Nat
  | .commandList => clb
  | .receivedFis => fb
  | .commandTable => ct

omit [PageSource σ] in
/-- Pages that are taken one after the other are different, and none of them is left. -/
theorem slots_taken {first second third : Set Nat} {clb fb ct : Nat} (hfirst : first ⊆ pages)
    (hsecond : second ⊆ first) (hthird : third ⊆ second) (hclb : clb ∈ pages ∧ clb ∉ first)
    (hfb : fb ∈ first ∧ fb ∉ second) (hct : ct ∈ second ∧ ct ∉ third) :
    (∀ s t, slotPages clb fb ct s = slotPages clb fb ct t → s = t) ∧
      ∀ s, slotPages clb fb ct s ∈ pages ∧ slotPages clb fb ct s ∉ third := by
  constructor
  · -- the later pages were left when the earlier ones were taken
    have hne : clb ≠ fb := fun heq ↦ hclb.2 (heq ▸ hfb.1)
    have hne' : clb ≠ ct := fun heq ↦ hclb.2 (heq ▸ hsecond hct.1)
    have hne'' : fb ≠ ct := fun heq ↦ hfb.2 (heq ▸ hct.1)
    rintro (_ | _ | _) (_ | _ | _) hsame <;> simp only [slotPages] at hsame <;>
      first | rfl | omega
  · rintro (_ | _ | _)
    · exact ⟨hclb.1, fun hin ↦ hclb.2 (hsecond (hthird hin))⟩
    · exact ⟨hfirst hfb.1, fun hin ↦ hfb.2 (hthird hin)⟩
    · exact ⟨hfirst (hsecond hct.1), hct.2⟩

/-- `init_port` keeps the other ports ready, and makes its own ready when it succeeds. -/
theorem PortsReady.initPort (hsupplies : Supplies spare) {i : Nat} {driver : Driver σ}
    (h : PortsReady spare hhdm driver) (hlt : i < 32) (hi : ¬driver.Active i) (ctl : Controller) :
    match driver.initPort ctl hhdm i with
    | (false, next) => PortsReady spare hhdm next ∧ next.activePorts = driver.activePorts
    | (true, next) =>
        PortsReady spare hhdm
          { next with activePorts := next.activePorts ||| (1 : UInt32) <<< UInt32.ofNat i } ∧
        next.activePorts = driver.activePorts := by
  obtain ⟨pages, hspare, hpages⟩ := h.supply
  obtain ⟨first, hfirst, hclb, hnewClb⟩ := (prepared_stop hspare ctl i).alloc hsupplies
  obtain ⟨second, hsecond, hfb, hnewFb⟩ := hclb.alloc hsupplies
  obtain ⟨third, hthird, hct, hnewCt⟩ := hfb.alloc hsupplies
  rcases hcall : (driver.stopPort ctl i).allocPage with ⟨clb, afterClb⟩
  rw [hcall] at hclb hfb hct hnewClb hnewFb hnewCt
  rcases hcall' : afterClb.allocPage with ⟨fb, afterFb⟩
  rw [hcall'] at hfb hct hnewFb hnewCt
  rcases hcall'' : afterFb.allocPage with ⟨ct, afterCt⟩
  rw [hcall''] at hct hnewCt
  simp only [Driver.initPort, hcall, hcall', hcall'']
  by_cases hzero : clb = 0
  · rw [if_pos hzero]
    exact ⟨h.prepared hi hpages hclb, hclb.activePorts⟩
  rw [if_neg hzero]
  by_cases hzero' : fb = 0
  · rw [if_pos hzero']
    exact ⟨h.prepared hi hpages hfb, hfb.activePorts⟩
  rw [if_neg hzero']
  by_cases hzero'' : ct = 0
  · rw [if_pos hzero'']
    exact ⟨h.prepared hi hpages hct, hct.activePorts⟩
  rw [if_neg hzero'']
  refine ⟨?_, hct.activePorts⟩
  obtain ⟨hinj, hmem⟩ := slots_taken hfirst hsecond hthird (hnewClb hzero) (hnewFb hzero')
    (hnewCt hzero'')
  have hkeep := hct.keeps hpages
  have hi' : ¬afterCt.Active i := by
    rw [Active, hct.activePorts]
    exact hi
  exact (h.prepared hi hpages hct).connect hlt hi' hct.supply
    (fun p hp ↦ hkeep p (hct.subset hp)) hinj (fun s ↦ (hmem s).2) fun s ↦ hkeep _ (hmem s).1

omit [PageSource σ] in
/-- Writes that spare the pointers to the command tables keep the ports ready. -/
theorem PortsReady.write {driver : Driver σ} (h : PortsReady spare hhdm driver) {memory : ByteMap}
    (hmemory : ∀ i, driver.Active i → ∀ k, (Extent.mk (driver.portClb i + 8) 8).Contains k →
      memory k = driver.memory k) : PortsReady spare hhdm { driver with memory } :=
  ⟨h.supply, h.identify, h.apart, h.distinct, h.pages,
    fun i hi ↦ (h.wired i hi).congr (hmemory i hi), h.received, h.started⟩

/-- A controller writes to the count in the command header, to the receive area and to the buffer
only. -/
def Confined (ctl : Controller) : Prop :=
  ∀ i clb fb buf memory k, ¬(Extent.mk (clb + 4) 4).Contains k → ¬(page fb).Contains k →
    ¬(Extent.mk buf 512).Contains k → ctl.dma i clb fb buf memory k = memory k

omit [PageSource σ] in
/-- The pointer to the table of a port is not where another page of an active port is written. -/
theorem PortsReady.header_apart {driver : Driver σ} (h : PortsReady spare hhdm driver) {i k : Nat}
    (hi : driver.Active i) (hk : (Extent.mk (driver.portClb i + 8) 8).Contains k) {p : Nat}
    (hp : HhdmPage hhdm p) (hne : driver.portClb i ≠ p) : ¬(page p).Contains k := by
  refine (page_apart (h.pages i hi .commandList) hp hne).not_contains ?_
  show driver.portClb i ≤ k ∧ k < driver.portClb i + 4096
  simp only [Extent.Contains] at hk
  omega

omit [PageSource σ] in
/-- IDENTIFY on an active port keeps the ports ready. -/
theorem PortsReady.identifyDevice {driver : Driver σ} (h : PortsReady spare hhdm driver)
    {ctl : Controller} (hctl : Confined ctl) {i : Nat} (hi : driver.Active i) :
    PortsReady spare hhdm (driver.identifyDevice ctl hhdm i) := by
  have hbuffer : ∀ k, (Extent.mk driver.identifyBuf 512).Contains k →
      (page driver.identifyBuf).Contains k := fun k hk ↦ by
    simp only [Extent.Contains, page] at hk ⊢
    omega
  rw [Driver.identifyDevice]
  split
  · exact h
  have hfill : PortsReady spare hhdm
      { driver with memory := driver.memory.fill ⟨driver.identifyBuf, 512⟩ 0 } :=
    h.write fun j hj k hk ↦ ByteMap.fill_of_not_contains fun hin ↦
      h.header_apart hj hk h.identify (h.apart j hj .commandList) (hbuffer k hin)
  split
  · refine h.write fun j hj k hk ↦ ?_
    have hoffBuffer : ¬(Extent.mk driver.identifyBuf 512).Contains k := fun hin ↦
      h.header_apart hj hk h.identify (h.apart j hj .commandList) (hbuffer k hin)
    have hoff : ∀ s, (j = i → s ≠ .commandList) → ¬(page (driver.slot i s)).Contains k :=
      fun s hs ↦ h.header_apart hj hk (h.pages i hi s) fun hsame ↦ by
        obtain ⟨rfl, rfl⟩ := h.distinct j i .commandList s hj hi hsame
        exact hs rfl rfl
    have hoffHeader : ¬(Extent.mk (driver.portClb i) 8).Contains k := by
      by_cases hsame : j = i
      · subst hsame
        simp only [Extent.Contains] at hk ⊢
        omega
      · have hother := hoff .commandList fun heq ↦ absurd heq hsame
        simp only [Extent.Contains, page, slot] at hother ⊢
        omega
    have hoffTable := hoff .commandTable fun _ ↦ Slot.noConfusion
    have hoffFis := hoff .receivedFis fun _ ↦ Slot.noConfusion
    have hcount : ¬(Extent.mk (driver.portClb i + 4) 4).Contains k := by
      simp only [Extent.Contains] at hoffHeader ⊢
      omega
    have htable : ¬(Extent.mk (driver.portCtba i) CMD_TABLE_SIZE).Contains k := by
      simp only [Extent.Contains, page, slot, CMD_TABLE_SIZE] at hoffTable ⊢
      omega
    refine (hctl i _ _ _ _ k hcount hoffFis hoffBuffer).trans ?_
    rw [setupCommandIn_outside hoffHeader htable]
    exact ByteMap.fill_of_not_contains hoffBuffer
  · exact hfill

omit [PageSource σ] in
theorem identifyDevice_activePorts (ctl : Controller) (hhdm : UInt64) (i : Nat)
    (driver : Driver σ) :
    (driver.identifyDevice ctl hhdm i).activePorts = driver.activePorts := by
  rw [Driver.identifyDevice]
  split
  · rfl
  · split <;> rfl

/-- A port of the loop: the ports stay ready, and this one joins the active ones if it has a disk
and was initialised. -/
theorem PortsReady.visitPort (hsupplies : Supplies spare) {ctl : Controller} (hctl : Confined ctl)
    {i : Nat} {driver : Driver σ} (h : PortsReady spare hhdm driver) (hlt : i < 32)
    (hi : ¬driver.Active i) :
    PortsReady spare hhdm (driver.visitPort ctl hhdm i) ∧
      ∀ j, (driver.visitPort ctl hhdm i).Active j ↔
        driver.Active j ∨ (j = i ∧ HasDisk ctl i ∧ (driver.initPort ctl hhdm i).1 = true) := by
  rw [Driver.visitPort]
  by_cases hdisk : HasDisk ctl i
  · rw [if_pos hdisk]
    have hinit := h.initPort hsupplies hlt hi ctl
    rcases hcall : driver.initPort ctl hhdm i with ⟨_ | _, next⟩
    · rw [hcall] at hinit
      refine ⟨hinit.1, fun j ↦ ?_⟩
      show next.Active j ↔ _
      rw [Active, hinit.2]
      simp [Active]
    · rw [hcall] at hinit
      obtain ⟨hready, hsame⟩ := hinit
      have hmarked : ∀ j, ({ next with activePorts :=
          next.activePorts ||| (1 : UInt32) <<< UInt32.ofNat i } : Driver σ).Active j ↔
            j = i ∨ driver.Active j := fun j ↦ by
        rw [active_mark hlt, Active, hsame]
        rfl
      refine ⟨hready.identifyDevice hctl ((hmarked i).mpr (.inl rfl)), fun j ↦ ?_⟩
      show (Driver.identifyDevice ctl hhdm i _).Active j ↔ _
      rw [Active, identifyDevice_activePorts]
      refine (hmarked j).trans ?_
      rw [and_iff_right hdisk, and_iff_left rfl, or_comm]
  · rw [if_neg hdisk]
    exact ⟨h, fun j ↦ ⟨.inl, fun hj ↦ hj.elim id fun hj ↦ absurd hj.2.1 hdisk⟩⟩

/-- The state of the loop before a port. -/
def before (ctl : Controller) (hhdm : UInt64) (driver : Driver σ) (i : Nat) : Driver σ :=
  (List.range i).foldl (Driver.visitPort ctl hhdm) driver

/-- The loop makes the ports ready that have a disk and could be initialised. -/
theorem PortsReady.visitPorts (hsupplies : Supplies spare) {ctl : Controller}
    (hctl : Confined ctl) {driver : Driver σ} (h : PortsReady spare hhdm driver)
    (hstart : driver.activePorts = 0) :
    PortsReady spare hhdm (driver.visitPorts ctl hhdm) ∧
      ∀ i, (driver.visitPorts ctl hhdm).Active i ↔ i < 32 ∧ HasDisk ctl i ∧
        ((driver.before ctl hhdm i).initPort ctl hhdm i).1 = true := by
  have hloop : ∀ n ≤ 32, PortsReady spare hhdm (driver.before ctl hhdm n) ∧
      ∀ i, (driver.before ctl hhdm n).Active i ↔ i < n ∧ HasDisk ctl i ∧
        ((driver.before ctl hhdm i).initPort ctl hhdm i).1 = true := by
    intro n hn
    induction n with
    | zero =>
        refine ⟨h, fun i ↦ iff_of_false ?_ fun hi ↦ absurd hi.1 (Nat.not_lt_zero i)⟩
        show ¬driver.Active i
        rw [Active, hstart]
        exact Bool.false_ne_true ∘ (by simp)
    | succ n ih =>
        obtain ⟨hready, hactive⟩ := ih (Nat.le_of_succ_le hn)
        have hinactive : ¬(driver.before ctl hhdm n).Active n := fun hn ↦
          Nat.lt_irrefl n ((hactive n).mp hn).1
        have hstep : driver.before ctl hhdm (n + 1) =
            (driver.before ctl hhdm n).visitPort ctl hhdm n := by
          rw [before, List.range_succ, List.foldl_append]
          rfl
        obtain ⟨hnext, hmarked⟩ := hready.visitPort hsupplies hctl (Nat.lt_of_succ_le hn) hinactive
        rw [hstep]
        refine ⟨hnext, fun i ↦ ?_⟩
        rw [hmarked, hactive]
        constructor
        · rintro (⟨hlt, hrest⟩ | ⟨rfl, hrest⟩)
          · exact ⟨Nat.lt_succ_of_lt hlt, hrest⟩
          · exact ⟨Nat.lt_succ_self i, hrest⟩
        · rintro ⟨hlt, hrest⟩
          obtain hlt | rfl := Nat.lt_succ_iff_lt_or_eq.mp hlt
          · exact .inl ⟨hlt, hrest⟩
          · exact .inr ⟨rfl, hrest⟩
  exact hloop 32 (Nat.le_refl _)

/-! ## The whole of `init` -/

/-- A call leaves the page source with some of the pages that it had. -/
def Keeps (spare : σ → Set Nat → Prop) (source after : σ) : Prop :=
  ∀ pages, spare source pages → ∃ rest, rest ⊆ pages ∧ spare after rest

omit [PageSource σ] in
theorem Keeps.refl (source : σ) : Keeps spare source source :=
  fun pages hspare ↦ ⟨pages, subset_rfl, hspare⟩

omit [PageSource σ] in
theorem Keeps.trans {first second third : σ} (h : Keeps spare first second)
    (h' : Keeps spare second third) : Keeps spare first third := by
  intro pages hspare
  obtain ⟨rest, hsub, hrest⟩ := h pages hspare
  obtain ⟨after, hsub', hafter⟩ := h' rest hrest
  exact ⟨after, hsub'.trans hsub, hafter⟩

theorem ensureNext_keeps (hsupplies : Supplies spare) {a : UInt64}
    {next : UInt64 → MmioState σ → MmioState σ × Bool}
    (hnext : ∀ table s, Keeps spare s.source (next table s).1.source) (s : MmioState σ) :
    Keeps spare s.source (ensureNext hhdm a next s).1.source := by
  rw [ensureNext, ensureTable]
  split
  next hsplit =>
    split at hsplit
    · split at hsplit
      next page source hcall =>
        cases hsplit
      next source hcall =>
        obtain ⟨rfl, -⟩ := Prod.mk.inj hsplit
        have hsame := PageSource.allocPages_none s.source 0 (congrArg Prod.fst hcall)
        rw [hcall] at hsame
        subst hsame
        exact Keeps.refl _
    · cases hsplit
  next after hsplit =>
    refine Keeps.trans ?_ (hnext _ _)
    split at hsplit
    · split at hsplit
      next page source hcall =>
        obtain ⟨rfl, -⟩ := Prod.mk.inj hsplit
        intro pages hspare
        obtain ⟨-, hrest⟩ := hsupplies _ _ _ _ hspare hcall
        exact ⟨_, Set.sdiff_subset, hrest⟩
      next source hcall =>
        cases hsplit
    · obtain ⟨rfl, -⟩ := Prod.mk.inj hsplit
      exact Keeps.refl _

theorem mapDirectory_keeps (hsupplies : Supplies spare) {a : UInt64}
    {next : UInt64 → MmioState σ → MmioState σ × Bool}
    (hnext : ∀ table s, Keeps spare s.source (next table s).1.source) (s : MmioState σ) :
    Keeps spare s.source (mapDirectory hhdm a next s).1.source := by
  rw [mapDirectory]
  split
  · exact Keeps.refl _
  · exact ensureNext_keeps hsupplies hnext s

theorem mapPage_keeps (hsupplies : Supplies spare) (hhdm pml4 phys : UInt64) (s : MmioState σ) :
    Keeps spare s.source (mapPage hhdm pml4 phys s).1.source := by
  refine ensureNext_keeps hsupplies (fun pdpt s ↦ ?_) s
  refine mapDirectory_keeps hsupplies (fun pd s ↦ ?_) s
  refine mapDirectory_keeps hsupplies (fun pt s ↦ ?_) s
  rw [mapPt]
  split
  · exact Keeps.refl _
  · exact Keeps.refl _

theorem mapPages_keeps (hsupplies : Supplies spare) (hhdm pml4 physBase : UInt64)
    (left page : Nat) (s : MmioState σ) :
    Keeps spare s.source (mapPages hhdm pml4 physBase left page s).1.source := by
  induction left generalizing page s with
  | zero => exact Keeps.refl _
  | succ left ih =>
      have hpage := mapPage_keeps hsupplies hhdm pml4 (pagePhys physBase page) s
      rw [mapPages]
      split
      next after hcall =>
        rw [hcall] at hpage
        exact hpage
      next after hcall =>
        rw [hcall] at hpage
        exact hpage.trans (ih (page + 1) after)

/-- `map_mmio` takes the pages for its tables from those that are left. -/
theorem mapMmio_keeps (hsupplies : Supplies spare) (hhdm cr3 physBase : UInt64) (numPages : Nat)
    (s : MmioState σ) :
    Keeps spare s.source (mapMmio hhdm cr3 physBase numPages s).1.source := by
  have hpages := mapPages_keeps hsupplies hhdm (cr3 &&& ~~~0xFFF) physBase numPages 0 s
  rw [mapMmio]
  split
  next after hcall =>
    rw [hcall] at hpages
    exact hpages
  next after hcall =>
    rw [hcall] at hpages
    exact hpages

omit [PageSource σ] in
theorem not_active {driver : Driver σ} (hnone : driver.activePorts = 0) (i : Nat) :
    ¬driver.Active i := by
  intro hi
  rw [Active, hnone] at hi
  simp at hi

omit [PageSource σ] in
/-- Without active ports, all that is asked of the pages is that they are not the IDENTIFY
buffer. -/
theorem portsReady_of_none {driver : Driver σ} (hnone : driver.activePorts = 0)
    (hspare : spare driver.heap.buddy rest) (hidentify : HhdmPage hhdm driver.identifyBuf)
    (hrest : ∀ p ∈ rest, HhdmPage hhdm p ∧ p ≠ driver.identifyBuf) :
    PortsReady spare hhdm driver := by
  have hactive : ∀ i, ¬driver.Active i := not_active hnone
  exact ⟨⟨rest, hspare, fun p hp ↦ ⟨(hrest p hp).1, (hrest p hp).2, fun i hi ↦
      absurd hi (hactive i)⟩⟩, hidentify, fun i hi ↦ absurd hi (hactive i),
    fun i _ _ _ hi ↦ absurd hi (hactive i), fun i hi ↦ absurd hi (hactive i),
    fun i hi ↦ absurd hi (hactive i), fun i hi ↦ absurd hi (hactive i),
    fun i hi ↦ absurd hi (hactive i)⟩

/-- Mapping the registers leaves fewer pages, and nothing else changes for the ports. -/
theorem mapAbar_keeps (hsupplies : Supplies spare) (hhdm cr3 physBase : UInt64) (numPages : Nat)
    {driver : Driver σ} (hspare : spare driver.heap.buddy rest) :
    (driver.mapAbar hhdm cr3 physBase numPages).2.activePorts = driver.activePorts ∧
      (driver.mapAbar hhdm cr3 physBase numPages).2.identifyBuf = driver.identifyBuf ∧
      ∃ left, left ⊆ rest ∧
        spare (driver.mapAbar hhdm cr3 physBase numPages).2.heap.buddy left :=
  ⟨rfl, rfl, mapMmio_keeps hsupplies hhdm cr3 physBase numPages _ rest hspare⟩

/-- From the call of `map_mmio` on. -/
theorem useAbar_ready (hsupplies : Supplies spare) {ctl : Controller} (hctl : Confined ctl)
    (cr3 physBase offset : UInt64) (numPages : Nat) {driver : Driver σ}
    (hnone : driver.activePorts = 0) (hspare : spare driver.heap.buddy rest)
    (hidentify : HhdmPage hhdm driver.identifyBuf)
    (hrest : ∀ p ∈ rest, HhdmPage hhdm p ∧ p ≠ driver.identifyBuf) :
    PortsReady spare hhdm (driver.useAbar ctl hhdm cr3 physBase offset numPages) ∧
      ∀ i, (driver.useAbar ctl hhdm cr3 physBase offset numPages).Active i → HasDisk ctl i := by
  obtain ⟨hnone', hbuf, left, hsub, hleft⟩ :=
    mapAbar_keeps hsupplies hhdm cr3 physBase numPages hspare
  rw [useAbar]
  generalize driver.mapAbar hhdm cr3 physBase numPages = result at hnone' hbuf hleft
  obtain ⟨mapped, next⟩ := result
  have hnone' : next.activePorts = 0 := hnone'.trans hnone
  have hidentify : HhdmPage hhdm next.identifyBuf := by
    rw [show next.identifyBuf = driver.identifyBuf from hbuf]
    exact hidentify
  have hrest : ∀ p ∈ left, HhdmPage hhdm p ∧ p ≠ next.identifyBuf := fun p hp ↦ by
    rw [show next.identifyBuf = driver.identifyBuf from hbuf]
    exact hrest p (hsub hp)
  dsimp only
  split
  · exact ⟨portsReady_of_none hnone' hleft hidentify hrest,
      fun i hi ↦ absurd hi (not_active hnone' i)⟩
  · generalize hfound : ({ next with
      abar := mapped + offset
      ghc := if next.ghc &&& GHC_AE = 0 then next.ghc ||| GHC_AE else next.ghc } : Driver σ) =
        found
    have hnone : found.activePorts = 0 := by
      subst hfound
      exact hnone'
    have hready : PortsReady spare hhdm found := by
      subst hfound
      exact portsReady_of_none hnone' hleft hidentify hrest
    obtain ⟨hfinal, hactive⟩ := hready.visitPorts hsupplies hctl hnone
    exact ⟨hfinal, fun i hi ↦ ((hactive i).mp hi).2.1⟩

/-- `init` with a controller. -/
theorem initController_ready (hsupplies : Supplies spare) {ctl : Controller}
    (hctl : Confined ctl) (cr3 : UInt64) (addr : PciAddr) (driver : Driver σ)
    (hnone : driver.activePorts = 0) (hspare : spare driver.heap.buddy rest)
    (hidentify : HhdmPage hhdm driver.identifyBuf)
    (hrest : ∀ p ∈ rest, HhdmPage hhdm p ∧ p ≠ driver.identifyBuf) :
    PortsReady spare hhdm (driver.initController ctl hhdm cr3 addr) ∧
      ∀ i, (driver.initController ctl hhdm cr3 addr).Active i → HasDisk ctl i := by
  unfold initController
  rcases addr.barMemBase 5 (addr.enableBusMaster driver.host) with ⟨abarPhys, host⟩
  generalize hfound : ({ driver with host } : Driver σ) = found
  have hnone' : found.activePorts = 0 := by
    subst hfound
    exact hnone
  dsimp only
  split
  · subst hfound
    exact ⟨portsReady_of_none hnone hspare hidentify hrest,
      fun i hi ↦ absurd hi (not_active hnone i)⟩
  · subst hfound
    exact useAbar_ready hsupplies hctl cr3 _ _ _ hnone' hspare hidentify hrest

/-- After `init`, from any page source that hands out pages of the direct map and none twice: the
ports that `read_sectors` accepts have a disk, and they are ready. -/
theorem init_ports (hsupplies : Supplies spare) {ctl : Controller} (hctl : Confined ctl)
    (hhdm cr3 : UInt64) (table : Inventory) (driver : Driver σ)
    (hnone : driver.activePorts = 0) (hspare : spare driver.heap.buddy pages)
    (hpages : ∀ p ∈ pages, HhdmPage hhdm p) :
    ((driver.init ctl hhdm cr3 table).activePorts = 0 ∨
        PortsReady spare hhdm (driver.init ctl hhdm cr3 table)) ∧
      ∀ i, (driver.init ctl hhdm cr3 table).Accepts i → HasDisk ctl i := by
  obtain ⟨rest, hsub, hrest, hnew⟩ := kmallocAligned_page hsupplies hspare
  rw [init]
  generalize driver.heap.kmallocAligned 4096 4096 = result at hrest hnew
  obtain ⟨idBuf, heap⟩ := result
  dsimp only
  split
  · exact ⟨.inl hnone, fun i hi ↦ absurd (accepts_iff.mp hi) (not_active hnone i)⟩
  next hbuf =>
    obtain ⟨hin, hout⟩ := hnew hbuf
    have hleft : ∀ p ∈ rest, HhdmPage hhdm p ∧ p ≠ idBuf := fun p hp ↦
      ⟨hpages p (hsub hp), by rintro rfl; exact hout hp⟩
    split
    · exact ⟨.inl hnone, fun i hi ↦ absurd (accepts_iff.mp hi) (not_active hnone i)⟩
    next addr hfind =>
      obtain ⟨hready, hdisk⟩ := initController_ready hsupplies hctl cr3 addr
        { driver with heap, identifyBuf := idBuf } hnone hrest (hpages _ hin) hleft
      exact ⟨.inr hready, fun i hi ↦ hdisk i (accepts_iff.mp hi)⟩

/-- The data that a disk of 4096 sectors, with a blank name, sends for IDENTIFY. -/
def identifyData : ByteMap := fun k ↦
  if 54 ≤ k ∧ k < 94 then 0x20 else if k = 201 then 0x10 else 0

/-- A controller with one disk, on port 0, that answers at once: the data goes to the buffer, and
the number of its bytes into the command header. -/
def oneDisk : Controller where
  pi := 1
  ssts _ := 0x103
  sig _ := SATA_SIG_ATA
  settled _ cmd := cmd
  ready _ := true
  dma _ clb _ buf memory :=
    (memory.copy ⟨buf, 512⟩ identifyData 0).store (clb + 4) (ByteMap.toLe 4 512)

theorem oneDisk_confined : Confined oneDisk := by
  intro i clb fb buf memory k hheader _ hbuf
  have hcount : k < clb + 4 ∨ clb + 4 + (ByteMap.toLe 4 512).length ≤ k := by
    simp only [Extent.Contains, ByteMap.toLe, List.length_cons, List.length_nil] at hheader ⊢
    omega
  show ((memory.copy ⟨buf, 512⟩ identifyData 0).store (clb + 4) (ByteMap.toLe 4 512)) k = memory k
  rw [ByteMap.store_outside hcount, ByteMap.copy_of_not_contains hbuf]

/-- A bus with a controller as its function 4, and pages for all that `init` needs. -/
def oneController : Driver (List Nat) where
  host :=
    { address := 0
      space := fun addr reg ↦
        if addr = ⟨0, 4, 0⟩ then if reg = 0x24 then 0xFEBF0000 else 0 else 0xFFFFFFFF
      accept := fun _ _ _ val ↦ val }
  tables _ := 0
  heap := ⟨SlabAllocator.new, (List.range 8).map fun i ↦ 0xFFFF800000100000 + i * 0x1000⟩
  memory _ := 0
  ghc := 0
  regs _ := ⟨0, 0, 0, 0, 0⟩
  abar := 0
  identifyBuf := 0
  activePorts := 0
  portClb _ := 0
  portFb _ := 0
  portCtba _ := 0

/-- The table of the scan of such a bus. -/
def oneDevice : Inventory := Inventory.initial.enter 0 ⟨⟨0, 4, 0⟩, 0, 0, 0x01, 0x06, 0x01⟩

/-- The disk is found. -/
theorem init_ports_one_disk :
    (oneController.init oneDisk 0xFFFF800000000000 0x1000 oneDevice).Accepts 0 ∧
      HasDisk oneDisk 0 ∧
      PortsReady (fun source pages ↦ source.Nodup ∧ ∀ page ∈ source, page ∈ pages)
        0xFFFF800000000000 (oneController.init oneDisk 0xFFFF800000000000 0x1000 oneDevice) := by
  have haccepts : (oneController.init oneDisk 0xFFFF800000000000 0x1000 oneDevice).Accepts 0 := by
    decide +kernel
  have hpages : ∀ p ∈ oneController.heap.buddy, p % 0x1000 = 0 ∧
      (0xFFFF800000000000 : UInt64).toNat ≤ p ∧
        p < (0xFFFF800000000000 : UInt64).toNat + 2 ^ 52 ∧ p < 2 ^ 64 := by decide
  obtain ⟨hready, hdisk⟩ := init_ports list_supplies oneDisk_confined 0xFFFF800000000000 0x1000
    oneDevice oneController rfl ⟨by decide, fun _ hp ↦ hp⟩ hpages
  refine ⟨haccepts, hdisk 0 haccepts, hready.resolve_left fun hnone ↦ ?_⟩
  exact not_active hnone 0 (accepts_iff.mp haccepts)

end Pages

end Driver

end Avaria.Ahci
