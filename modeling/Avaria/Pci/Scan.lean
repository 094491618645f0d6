import Avaria.Pci.Config
import Mathlib.Data.List.FinRange

/-!
# The PCI scan

`scan` walks all buses, devices and functions and enters what it finds in a table of 64 places.
`found` lists the functions of a space in the order of the walk. `scan_walked` relates the two: the
table holds the first 64 of them, the rest is counted only, and a scan that finds nothing leaves
the table of the scan before.
-/

namespace Avaria.Pci

/-- `struct PciDevice`. -/
structure PciDevice where
  addr : PciAddr
  vendorId : UInt16
  deviceId : UInt16
  classCode : UInt8
  subclass : UInt8
  progIf : UInt8
  deriving DecidableEq, Repr

/-- `MAX_PCI_DEVICES`. -/
def MAX_PCI_DEVICES : Nat := 64

/-- `PCI_DEVICES` and `PCI_COUNT`. -/
@[ext]
structure Inventory where
  devices : Fin MAX_PCI_DEVICES → Option PciDevice
  pciCount : Nat
  count_le : pciCount ≤ MAX_PCI_DEVICES

namespace Inventory

/-- The statics at boot. -/
def initial : Inventory := ⟨fun _ ↦ none, 0, by decide⟩

/-- `scan`: entering one function, the `count`-th that was found. -/
def enter (table : Inventory) (count : Nat) (device : PciDevice) : Inventory :=
  if h : count < MAX_PCI_DEVICES then
    ⟨Function.update table.devices ⟨count, h⟩ (some device), count + 1, h⟩
  else table

/-- The comparison of `find_by_class`. -/
def IsOf (device : PciDevice) (classCode subclass progIf : UInt8) : Prop :=
  device.classCode = classCode ∧ device.subclass = subclass ∧ device.progIf = progIf

instance (device : PciDevice) (classCode subclass progIf : UInt8) :
    Decidable (IsOf device classCode subclass progIf) := inferInstanceAs (Decidable (_ ∧ _ ∧ _))

/-- `find_by_class`. -/
def findByClass (table : Inventory) (classCode subclass progIf : UInt8) : Option PciAddr :=
  (List.finRange table.pciCount).findSome? fun i ↦
    (table.devices (i.castLE table.count_le)).bind fun device ↦
      if IsOf device classCode subclass progIf then some device.addr else none

end Inventory

/-- A scan under way: the bridge, the table and `count`. -/
structure Scan where
  host : Host
  table : Inventory
  count : Nat

/-- `scan`: the body of the loop over functions. -/
def scanFunction (bus dev : UInt8) (state : Scan) (func : Nat) : Scan :=
  let faddr : PciAddr := ⟨bus, dev, UInt8.ofNat func⟩
  let (vid, host) := faddr.vendorId state.host
  if vid = 0xFFFF then { state with host }
  else
    let (did, host) := faddr.deviceId host
    let (classCode, host) := faddr.classCode host
    let (subclass, host) := faddr.subclass host
    let (progIf, host) := faddr.progIf host
    { host
      table := state.table.enter state.count ⟨faddr, vid, did, classCode, subclass, progIf⟩
      count := state.count + 1 }

/-- `scan`: the body of the loop over devices. -/
def scanDevice (bus : UInt8) (state : Scan) (dev : Nat) : Scan :=
  let addr : PciAddr := ⟨bus, UInt8.ofNat dev, 0⟩
  let (vendor, host) := addr.vendorId state.host
  if vendor = 0xFFFF then { state with host }
  else
    let (header, host) := addr.headerType host
    let maxFunc := if header &&& 0x80 ≠ 0 then 8 else 1
    (List.range maxFunc).foldl (scanFunction bus (UInt8.ofNat dev)) { state with host }

/-- `scan`: the body of the loop over buses. -/
def scanBus (state : Scan) (bus : Nat) : Scan :=
  (List.range 32).foldl (scanDevice (UInt8.ofNat bus)) state

/-- `scan`, up to the line that it prints. -/
def scan (host : Host) (table : Inventory) : Scan :=
  (List.range 256).foldl scanBus ⟨host, table, 0⟩

/-! ## What there is to find -/

namespace Space

/-- A half of a register. -/
def half (space : Space) (addr : PciAddr) (offset : UInt8) : UInt16 :=
  (space addr (offset &&& 0xFC) >>> ((offset &&& 2).toUInt32 * 8)).toUInt16

/-- A byte of a register. -/
def byte (space : Space) (addr : PciAddr) (offset : UInt8) : UInt8 :=
  (space addr (offset &&& 0xFC) >>> ((offset &&& 3).toUInt32 * 8)).toUInt8

/-- What identifies a function. -/
def device (space : Space) (addr : PciAddr) : PciDevice :=
  ⟨addr, space.half addr 0x00, space.half addr 0x02, space.byte addr 0x0B, space.byte addr 0x0A,
    space.byte addr 0x09⟩

/-- A function answers when its vendor is not all ones. -/
def Answers (space : Space) (addr : PciAddr) : Prop := space.half addr 0x00 ≠ 0xFFFF

instance (space : Space) (addr : PciAddr) : Decidable (space.Answers addr) :=
  inferInstanceAs (Decidable (¬ _))

/-- How many functions a device may have, by its first one. -/
def functions (space : Space) (bus dev : UInt8) : Nat :=
  if space.Answers ⟨bus, dev, 0⟩ then
    if space.byte ⟨bus, dev, 0⟩ 0x0E &&& 0x80 ≠ 0 then 8 else 1
  else 0

/-- The functions of a space, in the order of the walk. -/
def found (space : Space) : List PciDevice :=
  (List.range 256).flatMap fun bus ↦ (List.range 32).flatMap fun dev ↦
    (List.range (space.functions (UInt8.ofNat bus) (UInt8.ofNat dev))).flatMap fun func ↦
      if space.Answers ⟨UInt8.ofNat bus, UInt8.ofNat dev, UInt8.ofNat func⟩ then
        [space.device ⟨UInt8.ofNat bus, UInt8.ofNat dev, UInt8.ofNat func⟩]
      else []

end Space

section Found

variable {space : Space}

/-- A function that the walk comes across: it answers, and the device has it by what its first
function says. -/
def Present (space : Space) (addr : PciAddr) : Prop :=
  addr.Valid ∧ space.Answers { addr with func := 0 } ∧ space.Answers addr ∧
    (addr.func = 0 ∨ space.byte { addr with func := 0 } 0x0E &&& 0x80 ≠ 0)

theorem lt_functions_iff {bus dev : UInt8} {func : Nat} :
    func < space.functions bus dev ↔ space.Answers ⟨bus, dev, 0⟩ ∧
      (func = 0 ∨ func < 8 ∧ space.byte ⟨bus, dev, 0⟩ 0x0E &&& 0x80 ≠ 0) := by
  rw [Space.functions]
  split
  · split
    · grind
    · grind
  · grind

/-- The list holds the functions that are present, each as it identifies itself. -/
theorem mem_found {device : PciDevice} :
    device ∈ space.found ↔ ∃ addr, Present space addr ∧ device = space.device addr := by
  simp only [Space.found, List.mem_flatMap, List.mem_range, lt_functions_iff]
  constructor
  · rintro ⟨bus, hbus, dev, hdev, func, ⟨hfirst, hfunc⟩, hmem⟩
    split at hmem
    next hanswers =>
      refine ⟨_, ⟨⟨?_, ?_⟩, hfirst, hanswers, ?_⟩, List.mem_singleton.mp hmem⟩
      · refine UInt8.lt_iff_toNat_lt.mpr ?_
        show dev % 256 < 32
        omega
      · refine UInt8.lt_iff_toNat_lt.mpr ?_
        show func % 256 < 8
        omega
      · obtain rfl | ⟨-, hmulti⟩ := hfunc
        · exact .inl rfl
        · exact .inr hmulti
    next => exact absurd hmem List.not_mem_nil
  · rintro ⟨⟨bus, dev, func⟩, ⟨⟨hdev, hfunc⟩, hfirst, hanswers, hmulti⟩, rfl⟩
    refine ⟨bus.toNat, bus.toNat_lt, dev.toNat, UInt8.lt_iff_toNat_lt.mp hdev, func.toNat, ?_⟩
    rw [UInt8.ofNat_toNat, UInt8.ofNat_toNat, UInt8.ofNat_toNat, if_pos hanswers]
    refine ⟨⟨hfirst, ?_⟩, List.mem_singleton_self _⟩
    obtain rfl | hmulti := hmulti
    · exact .inl rfl
    · exact .inr ⟨UInt8.lt_iff_toNat_lt.mp hfunc, hmulti⟩

end Found

/-! ## The walk -/

section Walk

variable {space : Space} {table : Inventory}

/-- A scan of `space` that started with `table` and has come across `found`. -/
structure Walked (space : Space) (table : Inventory) (state : Scan) (found : List PciDevice) :
    Prop where
  space : state.host.space = space
  count : state.count = found.length
  devices : ∀ i : Fin MAX_PCI_DEVICES,
    state.table.devices i = (found[i.val]?).or (table.devices i)
  pciCount : state.table.pciCount =
    if found = [] then table.pciCount else min found.length MAX_PCI_DEVICES

variable {host next : Host} {entries : Inventory} {count : Nat} {found : List PciDevice}

/-- Reading registers keeps the relation. -/
theorem Walked.read (h : Walked space table ⟨host, entries, count⟩ found)
    (hspace : next.space = host.space) : Walked space table ⟨next, entries, count⟩ found :=
  ⟨hspace.trans h.space, h.count, h.devices, h.pciCount⟩

/-- Entering a function adds it to what was found. -/
theorem Walked.enter (h : Walked space table ⟨host, entries, count⟩ found) (device : PciDevice) :
    Walked space table ⟨host, entries.enter count device, count + 1⟩ (found ++ [device]) := by
  have hcount : count = found.length := h.count
  have hentries : ∀ i, entries.devices i = (found[i.val]?).or (table.devices i) := h.devices
  refine ⟨h.space, ?_, ?_, ?_⟩
  · show count + 1 = (found ++ [device]).length
    rw [hcount, List.length_append, List.length_singleton]
  · intro i
    show (entries.enter count device).devices i = _
    rw [Inventory.enter]
    split
    next hroom =>
      show Function.update entries.devices ⟨count, hroom⟩ (some device) i = _
      by_cases hi : i.val = count
      · have hlast : (found ++ [device])[i.val]? = some device := by
          rw [hi, hcount, List.getElem?_concat_length]
        rw [hlast, show i = ⟨count, hroom⟩ from Fin.ext hi, Function.update_self, Option.some_or]
      · rw [Function.update_of_ne (fun heq ↦ hi (congrArg Fin.val heq)), hentries i]
        congr 1
        grind
    next hfull =>
      rw [hentries i]
      congr 1
      have hi := i.isLt
      grind
  · show (entries.enter count device).pciCount = _
    rw [if_neg (List.append_ne_nil_of_right_ne_nil _ (List.cons_ne_nil _ _)), List.length_append,
      List.length_singleton, Inventory.enter]
    split
    next hroom =>
      show count + 1 = _
      omega
    next hfull =>
      have hpci : entries.pciCount = min found.length MAX_PCI_DEVICES := by
        rw [h.pciCount, if_neg (by rintro rfl; exact hfull (by rw [hcount]; decide))]
      omega

/-- One function of the walk. -/
theorem scanFunction_walked {bus dev : UInt8} {func : Nat} (hdev : dev < 32) (hfunc : func < 8)
    {state : Scan} {found : List PciDevice} (h : Walked space table state found) :
    Walked space table (scanFunction bus dev state func)
      (found ++ if space.Answers ⟨bus, dev, UInt8.ofNat func⟩ then
        [space.device ⟨bus, dev, UInt8.ofNat func⟩] else []) := by
  have hvalid : PciAddr.Valid ⟨bus, dev, UInt8.ofNat func⟩ := by
    refine ⟨hdev, UInt8.lt_iff_toNat_lt.mpr ?_⟩
    show func % 256 < 8
    omega
  obtain ⟨host, entries, count⟩ := state
  have hspace : host.space = space := h.space
  simp only [scanFunction, PciAddr.vendorId, PciAddr.deviceId, PciAddr.classCode,
    PciAddr.subclass, PciAddr.progIf, configRead16_eq hvalid, configRead8_eq hvalid, hspace]
  split
  next hnone =>
    rw [if_neg (fun hanswers : space.Answers _ ↦ hanswers hnone), List.append_nil]
    exact h.read hspace.symm
  next hvid =>
    rw [if_pos (show space.Answers _ from hvid)]
    exact (h.enter _).read hspace.symm

/-- A loop whose body appends the items of its index collects the items of all indices, in order.
`R` relates a state of the loop to what was collected so far. -/
theorem foldl_flatMap {State Index Item : Type*} {R : State → List Item → Prop}
    {body : State → Index → State} {items : Index → List Item} {indices : List Index}
    (hbody : ∀ i ∈ indices, ∀ state found, R state found → R (body state i) (found ++ items i))
    {state : State} {found : List Item} (h : R state found) :
    R (indices.foldl body state) (found ++ indices.flatMap items) := by
  induction indices generalizing state found with
  | nil =>
      rw [List.flatMap_nil, List.append_nil]
      exact h
  | cons i rest ih =>
      rw [List.flatMap_cons, ← List.append_assoc]
      have hnext := hbody i List.mem_cons_self state found h
      exact ih (fun j hj ↦ hbody j (List.mem_cons_of_mem i hj)) hnext

/-- One device of the walk. -/
theorem scanDevice_walked {bus : UInt8} {dev : Nat} (hdev : dev < 32) {state : Scan}
    {found : List PciDevice} (h : Walked space table state found) :
    Walked space table (scanDevice bus state dev)
      (found ++ (List.range (space.functions bus (UInt8.ofNat dev))).flatMap fun func ↦
        if space.Answers ⟨bus, UInt8.ofNat dev, UInt8.ofNat func⟩ then
          [space.device ⟨bus, UInt8.ofNat dev, UInt8.ofNat func⟩] else []) := by
  have hdev : UInt8.ofNat dev < 32 := by
    refine UInt8.lt_iff_toNat_lt.mpr ?_
    show dev % 256 < 32
    omega
  have hvalid : PciAddr.Valid ⟨bus, UInt8.ofNat dev, 0⟩ := ⟨hdev, show (0 : UInt8) < 8 by decide⟩
  have hfew : space.functions bus (UInt8.ofNat dev) ≤ 8 := by
    rw [Space.functions]
    split
    · split <;> decide
    · decide
  obtain ⟨host, entries, count⟩ := state
  have hspace : host.space = space := h.space
  simp only [scanDevice, PciAddr.vendorId, PciAddr.headerType, configRead16_eq hvalid,
    configRead8_eq hvalid, hspace]
  split
  next hnone =>
    have hnot : ¬space.Answers ⟨bus, UInt8.ofNat dev, 0⟩ := fun hanswers ↦ hanswers hnone
    rw [Space.functions, if_neg hnot, List.range_zero, List.flatMap_nil, List.append_nil]
    exact h.read hspace.symm
  next hvid =>
    have hfunctions : space.functions bus (UInt8.ofNat dev) =
        if space.byte ⟨bus, UInt8.ofNat dev, 0⟩ 0x0E &&& 0x80 ≠ 0 then 8 else 1 :=
      if_pos (show space.Answers _ from hvid)
    rw [hfunctions] at hfew ⊢
    refine foldl_flatMap (fun func hfunc current sofar hwalked ↦ ?_) (h.read hspace.symm)
    exact scanFunction_walked hdev (Nat.lt_of_lt_of_le (List.mem_range.mp hfunc) hfew) hwalked

/-- A scan walks the whole space. -/
theorem scan_walked (host : Host) (table : Inventory) :
    Walked host.space table (scan host table) host.space.found := by
  have hstart : Walked host.space table ⟨host, table, 0⟩ [] := ⟨rfl, rfl, fun _ ↦ rfl, rfl⟩
  rw [scan, Space.found, ← List.nil_append (List.flatMap _ _)]
  refine foldl_flatMap (R := Walked host.space table)
    (fun bus _ current sofar hbus ↦ ?_) hstart
  rw [scanBus]
  refine foldl_flatMap (R := Walked host.space table)
    (fun dev hdev next found hwalked ↦ ?_) hbus
  exact scanDevice_walked (List.mem_range.mp hdev) hwalked

/-- The line that `scan` prints counts every function that answers, and no register changes. -/
theorem scan_count (host : Host) (table : Inventory) :
    (scan host table).count = host.space.found.length ∧ (scan host table).host.space = host.space :=
  ⟨(scan_walked host table).count, (scan_walked host table).space⟩

end Walk

/-! ## Looking up a class -/

section Lookup

/-- Searching the places of a list is searching the list. -/
theorem findSome?_finRange {Item Result : Type*} {n : Nat} (items : List Item)
    (hlength : n = items.length) {place : Fin n → Option Result} (look : Item → Option Result)
    (h : ∀ i, place i = look (items.get (i.cast hlength))) :
    (List.finRange n).findSome? place = items.findSome? look := by
  subst hlength
  rw [show place = look ∘ items.get from funext h, ← List.findSome?_map, List.map_get_finRange]

/-- A table whose places hold a list is searched as the list. -/
theorem findByClass_eq_of_list {table : Inventory} {found : List PciDevice}
    (hcount : table.pciCount = min found.length MAX_PCI_DEVICES)
    (hdevices : ∀ i : Fin MAX_PCI_DEVICES, i.val < found.length →
      table.devices i = found[i.val]?) (classCode subclass progIf : UInt8) :
    table.findByClass classCode subclass progIf =
      ((found.take MAX_PCI_DEVICES).find?
        (Inventory.IsOf · classCode subclass progIf)).map PciDevice.addr := by
  have hlength : table.pciCount = (found.take MAX_PCI_DEVICES).length := by
    rw [List.length_take, hcount, Nat.min_comm]
  rw [Inventory.findByClass, findSome?_finRange (found.take MAX_PCI_DEVICES) hlength
    (fun device ↦
      if Inventory.IsOf device classCode subclass progIf then some device.addr else none),
    List.find?_eq_findSome?_guard, List.map_findSome?]
  · congr 1
    funext device
    show _ = Option.map PciDevice.addr (Option.guard _ device)
    rw [Option.guard]
    by_cases hof : Inventory.IsOf device classCode subclass progIf
    · rw [if_pos hof, if_pos (decide_eq_true hof), Option.map_some]
    · rw [if_neg hof, if_neg (fun h ↦ hof (of_decide_eq_true h)), Option.map_none]
  · intro i
    have hi := i.isLt
    have hentry : table.devices (i.castLE table.count_le) =
        some ((found.take MAX_PCI_DEVICES).get (i.cast hlength)) := by
      rw [hdevices _ (by show i.val < found.length; omega)]
      show found[i.val]? = some (found.take MAX_PCI_DEVICES)[i.val]
      rw [List.getElem_take, List.getElem?_eq_getElem]
    rw [hentry, Option.bind_some]

/-- After a scan the first function of a class is found among the first 64 of the space. A space
where nothing answers leaves the answers of the scan before. -/
theorem scan_findByClass (host : Host) (table : Inventory) (classCode subclass progIf : UInt8) :
    (scan host table).table.findByClass classCode subclass progIf =
      if host.space.found = [] then table.findByClass classCode subclass progIf
      else ((host.space.found.take MAX_PCI_DEVICES).find?
        (Inventory.IsOf · classCode subclass progIf)).map PciDevice.addr := by
  have hwalked := scan_walked host table
  split
  next hempty =>
    have hsame : (scan host table).table = table := by
      apply Inventory.ext
      · funext i
        rw [hwalked.devices i, hempty, List.getElem?_nil, Option.none_or]
      · rw [hwalked.pciCount, if_pos hempty]
    rw [hsame]
  next hfound =>
    refine findByClass_eq_of_list ?_ (fun i hi ↦ ?_) classCode subclass progIf
    · rw [hwalked.pciCount, if_neg hfound]
    · rw [hwalked.devices i, List.getElem?_eq_getElem hi, Option.some_or]

end Lookup

end Avaria.Pci
