import Avaria.Ahci.Init
import Avaria.Lib.LastWrite

/-!
# Commands on the ports

Runs of `read_sectors` on ports that `init` made ready, with stores of other code and of the
controller in between. Every active port fetches the command that was set up for it last, whatever
was set up for other ports, as long as the stores spare the commands: `fetch_run`.
-/

namespace Avaria.Ahci.Driver

open Mem Mm

variable {σ : Type*} [PageSource σ]

/-! ## Runs -/

/-- What happens to the memory once the ports are ready: `read_sectors` sets up a command on a port,
or something else is stored, by the controller or by other code. -/
inductive Action where
  | read (port : Nat) (req : Request)
  | store (offset : Nat) (values : List UInt8)

/-- What a controller reads of the structures of a port. -/
def parts (driver : Driver σ) (i : Nat) : List Extent :=
  [⟨driver.portClb i, 4⟩, ⟨driver.portClb i + 8, 8⟩, ⟨driver.portCtba i, CMD_TABLE_SIZE⟩]

/-- The command of `read_sectors`. -/
def readCommand (req : Request) : HbaCommand :=
  setupCommand ATA_CMD_READ_DMA_EXT req.lba req.count req.byteCount false

/-- One action. Other stores are those that leave the commands of the active ports alone. -/
def step (hhdm : UInt64) (driver : Driver σ) : Action → Option (Driver σ)
  | .read port req =>
      if driver.Accepts port then
        some { driver with
          memory := setupCommandIn (driver.portClb port) (driver.portCtba port) (readCommand req)
            (virtToPhys hhdm req.buf) driver.memory }
      else some driver
  | .store offset values =>
      if ∀ i < MAX_PORTS, driver.Accepts i → ∀ part ∈ driver.parts i,
          (Extent.mk offset values.length).Apart part then
        some { driver with memory := driver.memory.store offset values }
      else none

/-- What the controller has to fetch for a port after an action. -/
def issued (hhdm : UInt64) (i : Nat) : Action → Option Fetched
  | .read port req =>
      if port = i then some ((readCommand req).fetched (virtToPhys hhdm req.buf)) else none
  | .store _ _ => none

section Run

variable {spare : σ → Set Nat → Prop} {hhdm : UInt64} {driver : Driver σ}

/-- What the controller fetches for a port. -/
def fetched (hhdm : UInt64) (i : Nat) (driver : Driver σ) : Fetched :=
  fetch (driver.regs i) (physical hhdm driver.memory)

omit [PageSource σ] in
/-- Pages of active ports that are not the same are separate. -/
theorem PortsReady.slots_apart (h : PortsReady spare hhdm driver) {i j : Nat} {s t : Slot}
    (hi : driver.Active i) (hj : driver.Active j) (hne : i = j → s ≠ t) :
    (page (driver.slot i s)).Apart (page (driver.slot j t)) :=
  page_apart (h.pages i hi s) (h.pages j hj t) fun hsame ↦ by
    obtain ⟨hport, hslot⟩ := h.distinct i j s t hi hj hsame
    exact hne hport hslot

omit [PageSource σ] in
/-- Writes that spare the command of a port do not change what the controller fetches for it. -/
theorem PortsReady.fetched_congr (h : PortsReady spare hhdm driver) {i : Nat}
    (hi : driver.Active i) {memory : ByteMap}
    (hparts : ∀ part ∈ driver.parts i, ∀ k, part.Contains k → memory k = driver.memory k) :
    fetched hhdm i { driver with memory } = fetched hhdm i driver := by
  have hwired := h.wired i hi
  have hpointer := hparts ⟨driver.portClb i + 8, 8⟩ (by simp [parts])
  show fetch (driver.regs i) (physical hhdm memory) = fetch (driver.regs i) _
  rw [(hwired.congr hpointer).fetch_eq, hwired.fetch_eq]
  exact commandAt_congr (hparts ⟨driver.portClb i, 4⟩ (by simp [parts]))
    (hparts ⟨driver.portCtba i, CMD_TABLE_SIZE⟩ (by simp [parts]))

omit [PageSource σ] in
/-- The command of another port is not where `setup_command` writes. -/
theorem PortsReady.setup_outside (h : PortsReady spare hhdm driver) {port i k : Nat}
    (hport : driver.Active port) (hi : driver.Active i) (hne : i ≠ port) {part : Extent}
    (hpart : part ∈ driver.parts i) (hk : part.Contains k) (cmd : HbaCommand) (bufPhys : UInt64) :
    setupCommandIn (driver.portClb port) (driver.portCtba port) cmd bufPhys driver.memory k =
      driver.memory k := by
  have hapart : ∀ s t, (page (driver.slot i s)).Apart (page (driver.slot port t)) :=
    fun s t ↦ h.slots_apart hi hport fun hsame ↦ absurd hsame hne
  have hlist := hapart .commandList .commandList
  have hlist' := hapart .commandTable .commandList
  have htable := hapart .commandList .commandTable
  have htable' := hapart .commandTable .commandTable
  simp only [Extent.Apart, page, slot] at hlist hlist' htable htable'
  simp only [parts, CMD_TABLE_SIZE, List.mem_cons, List.not_mem_nil, or_false] at hpart
  apply setupCommandIn_outside
  · simp only [Extent.Contains] at hk ⊢
    rcases hpart with rfl | rfl | rfl <;> simp only at hk <;> omega
  · simp only [Extent.Contains, CMD_TABLE_SIZE] at hk ⊢
    rcases hpart with rfl | rfl | rfl <;> simp only at hk <;> omega

omit [PageSource σ] in
/-- A command on an active port keeps all ports ready. -/
theorem PortsReady.read (h : PortsReady spare hhdm driver) {port : Nat} (hport : driver.Active port)
    (cmd : HbaCommand) (bufPhys : UInt64) :
    PortsReady spare hhdm
      { driver with
        memory := setupCommandIn (driver.portClb port) (driver.portCtba port) cmd bufPhys
          driver.memory } := by
  refine h.write fun i hi k hk ↦ ?_
  by_cases hsame : i = port
  · subst hsame
    have hapart := h.slots_apart hi hi (s := .commandList) (t := .commandTable)
      fun _ ↦ Slot.noConfusion
    simp only [Extent.Apart, page, slot] at hapart
    apply setupCommandIn_outside
    · simp only [Extent.Contains] at hk ⊢
      omega
    · simp only [Extent.Contains, CMD_TABLE_SIZE] at hk ⊢
      omega
  · exact h.setup_outside hport hi hsame (by simp [parts]) hk cmd bufPhys

omit [PageSource σ] in
/-- Its port fetches the command, the others what they did. -/
theorem PortsReady.fetched_read (h : PortsReady spare hhdm driver) {port i : Nat}
    (hport : driver.Active port) (hi : driver.Active i) (cmd : HbaCommand) (bufPhys : UInt64) :
    fetched hhdm i
      { driver with
        memory := setupCommandIn (driver.portClb port) (driver.portCtba port) cmd bufPhys
          driver.memory } =
      if port = i then cmd.fetched bufPhys else fetched hhdm i driver := by
  by_cases hsame : port = i
  · subst hsame
    rw [if_pos rfl]
    exact (h.wired port hport).fetch_setup cmd bufPhys
  · rw [if_neg hsame]
    exact h.fetched_congr hi fun part hpart k hk ↦
      h.setup_outside hport hi (Ne.symm hsame) hpart hk cmd bufPhys

omit [PageSource σ] in
/-- One action. -/
theorem PortsReady.step (h : PortsReady spare hhdm driver) {action : Action} {next : Driver σ}
    {i : Nat} (hi : driver.Active i) (hstep : Driver.step hhdm driver action = some next) :
    (PortsReady spare hhdm next ∧ next.Active i) ∧
      fetched hhdm i next = (issued hhdm i action).getD (fetched hhdm i driver) := by
  cases action with
  | read port req =>
      by_cases hport : driver.Accepts port
      · rw [Driver.step, if_pos hport] at hstep
        cases hstep
        have hactive := accepts_iff.mp hport
        refine ⟨⟨h.read hactive _ _, hi⟩, ?_⟩
        rw [h.fetched_read hactive hi, issued]
        split <;> rfl
      · rw [Driver.step, if_neg hport] at hstep
        cases hstep
        have hne : port ≠ i := by
          rintro rfl
          exact hport (accepts_iff.mpr hi)
        rw [issued, if_neg hne]
        exact ⟨⟨h, hi⟩, rfl⟩
  | store offset values =>
      rw [Driver.step] at hstep
      split at hstep
      next hapart =>
        cases hstep
        have hspared : ∀ i, driver.Active i → ∀ part ∈ driver.parts i, ∀ k, part.Contains k →
            driver.memory.store offset values k = driver.memory k := fun i hi part hpart k hk ↦ by
          have haccepts := accepts_iff.mpr hi
          have hout := hapart i haccepts.1 haccepts part hpart
          simp only [Extent.Apart, Extent.Contains] at hout hk
          exact ByteMap.store_outside (by omega)
        exact ⟨⟨h.write fun i hi ↦ hspared i hi _ (by simp [parts]), hi⟩,
          h.fetched_congr hi (hspared i hi)⟩
      next => cases hstep

omit [PageSource σ] in
/-- In every run from ready ports, whatever is set up for which ports in which order and whatever is
stored elsewhere, the controller fetches for an active port the command that was set up for it
last. -/
theorem fetch_run {final : Driver σ} {actions : List Action} (h : PortsReady spare hhdm driver)
    (hrun : Transition.run (Driver.step hhdm) driver actions = some final) {i : Nat}
    (hi : driver.Accepts i) :
    PortsReady spare hhdm final ∧ final.Accepts i ∧
      fetched hhdm i final =
        (LastWrite.last (issued hhdm i) actions).getD (fetched hhdm i driver) := by
  obtain ⟨⟨hready, hactive⟩, heq⟩ := LastWrite.view_run (fetched hhdm i)
    (I := fun state ↦ PortsReady spare hhdm state ∧ state.Active i)
    (fun state action next hstate hstep ↦ hstate.1.step hstate.2 hstep)
    ⟨h, accepts_iff.mp hi⟩ hrun
  exact ⟨hready, accepts_iff.mpr hactive, heq⟩

/-- Four pages for a driver that has nothing yet. -/
def fourPages : Driver (List Nat) where
  host := ⟨0, fun _ _ ↦ 0xFFFFFFFF, fun _ _ old _ ↦ old⟩
  tables _ := 0
  heap := ⟨SlabAllocator.new, [0xFFFF800000101000, 0xFFFF800000102000, 0xFFFF800000103000]⟩
  memory _ := 0
  ghc := 0
  regs _ := ⟨0, 0, 0, 0, 0⟩
  abar := 0xFFFF8000FEBF0000
  identifyBuf := 0xFFFF800000100000
  activePorts := 0
  portClb _ := 0
  portFb _ := 0
  portCtba _ := 0

/-- The pages are ready for port 0. -/
theorem fourPages_ready :
    PortsReady (fun source pages ↦ source.Nodup ∧ ∀ page ∈ source, page ∈ pages)
        0xFFFF800000000000 (fourPages.visitPorts oneDisk 0xFFFF800000000000) ∧
      (fourPages.visitPorts oneDisk 0xFFFF800000000000).Accepts 0 := by
  have hpages : ∀ p ∈ [0xFFFF800000101000, 0xFFFF800000102000, 0xFFFF800000103000],
      (p % 0x1000 = 0 ∧ (0xFFFF800000000000 : UInt64).toNat ≤ p ∧
        p < (0xFFFF800000000000 : UInt64).toNat + 2 ^ 52 ∧ p < 2 ^ 64) ∧
          p ≠ 0xFFFF800000100000 := by decide
  have hidentify : HhdmPage 0xFFFF800000000000 fourPages.identifyBuf :=
    ⟨rfl, Nat.le_of_ble_eq_true rfl, Nat.le_of_ble_eq_true rfl, Nat.le_of_ble_eq_true rfl⟩
  have hstart : PortsReady (fun source pages ↦ source.Nodup ∧ ∀ page ∈ source, page ∈ pages)
      0xFFFF800000000000 fourPages :=
    portsReady_of_none rfl ⟨by decide, fun _ hp ↦ hp⟩ hidentify hpages
  obtain ⟨hready, -⟩ := hstart.visitPorts list_supplies oneDisk_confined rfl
  exact ⟨hready, by decide +kernel⟩

/-- The second of two commands on the port is fetched. -/
theorem fetch_run_one_disk :
    ∃ final, Transition.run (Driver.step 0xFFFF800000000000)
        (fourPages.visitPorts oneDisk 0xFFFF800000000000)
        [.read 0 ⟨7, 1, 0xFFFF800000200000, none⟩, .read 0 ⟨9, 2, 0xFFFF800000200000, none⟩] =
          some final ∧
      fetched 0xFFFF800000000000 0 final =
        (readCommand ⟨9, 2, 0xFFFF800000200000, none⟩).fetched 0x200000 := by
  obtain ⟨hready, haccepts⟩ := fourPages_ready
  obtain ⟨final, hrun⟩ : ∃ final, Transition.run (Driver.step 0xFFFF800000000000)
      (fourPages.visitPorts oneDisk 0xFFFF800000000000)
      [.read 0 ⟨7, 1, 0xFFFF800000200000, none⟩, .read 0 ⟨9, 2, 0xFFFF800000200000, none⟩] =
        some final := by
    have hsecond : ∀ memory : ByteMap, ({ fourPages.visitPorts oneDisk 0xFFFF800000000000 with
        memory } : Driver (List Nat)).Accepts 0 := fun _ ↦ haccepts
    rw [Transition.run_cons, Driver.step, if_pos haccepts, Option.bind_some, Transition.run_cons,
      Driver.step, if_pos (hsecond _), Option.bind_some]
    exact ⟨_, rfl⟩
  obtain ⟨-, -, heq⟩ := fetch_run hready hrun haccepts
  exact ⟨final, hrun, heq⟩

end Run

end Avaria.Ahci.Driver
