import Avaria.Ahci.Command
import Avaria.Lib.ByteMap
import Avaria.Lib.Transition

/-!
# A port and its controller

`read_bytes` and `read_sectors` on one port, cut at their accesses to the registers, next to a
controller that may complete a command, raise errors and write to the buffers it was given at any
time, however late.

`issue_command` gives up on a command after a number of polls or on a task file error, and does not
take the command back: its buffer is freed, and the next command is set up over it. `Respects` says
what a step must not do to an outstanding command, and `command_not_reused` that no step does as
long as the driver gives up on completed commands only.
-/

namespace Avaria.Ahci

open Transition

/-- `PORT_TFD_BSY`. -/
def PORT_TFD_BSY : UInt32 := (1 : UInt32) <<< 7

/-- `PORT_TFD_DRQ`. -/
def PORT_TFD_DRQ : UInt32 := (1 : UInt32) <<< 3

/-- `PORT_TFD_ERR`. -/
def PORT_TFD_ERR : UInt32 := (1 : UInt32) <<< 0

/-- What `read_bytes` does with its buffer after the read: the range that it copies, and the size
that it frees. -/
structure Bounce where
  bufSize : Nat
  offsetInSector : Nat
  dst : Nat
  count : Nat

/-- A call of `read_sectors`, by `read_bytes` or by other code. -/
structure Request where
  lba : UInt64
  count : UInt16
  buf : Nat
  bounce : Option Bounce

/-- `byte_count`. -/
def Request.byteCount (req : Request) : UInt32 :=
  if req.count = 0 then 65536 * 512 else req.count.toUInt32 * 512

/-- The call of `read_sectors` in `read_bytes`, for the buffer that `kmalloc_aligned` returned. -/
def bounceRequest (byteOff dst count buf : Nat) : Request :=
  let sectorStart := byteOff / 512
  let offsetInSector := byteOff % 512
  let totalBytes := offsetInSector + count
  let sectorCount := (totalBytes + 511) / 512
  let bufSize := sectorCount * 512
  ⟨UInt64.ofNat sectorStart, UInt16.ofNat sectorCount, buf,
    some ⟨bufSize, offsetInSector, dst, count⟩⟩

/-- Where the driver is: before the next call, before an access of `wait_port_ready`,
`setup_command` or `issue_command` with the number of polls left, or after `read_sectors`. -/
inductive Point where
  | idle
  | entered (req : Request)
  | waitReady (req : Request) (left : Nat)
  | setup (req : Request)
  | clearIs (req : Request)
  | setCi (req : Request)
  | pollCi (req : Request) (left : Nat)
  | readTfd (req : Request)
  | readIs (req : Request) (left : Nat)
  | returned (req : Request) (ok : Bool)

/-- The registers, the command in memory, the memory of the buffers, the buffers of the commands
that were issued since bit 0 of CI was last clear, and what was passed to `kfree`. -/
structure Port where
  active : Bool
  ci : UInt32
  tfd : UInt32
  is : UInt32
  command : HbaCommand
  memory : ByteMap
  held : List Extent
  freed : List (Nat × Nat)
  point : Point

namespace Port

/-- A port without outstanding commands. -/
def start (active : Bool) (tfd is : UInt32) (command : HbaCommand) (memory : ByteMap) : Port :=
  ⟨active, 0, tfd, is, command, memory, [], [], .idle⟩

/-- A command is outstanding. -/
def Outstanding (port : Port) : Prop := port.ci &&& 1 ≠ 0

instance (port : Port) : Decidable port.Outstanding :=
  inferInstanceAs (Decidable (port.ci &&& 1 ≠ 0))

/-- The next access of the driver. After `read_sectors`, `read_bytes` copies the data and frees its
buffer. -/
def advance (port : Port) : Option Port :=
  match port.point with
  | .idle => none
  | .entered req =>
      if port.active then some { port with point := .waitReady req 1000000 }
      else some { port with point := .returned req false }
  -- The port stayed busy: `read_sectors` fails without a command.
  | .waitReady req 0 => some { port with point := .returned req false }
  | .waitReady req (left + 1) =>
      if port.tfd &&& (PORT_TFD_BSY ||| PORT_TFD_DRQ) = 0 then
        some { port with point := .setup req }
      else some { port with point := .waitReady req left }
  | .setup req =>
      some { port with
        command := setupCommand ATA_CMD_READ_DMA_EXT req.lba req.count req.byteCount false
        point := .clearIs req }
  -- Writing 1 to a bit of IS clears it; writing 1 to a bit of CI sets it.
  | .clearIs req => some { port with is := port.is &&& ~~~0xFFFFFFFF, point := .setCi req }
  | .setCi req =>
      some { port with
        ci := port.ci ||| 1
        held := ⟨req.buf, req.byteCount.toNat⟩ :: port.held
        point := .pollCi req 10000000 }
  -- The timeout leaves the command with the controller.
  | .pollCi req 0 => some { port with point := .returned req false }
  | .pollCi req (left + 1) =>
      if port.ci &&& 1 = 0 then some { port with point := .readTfd req }
      else some { port with point := .readIs req left }
  | .readTfd req =>
      if port.tfd &&& PORT_TFD_ERR ≠ 0 then some { port with point := .returned req false }
      else some { port with point := .returned req true }
  | .readIs req left =>
      -- So does the end at a task file error: bit 0 of CI was set at the last poll.
      if port.is &&& ((1 : UInt32) <<< 30) ≠ 0 then
        some { port with point := .returned req false }
      else some { port with point := .pollCi req left }
  | .returned req ok =>
      match req.bounce with
      -- Other callers of `read_sectors` keep their buffer.
      | none => some { port with point := .idle }
      | some bounce =>
          let copied := port.memory.copy ⟨bounce.dst, bounce.count⟩ port.memory
            (req.buf + bounce.offsetInSector)
          some { port with
            memory := if ok then copied else port.memory
            freed := (req.buf, bounce.bufSize) :: port.freed
            point := .idle }

end Port

/-- A call, the next access of the driver, or what the controller does: complete the command, raise
errors, or write to a buffer. -/
inductive PortAction where
  | readBytes (byteOff dst count buf : Nat)
  | readSectors (lba : UInt64) (count : UInt16) (buf : Nat)
  | driver
  | complete (tfd is : UInt32)
  | raise (tfd is : UInt32)
  | transfer (target : Extent) (data : ByteMap)

namespace Port

/-- One step of the driver or the controller. -/
def step (port : Port) : PortAction → Option Port
  | .readBytes byteOff dst count buf =>
      match port.point with
      | .idle =>
          if count = 0 ∨ buf = 0 then some port
          else some { port with point := .entered (bounceRequest byteOff dst count buf) }
      | _ => none
  | .readSectors lba count buf =>
      match port.point with
      | .idle => some { port with point := .entered ⟨lba, count, buf, none⟩ }
      | _ => none
  | .driver => port.advance
  -- The buffers are the driver's again once bit 0 of CI is clear.
  | .complete tfd is => some { port with ci := port.ci &&& ~~~1, tfd, is, held := [] }
  | .raise tfd is => some { port with tfd, is }
  | .transfer target data =>
      if ∃ buf ∈ port.held, target.Within buf then
        some { port with memory := port.memory.copy target data 0 }
      else none

/-- The next access of the driver rewrites the command in memory, or frees a buffer that the
controller holds. -/
def reuses (port : Port) : Bool :=
  match port.point with
  | .setup _ => true
  | .returned req _ => req.bounce.isSome && port.held.any (·.start = req.buf)
  | _ => false

/-- The step leaves outstanding commands alone. -/
def Respects (port : Port) : PortAction → Prop
  | .driver => port.reuses = true → ¬ port.Outstanding
  | _ => True

/-- The next access of the driver ends `issue_command` before it saw bit 0 of CI clear: the polls
are used up, or the controller reports a task file error. -/
def givesUp (port : Port) : Bool :=
  match port.point with
  | .pollCi _ 0 => true
  | .readIs _ _ => decide (port.is &&& ((1 : UInt32) <<< 30) ≠ 0)
  | _ => false

/-- The step does not give up on an outstanding command. -/
def Patient (port : Port) : PortAction → Prop
  | .driver => port.givesUp = true → ¬ port.Outstanding
  | _ => True

instance (port : Port) : DecidablePred port.Patient
  | .driver => inferInstanceAs (Decidable (port.givesUp = true → ¬ port.Outstanding))
  | .readBytes _ _ _ _ => inferInstanceAs (Decidable True)
  | .readSectors _ _ _ => inferInstanceAs (Decidable True)
  | .complete _ _ => inferInstanceAs (Decidable True)
  | .raise _ _ => inferInstanceAs (Decidable True)
  | .transfer _ _ => inferInstanceAs (Decidable True)

/-- The request whose command the driver waits for. -/
def awaited : Point → Option Request
  | .pollCi req _ => some req
  | .readIs req _ => some req
  | _ => none

/-- The driver waits for each outstanding command. -/
def Orderly (port : Port) : Prop := port.Outstanding → awaited port.point ≠ none

/-- A driver that is elsewhere left no command outstanding. -/
theorem Orderly.not_outstanding {port : Port} (h : port.Orderly)
    (hpoint : awaited port.point = none) : ¬ port.Outstanding := fun hout ↦ h hout hpoint

theorem start_orderly (active : Bool) (tfd is : UInt32) (command : HbaCommand)
    (memory : ByteMap) : (start active tfd is command memory).Orderly :=
  fun hout ↦ absurd UInt32.zero_and hout

/-- Clearing bit 0 of CI leaves no command outstanding. -/
theorem clear_and_one (ci : UInt32) : (ci &&& ~~~1) &&& 1 = 0 := by
  rw [UInt32.and_assoc]
  exact UInt32.and_zero

/-- What an access of the driver can do: leave the driver where it waits for nothing, which it does
not do to an outstanding command unless it gives up; issue a command; or go on waiting. -/
theorem advance_cases {port next : Port} (hstep : port.advance = some next) :
    (awaited next.point = none ∧ next.ci = port.ci ∧
      (awaited port.point = none ∨ port.givesUp = true ∨ ¬ port.Outstanding)) ∨
    (∃ req, awaited next.point = some req ∧
      next.held = ⟨req.buf, req.byteCount.toNat⟩ :: port.held) ∨
    (awaited next.point = awaited port.point ∧ awaited port.point ≠ none ∧ next.ci = port.ci ∧
      next.held = port.held) := by
  unfold Port.advance at hstep
  unfold givesUp
  cases hpoint : port.point with
  | idle =>
      rw [hpoint] at hstep
      cases hstep
  | entered req =>
      rw [hpoint] at hstep
      dsimp only at hstep
      split at hstep
      · cases hstep
        exact Or.inl ⟨rfl, rfl, Or.inl rfl⟩
      · cases hstep
        exact Or.inl ⟨rfl, rfl, Or.inl rfl⟩
  | waitReady req left =>
      rw [hpoint] at hstep
      cases left with
      | zero =>
          cases hstep
          exact Or.inl ⟨rfl, rfl, Or.inl rfl⟩
      | succ left =>
          dsimp only at hstep
          split at hstep
          · cases hstep
            exact Or.inl ⟨rfl, rfl, Or.inl rfl⟩
          · cases hstep
            exact Or.inl ⟨rfl, rfl, Or.inl rfl⟩
  | setup req =>
      rw [hpoint] at hstep
      cases hstep
      exact Or.inl ⟨rfl, rfl, Or.inl rfl⟩
  | clearIs req =>
      rw [hpoint] at hstep
      cases hstep
      exact Or.inl ⟨rfl, rfl, Or.inl rfl⟩
  | setCi req =>
      rw [hpoint] at hstep
      cases hstep
      exact Or.inr (Or.inl ⟨req, rfl, rfl⟩)
  | pollCi req left =>
      rw [hpoint] at hstep
      cases left with
      | zero =>
          cases hstep
          exact Or.inl ⟨rfl, rfl, Or.inr (Or.inl rfl)⟩
      | succ left =>
          dsimp only at hstep
          split at hstep
          · rename_i hclear
            cases hstep
            exact Or.inl ⟨rfl, rfl, Or.inr (Or.inr fun hout ↦ hout hclear)⟩
          · cases hstep
            exact Or.inr (Or.inr ⟨rfl, nofun, rfl, rfl⟩)
  | readTfd req =>
      rw [hpoint] at hstep
      dsimp only at hstep
      split at hstep
      · cases hstep
        exact Or.inl ⟨rfl, rfl, Or.inl rfl⟩
      · cases hstep
        exact Or.inl ⟨rfl, rfl, Or.inl rfl⟩
  | readIs req left =>
      rw [hpoint] at hstep
      dsimp only at hstep
      split at hstep
      · rename_i herror
        cases hstep
        exact Or.inl ⟨rfl, rfl, Or.inr (Or.inl (decide_eq_true herror))⟩
      · cases hstep
        exact Or.inr (Or.inr ⟨rfl, nofun, rfl, rfl⟩)
  | returned req ok =>
      rw [hpoint] at hstep
      dsimp only at hstep
      split at hstep
      · cases hstep
        exact Or.inl ⟨rfl, rfl, Or.inl rfl⟩
      · cases hstep
        exact Or.inl ⟨rfl, rfl, Or.inl rfl⟩

theorem outstanding_congr {port next : Port} (h : next.ci = port.ci) :
    next.Outstanding ↔ port.Outstanding := by
  rw [Outstanding, Outstanding, h]

/-- A patient access of the driver keeps the port orderly. -/
theorem Orderly.advance {port next : Port} (h : port.Orderly) (hpatient : port.Patient .driver)
    (hstep : port.advance = some next) : next.Orderly := by
  intro hout
  rcases advance_cases hstep with
    ⟨-, hci, hleft⟩ | ⟨req, hreq, -⟩ | ⟨hsame, hwaits, -, -⟩
  · have hport := (outstanding_congr hci).mp hout
    rcases hleft with hnone | hgive | hnot
    · exact absurd hnone (h hport)
    · exact absurd hport (hpatient hgive)
    · exact absurd hport hnot
  · rw [hreq]
    exact nofun
  · rw [hsame]
    exact hwaits

/-- What a step can do: an access of the driver, the start of a call, the completion of commands,
or nothing to CI, the held buffers and the driver. -/
theorem step_cases {port next : Port} {action : PortAction}
    (hstep : port.step action = some next) :
    (action = .driver ∧ port.advance = some next) ∨
    (∃ req, port.point = .idle ∧ next = { port with point := .entered req }) ∨
    ¬ next.Outstanding ∨
    (next.point = port.point ∧ next.ci = port.ci ∧ next.held = port.held) := by
  cases action with
  | readBytes byteOff dst count buf =>
      unfold Port.step at hstep
      dsimp only at hstep
      split at hstep
      · rename_i hidle
        split at hstep
        · cases hstep
          exact Or.inr (Or.inr (Or.inr ⟨rfl, rfl, rfl⟩))
        · cases hstep
          exact Or.inr (Or.inl ⟨_, hidle, rfl⟩)
      · cases hstep
  | readSectors lba count buf =>
      unfold Port.step at hstep
      dsimp only at hstep
      split at hstep
      · rename_i hidle
        cases hstep
        exact Or.inr (Or.inl ⟨_, hidle, rfl⟩)
      · cases hstep
  | driver => exact Or.inl ⟨rfl, hstep⟩
  | complete tfd is =>
      cases hstep
      exact Or.inr (Or.inr (Or.inl fun hout ↦ hout (clear_and_one port.ci)))
  | raise tfd is =>
      cases hstep
      exact Or.inr (Or.inr (Or.inr ⟨rfl, rfl, rfl⟩))
  | transfer target data =>
      unfold Port.step at hstep
      dsimp only at hstep
      split at hstep
      · cases hstep
        exact Or.inr (Or.inr (Or.inr ⟨rfl, rfl, rfl⟩))
      · cases hstep

/-- A patient step keeps the port orderly. -/
theorem Orderly.step {port next : Port} {action : PortAction} (h : port.Orderly)
    (hpatient : port.Patient action) (hstep : port.step action = some next) : next.Orderly := by
  rcases step_cases hstep with
    ⟨rfl, hadvance⟩ | ⟨req, hidle, rfl⟩ | hnot | ⟨hpoint, hci, -⟩
  · exact h.advance hpatient hadvance
  · exact fun hout ↦ absurd hout (h.not_outstanding (by rw [hidle]; rfl))
  · exact fun hout ↦ absurd hout hnot
  · intro hout
    rw [hpoint]
    exact h ((outstanding_congr hci).mp hout)

/-- A step of an orderly port leaves outstanding commands alone. -/
theorem Orderly.respects {port : Port} (h : port.Orderly) (action : PortAction) :
    port.Respects action := by
  cases action with
  | driver =>
      intro hreuses
      refine h.not_outstanding ?_
      unfold reuses at hreuses
      cases hpoint : port.point with
      | pollCi req left =>
          rw [hpoint] at hreuses
          cases hreuses
      | readIs req left =>
          rw [hpoint] at hreuses
          cases hreuses
      | _ => rfl
  | _ => trivial

/-- The controller holds the buffer of the outstanding command that the driver waits for. -/
def Holds (port : Port) : Prop :=
  ∀ req, awaited port.point = some req → port.Outstanding →
    port.held.any (·.start = req.buf) = true

theorem Holds.step {port next : Port} {action : PortAction} (h : port.Holds)
    (hstep : port.step action = some next) : next.Holds := by
  intro req hreq hout
  rcases step_cases hstep with
    ⟨-, hadvance⟩ | ⟨other, -, rfl⟩ | hnot | ⟨hpoint, hci, hheld⟩
  · rcases advance_cases hadvance with
      ⟨hnone, -, -⟩ | ⟨other, hother, hheld⟩ | ⟨hsame, -, hci, hheld⟩
    · rw [hnone] at hreq
      cases hreq
    · obtain rfl := Option.some.inj (hother.symm.trans hreq)
      rw [hheld]
      simp
    · rw [hheld]
      exact h req (hsame.symm.trans hreq) ((outstanding_congr hci).mp hout)
  · cases hreq
  · exact absurd hout hnot
  · rw [hheld]
    rw [hpoint] at hreq
    exact h req hreq ((outstanding_congr hci).mp hout)

/-- A driver that gives up on a request returns with a failure. -/
theorem advance_of_givesUp {port : Port} {req : Request} (hreq : awaited port.point = some req)
    (h : port.givesUp = true) :
    port.step .driver = some { port with point := .returned req false } := by
  show port.advance = _
  unfold Port.advance
  unfold givesUp at h
  cases hpoint : port.point with
  | pollCi other left =>
      rw [hpoint] at hreq h
      cases hreq
      cases left with
      | zero => rfl
      | succ left => cases h
  | readIs other left =>
      rw [hpoint] at hreq h
      cases hreq
      exact if_pos (of_decide_eq_true h)
  | _ =>
      rw [hpoint] at hreq
      cases hreq

end Port

/-! ## Runs -/

/-- In every run in which the driver gives up on completed commands only, no step rewrites an
outstanding command or frees its buffer. -/
theorem command_not_reused (active : Bool) (tfd is : UInt32) (command : HbaCommand)
    (memory : ByteMap) (actions : List PortAction)
    (h : Throughout Port.step Port.Patient (.start active tfd is command memory) actions) :
    Throughout Port.step Port.Respects (.start active tfd is command memory) actions :=
  h.mono (fun _ _ _ hinv hpatient hstep ↦ hinv.step hpatient hstep)
    (fun _ action hinv _ ↦ hinv.respects action)
    (Port.start_orderly active tfd is command memory)

/-- The condition is needed: when the driver gives up on an outstanding command of `read_bytes`, in
whatever run, its next access frees the buffer. -/
theorem giving_up_frees {active : Bool} {tfd is : UInt32} {command : HbaCommand} {memory : ByteMap}
    {port : Port} (hreach : Reachable Port.step (.start active tfd is command memory) port)
    {req : Request} (hreq : Port.awaited port.point = some req) (hbounce : req.bounce.isSome)
    (h : ¬ port.Patient .driver) :
    ∃ next, port.step .driver = some next ∧ ¬ next.Respects .driver := by
  obtain ⟨hgive, hout⟩ := Classical.not_imp.mp h
  have hheld : port.Holds :=
    hreach.invariant (P := Port.Holds) nofun fun _ _ _ hinv hstep ↦ hinv.step hstep
  have hany := hheld req hreq (Classical.not_not.mp hout)
  refine ⟨_, Port.advance_of_givesUp hreq hgive, fun hrespects ↦ ?_⟩
  have hreuses : Port.reuses { port with point := .returned req false } = true := by
    show (req.bounce.isSome && port.held.any (·.start = req.buf)) = true
    rw [hbounce, hany]
    rfl
  exact hout (hrespects hreuses)

/-- A command in memory that was never set up. -/
def blankCommand : HbaCommand := setupCommand 0 0 0 0 false

/-- A read of two sectors, a number of accesses of the driver, and what follows. -/
def readActions (accesses : Nat) (rest : List PortAction) : List PortAction :=
  PortAction.readBytes 1024 0x5000 1024 0x8000 :: List.replicate accesses PortAction.driver ++ rest

/-- A disk that completes a command after one poll. -/
theorem command_not_reused_completed :
    Throughout Port.step Port.Respects (.start true 0 0 blankCommand fun _ ↦ 0)
      (readActions 7 [.complete 0 0, .driver, .driver, .driver]) :=
  command_not_reused true 0 0 blankCommand (fun _ ↦ 0) _ (by decide +kernel)

/-- On a task file error, which leaves bit 0 of CI set, the buffer of the outstanding command is
freed. -/
theorem outstanding_buffer_freed :
    ¬ Throughout Port.step Port.Respects (.start true 0 0 blankCommand fun _ ↦ 0)
      (readActions 6 [.raise 1 0x40000000, .driver, .driver]) := by
  intro h
  have hafter : (run Port.step (.start true 0 0 blankCommand fun _ ↦ 0)
      (readActions 6 [.raise 1 0x40000000, .driver])).map (fun port ↦ (port.reuses, port.ci)) =
      some (true, 1) := by decide +kernel
  obtain ⟨port, hrun, hport⟩ := Option.map_eq_some_iff.mp hafter
  obtain ⟨hreuses, hci⟩ := Prod.ext_iff.mp hport
  have hout : port.Outstanding := by
    show port.ci &&& 1 ≠ 0
    rw [show port.ci = 1 from hci]
    decide
  have hlast : readActions 6 [.raise 1 0x40000000, .driver, .driver] =
      readActions 6 [.raise 1 0x40000000, .driver] ++ [.driver] := rfl
  rw [hlast] at h
  exact h.at_prefix hrun hreuses hout

end Avaria.Ahci
