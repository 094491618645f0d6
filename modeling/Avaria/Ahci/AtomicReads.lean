import Avaria.Ahci.Dispatch
import Avaria.Ahci.Port
import Avaria.Fs.Block

/-!
# Reads as atomic steps

The file system takes `read_sectors` as one step that either puts the sectors into the buffer or
fails (`Fs.readSectors`). On the port, the driver polls and the controller transfers in between.

`reads_atomic` says that the runs of the two agree with reads in one step, one after another in the
order of the calls, as long as the driver gives up on completed commands only and the controller is
`Honest`: it writes only where the sectors belong and reports success only when they are there.
`performed_readBytes` relates such a step to `read_bytes` of the file system.
-/

namespace Avaria.Ahci

open Transition Mm Fs

/-! ## One step -/

namespace Request

/-- The buffer of the request. -/
def buffer (req : Request) : Extent := ⟨req.buf, req.byteCount.toNat⟩

/-- The part of the buffer that the controller writes. -/
def target (req : Request) : Extent := ⟨req.buf, (Driver.readCommand req).transferred⟩

/-- What `read_bytes` does after a successful read: it copies the bytes that it was asked for. -/
def copyBack (req : Request) (memory : ByteMap) : ByteMap :=
  match req.bounce with
  | none => memory
  | some bounce =>
      memory.copy ⟨bounce.dst, bounce.count⟩ memory (req.buf + bounce.offsetInSector)

/-- The sectors are in the buffer. -/
def Filled (image : ByteMap) (req : Request) (memory : ByteMap) : Prop :=
  ∀ k < (Driver.readCommand req).transferred,
    memory (req.buf + k) = image ((Driver.readCommand req).fis.lba * SECTOR_SIZE + k)

end Request

/-- The disk as the file system has it for one command, which leaves any bytes in its buffer if it
fails. -/
def diskFor (image : ByteMap) (ok : Bool) (left : ByteMap) : Disk where
  image
  fails _ := if ok then none else some left

/-- A request with its answer as one step. -/
def Performed (image : ByteMap) (answer : Request × Bool) (before after : ByteMap) : Prop :=
  ∃ left, match readSectors (diskFor image answer.2 left) 0 answer.1.lba.toNat answer.1.count
      answer.1.buf before with
    | (true, memory) => after = answer.1.copyBack memory
    | (false, memory) => after = memory

theorem Request.toNat_byteCount (req : Request) :
    req.byteCount.toNat = (if req.count = 0 then 65536 else req.count.toNat) * SECTOR_SIZE := by
  have hlt := req.count.toNat_lt
  unfold byteCount
  by_cases hzero : req.count = 0
  · rw [if_pos hzero, if_pos hzero]
    rfl
  · rw [if_neg hzero, if_neg hzero, UInt32.toNat_mul, UInt16.toNat_toUInt32]
    exact Nat.mod_eq_of_lt (by show req.count.toNat * 512 < 2 ^ 32; omega)

/-- The controller writes to the buffer only. -/
theorem Request.target_within (req : Request) : req.target.Within req.buffer := by
  refine ⟨Nat.le_refl _, Nat.add_le_add_left ?_ _⟩
  show (Driver.readCommand req).transferred ≤ req.byteCount.toNat
  rw [req.toNat_byteCount, HbaCommand.transferred, Driver.readCommand, setupCommand_sectors]
  exact Nat.min_le_left _ _

/-- What `read_sectors` of the file system does for a request. -/
theorem readSectors_request (image : ByteMap) (ok : Bool) (left before : ByteMap)
    {req : Request} (command : Nat) {lba : Nat} (hlba : UInt64.ofNat lba = req.lba) :
    readSectors (diskFor image ok left) command lba req.count req.buf before =
      if ok then (true, before.copy req.target image
        ((Driver.readCommand req).fis.lba * SECTOR_SIZE))
      else (false, before.copy req.target left 0) := by
  rw [readSectors, hlba]
  cases ok <;> rfl

/-- A request that succeeded: the sectors are in the buffer, and `read_bytes` copied from them. -/
theorem performed_true {image before after : ByteMap} {req : Request} :
    Performed image (req, true) before after ↔
      after = req.copyBack (before.copy req.target image
        ((Driver.readCommand req).fis.lba * SECTOR_SIZE)) := by
  unfold Performed
  simp only [readSectors_request image _ _ before 0 UInt64.ofNat_toNat, if_true]
  exact exists_const ByteMap

/-- A request that failed. -/
theorem performed_false {image before after : ByteMap} {req : Request} :
    Performed image (req, false) before after ↔
      ∀ a, ¬ req.target.Contains a → after a = before a := by
  unfold Performed
  simp only [readSectors_request image _ _ before 0 UInt64.ofNat_toNat, Bool.false_eq_true,
    if_false]
  constructor
  · rintro ⟨left, rfl⟩ a ha
    exact ByteMap.copy_of_not_contains ha
  · refine fun h ↦ ⟨after.behind req.buf, funext fun a ↦ ?_⟩
    by_cases ha : req.target.Contains a
    · rw [ByteMap.copy_of_contains ha, ByteMap.behind]
      have hle : req.buf ≤ a := ha.1
      exact congrArg after (by show a = req.buf + (0 + (a - req.buf)); omega)
    · rw [ByteMap.copy_of_not_contains ha]
      exact h a ha

/-! ## The controller -/

namespace Port

/-- The sectors of the command are in its buffer. -/
def Arrived (image : ByteMap) (port : Port) : Prop :=
  ∀ buf ∈ port.held, ∀ k < port.command.transferred,
    port.memory (buf.start + k) = image (port.command.fis.lba * SECTOR_SIZE + k)

instance (image : ByteMap) (port : Port) : Decidable (port.Arrived image) :=
  inferInstanceAs (Decidable (∀ buf ∈ port.held, ∀ k < port.command.transferred,
    port.memory (buf.start + k) = image (port.command.fis.lba * SECTOR_SIZE + k)))

/-- What the controller does with a command: it writes only where the sectors belong, it reports
success only when they are there, and it does not take an error back before the next command. -/
def Honest (image : ByteMap) (port : Port) : PortAction → Prop
  | .complete tfd _ => tfd &&& PORT_TFD_ERR = 0 →
      if port.Outstanding then port.Arrived image else port.tfd &&& PORT_TFD_ERR = 0
  | .raise tfd _ => ¬ port.Outstanding → tfd &&& PORT_TFD_ERR = 0 → port.tfd &&& PORT_TFD_ERR = 0
  | .transfer target _ =>
      ∀ buf ∈ port.held, target.Within ⟨buf.start, port.command.transferred⟩
  | _ => True

/-- The step is honest and does not give up on an outstanding command. -/
def Allowed (image : ByteMap) (port : Port) (action : PortAction) : Prop :=
  port.Patient action ∧ port.Honest image action

instance (image : ByteMap) (port : Port) : DecidablePred (port.Honest image)
  | .complete tfd _ => inferInstanceAs (Decidable (tfd &&& PORT_TFD_ERR = 0 →
      if port.Outstanding then port.Arrived image else port.tfd &&& PORT_TFD_ERR = 0))
  | .raise tfd _ => inferInstanceAs (Decidable (¬ port.Outstanding →
      tfd &&& PORT_TFD_ERR = 0 → port.tfd &&& PORT_TFD_ERR = 0))
  | .transfer target _ => inferInstanceAs (Decidable (∀ buf ∈ port.held,
      target.Within ⟨buf.start, port.command.transferred⟩))
  | .readBytes _ _ _ _ => inferInstanceAs (Decidable True)
  | .readSectors _ _ _ => inferInstanceAs (Decidable True)
  | .driver => inferInstanceAs (Decidable True)

instance (image : ByteMap) (port : Port) (action : PortAction) :
    Decidable (port.Allowed image action) := inferInstanceAs (Decidable (_ ∧ _))

/-! ## Runs -/

/-- The request that the driver works on. -/
def current : Point → Option Request
  | .idle => none
  | .entered req => some req
  | .waitReady req _ => some req
  | .setup req => some req
  | .clearIs req => some req
  | .setCi req => some req
  | .pollCi req _ => some req
  | .readTfd req => some req
  | .readIs req _ => some req
  | .returned req _ => some req

/-- The request whose command is in memory. -/
def prepared : Point → Option Request
  | .clearIs req => some req
  | .setCi req => some req
  | .pollCi req _ => some req
  | .readIs req _ => some req
  | _ => none

/-- The request whose buffer may be changed. -/
def issued : Point → Option Request
  | .pollCi req _ => some req
  | .readTfd req => some req
  | .readIs req _ => some req
  | .returned req _ => some req
  | _ => none

/-- The request that the driver will see completed. -/
def expected : Point → Option Request
  | .pollCi req _ => some req
  | .readTfd req => some req
  | .readIs req _ => some req
  | _ => none

/-- The controller reported success for the request, or the driver saw it do so. -/
def Succeeded (port : Port) (req : Request) : Prop :=
  port.point = .returned req true ∨
    expected port.point = some req ∧ ¬ port.Outstanding ∧ port.tfd &&& PORT_TFD_ERR = 0

/-- The requests that were made, and those that were answered. -/
structure Calls where
  made : List Request
  answered : List (Request × Bool)

/-- The calls after an action. A call of `read_bytes` for no bytes or without a buffer makes no
request. -/
def record (port : Port) (action : PortAction) (calls : Calls) : Calls :=
  match action with
  | .readBytes byteOff dst count buf =>
      if count = 0 ∨ buf = 0 then calls
      else { calls with made := calls.made ++ [bounceRequest byteOff dst count buf] }
  | .readSectors lba count buf =>
      { calls with made := calls.made ++ [⟨lba, count, buf, none⟩] }
  | .driver =>
      match port.point with
      | .returned req ok => { calls with answered := calls.answered ++ [(req, ok)] }
      | _ => calls
  | _ => calls

/-- The driver and an honest controller, with the record of the calls. -/
def servedStep (image : ByteMap) : Port × Calls → PortAction → Option (Port × Calls) :=
  observe (restrict step (Allowed image)) record

/-! ## The invariant -/

variable {image before : ByteMap} {port next : Port}

/-- The memory is what the answered requests made of it, up to the buffer of the request that was
issued, and this has the sectors once the request succeeded. -/
structure Tracks (image : ByteMap) (port : Port) (before : ByteMap) : Prop where
  orderly : port.Orderly
  held : ∀ req, port.Outstanding → awaited port.point = some req → port.held = [req.buffer]
  free : ¬ port.Outstanding → port.held = []
  command : ∀ req, prepared port.point = some req → port.command = Driver.readCommand req
  outside : ∀ a, (∀ req, issued port.point = some req → ¬ req.target.Contains a) →
    port.memory a = before a
  filled : ∀ req, port.Succeeded req → req.Filled image port.memory

theorem tracks_start (active : Bool) (tfd is : UInt32) (command : HbaCommand)
    (memory : ByteMap) : Tracks image (start active tfd is command memory) memory where
  orderly := start_orderly active tfd is command memory
  held := nofun
  free := fun _ ↦ rfl
  command := nofun
  outside := fun _ _ ↦ rfl
  filled := fun req hreq ↦ by
    rcases hreq with hpoint | ⟨hpoint, -⟩ <;> cases hpoint

/-- The driver goes to another point. -/
theorem Tracks.move (h : Tracks image port before) (point : Point)
    (hawaited : port.Outstanding → awaited point = awaited port.point)
    (hprepared : ∀ req, prepared point = some req → prepared port.point = some req)
    (hissued : ∀ req, issued port.point = some req → issued point = some req)
    (hsucceeded : ∀ req, Succeeded { port with point } req → port.Succeeded req) :
    Tracks image { port with point } before where
  orderly := fun hout ↦ by
    show awaited point ≠ none
    rw [hawaited hout]
    exact h.orderly hout
  held := fun req hout hreq ↦ h.held req hout ((hawaited hout).symm.trans hreq)
  free := h.free
  command := fun req hreq ↦ h.command req (hprepared req hreq)
  outside := fun a ha ↦ h.outside a fun req hreq ↦ ha req (hissued req hreq)
  filled := fun req hreq ↦ h.filled req (hsucceeded req hreq)

/-- The driver goes to a point before the command is issued, or past a request without one. -/
theorem Tracks.leave (h : Tracks image port before) (hout : ¬ port.Outstanding)
    (hissued : issued port.point = none) {command : HbaCommand} {is : UInt32} (point : Point)
    (hcommand : ∀ req, prepared point = some req → command = Driver.readCommand req)
    (hexpected : expected point = none) (hpoint : ∀ req, point ≠ .returned req true) :
    Tracks image { port with command, is, point } before where
  orderly := fun hcase ↦ absurd hcase hout
  held := fun _ hcase ↦ absurd hcase hout
  free := h.free
  command := hcommand
  outside := fun a _ ↦ h.outside a fun req hreq ↦ by
    rw [hissued] at hreq
    cases hreq
  filled := fun req hreq ↦ by
    rcases hreq with hcase | ⟨hcase, -⟩
    · exact absurd hcase (hpoint req)
    · rw [show expected point = some req from hcase] at hexpected
      cases hexpected

/-- The buffer of a request that will be seen completed may be changed. -/
theorem issued_of_expected {point : Point} {req : Request} (h : expected point = some req) :
    issued point = some req := by
  cases point <;> first | exact h | cases h

theorem current_of_issued {point : Point} {req : Request} (h : issued point = some req) :
    current point = some req := by
  cases point <;> first | exact h | cases h

theorem expected_of_awaited {point : Point} {req : Request} (h : awaited point = some req) :
    expected point = some req := by
  cases point <;> first | exact h | cases h

theorem prepared_of_awaited {point : Point} {req : Request} (h : awaited point = some req) :
    prepared point = some req := by
  cases point <;> first | exact h | cases h

/-- While a command is outstanding, its request is the one whose completion will be seen. -/
theorem awaited_of_expected {point : Point} {req : Request} (h : expected point = some req)
    (hwaits : awaited point ≠ none) : awaited point = some req ∧ prepared point = some req := by
  obtain ⟨other, hother⟩ := Option.ne_none_iff_exists'.mp hwaits
  obtain rfl := Option.some.inj (h.symm.trans (expected_of_awaited hother))
  exact ⟨hother, prepared_of_awaited hother⟩

/-- The driver goes on with the request. -/
theorem Tracks.poll (h : Tracks image port before) {req : Request} {point : Point}
    (hreq : expected port.point = some req) (hnext : expected point = some req)
    (hawaited : port.Outstanding → awaited point = awaited port.point)
    (hprepared : ∀ other, prepared point = some other → prepared port.point = some other) :
    Tracks image { port with point } before := by
  refine h.move point hawaited hprepared (fun other hother ↦ ?_) fun other hother ↦ ?_
  · obtain rfl := Option.some.inj ((issued_of_expected hreq).symm.trans hother)
    exact issued_of_expected hnext
  · rcases hother with hcase | ⟨hcase, hdone⟩
    · obtain rfl : point = .returned other true := hcase
      cases hnext
    · obtain rfl := Option.some.inj (hnext.symm.trans hcase)
      exact Or.inr ⟨hreq, hdone⟩

/-- `read_sectors` returns after a command that is not outstanding any more. -/
theorem Tracks.answer (h : Tracks image port before) {req : Request} {ok : Bool}
    (hreq : expected port.point = some req) (hout : ¬ port.Outstanding)
    (hok : ok = true → port.tfd &&& PORT_TFD_ERR = 0) :
    Tracks image { port with point := .returned req ok } before := by
  refine h.move _ (fun hcase ↦ absurd hcase hout) nofun (fun other hother ↦ ?_)
    fun other hother ↦ ?_
  · exact (issued_of_expected hreq).symm.trans hother
  · rcases hother with hcase | ⟨hcase, -⟩
    · injection hcase with hsame htrue
      subst hsame
      exact Or.inr ⟨hreq, hout, hok htrue⟩
    · cases hcase

/-- Setting bit 0 of CI leaves a command outstanding. -/
theorem set_and_one (ci : UInt32) : (ci ||| 1) &&& 1 ≠ 0 := by
  intro h
  have hnat : (ci.toNat ||| 1) &&& 1 = 0 := congrArg UInt32.toNat h
  have hodd : (ci.toNat ||| 1) % 2 = 1 := Nat.or_mod_two_eq_one.mpr (Or.inr rfl)
  rw [Nat.and_one_is_mod, hodd] at hnat
  cases hnat

/-- The driver issues the command: its request is outstanding from now on. -/
theorem Tracks.issue (h : Tracks image port before) {req : Request}
    (hpoint : port.point = .setCi req) :
    Tracks image { port with
      ci := port.ci ||| 1
      held := req.buffer :: port.held
      point := .pollCi req 10000000 } before := by
  have hout : ¬ port.Outstanding := h.orderly.not_outstanding (by rw [hpoint]; rfl)
  have hset : (port.ci ||| 1) &&& 1 ≠ 0 := set_and_one port.ci
  constructor
  · exact fun _ ↦ nofun
  · intro other _ hother
    cases hother
    rw [h.free hout]
  · exact fun hcase ↦ absurd hset hcase
  · intro other hother
    exact h.command other (by rw [hpoint]; exact hother)
  · exact fun a _ ↦ h.outside a (by rw [hpoint]; exact nofun)
  · intro other hother
    rcases hother with hcase | ⟨-, hcase, -⟩
    · cases hcase
    · exact absurd hset hcase

/-- An access of the driver before the end of `read_sectors`. -/
theorem Tracks.advance (h : Tracks image port before) (hpatient : port.Patient .driver)
    (hstep : port.advance = some next) (hend : ∀ req ok, port.point ≠ .returned req ok) :
    Tracks image next before ∧ current next.point = current port.point := by
  unfold Port.advance at hstep
  cases hpoint : port.point with
  | idle =>
      rw [hpoint] at hstep
      cases hstep
  | entered req =>
      have hout : ¬ port.Outstanding := h.orderly.not_outstanding (by rw [hpoint]; rfl)
      have hissued : issued port.point = none := by rw [hpoint]; rfl
      rw [hpoint] at hstep
      dsimp only at hstep
      split at hstep <;> cases hstep
      · exact ⟨h.leave hout hissued _ nofun rfl nofun, rfl⟩
      · exact ⟨h.leave hout hissued _ nofun rfl nofun, rfl⟩
  | waitReady req left =>
      have hout : ¬ port.Outstanding := h.orderly.not_outstanding (by rw [hpoint]; rfl)
      have hissued : issued port.point = none := by rw [hpoint]; rfl
      rw [hpoint] at hstep
      cases left with
      | zero =>
          cases hstep
          exact ⟨h.leave hout hissued _ nofun rfl nofun, rfl⟩
      | succ left =>
          dsimp only at hstep
          split at hstep <;> cases hstep
          · exact ⟨h.leave hout hissued _ nofun rfl nofun, rfl⟩
          · exact ⟨h.leave hout hissued _ nofun rfl nofun, rfl⟩
  | setup req =>
      have hout : ¬ port.Outstanding := h.orderly.not_outstanding (by rw [hpoint]; rfl)
      have hissued : issued port.point = none := by rw [hpoint]; rfl
      rw [hpoint] at hstep
      cases hstep
      refine ⟨h.leave hout hissued _ (fun other hother ↦ ?_) rfl nofun, rfl⟩
      cases hother
      rfl
  | clearIs req =>
      have hout : ¬ port.Outstanding := h.orderly.not_outstanding (by rw [hpoint]; rfl)
      have hissued : issued port.point = none := by rw [hpoint]; rfl
      rw [hpoint] at hstep
      cases hstep
      refine ⟨h.leave hout hissued _ (fun other hother ↦ h.command other ?_) rfl nofun, rfl⟩
      rw [hpoint]
      exact hother
  | setCi req =>
      rw [hpoint] at hstep
      cases hstep
      exact ⟨h.issue hpoint, rfl⟩
  | pollCi req left =>
      have hreq : expected port.point = some req := by rw [hpoint]; rfl
      rw [hpoint] at hstep
      cases left with
      | zero =>
          cases hstep
          have hgives : port.givesUp = true := by
            rw [givesUp, hpoint]
            rfl
          exact ⟨h.answer hreq (hpatient hgives) nofun, rfl⟩
      | succ left =>
          dsimp only at hstep
          split at hstep <;> rename_i hclear <;> cases hstep
          · exact ⟨h.poll hreq rfl (fun hcase ↦ absurd hclear hcase) nofun, rfl⟩
          · exact ⟨h.poll hreq rfl (fun _ ↦ by rw [hpoint]; rfl) fun _ hother ↦ by rwa [hpoint],
              rfl⟩
  | readTfd req =>
      have hreq : expected port.point = some req := by rw [hpoint]; rfl
      have hout : ¬ port.Outstanding := h.orderly.not_outstanding (by rw [hpoint]; rfl)
      rw [hpoint] at hstep
      dsimp only at hstep
      split at hstep <;> rename_i herror <;> cases hstep
      · exact ⟨h.answer hreq hout nofun, rfl⟩
      · exact ⟨h.answer hreq hout fun _ ↦ Classical.not_not.mp herror, rfl⟩
  | readIs req left =>
      have hreq : expected port.point = some req := by rw [hpoint]; rfl
      rw [hpoint] at hstep
      dsimp only at hstep
      split at hstep <;> rename_i herror <;> cases hstep
      · have hgives : port.givesUp = true := by
          rw [givesUp, hpoint]
          exact decide_eq_true herror
        exact ⟨h.answer hreq (hpatient hgives) nofun, rfl⟩
      · exact ⟨h.poll hreq rfl (fun _ ↦ by rw [hpoint]; rfl) fun _ hother ↦ by rwa [hpoint], rfl⟩
  | returned req ok => exact absurd hpoint (hend req ok)

/-- A success is seen only for the request that the driver works on. -/
theorem Tracks.memory_eq (h : Tracks image port before) {req : Request} {ok : Bool}
    (hpoint : port.point = .returned req ok) (hok : ok = true) :
    port.memory = before.copy req.target image
      ((Driver.readCommand req).fis.lba * SECTOR_SIZE) := by
  subst hok
  funext a
  by_cases htarget : req.target.Contains a
  · have hle : req.buf ≤ a := htarget.1
    have hlt : a < req.buf + (Driver.readCommand req).transferred := htarget.2
    have hfilled := h.filled req (Or.inl hpoint) (a - req.buf) (by omega)
    rw [Nat.add_sub_cancel' hle] at hfilled
    rw [ByteMap.copy_of_contains htarget]
    exact hfilled
  · rw [ByteMap.copy_of_not_contains htarget]
    refine h.outside a fun other hother ↦ ?_
    rw [hpoint] at hother
    cases hother
    exact htarget

/-- The end of `read_sectors`, and of `read_bytes` if it was the caller. -/
theorem Tracks.finish (h : Tracks image port before) {req : Request} {ok : Bool}
    (hpoint : port.point = .returned req ok) (hstep : port.advance = some next) :
    Performed image (req, ok) before next.memory ∧ Tracks image next next.memory ∧
      next.point = .idle := by
  have hout : ¬ port.Outstanding := h.orderly.not_outstanding (by rw [hpoint]; rfl)
  obtain ⟨hmemory, hidle, hci, hheld⟩ :
      next.memory = (if ok then req.copyBack port.memory else port.memory) ∧
        next.point = .idle ∧ next.ci = port.ci ∧ next.held = port.held := by
    unfold Port.advance at hstep
    rw [hpoint] at hstep
    dsimp only at hstep
    unfold Request.copyBack
    cases hbounce : req.bounce with
    | none =>
        rw [hbounce] at hstep
        cases hstep
        exact ⟨by split <;> rfl, rfl, rfl, rfl⟩
    | some bounce =>
        rw [hbounce] at hstep
        cases hstep
        exact ⟨rfl, rfl, rfl, rfl⟩
  have hnot : ¬ next.Outstanding := fun hcase ↦ hout ((outstanding_congr hci).mp hcase)
  refine ⟨?_, ⟨fun hcase ↦ absurd hcase hnot, fun _ hcase ↦ absurd hcase hnot,
    fun _ ↦ hheld.trans (h.free hout), ?_, fun _ _ ↦ rfl, ?_⟩, hidle⟩
  · cases ok with
    | true =>
        rw [performed_true, hmemory, if_pos rfl, h.memory_eq hpoint rfl]
    | false =>
        rw [performed_false, hmemory]
        intro a ha
        refine h.outside a fun other hother ↦ ?_
        rw [hpoint] at hother
        cases hother
        exact ha
  · intro other hother
    rw [hidle] at hother
    cases hother
  · intro other hother
    rw [Succeeded, hidle] at hother
    rcases hother with hcase | ⟨hcase, -⟩ <;> cases hcase

/-- What the controller does keeps the invariant. -/
theorem Tracks.complete (h : Tracks image port before) {tfd is : UInt32}
    (hhonest : port.Honest image (.complete tfd is)) :
    Tracks image { port with ci := port.ci &&& ~~~1, tfd, is, held := [] } before where
  orderly := fun hcase ↦ absurd (clear_and_one port.ci) hcase
  held := fun _ hcase ↦ absurd (clear_and_one port.ci) hcase
  free := fun _ ↦ rfl
  command := h.command
  outside := h.outside
  filled := fun req hreq ↦ by
    rcases hreq with hpoint | ⟨hexpected, -, htfd⟩
    · exact h.filled req (Or.inl hpoint)
    · have hdone := hhonest htfd
      by_cases hout : port.Outstanding
      · rw [if_pos hout] at hdone
        obtain ⟨hawaited, hprepared⟩ := awaited_of_expected hexpected (h.orderly hout)
        intro k hk
        rw [← h.command req hprepared] at hk ⊢
        refine hdone req.buffer ?_ k hk
        rw [h.held req hout hawaited]
        exact List.mem_singleton_self _
      · rw [if_neg hout] at hdone
        exact h.filled req (Or.inr ⟨hexpected, hout, hdone⟩)

theorem Tracks.raise (h : Tracks image port before) {tfd is : UInt32}
    (hhonest : port.Honest image (.raise tfd is)) :
    Tracks image { port with tfd, is } before where
  orderly := h.orderly
  held := h.held
  free := h.free
  command := h.command
  outside := h.outside
  filled := fun req hreq ↦ by
    rcases hreq with hpoint | ⟨hexpected, hout, htfd⟩
    · exact h.filled req (Or.inl hpoint)
    · exact h.filled req (Or.inr ⟨hexpected, hout, hhonest hout htfd⟩)

theorem Tracks.transfer (h : Tracks image port before) {target : Extent} {data : ByteMap}
    (hheld : ∃ buf ∈ port.held, target.Within buf)
    (hhonest : port.Honest image (.transfer target data)) :
    Tracks image { port with memory := port.memory.copy target data 0 } before := by
  obtain ⟨buf, hbuf, -⟩ := hheld
  have hout : port.Outstanding := Classical.not_not.mp fun hnot ↦ by
    rw [h.free hnot] at hbuf
    cases hbuf
  obtain ⟨req, hreq⟩ := Option.ne_none_iff_exists'.mp (h.orderly hout)
  have hplace := hhonest buf hbuf
  rw [h.held req hout hreq, List.mem_singleton] at hbuf
  subst hbuf
  rw [h.command req (prepared_of_awaited hreq)] at hplace
  refine ⟨h.orderly, h.held, h.free, h.command, fun a ha ↦ ?_, fun other hother ↦ ?_⟩
  · have hnot : ¬ target.Contains a := fun hcase ↦
      ha req (issued_of_expected (expected_of_awaited hreq)) (hplace.contains hcase)
    exact (ByteMap.copy_of_not_contains hnot).trans (h.outside a ha)
  · rcases hother with hpoint | ⟨-, hnot, -⟩
    · rw [show port.point = .returned other true from hpoint] at hreq
      cases hreq
    · exact absurd hout hnot

/-- A request is made while the driver is idle. -/
theorem Tracks.enter (h : Tracks image port before) (hidle : port.point = .idle) (req : Request) :
    Tracks image { port with point := .entered req } before :=
  h.leave (h.orderly.not_outstanding (by rw [hidle]; rfl)) (by rw [hidle]; rfl) _ nofun rfl nofun

/-! ## The correspondence -/

/-- The answered requests, as steps, lead to a memory that the port tracks, and all other requests
that were made are answered, except for the one that the driver works on. -/
def Served (image memory : ByteMap) (state : Port × Calls) : Prop :=
  ∃ before, Serially (Performed image) memory state.2.answered before ∧
    Tracks image state.1 before ∧
    state.2.made = state.2.answered.map Prod.fst ++ (current state.1.point).toList

/-- A request is made while no other is open. -/
theorem made_concat {calls : Calls}
    (hmade : calls.made = calls.answered.map Prod.fst ++ (current port.point).toList)
    (hidle : port.point = .idle) (req : Request) :
    calls.made ++ [req] = calls.answered.map Prod.fst ++ (current (.entered req)).toList := by
  rw [hmade, hidle]
  exact congrArg (· ++ [req]) (List.append_nil _)

theorem Served.step {memory : ByteMap} {state after : Port × Calls} {action : PortAction}
    (h : Served image memory state) (hstep : servedStep image state action = some after) :
    Served image memory after := by
  obtain ⟨port, calls⟩ := state
  obtain ⟨next, record'⟩ := after
  obtain ⟨hrestricted, hrecord⟩ := observe_eq_some.mp hstep
  obtain ⟨⟨hpatient, hhonest⟩, hnext⟩ := restrict_eq_some.mp hrestricted
  dsimp only at hnext hrecord hpatient hhonest
  subst hrecord
  obtain ⟨before, hserial, htracks, hmade⟩ := h
  dsimp only at hserial htracks hmade
  cases action with
  | readBytes byteOff dst count buf =>
      unfold Port.step at hnext
      unfold Port.record
      dsimp only at hnext ⊢
      split at hnext
      · rename_i hidle
        split at hnext <;> rename_i hnone <;> cases hnext
        · rw [if_pos hnone]
          exact ⟨before, hserial, htracks, hmade⟩
        · rw [if_neg hnone]
          exact ⟨before, hserial, htracks.enter hidle _, made_concat hmade hidle _⟩
      · cases hnext
  | readSectors lba count buf =>
      unfold Port.step at hnext
      dsimp only at hnext
      split at hnext
      · rename_i hidle
        cases hnext
        exact ⟨before, hserial, htracks.enter hidle _, made_concat hmade hidle _⟩
      · cases hnext
  | driver =>
      unfold Port.record
      dsimp only
      split
      · rename_i req ok hpoint
        obtain ⟨hperformed, hnextTracks, hidle⟩ := htracks.finish hpoint hnext
        refine ⟨next.memory, hserial.concat hperformed, hnextTracks, ?_⟩
        rw [hmade, hpoint, hidle, List.map_append]
        exact (List.append_nil _).symm
      · rename_i hend
        obtain ⟨hnextTracks, hcurrent⟩ := htracks.advance hpatient hnext hend
        exact ⟨before, hserial, hnextTracks, hcurrent ▸ hmade⟩
  | complete tfd is =>
      cases hnext
      exact ⟨before, hserial, htracks.complete hhonest, hmade⟩
  | raise tfd is =>
      cases hnext
      exact ⟨before, hserial, htracks.raise hhonest, hmade⟩
  | transfer target data =>
      unfold Port.step at hnext
      dsimp only at hnext
      split at hnext <;> cases hnext
      exact ⟨before, hserial, htracks.transfer ‹_› hhonest, hmade⟩

end Port

/-- In every run of the driver and an honest controller, however they take turns: the requests are
answered in the order in which they were made, and outside of the buffer of the request that is not
answered yet, the memory is what the answered ones make of it in single steps. -/
theorem reads_atomic (image : ByteMap) (active : Bool) (tfd is : UInt32) (command : HbaCommand)
    (memory : ByteMap) {port : Port} {calls : Port.Calls}
    (h : Reachable (Port.servedStep image)
      (.start active tfd is command memory, ⟨[], []⟩) (port, calls)) :
    ∃ before, Serially (Performed image) memory calls.answered before ∧
      calls.made = calls.answered.map Prod.fst ++ (Port.current port.point).toList ∧
      ∀ a, (∀ req, Port.current port.point = some req → ¬ req.buffer.Contains a) →
        port.memory a = before a := by
  obtain ⟨before, hserial, htracks, hmade⟩ : Port.Served image memory (port, calls) :=
    h.invariant ⟨memory, rfl, Port.tracks_start active tfd is command memory, rfl⟩
      fun _ _ _ hserved hstep ↦ hserved.step hstep
  refine ⟨before, hserial, hmade, fun a ha ↦ htracks.outside a fun req hreq hcase ↦ ?_⟩
  exact ha req (Port.current_of_issued hreq) (req.target_within.contains hcase)

/-- A disk whose byte `k` is `k` modulo 256. -/
def countingImage : ByteMap := UInt8.ofNat

/-- Two bytes of the second sector are read; the controller transfers the sector in two pieces. -/
def splitActions : List PortAction :=
  [.readBytes 515 0x5000 2 0x8000, .driver, .driver, .driver, .driver, .driver,
    .transfer ⟨0x8100, 0x100⟩ fun k ↦ countingImage (0x300 + k), .driver, .driver,
    .transfer ⟨0x8000, 0x100⟩ fun k ↦ countingImage (0x200 + k), .complete 0 0, .driver, .driver,
    .driver]

/-- The bytes are where `read_bytes` puts them in one step. -/
theorem reads_atomic_split :
    ∃ port calls before,
      run (Port.servedStep countingImage) (.start true 0 0 blankCommand fun _ ↦ 0, ⟨[], []⟩)
        splitActions = some (port, calls) ∧
      calls.answered.map Prod.snd = [true] ∧ port.memory 0x5001 = 4 ∧
      Serially (Performed countingImage) (fun _ ↦ 0) calls.answered before ∧
      port.memory = before := by
  have hfields : (run (Port.servedStep countingImage)
      (.start true 0 0 blankCommand fun _ ↦ 0, ⟨[], []⟩) splitActions).map
        (fun state ↦ (state.2.answered.map Prod.snd, state.1.memory 0x5001,
          (Port.current state.1.point).isNone)) = some ([true], 4, true) := by
    decide +kernel
  obtain ⟨⟨port, calls⟩, hrun, hstate⟩ := Option.map_eq_some_iff.mp hfields
  simp only [Prod.mk.injEq] at hstate
  obtain ⟨hanswered, hbyte, hnone⟩ := hstate
  obtain ⟨before, hserial, -, hmemory⟩ := reads_atomic countingImage true 0 0 blankCommand _
    ⟨_, hrun⟩
  refine ⟨port, calls, before, hrun, hanswered, hbyte, hserial, funext fun a ↦ hmemory a ?_⟩
  rw [Option.isNone_iff_eq_none.mp hnone]
  exact nofun

/-- For the file system, a request of `read_bytes` in one step is a call of `read_bytes`, with the
same result and the same memory after it. -/
theorem performed_readBytes {σ : Type*} [PageSource σ] {image after : ByteMap} {io : Io σ}
    {byteOff dst count buf : Nat} {ok : Bool} (hcount : count ≠ 0) (hbuf : buf ≠ 0)
    (halloc : (io.kmallocAligned (sectorBytes byteOff count) 4096).1 = buf)
    (h : Performed image (bounceRequest byteOff dst count buf, ok) io.memory after) :
    ∃ left,
      (readBytes (diskFor image ok left) io byteOff (some dst) count).1.isSome = ok ∧
        (readBytes (diskFor image ok left) io byteOff (some dst) count).2.memory = after := by
  obtain ⟨left, h⟩ := h
  refine ⟨left, ?_⟩
  simp only [readSectors_request image ok left io.memory 0 UInt64.ofNat_toNat] at h
  -- `read_bytes` passes the same arguments to `read_sectors`
  have hlba : UInt64.ofNat (byteOff / SECTOR_SIZE) =
      (bounceRequest byteOff dst count buf).lba := rfl
  have hread := (readSectors_eq (diskFor image ok left) io.commands (byteOff / SECTOR_SIZE)
    (sectorCount byteOff count) buf io.memory).symm.trans
      (readSectors_request image ok left io.memory io.commands hlba)
  subst halloc
  rcases readBytes_cases (diskFor image ok left) io byteOff (some dst) hcount with
    ⟨hnull, -⟩ | ⟨-, ⟨left', hfails, heq⟩ | ⟨memory, hfails, hmemory, heq⟩⟩
  · exact absurd hnull hbuf
  · cases ok with
    | true => cases hfails
    | false =>
        cases hfails
        rw [heq, h]
        exact ⟨rfl, (Prod.mk.inj hread).2⟩
  · cases ok with
    | false => cases hfails
    | true =>
        rw [heq, h, hmemory]
        refine ⟨rfl, ?_⟩
        simp only [if_true] at hread ⊢
        rw [← (Prod.mk.inj hread).2]
        rfl

end Avaria.Ahci
