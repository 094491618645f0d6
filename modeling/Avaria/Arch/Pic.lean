import Avaria.Lib.LastWrite
import Avaria.Lib.PackedBits

/-!
# The interrupt controllers

`pic.rs` and the pair of controllers that it programs. A controller takes its initialisation words
at its data port one after the other, and mask words there afterwards; `remap` therefore has to work
from whatever point of an initialisation it finds the controllers in (`remap_eq`).

An interrupt that is acknowledged sets a bit in service, on both controllers if it comes through the
second, and `eoi` clears the bit of highest priority. A handler may end without `eoi`, and an
interrupt without a handler does. `InService` has the lines in service as two stacks. They come out
right however interrupts nest if their handlers end with `eoi` (`operating_nest`), and `lines_after`
says which lines are open after any run.
-/

namespace Avaria.Arch

open PackedBits LastWrite Transition

/-! ## The controllers -/

/-- What the next write to the data port is. -/
inductive Awaits where
  | icw2
  | icw3
  | icw4
  | mask
  deriving DecidableEq

/-- The registers of a controller. -/
structure Pic where
  imr : BitVec 8
  isr : BitVec 8
  base : BitVec 8
  cascade : BitVec 8
  mode : BitVec 8
  single : Bool
  needsIcw4 : Bool
  awaits : Awaits
  deriving DecidableEq

namespace Pic

/-- The line of highest priority that is in service. -/
def highest (isr : BitVec 8) : Option Nat := (List.range 8).find? fun line ↦ isr.getLsbD line

/-- A write to the command port: the first initialisation word, or a non-specific end of interrupt.
The driver writes no other command. -/
def writeCmd (pic : Pic) (val : BitVec 8) : Pic :=
  if val.getLsbD 4 then
    { pic with
      imr := 0
      isr := 0
      mode := 0
      single := val.getLsbD 1
      needsIcw4 := val.getLsbD 0
      awaits := .icw2 }
  else if val = 0x20 then
    match highest pic.isr with
    | some line => { pic with isr := pic.isr &&& ~~~ mask 8 line }
    | none => pic
  else pic

/-- A write to the data port. -/
def writeData (pic : Pic) (val : BitVec 8) : Pic :=
  let afterIcw3 : Awaits := if pic.needsIcw4 then .icw4 else .mask
  match pic.awaits with
  | .icw2 =>
      { pic with base := val &&& 0xF8, awaits := if pic.single then afterIcw3 else .icw3 }
  | .icw3 => { pic with cascade := val, awaits := afterIcw3 }
  | .icw4 => { pic with mode := val, awaits := .mask }
  | .mask => { pic with imr := val }

/-- The line may interrupt: it is not masked, and nothing of its priority or above is in service. -/
def Open (pic : Pic) (line : Nat) : Prop :=
  pic.imr.getLsbD line = false ∧ ∀ above ≤ line, pic.isr.getLsbD above = false

instance (pic : Pic) (line : Nat) : Decidable (pic.Open line) :=
  inferInstanceAs (Decidable (_ ∧ _))

/-- The line is acknowledged. -/
def acknowledge (pic : Pic) (line : Nat) : Pic := { pic with isr := pic.isr ||| mask 8 line }

end Pic

/-- The two controllers. -/
structure Pics where
  pic1 : Pic
  pic2 : Pic
  deriving DecidableEq

/-- `PIC1_CMD`. -/
def PIC1_CMD : Nat := 0x20

/-- `PIC1_DATA`. -/
def PIC1_DATA : Nat := 0x21

/-- `PIC2_CMD`. -/
def PIC2_CMD : Nat := 0xA0

/-- `PIC2_DATA`. -/
def PIC2_DATA : Nat := 0xA1

/-- `ICW1_INIT`. -/
def ICW1_INIT : BitVec 8 := 0x11

/-- `ICW4_8086`. -/
def ICW4_8086 : BitVec 8 := 0x01

namespace Pics

/-- `outb`. -/
def outb (pics : Pics) (port : Nat) (val : BitVec 8) : Pics :=
  if port = PIC1_CMD then { pics with pic1 := pics.pic1.writeCmd val }
  else if port = PIC1_DATA then { pics with pic1 := pics.pic1.writeData val }
  else if port = PIC2_CMD then { pics with pic2 := pics.pic2.writeCmd val }
  else if port = PIC2_DATA then { pics with pic2 := pics.pic2.writeData val }
  else pics

/-- `inb` of a data port. -/
def inb (pics : Pics) (port : Nat) : BitVec 8 :=
  if port = PIC1_DATA then pics.pic1.imr else pics.pic2.imr

/-! ## pic.rs -/

/-- `io_wait`. -/
def ioWait (pics : Pics) : Pics := pics.outb 0x80 0

/-- `remap`. -/
def remap (pics : Pics) (offset1 offset2 : BitVec 8) : Pics :=
  let mask1 := pics.inb PIC1_DATA
  let mask2 := pics.inb PIC2_DATA
  let pics := (pics.outb PIC1_CMD ICW1_INIT).ioWait
  let pics := (pics.outb PIC2_CMD ICW1_INIT).ioWait
  let pics := (pics.outb PIC1_DATA offset1).ioWait
  let pics := (pics.outb PIC2_DATA offset2).ioWait
  let pics := (pics.outb PIC1_DATA 4).ioWait
  let pics := (pics.outb PIC2_DATA 2).ioWait
  let pics := (pics.outb PIC1_DATA ICW4_8086).ioWait
  let pics := (pics.outb PIC2_DATA ICW4_8086).ioWait
  (pics.outb PIC1_DATA mask1).outb PIC2_DATA mask2

/-- `disable`. -/
def disable (pics : Pics) : Pics := (pics.outb PIC1_DATA 0xFF).outb PIC2_DATA 0xFF

/-- `eoi`. -/
def eoi (pics : Pics) (irq : Nat) : Pics :=
  let pics := if irq ≥ 8 then pics.outb PIC2_CMD 0x20 else pics
  pics.outb PIC1_CMD 0x20

/-- The port and the line of the controller for an IRQ. -/
def dataPort (irq : Nat) : Nat × Nat :=
  if irq < 8 then (PIC1_DATA, irq) else (PIC2_DATA, irq - 8)

/-- `set_mask`. A shift by 8 or more wraps around in a release build. -/
def setMask (pics : Pics) (irq : Nat) : Pics :=
  let (port, irq) := dataPort irq
  let val := pics.inb port ||| mask 8 (irq % 8)
  pics.outb port val

/-- `clear_mask`. -/
def clearMask (pics : Pics) (irq : Nat) : Pics :=
  let (port, irq) := dataPort irq
  let val := pics.inb port &&& ~~~ mask 8 (irq % 8)
  pics.outb port val

/-! ## Remapping -/

/-- A controller in operation after a full initialisation. -/
def operating (base cascade imr : BitVec 8) : Pic :=
  ⟨imr, 0, base &&& 0xF8, cascade, ICW4_8086, false, true, .mask⟩

/-- From any state of the controllers, in operation or at any point of an initialisation, `remap`
leads to controllers in operation with the new vectors and the old masks. -/
theorem remap_eq (pics : Pics) (offset1 offset2 : BitVec 8) :
    pics.remap offset1 offset2 =
      ⟨operating offset1 4 pics.pic1.imr, operating offset2 2 pics.pic2.imr⟩ := rfl

end Pics

/-! ## Interrupts in service -/

namespace Pic

/-- A set bit below which all are clear is that of the highest priority. -/
theorem highest_of_clear {isr : BitVec 8} {line : Nat} (hline : line < 8)
    (hset : isr.getLsbD line = true) (hclear : ∀ above < line, isr.getLsbD above = false) :
    highest isr = some line := by
  refine List.find?_range_eq_some.mpr ⟨hset, List.mem_range.mpr hline, ?_⟩
  intro above habove
  rw [hclear above habove]
  rfl

theorem isr_acknowledge (pic : Pic) {line j : Nat} (hj : j < 8) :
    (pic.acknowledge line).isr.getLsbD j = (pic.isr.getLsbD j || decide (j = line)) := by
  show (pic.isr ||| mask 8 line).getLsbD j = _
  rw [BitVec.getLsbD_or, getLsbD_mask hj]

/-- A controller in operation, with these lines in service. Each of them was acknowledged while
nothing of its priority or above was in service, so the latest comes first. -/
structure Running (pic : Pic) (base : BitVec 8) (lines : List Nat) : Prop where
  awaits : pic.awaits = .mask
  base : pic.base = base
  sorted : lines.Pairwise (· < ·)
  lt : ∀ line ∈ lines, line < 8
  isr : ∀ j < 8, pic.isr.getLsbD j = decide (j ∈ lines)

namespace Running

variable {pic : Pic} {base : BitVec 8} {lines : List Nat}

/-- A line of a running controller may interrupt if it is not masked and above all lines in
service. -/
theorem open_iff (h : pic.Running base lines) {line : Nat} (hline : line < 8) :
    pic.Open line ↔ pic.imr.getLsbD line = false ∧ ∀ served ∈ lines, line < served := by
  refine and_congr_right fun _ ↦ ⟨fun hclear served hserved ↦ ?_, fun habove above hle ↦ ?_⟩
  · by_contra hle
    have hset := h.isr served (h.lt served hserved)
    rw [hclear served (Nat.le_of_not_lt hle), decide_eq_true hserved] at hset
    cases hset
  · rw [h.isr above (by omega), decide_eq_false]
    exact fun hserved ↦ absurd (habove above hserved) (Nat.not_lt.mpr hle)

/-- A line that is acknowledged is in service. -/
theorem acknowledge (h : pic.Running base lines) {line : Nat} (hline : line < 8)
    (hopen : pic.Open line) : (pic.acknowledge line).Running base (line :: lines) where
  awaits := h.awaits
  base := h.base
  sorted := List.pairwise_cons.mpr ⟨((h.open_iff hline).mp hopen).2, h.sorted⟩
  lt := List.forall_mem_cons.mpr ⟨hline, h.lt⟩
  isr j hj := by
    rw [isr_acknowledge pic hj, h.isr j hj, ← Bool.decide_or]
    exact decide_eq_decide.mpr (by rw [List.mem_cons, or_comm])

/-- An end of interrupt takes back the latest acknowledgement, if there is one. -/
theorem writeCmd_end (h : pic.Running base lines) :
    (pic.writeCmd 0x20).Running base lines.tail ∧ (pic.writeCmd 0x20).imr = pic.imr := by
  rw [writeCmd, if_neg (by decide), if_pos rfl]
  cases lines with
  | nil =>
      have hnone : highest pic.isr = none := by
        refine List.find?_eq_none.mpr fun j hj ↦ ?_
        rw [h.isr j (List.mem_range.mp hj)]
        exact Bool.false_ne_true
      rw [hnone]
      exact ⟨h, rfl⟩
  | cons line rest =>
      obtain ⟨habove, hsorted⟩ := List.pairwise_cons.mp h.sorted
      obtain ⟨hline, hlt⟩ := List.forall_mem_cons.mp h.lt
      have hhighest : highest pic.isr = some line := by
        refine highest_of_clear hline ?_ fun above hlt ↦ ?_
        · rw [h.isr line hline]
          exact decide_eq_true List.mem_cons_self
        · rw [h.isr above (by omega), decide_eq_false]
          intro hmem
          rcases List.mem_cons.mp hmem with rfl | hmem
          · exact lt_irrefl _ hlt
          · exact lt_asymm hlt (habove above hmem)
      rw [hhighest]
      refine ⟨⟨h.awaits, h.base, hsorted, hlt, fun j hj ↦ ?_⟩, rfl⟩
      show (pic.isr &&& ~~~ mask 8 line).getLsbD j = _
      rw [BitVec.getLsbD_and, h.isr j hj, BitVec.getLsbD_not, getLsbD_mask hj, List.tail_cons]
      by_cases heq : j = line
      · subst heq
        have hnot : j ∉ rest := fun hmem ↦ lt_irrefl j (habove j hmem)
        simp [hnot]
      · simp [heq, hj]

/-- A mask word changes the mask register only. -/
theorem writeData (h : pic.Running base lines) (val : BitVec 8) :
    (pic.writeData val).Running base lines ∧ (pic.writeData val).imr = val := by
  have hwrite : pic.writeData val = { pic with imr := val } := by
    rw [Pic.writeData, h.awaits]
  rw [hwrite]
  exact ⟨⟨h.awaits, h.base, h.sorted, h.lt, h.isr⟩, rfl⟩

end Running

end Pic

namespace Pics

/-- The IRQ can interrupt the processor: its line is open, and for the second controller also the
line through which that controller is connected. -/
def Deliverable (pics : Pics) (irq : Nat) : Prop :=
  if irq < 8 then pics.pic1.Open irq else pics.pic1.Open 2 ∧ pics.pic2.Open (irq - 8)

instance (pics : Pics) (irq : Nat) : Decidable (pics.Deliverable irq) :=
  inferInstanceAs (Decidable (if irq < 8 then _ else _))

/-- The processor acknowledges the IRQ. -/
def acknowledge (pics : Pics) (irq : Nat) : Pics :=
  if irq < 8 then { pics with pic1 := pics.pic1.acknowledge irq }
  else ⟨pics.pic1.acknowledge 2, pics.pic2.acknowledge (irq - 8)⟩

/-- The vector with which the processor is interrupted. -/
def vector (pics : Pics) (irq : Nat) : Nat :=
  if irq < 8 then pics.pic1.base.toNat + irq else pics.pic2.base.toNat + (irq - 8)

end Pics

/-- A call of `set_mask`, `clear_mask` or `eoi`, or an interrupt that the processor takes. -/
inductive LineCall where
  | setMask (irq : Nat)
  | clearMask (irq : Nat)
  | eoi (irq : Nat)
  | interrupt (irq : Nat)

/-- The effect of a call on the controllers. -/
def Pics.step (pics : Pics) : LineCall → Option Pics
  | .setMask irq => some (pics.setMask irq)
  | .clearMask irq => some (pics.clearMask irq)
  | .eoi irq => some (pics.eoi irq)
  | .interrupt irq =>
      if irq < 16 ∧ pics.Deliverable irq then some (pics.acknowledge irq) else none

/-- The lines in service on the two controllers, the latest first. -/
structure InService where
  first : List Nat
  second : List Nat

namespace InService

/-- An interrupt is put on the stacks of the controllers that it comes through, and `eoi` ends the
latest one on the controllers that it writes to. -/
def step (served : InService) : LineCall → InService
  | .interrupt irq =>
      if irq < 8 then { served with first := irq :: served.first }
      else ⟨2 :: served.first, (irq - 8) :: served.second⟩
  | .eoi irq =>
      ⟨served.first.tail, if irq ≥ 8 then served.second.tail else served.second⟩
  | .setMask _ | .clearMask _ => served

/-- What is in service after some calls, from nothing. -/
def after (calls : List LineCall) : InService := calls.foldl step ⟨[], []⟩

/-- Nothing of the priority of the IRQ or above is in service. -/
def Below (served : InService) (irq : Nat) : Prop :=
  if irq < 8 then ∀ line ∈ served.first, irq < line
  else (∀ line ∈ served.first, 2 < line) ∧ ∀ line ∈ served.second, irq - 8 < line

instance (served : InService) (irq : Nat) : Decidable (served.Below irq) :=
  inferInstanceAs (Decidable (if irq < 8 then _ else _))

end InService

/-- Interrupts one after the other, each with those that come inside its handler. -/
inductive Nest where
  | done
  | interrupt (irq : Nat) (inside after : Nest)

/-- The calls of interrupts whose handlers end with `eoi`. -/
def Nest.calls : Nest → List LineCall
  | .done => []
  | .interrupt irq inside after => .interrupt irq :: (inside.calls ++ .eoi irq :: after.calls)

/-- They end what they begin. -/
theorem nest_eq (served : InService) (nest : Nest) :
    nest.calls.foldl InService.step served = served := by
  induction nest generalizing served with
  | done => rfl
  | interrupt irq inside after ihinside ihafter =>
      rw [Nest.calls, List.foldl_cons, List.foldl_append, ihinside, List.foldl_cons, ihafter]
      unfold InService.step
      dsimp only
      by_cases hfirst : irq < 8
      · rw [if_pos hfirst, if_neg (Nat.not_le.mpr hfirst)]
        rfl
      · rw [if_neg hfirst, if_pos (Nat.le_of_not_lt hfirst)]
        rfl

/-! ## Masks -/

/-- The IRQ whose mask `set_mask` and `clear_mask` change: from 16 on the shift wraps around. -/
def shiftedIrq (irq : Nat) : Nat := if irq < 8 then irq else 8 + (irq - 8) % 8

/-- What a call says about the mask of an IRQ. -/
def LineCall.writes (irq : Nat) : LineCall → Option Bool
  | .setMask other => if shiftedIrq other = irq then some true else none
  | .clearMask other => if shiftedIrq other = irq then some false else none
  | .eoi _ | .interrupt _ => none

namespace Pics

/-- The IRQ is masked at its controller. -/
def masked (pics : Pics) (irq : Nat) : Bool :=
  if irq < 8 then pics.pic1.imr.getLsbD irq else pics.pic2.imr.getLsbD (irq - 8)

/-- The controllers are in operation as the kernel initialises them, with these lines in service. -/
structure Operating (pics : Pics) (served : InService) : Prop where
  pic1 : pics.pic1.Running 32 served.first
  pic2 : pics.pic2.Running 40 served.second

/-- Changing the bit of an IRQ in the mask register changes whether this IRQ is masked only. -/
theorem masked_update {imr imr' : BitVec 8} {line j : Nat} {value : Bool} (hj : j < 8)
    (h : imr' = if value then imr ||| mask 8 line else imr &&& ~~~ mask 8 line) :
    imr'.getLsbD j = if line = j then value else imr.getLsbD j := by
  subst h
  cases value with
  | true =>
      rw [if_pos rfl, BitVec.getLsbD_or, getLsbD_mask hj]
      by_cases heq : line = j
      · simp [heq]
      · simp [heq, Ne.symm heq]
  | false =>
      rw [if_neg Bool.false_ne_true, BitVec.getLsbD_and, BitVec.getLsbD_not, getLsbD_mask hj]
      by_cases heq : line = j
      · simp [heq]
      · simp [heq, Ne.symm heq, hj]

/-- What `set_mask` and `clear_mask` have in common. -/
def changeMask (pics : Pics) (irq : Nat) (value : Bool) : Pics :=
  if value then pics.setMask irq else pics.clearMask irq

variable {pics : Pics} {served : InService}

/-- `set_mask` and `clear_mask` leave the controllers in operation and change the mask of one IRQ
only. -/
theorem changeMask_spec (h : pics.Operating served) (irq : Nat) (value : Bool) :
    (pics.changeMask irq value).Operating served ∧
      ∀ other < 16, (pics.changeMask irq value).masked other =
        if shiftedIrq irq = other then value else pics.masked other := by
  by_cases hfirst : irq < 8
  · have hline : irq % 8 = irq := Nat.mod_eq_of_lt hfirst
    have hchange : pics.changeMask irq value = { pics with
        pic1 := pics.pic1.writeData (if value then pics.pic1.imr ||| mask 8 irq
          else pics.pic1.imr &&& ~~~ mask 8 irq) } := by
      cases value with
      | true => simp only [changeMask, setMask, dataPort, if_pos hfirst, hline]; rfl
      | false => simp only [changeMask, clearMask, dataPort, if_pos hfirst, hline]; rfl
    obtain ⟨hrunning, himr⟩ := h.pic1.writeData (if value then pics.pic1.imr ||| mask 8 irq
      else pics.pic1.imr &&& ~~~ mask 8 irq)
    rw [hchange]
    refine ⟨⟨hrunning, h.pic2⟩, fun other hother ↦ ?_⟩
    rw [shiftedIrq, if_pos hfirst]
    unfold masked
    split
    · rename_i hlt
      exact masked_update hlt himr
    · have hne : irq ≠ other := by omega
      rw [if_neg hne]
  · have hchange : pics.changeMask irq value = { pics with
        pic2 := pics.pic2.writeData (if value then pics.pic2.imr ||| mask 8 ((irq - 8) % 8)
          else pics.pic2.imr &&& ~~~ mask 8 ((irq - 8) % 8)) } := by
      cases value with
      | true => simp only [changeMask, setMask, dataPort, if_neg hfirst]; rfl
      | false => simp only [changeMask, clearMask, dataPort, if_neg hfirst]; rfl
    obtain ⟨hrunning, himr⟩ := h.pic2.writeData (if value then
      pics.pic2.imr ||| mask 8 ((irq - 8) % 8) else pics.pic2.imr &&& ~~~ mask 8 ((irq - 8) % 8))
    rw [hchange]
    refine ⟨⟨h.pic1, hrunning⟩, fun other hother ↦ ?_⟩
    rw [shiftedIrq, if_neg hfirst]
    unfold masked
    split
    · have hne : 8 + (irq - 8) % 8 ≠ other := by omega
      rw [if_neg hne]
    · rename_i hge
      refine (masked_update (by omega) himr).trans ?_
      by_cases heq : 8 + (irq - 8) % 8 = other
      · rw [if_pos heq, if_pos (by omega)]
      · have hne : (irq - 8) % 8 ≠ other - 8 := by omega
        rw [if_neg heq, if_neg hne]

/-- `eoi` ends the latest interrupt. -/
theorem eoi_spec (h : pics.Operating served) (irq : Nat) :
    (pics.eoi irq).Operating (served.step (.eoi irq)) ∧
      ∀ other, (pics.eoi irq).masked other = pics.masked other := by
  obtain ⟨hfirst, himr1⟩ := h.pic1.writeCmd_end
  obtain ⟨hsecond, himr2⟩ := h.pic2.writeCmd_end
  unfold eoi InService.step masked
  dsimp only
  by_cases hirq : irq ≥ 8
  · rw [if_pos hirq, if_pos hirq]
    refine ⟨⟨hfirst, hsecond⟩, fun other ↦ ?_⟩
    show (if other < 8 then (pics.pic1.writeCmd 0x20).imr.getLsbD other
      else (pics.pic2.writeCmd 0x20).imr.getLsbD (other - 8)) = _
    rw [himr1, himr2]
  · rw [if_neg hirq, if_neg hirq]
    refine ⟨⟨hfirst, h.pic2⟩, fun other ↦ ?_⟩
    show (if other < 8 then (pics.pic1.writeCmd 0x20).imr.getLsbD other
      else pics.pic2.imr.getLsbD (other - 8)) = _
    rw [himr1]

/-- An interrupt that is taken is in service. -/
theorem acknowledge_spec (h : pics.Operating served) {irq : Nat} (hirq : irq < 16)
    (hopen : pics.Deliverable irq) :
    (pics.acknowledge irq).Operating (served.step (.interrupt irq)) ∧
      ∀ other, (pics.acknowledge irq).masked other = pics.masked other := by
  unfold Deliverable at hopen
  unfold acknowledge InService.step
  dsimp only
  by_cases hfirst : irq < 8
  · rw [if_pos hfirst] at hopen
    rw [if_pos hfirst, if_pos hfirst]
    exact ⟨⟨h.pic1.acknowledge hfirst hopen, h.pic2⟩, fun _ ↦ rfl⟩
  · rw [if_neg hfirst] at hopen
    rw [if_neg hfirst, if_neg hfirst]
    exact ⟨⟨h.pic1.acknowledge (by decide) hopen.1, h.pic2.acknowledge (by omega) hopen.2⟩,
      fun _ ↦ rfl⟩

/-- Each call leaves the controllers in operation, with the lines in service that the stacks have,
and writes the mask that it says. -/
theorem step_spec {next : Pics} {call : LineCall} (h : pics.Operating served)
    (hstep : pics.step call = some next) :
    next.Operating (served.step call) ∧
      ∀ irq < 16, next.masked irq = (call.writes irq).getD (pics.masked irq) := by
  have hchange : ∀ other value, (pics.changeMask other value).Operating served ∧
      ∀ irq < 16, (pics.changeMask other value).masked irq =
        (if shiftedIrq other = irq then some value else none).getD (pics.masked irq) := by
    intro other value
    obtain ⟨hoperating, hmasked⟩ := changeMask_spec h other value
    refine ⟨hoperating, fun irq hirq ↦ (hmasked irq hirq).trans ?_⟩
    split <;> rfl
  cases call with
  | setMask other =>
      cases hstep
      exact hchange other true
  | clearMask other =>
      cases hstep
      exact hchange other false
  | eoi irq =>
      cases hstep
      obtain ⟨hoperating, hmasked⟩ := eoi_spec h irq
      exact ⟨hoperating, fun other _ ↦ hmasked other⟩
  | interrupt irq =>
      rw [step] at hstep
      split at hstep
      · rename_i hirq
        cases hstep
        obtain ⟨hoperating, hmasked⟩ := acknowledge_spec h hirq.1 hirq.2
        exact ⟨hoperating, fun other _ ↦ hmasked other⟩
      · cases hstep

/-- The stacks follow the controllers. -/
theorem operating_run {final : Pics} {calls : List LineCall} (h : pics.Operating served)
    (hrun : run step pics calls = some final) :
    final.Operating (calls.foldl InService.step served) := by
  induction calls generalizing pics served with
  | nil =>
      cases hrun
      exact h
  | cons call rest ih =>
      obtain ⟨next, hstep, hrest⟩ := run_cons_eq_some.mp hrun
      exact ih (step_spec h hstep).1 hrest

/-- Interrupts whose handlers have ended with `eoi` leave no trace in the controllers. -/
theorem operating_nest {final : Pics} {nest : Nest} (h : pics.Operating served)
    (hrun : run step pics nest.calls = some final) : final.Operating served := by
  have hfinal := operating_run h hrun
  rwa [nest_eq] at hfinal

/-- An IRQ of controllers in operation is deliverable unless it is masked, comes through the masked
line 2, or something of its priority or above is in service. -/
theorem deliverable_iff (h : pics.Operating served) {irq : Nat} (hirq : irq < 16) :
    pics.Deliverable irq ↔
      pics.masked irq = false ∧ (8 ≤ irq → pics.masked 2 = false) ∧ served.Below irq := by
  unfold Deliverable masked InService.Below
  by_cases hfirst : irq < 8
  · rw [if_pos hfirst, if_pos hfirst, if_pos hfirst, h.pic1.open_iff hfirst]
    have hvacuous : 8 ≤ irq → pics.pic1.imr.getLsbD 2 = false :=
      fun hge ↦ absurd hfirst (Nat.not_lt.mpr hge)
    exact and_congr_right fun _ ↦ (and_iff_right hvacuous).symm
  · rw [if_neg hfirst, if_neg hfirst, if_neg hfirst, if_pos (show 2 < 8 by decide),
      h.pic1.open_iff (by decide), h.pic2.open_iff (by omega)]
    constructor
    · rintro ⟨⟨hcascade, habove⟩, hmask, hbelow⟩
      exact ⟨hmask, fun _ ↦ hcascade, habove, hbelow⟩
    · rintro ⟨hmask, hcascade, habove, hbelow⟩
      exact ⟨⟨hcascade (Nat.le_of_not_lt hfirst), habove⟩, hmask, hbelow⟩

theorem vector_eq (h : pics.Operating served) {irq : Nat} : pics.vector irq = 32 + irq := by
  unfold vector
  rw [h.pic1.base, h.pic2.base]
  split
  · rfl
  · show 40 + (irq - 8) = 32 + irq
    omega

/-- The controllers after the calls of the boot code. -/
def boot (pics : Pics) : Pics := (pics.remap 32 40).disable

theorem operating_boot (pics : Pics) : pics.boot.Operating ⟨[], []⟩ := by
  have hclear : ∀ j < 8, (0 : BitVec 8).getLsbD j = decide (j ∈ ([] : List Nat)) := by decide
  exact ⟨⟨rfl, rfl, .nil, nofun, hclear⟩, ⟨rfl, rfl, .nil, nofun, hclear⟩⟩

theorem masked_boot (pics : Pics) {irq : Nat} (hirq : irq < 16) : pics.boot.masked irq = true := by
  have hones : ∀ j < 8, (0xFF : BitVec 8).getLsbD j = true := by decide
  show (if irq < 8 then (0xFF : BitVec 8).getLsbD irq
    else (0xFF : BitVec 8).getLsbD (irq - 8)) = true
  split
  · exact hones irq ‹_›
  · exact hones (irq - 8) (by omega)

/-- From any state of the controllers at boot, after any calls of `set_mask`, `clear_mask` and `eoi`
and any interrupts, in any order: an IRQ is masked unless `clear_mask` was the last call for it, and
it is delivered, with the vector 32 higher than its number, exactly if it is not masked, for the
second controller IRQ 2 is not masked either, and nothing of its priority or above is in service. -/
theorem lines_after (start : Pics) {calls : List LineCall} {pics : Pics}
    (hrun : run step start.boot calls = some pics) {irq : Nat} (hirq : irq < 16) :
    pics.masked irq = (last (LineCall.writes irq) calls).getD true ∧
      (pics.Deliverable irq ↔
        last (LineCall.writes irq) calls = some false ∧
          (8 ≤ irq → last (LineCall.writes 2) calls = some false) ∧
          (InService.after calls).Below irq) ∧
      pics.vector irq = 32 + irq := by
  have hoperating : pics.Operating (InService.after calls) :=
    operating_run start.operating_boot hrun
  have hline : ∀ other < 16,
      pics.masked other = (last (LineCall.writes other) calls).getD true := by
    intro other hother
    rw [← start.masked_boot hother]
    refine (view_run (I := fun pics : Pics ↦ ∃ served, pics.Operating served)
      (fun pics : Pics ↦ pics.masked other) ?_ ⟨_, start.operating_boot⟩ hrun).2
    rintro pics call next ⟨served, hserved⟩ hstep
    obtain ⟨hnext, hmasked⟩ := step_spec hserved hstep
    exact ⟨⟨_, hnext⟩, hmasked other hother⟩
  have hfalse : ∀ value : Option Bool, value.getD true = false ↔ value = some false := by
    intro value
    rcases value with _ | _ | _ <;> simp
  refine ⟨hline irq hirq, ?_, vector_eq hoperating⟩
  rw [deliverable_iff hoperating hirq, hline irq hirq, hline 2 (by decide), hfalse, hfalse]

/-- The keyboard interrupts the handler of IRQ 7, and can do so again. Until its own `eoi` the
handler is not interrupted by its own line, and the mouse at IRQ 12 stays closed because IRQ 2 is
masked. -/
theorem lines_after_boot :
    ∃ pics, run step (boot ⟨operating 8 4 0xB8, operating 0x70 2 0x8E⟩)
        [.clearMask 1, .clearMask 7, .interrupt 7, .interrupt 1, .eoi 1, .clearMask 12] =
          some pics ∧
      pics.Deliverable 1 ∧ ¬ pics.Deliverable 7 ∧ ¬ pics.Deliverable 12 := by
  have hsome : (run step (boot ⟨operating 8 4 0xB8, operating 0x70 2 0x8E⟩)
      [.clearMask 1, .clearMask 7, .interrupt 7, .interrupt 1, .eoi 1, .clearMask 12]).isSome =
        true := by decide +kernel
  obtain ⟨pics, hrun⟩ := Option.isSome_iff_exists.mp hsome
  refine ⟨pics, hrun, ?_, ?_, ?_⟩
  · exact ((lines_after _ hrun (show 1 < 16 by decide)).2.1).mpr (by decide)
  · exact fun hopen ↦ absurd (((lines_after _ hrun (show 7 < 16 by decide)).2.1).mp hopen)
      (by decide)
  · exact fun hopen ↦ absurd (((lines_after _ hrun (show 12 < 16 by decide)).2.1).mp hopen)
      (by decide)

end Pics

end Avaria.Arch
