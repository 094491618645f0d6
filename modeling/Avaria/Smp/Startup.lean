import Avaria.Lib.Census
import Avaria.Lib.Transition
import Mathlib.Algebra.Group.Nat.Defs
import Mathlib.Data.List.Nodup
import Mathlib.Data.List.Perm.Subperm

/-!
# Starting the other processors

`init` and `ap_entry` of `smp.rs`. The boot processor writes the entry point of each other CPU and
waits until all of them have counted themselves in `APS_READY`; then it sets `ALL_GO`. The CPUs run
interleaved, one access to the statics at a time.

`startup_barrier` says that nobody passes before everybody has arrived.
-/

namespace Avaria.Smp

open Census Transition

/-- `MAX_CPUS`. -/
def MAX_CPUS : Nat := 64

/-- The arguments of `init`: the LAPIC id of the boot processor, and the CPUs by their LAPIC ids,
which are different and include it. -/
structure Topology where
  bspId : UInt32
  cpus : List UInt32
  nodup : cpus.Nodup
  bsp_mem : bspId ∈ cpus

/-- The other CPUs. -/
def Topology.aps (topology : Topology) : Finset UInt32 :=
  topology.cpus.toFinset.erase topology.bspId

/-- Where the boot processor is in `init`. -/
inductive InitPoint where
  | storeBspId
  | storeCount
  | markOnline
  | release (rest : List UInt32)
  | waitReady
  | storeAllGo
  | returned
  deriving DecidableEq

/-- Where another CPU is in `ap_entry`. Until its entry point is written it is parked. -/
inductive ApPoint where
  | parked
  | initSse
  | storeOnline
  | addReady
  | waitAllGo
  | halted
  deriving DecidableEq

/-- The statics of `smp.rs`, the entry points that were written, and the CPUs. -/
structure Machine where
  cpuCount : UInt32
  bspLapicId : UInt32
  apsReady : UInt32
  allGo : Bool
  cpuOnline : Fin MAX_CPUS → Bool
  entered : UInt32 → Bool
  bsp : InitPoint
  aps : UInt32 → ApPoint

/-- The entry of a CPU in `CPU_ONLINE`. -/
def slot (lapicId : UInt32) : Fin MAX_CPUS := ⟨lapicId.toNat % MAX_CPUS, Nat.mod_lt _ (by decide)⟩

namespace Machine

/-- The statics at boot. -/
def start : Machine :=
  ⟨1, 0, 0, false, fun _ ↦ false, fun _ ↦ false, .storeBspId, fun _ ↦ .parked⟩

/-- `is_online`. -/
def isOnline (m : Machine) (lapicId : UInt32) : Bool := m.cpuOnline (slot lapicId)

/-- Store true in `CPU_ONLINE`. -/
def setOnline (m : Machine) (lapicId : UInt32) : Machine :=
  { m with cpuOnline := Function.update m.cpuOnline (slot lapicId) true }

/-- Put another CPU at a point. -/
def setAp (m : Machine) (lapicId : UInt32) (point : ApPoint) : Machine :=
  { m with aps := Function.update m.aps lapicId point }

/-- The next access of `init`. -/
def stepInit (topology : Topology) (m : Machine) : Option Machine :=
  match m.bsp with
  | .storeBspId => some { m with bspLapicId := topology.bspId, bsp := .storeCount }
  | .storeCount =>
      some { m with cpuCount := UInt32.ofNat topology.cpus.length, bsp := .markOnline }
  | .markOnline => some { m.setOnline topology.bspId with bsp := .release topology.cpus }
  | .release [] => some { m with bsp := .waitReady }
  | .release (lapicId :: rest) =>
      if lapicId = topology.bspId then some { m with bsp := .release rest }
      else some { m with entered := Function.update m.entered lapicId true, bsp := .release rest }
  | .waitReady =>
      if m.apsReady < UInt32.ofNat topology.cpus.length - 1 then some m
      else some { m with bsp := .storeAllGo }
  | .storeAllGo => some { m with allGo := true, bsp := .returned }
  | .returned => none

/-- The next access of `ap_entry`. -/
def stepAp (m : Machine) (lapicId : UInt32) : Option Machine :=
  match m.aps lapicId with
  | .parked => if m.entered lapicId = true then some (m.setAp lapicId .initSse) else none
  | .initSse => some (m.setAp lapicId .storeOnline)
  | .storeOnline => some ((m.setOnline lapicId).setAp lapicId .addReady)
  | .addReady => some ({ m with apsReady := m.apsReady + 1 }.setAp lapicId .waitAllGo)
  | .waitAllGo => if m.allGo = true then some (m.setAp lapicId .halted) else some m
  | .halted => some m

end Machine

/-- Which CPU takes the next step. -/
inductive Turn where
  | bsp
  | ap (lapicId : UInt32)

/-- One access of one CPU. -/
def step (topology : Topology) (m : Machine) : Turn → Option Machine
  | .bsp => m.stepInit topology
  | .ap lapicId => m.stepAp lapicId

/-! ## The barrier -/

/-- The CPU has stored its flag. -/
def ApPoint.Marked : ApPoint → Prop
  | .parked | .initSse | .storeOnline => False
  | .addReady | .waitAllGo | .halted => True

/-- The CPU has stored its flag and incremented `APS_READY`. -/
def ApPoint.Arrived : ApPoint → Prop
  | .parked | .initSse | .storeOnline | .addReady => False
  | .waitAllGo | .halted => True

instance : DecidablePred ApPoint.Arrived := fun point ↦ by
  cases point <;> unfold ApPoint.Arrived <;> infer_instance

/-- Every other CPU has stored its flag and incremented `APS_READY`, and the flag is still set. -/
def AllArrived (topology : Topology) (m : Machine) : Prop :=
  ∀ lapicId ∈ topology.aps, (m.aps lapicId).Arrived ∧ m.isOnline lapicId = true

/-- No CPU has left its loop and `init` has not returned, unless all others have arrived; and
`APS_READY` is at most their number. -/
structure Barrier (topology : Topology) (m : Machine) : Prop where
  returned : m.bsp = .returned → AllArrived topology m
  halted : ∀ lapicId, m.aps lapicId = .halted → AllArrived topology m
  ready_le : m.apsReady.toNat ≤ topology.aps.card

/-- How many of the other CPUs have incremented `APS_READY`. -/
def arrivals (topology : Topology) (m : Machine) : Nat :=
  census topology.aps ApPoint.Arrived m.aps

/-- What each CPU's point says about the statics. -/
structure Sound (topology : Topology) (m : Machine) : Prop where
  ready : m.apsReady.toNat = arrivals topology m
  online : ∀ lapicId, (m.aps lapicId).Marked → m.isOnline lapicId = true
  member : ∀ lapicId, m.aps lapicId ≠ .parked ∨ m.entered lapicId = true → lapicId ∈ topology.aps
  rest : ∀ rest, m.bsp = .release rest → rest ⊆ topology.cpus
  gate : m.bsp = .storeAllGo ∨ m.bsp = .returned → arrivals topology m = topology.aps.card
  allGo : m.allGo = true → m.bsp = .returned
  halted : ∀ lapicId, m.aps lapicId = .halted → m.allGo = true

namespace Topology

/-- There is one CPU more than there are others. -/
theorem length_cpus (topology : Topology) : topology.cpus.length = topology.aps.card + 1 := by
  have hmem : topology.bspId ∈ topology.cpus.toFinset := List.mem_toFinset.mpr topology.bsp_mem
  rw [aps, Finset.card_erase_add_one hmem, List.toFinset_card_of_nodup topology.nodup]

/-- There are at most as many CPUs as LAPIC ids. -/
theorem length_cpus_le (topology : Topology) : topology.cpus.length ≤ 2 ^ 32 := by
  have hnodup : (topology.cpus.map UInt32.toNat).Nodup :=
    topology.nodup.map fun _ _ ↦ UInt32.toNat_inj.mp
  have hsubset : topology.cpus.map UInt32.toNat ⊆ List.range (2 ^ 32) := by
    intro n hn
    obtain ⟨lapicId, -, rfl⟩ := List.mem_map.mp hn
    exact List.mem_range.mpr lapicId.toNat_lt
  have hle := (List.subperm_of_subset hnodup hsubset).length_le
  rwa [List.length_map, List.length_range] at hle

/-- `cpus.len() as u32 - 1` is the number of the other CPUs, also where the cast and the difference
both wrap around. -/
theorem toNat_length_sub_one (topology : Topology) :
    (UInt32.ofNat topology.cpus.length - 1).toNat = topology.aps.card := by
  have hone : (1 : UInt32).toNat = 1 := rfl
  have hlength := topology.length_cpus
  have hle := topology.length_cpus_le
  rw [UInt32.toNat_sub, UInt32.toNat_ofNat']
  omega

theorem mem_aps {topology : Topology} {lapicId : UInt32} (hmem : lapicId ∈ topology.cpus)
    (hne : lapicId ≠ topology.bspId) : lapicId ∈ topology.aps :=
  Finset.mem_erase.mpr ⟨hne, List.mem_toFinset.mpr hmem⟩

end Topology

theorem ApPoint.Arrived.marked {point : ApPoint} (h : point.Arrived) : point.Marked := by
  cases point with
  | addReady | waitAllGo | halted => trivial
  | parked | initSse | storeOnline => exact h

/-! ## Single accesses -/

section Steps

variable {topology : Topology} {m next : Machine} {lapicId : UInt32} {point : ApPoint}

theorem aps_setAp_self (m : Machine) (lapicId : UInt32) (point : ApPoint) :
    (m.setAp lapicId point).aps lapicId = point :=
  Function.update_self ..

theorem aps_setAp_of_ne {other : UInt32} (h : other ≠ lapicId) :
    (m.setAp lapicId point).aps other = m.aps other :=
  Function.update_of_ne h ..

theorem isOnline_setOnline (h : m.isOnline lapicId = true) (other : UInt32) :
    (m.setOnline other).isOnline lapicId = true := by
  show Function.update m.cpuOnline (slot other) true (slot lapicId) = true
  by_cases heq : slot lapicId = slot other
  · rw [heq, Function.update_self]
  · rw [Function.update_of_ne heq]
    exact h

theorem isOnline_setOnline_self (m : Machine) (lapicId : UInt32) :
    (m.setOnline lapicId).isOnline lapicId = true :=
  Function.update_self ..

theorem sound_start (topology : Topology) : Sound topology .start where
  ready := (census_eq_zero_iff.mpr fun _ _ harrived ↦ harrived).symm
  online _ hmarked := hmarked.elim
  member _ hcase := hcase.elim (absurd rfl) Bool.noConfusion
  rest _ hrest := InitPoint.noConfusion hrest
  gate hpassed := hpassed.elim InitPoint.noConfusion InitPoint.noConfusion
  allGo hgo := Bool.noConfusion hgo
  halted _ hhalted := ApPoint.noConfusion hhalted

/-- A flag that is stored disturbs nobody, even where two CPUs share it. -/
theorem Sound.setOnline (h : Sound topology m) (lapicId : UInt32) :
    Sound topology (m.setOnline lapicId) :=
  { h with online := fun other hmarked ↦ isOnline_setOnline (h.online other hmarked) lapicId }

/-- The boot processor writes the entry point of another CPU. -/
theorem Sound.enter (h : Sound topology m) (hmem : lapicId ∈ topology.aps) :
    Sound topology { m with entered := Function.update m.entered lapicId true } := by
  refine { h with member := fun other hother ↦ ?_ }
  by_cases heq : other = lapicId
  · rw [heq]
    exact hmem
  · exact h.member other (hother.imp_right (Function.update_of_ne heq ..).symm.trans)

/-- `CPU_COUNT` and `BSP_LAPIC_ID` matter to nobody here. -/
theorem Sound.setStatics (h : Sound topology m) (cpuCount bspLapicId : UInt32) :
    Sound topology { m with cpuCount, bspLapicId } :=
  { h with }

/-- A CPU moves on, perhaps with another value of `APS_READY`. -/
theorem Sound.move {ready : UInt32} (h : Sound topology m) (hmem : lapicId ∈ topology.aps)
    (hready : ready.toNat = arrivals topology (m.setAp lapicId point))
    (hgate : m.bsp = .storeAllGo ∨ m.bsp = .returned →
      arrivals topology (m.setAp lapicId point) = topology.aps.card)
    (hmarked : point.Marked → m.isOnline lapicId = true)
    (hhalted : point = .halted → m.allGo = true) :
    Sound topology ({ m with apsReady := ready }.setAp lapicId point) := by
  refine ⟨hready, fun other hother ↦ ?_, fun other hother ↦ ?_, h.rest, hgate, h.allGo,
    fun other hother ↦ ?_⟩
  · by_cases heq : other = lapicId
    · subst heq
      rw [aps_setAp_self] at hother
      exact hmarked hother
    · rw [aps_setAp_of_ne heq] at hother
      exact h.online other hother
  · by_cases heq : other = lapicId
    · rw [heq]
      exact hmem
    · rw [aps_setAp_of_ne heq] at hother
      exact h.member other hother
  · by_cases heq : other = lapicId
    · subst heq
      rw [aps_setAp_self] at hother
      exact hhalted hother
    · rw [aps_setAp_of_ne heq] at hother
      exact h.halted other hother

/-- A CPU moves on without arriving. -/
theorem Sound.setAp (h : Sound topology m) (hmem : lapicId ∈ topology.aps)
    (harrived : point.Arrived ↔ (m.aps lapicId).Arrived)
    (hmarked : point.Marked → m.isOnline lapicId = true)
    (hhalted : point = .halted → m.allGo = true) : Sound topology (m.setAp lapicId point) := by
  have hsame : arrivals topology (m.setAp lapicId point) = arrivals topology m :=
    census_stay harrived
  exact h.move hmem (h.ready.trans hsame.symm) (fun hpassed ↦ hsame.trans (h.gate hpassed))
    hmarked hhalted

/-- A CPU increments `APS_READY`, which does not wrap around. -/
theorem Sound.addReady (h : Sound topology m) (hmem : lapicId ∈ topology.aps)
    (hpoint : m.aps lapicId = .addReady) :
    Sound topology ({ m with apsReady := m.apsReady + 1 }.setAp lapicId .waitAllGo) := by
  have hbefore : ¬ (m.aps lapicId).Arrived := by
    rw [hpoint]
    exact fun harrived ↦ harrived
  have henter : arrivals topology (m.setAp lapicId .waitAllGo) = arrivals topology m + 1 :=
    census_enter hmem hbefore trivial
  have hnotAll : arrivals topology m ≠ topology.aps.card :=
    fun hall ↦ hbefore (census_eq_card_iff.mp hall lapicId hmem)
  have hready : (m.apsReady + 1).toNat = arrivals topology m + 1 := by
    have hle : arrivals topology m ≤ topology.aps.card := census_le_card
    have hlength := topology.length_cpus
    have hbound := topology.length_cpus_le
    have hone : (1 : UInt32).toNat = 1 := rfl
    rw [UInt32.toNat_add, h.ready]
    omega
  refine h.move hmem (hready.trans henter.symm) (fun hpassed ↦ absurd (h.gate hpassed) hnotAll)
    (fun _ ↦ h.online lapicId ?_) ApPoint.noConfusion
  rw [hpoint]
  trivial

/-- A CPU that runs is one of those that were started. -/
theorem Sound.mem_of_running (h : Sound topology m) (hpoint : m.aps lapicId = point)
    (hrun : point ≠ .parked) : lapicId ∈ topology.aps :=
  h.member lapicId (Or.inl (hpoint ▸ hrun))

/-- Every access of `ap_entry` keeps the invariant. -/
theorem sound_stepAp (h : Sound topology m) (hstep : m.stepAp lapicId = some next) :
    Sound topology next := by
  unfold Machine.stepAp at hstep
  cases hpoint : m.aps lapicId with
  | parked =>
      simp only [hpoint] at hstep
      split at hstep
      · next hentered =>
          cases hstep
          exact h.setAp (h.member lapicId (Or.inr hentered)) (by rw [hpoint]; rfl) False.elim
            ApPoint.noConfusion
      · cases hstep
  | initSse =>
      simp only [hpoint] at hstep
      cases hstep
      exact h.setAp (h.mem_of_running hpoint nofun) (by rw [hpoint]; rfl) False.elim
        ApPoint.noConfusion
  | storeOnline =>
      simp only [hpoint] at hstep
      cases hstep
      have hmem := h.mem_of_running hpoint nofun
      refine (h.setOnline lapicId).setAp hmem ?_ (fun _ ↦ isOnline_setOnline_self m lapicId)
        ApPoint.noConfusion
      show _ ↔ (m.aps lapicId).Arrived
      rw [hpoint]
      rfl
  | addReady =>
      simp only [hpoint] at hstep
      cases hstep
      exact h.addReady (h.mem_of_running hpoint nofun) hpoint
  | waitAllGo =>
      simp only [hpoint] at hstep
      split at hstep
      · next hgo =>
          cases hstep
          refine h.setAp (h.mem_of_running hpoint nofun) (by rw [hpoint]; rfl)
            (fun _ ↦ h.online lapicId ?_) fun _ ↦ hgo
          rw [hpoint]
          trivial
      · cases hstep
        exact h
  | halted =>
      simp only [hpoint] at hstep
      cases hstep
      exact h

/-- The accesses of `init` before it waits touch nothing that the other CPUs wait for. -/
theorem Sound.setBsp (h : Sound topology m) (bsp : InitPoint) (hbsp : m.bsp ≠ .returned)
    (hrest : ∀ rest, bsp = .release rest → rest ⊆ topology.cpus)
    (hgate : bsp = .storeAllGo ∨ bsp = .returned → arrivals topology m = topology.aps.card) :
    Sound topology { m with bsp } :=
  { h with
    rest := hrest
    gate := hgate
    allGo := fun hgo ↦ absurd (h.allGo hgo) hbsp }

/-- Every access of `init` keeps the invariant. -/
theorem sound_stepInit (h : Sound topology m) (hstep : m.stepInit topology = some next) :
    Sound topology next := by
  unfold Machine.stepInit at hstep
  cases hpoint : m.bsp with
  | storeBspId =>
      simp only [hpoint] at hstep
      cases hstep
      exact (h.setStatics m.cpuCount topology.bspId).setBsp .storeCount (by simp [hpoint]) nofun
        nofun
  | storeCount =>
      simp only [hpoint] at hstep
      cases hstep
      exact (h.setStatics _ m.bspLapicId).setBsp .markOnline (by simp [hpoint]) nofun nofun
  | markOnline =>
      simp only [hpoint] at hstep
      cases hstep
      have hbsp : (m.setOnline topology.bspId).bsp ≠ .returned := by
        simp [Machine.setOnline, hpoint]
      refine (h.setOnline topology.bspId).setBsp (.release topology.cpus) hbsp ?_ nofun
      intro rest hrest
      cases hrest
      exact List.Subset.refl _
  | release rest =>
      have hrest := h.rest rest hpoint
      cases rest with
      | nil =>
          simp only [hpoint] at hstep
          cases hstep
          exact h.setBsp .waitReady (by simp [hpoint]) nofun nofun
      | cons lapicId rest =>
          have htail : rest ⊆ topology.cpus := List.subset_of_cons_subset hrest
          simp only [hpoint] at hstep
          split at hstep
          · cases hstep
            refine h.setBsp (.release rest) (by simp [hpoint]) (fun other hother ↦ ?_) nofun
            cases hother
            exact htail
          · next hne =>
              cases hstep
              have hmem := Topology.mem_aps (hrest List.mem_cons_self) hne
              refine (h.enter hmem).setBsp (.release rest) (by simp [hpoint]) ?_ nofun
              intro other hother
              cases hother
              exact htail
  | waitReady =>
      simp only [hpoint] at hstep
      split at hstep
      · cases hstep
        exact h
      · next hready =>
          cases hstep
          refine h.setBsp .storeAllGo (by simp [hpoint]) nofun fun _ ↦ ?_
          -- the load saw as many as there are others
          have hge := UInt32.not_lt.mp hready
          rw [UInt32.le_iff_toNat_le, topology.toNat_length_sub_one, h.ready] at hge
          exact Nat.le_antisymm census_le_card hge
  | storeAllGo =>
      simp only [hpoint] at hstep
      cases hstep
      exact { h with
        rest := nofun
        gate := fun _ ↦ h.gate (Or.inl hpoint)
        allGo := fun _ ↦ rfl
        halted := fun _ _ ↦ rfl }
  | returned =>
      simp only [hpoint] at hstep
      cases hstep

/-- Every access keeps what the points say. -/
theorem sound_step {turn : Turn} (h : Sound topology m) (hstep : step topology m turn = some next) :
    Sound topology next := by
  cases turn with
  | bsp => exact sound_stepInit h hstep
  | ap lapicId => exact sound_stepAp h hstep

/-- Once `init` is past its loop, all others have arrived. -/
theorem Sound.allArrived (h : Sound topology m)
    (hpassed : m.bsp = .storeAllGo ∨ m.bsp = .returned) : AllArrived topology m := by
  intro lapicId hmem
  have harrived := census_eq_card_iff.mp (h.gate hpassed) lapicId hmem
  exact ⟨harrived, h.online lapicId harrived.marked⟩

theorem Sound.barrier (h : Sound topology m) : Barrier topology m where
  returned hreturned := h.allArrived (Or.inr hreturned)
  halted lapicId hhalted := h.allArrived (Or.inr (h.allGo (h.halted lapicId hhalted)))
  ready_le := h.ready.trans_le census_le_card

/-- When all others have arrived, `init` leaves its loop at the next load. -/
theorem Sound.passes (h : Sound topology m) (hwait : m.bsp = .waitReady)
    (hall : AllArrived topology m) :
    m.stepInit topology = some { m with bsp := .storeAllGo } := by
  have hcard := census_eq_card_iff.mpr fun lapicId hmem ↦ (hall lapicId hmem).1
  have hready : ¬ m.apsReady < UInt32.ofNat topology.cpus.length - 1 := by
    rw [UInt32.not_lt, UInt32.le_iff_toNat_le, topology.toNat_length_sub_one, h.ready]
    exact hcard.ge
  simp only [Machine.stepInit, hwait, if_neg hready]

end Steps

/-- Whatever the order in which the CPUs take their steps, no CPU leaves its loop on `ALL_GO` and
`init` does not return before every other CPU has stored its flag and incremented `APS_READY`, and
`APS_READY` never exceeds the number of the other CPUs. -/
theorem startup_barrier (topology : Topology) (turns : List Turn) :
    Along (step topology) (Barrier topology) .start turns :=
  (along_of_invariant (P := Sound topology) (fun _ _ _ ↦ sound_step) (sound_start topology)
    turns).mono fun _ ↦ Sound.barrier

/-- Two CPUs come to the end of their loops. -/
example : (run (step ⟨0, [0, 1], by decide, by decide⟩) .start
    (List.replicate 6 .bsp ++ List.replicate 4 (.ap 1) ++ List.replicate 2 .bsp ++ [.ap 1])).map
      (fun m ↦ (m.bsp, m.aps 1, m.apsReady)) = some (.returned, .halted, 1) := by
  decide

end Avaria.Smp
