import Avaria.Smp.Startup
import Mathlib.Data.Fintype.Card

/-!
# Counting the processors

`is_online` and `online_count` of `smp.rs`. A CPU is known by the entry of `CPU_ONLINE` that its
LAPIC id falls on, and ids that differ by a multiple of `MAX_CPUS` fall on the same one.

`accounting_never_exact` says what the two functions tell once `init` has returned.
-/

namespace Avaria.Smp

open Census Transition

/-- `online_count`. -/
def Machine.onlineCount (m : Machine) : UInt32 :=
  (List.finRange MAX_CPUS).foldl (fun count i ↦ if m.cpuOnline i then count + 1 else count) 0

/-- The count is that of the CPUs, and exactly their ids are reported online. -/
def Exact (topology : Topology) (m : Machine) : Prop :=
  m.onlineCount.toNat = topology.cpus.length ∧
    ∀ lapicId, m.isOnline lapicId = true ↔ lapicId ∈ topology.cpus

/-- The boot processor has stored its flag. -/
def InitPoint.Marked : InitPoint → Prop
  | .storeBspId | .storeCount | .markOnline => False
  | .release _ | .waitReady | .storeAllGo | .returned => True

/-- The flags that are set are those of CPUs, and that of the boot processor is, once stored. -/
structure Accounted (topology : Topology) (m : Machine) : Prop where
  sound : Sound topology m
  listed : ∀ i, m.cpuOnline i = true → ∃ lapicId ∈ topology.cpus, slot lapicId = i
  boot : m.bsp.Marked → m.isOnline topology.bspId = true

section Steps

variable {topology : Topology} {m next : Machine} {lapicId : UInt32}

/-- An access of `init` leaves the flags as they are, or stores that of the boot processor. -/
theorem stepInit_cpuOnline (hstep : m.stepInit topology = some next) :
    (next.cpuOnline = m.cpuOnline ∧ (next.bsp.Marked → m.bsp.Marked)) ∨
      next.cpuOnline = (m.setOnline topology.bspId).cpuOnline := by
  unfold Machine.stepInit at hstep
  cases hpoint : m.bsp with
  | storeBspId | storeCount =>
      simp only [hpoint] at hstep
      cases hstep
      exact Or.inl ⟨rfl, id⟩
  | markOnline =>
      simp only [hpoint] at hstep
      cases hstep
      exact Or.inr rfl
  | release rest =>
      cases rest with
      | nil =>
          simp only [hpoint] at hstep
          cases hstep
          exact Or.inl ⟨rfl, fun _ ↦ trivial⟩
      | cons lapicId rest =>
          simp only [hpoint] at hstep
          split at hstep
          all_goals
            cases hstep
            exact Or.inl ⟨rfl, fun _ ↦ trivial⟩
  | waitReady =>
      simp only [hpoint] at hstep
      split at hstep
      all_goals
        cases hstep
        exact Or.inl ⟨rfl, fun _ ↦ trivial⟩
  | storeAllGo =>
      simp only [hpoint] at hstep
      cases hstep
      exact Or.inl ⟨rfl, fun _ ↦ trivial⟩
  | returned =>
      simp only [hpoint] at hstep
      cases hstep

/-- An access of `ap_entry` leaves the flags as they are, or stores that of its CPU. -/
theorem stepAp_cpuOnline (hstep : m.stepAp lapicId = some next) :
    next.bsp = m.bsp ∧ (next.cpuOnline = m.cpuOnline ∨
      m.aps lapicId ≠ .parked ∧ next.cpuOnline = (m.setOnline lapicId).cpuOnline) := by
  unfold Machine.stepAp at hstep
  cases hpoint : m.aps lapicId with
  | parked =>
      simp only [hpoint] at hstep
      split at hstep
      · cases hstep
        exact ⟨rfl, Or.inl rfl⟩
      · cases hstep
  | waitAllGo =>
      simp only [hpoint] at hstep
      split at hstep
      all_goals
        cases hstep
        exact ⟨rfl, Or.inl rfl⟩
  | initSse | addReady | halted =>
      simp only [hpoint] at hstep
      cases hstep
      exact ⟨rfl, Or.inl rfl⟩
  | storeOnline =>
      simp only [hpoint] at hstep
      cases hstep
      exact ⟨rfl, Or.inr ⟨nofun, rfl⟩⟩

/-- An access leaves the flags as they are, or sets that of a CPU; the boot processor stores its own
first. -/
theorem step_cpuOnline (h : Sound topology m) {turn : Turn}
    (hstep : step topology m turn = some next) :
    (next.cpuOnline = m.cpuOnline ∧ (next.bsp.Marked → m.bsp.Marked)) ∨
      ∃ lapicId ∈ topology.cpus, next.cpuOnline = (m.setOnline lapicId).cpuOnline ∧
        (next.bsp.Marked → m.bsp.Marked ∨ lapicId = topology.bspId) := by
  cases turn with
  | bsp =>
      rcases stepInit_cpuOnline hstep with hsame | hset
      · exact Or.inl hsame
      · exact Or.inr ⟨topology.bspId, topology.bsp_mem, hset, fun _ ↦ Or.inr rfl⟩
  | ap lapicId =>
      obtain ⟨hbsp, hsame | ⟨hrun, hset⟩⟩ := stepAp_cpuOnline hstep
      · exact Or.inl ⟨hsame, fun hmarked ↦ hbsp ▸ hmarked⟩
      · have hmem := h.mem_of_running rfl hrun
        exact Or.inr ⟨lapicId, List.mem_toFinset.mp (Finset.mem_of_mem_erase hmem), hset,
          fun hmarked ↦ Or.inl (hbsp ▸ hmarked)⟩

theorem accounted_start (topology : Topology) : Accounted topology .start where
  sound := sound_start topology
  listed _ honline := Bool.noConfusion honline
  boot hmarked := hmarked.elim

/-- Every access keeps the account. -/
theorem accounted_step (h : Accounted topology m) {turn : Turn}
    (hstep : step topology m turn = some next) : Accounted topology next := by
  rcases step_cpuOnline h.sound hstep with ⟨hsame, hboot⟩ | ⟨lapicId, hmem, hset, hboot⟩
  · refine ⟨sound_step h.sound hstep, ?_, fun hmarked ↦ ?_⟩
    · rw [hsame]
      exact h.listed
    · show next.cpuOnline (slot topology.bspId) = true
      rw [hsame]
      exact h.boot (hboot hmarked)
  · refine ⟨sound_step h.sound hstep, fun i hi ↦ ?_, fun hmarked ↦ ?_⟩
    · rw [hset] at hi
      by_cases heq : i = slot lapicId
      · exact ⟨lapicId, hmem, heq.symm⟩
      · exact h.listed i ((Function.update_of_ne heq ..).symm.trans hi)
    · show next.cpuOnline (slot topology.bspId) = true
      rw [hset]
      rcases hboot hmarked with hbefore | rfl
      · exact isOnline_setOnline (h.boot hbefore) lapicId
      · exact isOnline_setOnline_self m topology.bspId

/-- Once `init` has returned, the flags that are set are those of the CPUs. -/
theorem Accounted.online_iff (h : Accounted topology m) (hreturned : m.bsp = .returned)
    (i : Fin MAX_CPUS) : m.cpuOnline i = true ↔ ∃ lapicId ∈ topology.cpus, slot lapicId = i := by
  refine ⟨h.listed i, ?_⟩
  rintro ⟨lapicId, hmem, rfl⟩
  by_cases hboot : lapicId = topology.bspId
  · rw [hboot]
    exact h.boot (hreturned ▸ trivial)
  · exact (h.sound.allArrived (Or.inr hreturned) lapicId (Topology.mem_aps hmem hboot)).2

end Steps

/-! ## The count -/

/-- The loop counts the flags that are set. -/
theorem toNat_onlineCount (m : Machine) :
    m.onlineCount.toNat = census Finset.univ (· = true) m.cpuOnline := by
  have hfold (indices : List (Fin MAX_CPUS)) (count : UInt32) :
      indices.foldl (fun count i ↦ if m.cpuOnline i then count + 1 else count) count =
        count + UInt32.ofNat (indices.countP m.cpuOnline) := by
    induction indices generalizing count with
    | nil => simp
    | cons i rest ih =>
        rw [List.foldl_cons, ih, List.countP_cons]
        split <;> simp [UInt32.add_assoc, UInt32.add_comm]
  have hcard : (List.finRange MAX_CPUS).countP m.cpuOnline =
      census Finset.univ (· = true) m.cpuOnline := by
    have hset : Finset.univ.filter (m.cpuOnline · = true) =
        ((List.finRange MAX_CPUS).filter m.cpuOnline).toFinset := by
      ext i
      simp
    rw [census, hset, List.toFinset_card_of_nodup ((List.nodup_finRange MAX_CPUS).filter _),
      List.countP_eq_length_filter]
  have hle : census Finset.univ (· = true) m.cpuOnline ≤ 64 := census_le_card
  rw [Machine.onlineCount, hfold, UInt32.zero_add, hcard]
  exact UInt32.toNat_ofNat_of_lt' (Nat.lt_of_le_of_lt hle (by decide))

/-- As many flags are set as the CPUs fall on. -/
theorem Accounted.onlineCount_eq {topology : Topology} {m : Machine} (h : Accounted topology m)
    (hreturned : m.bsp = .returned) :
    m.onlineCount.toNat = (topology.cpus.toFinset.image slot).card := by
  rw [toNat_onlineCount, census]
  refine congrArg Finset.card (Finset.ext fun i ↦ ?_)
  simp [h.online_iff hreturned]

/-- As many flags are set as there are CPUs exactly if no two CPUs fall on one. -/
theorem card_image_slot (topology : Topology) :
    (topology.cpus.toFinset.image slot).card = topology.cpus.length ↔
      (topology.cpus.map slot).Nodup := by
  rw [← List.toFinset_card_of_nodup topology.nodup, Finset.card_image_iff,
    List.nodup_map_iff_inj_on topology.nodup]
  simp [Set.InjOn]

/-- Ids that differ by `MAX_CPUS` fall on the same flag. -/
theorem slot_add (lapicId : UInt32) : slot (lapicId + 64) = slot lapicId := by
  refine Fin.ext ?_
  show (lapicId + 64).toNat % 64 = lapicId.toNat % 64
  rw [UInt32.toNat_add]
  show (lapicId.toNat + 64) % 2 ^ 32 % 64 = lapicId.toNat % 64
  omega

/-- What the functions tell once `init` has returned: the number of flags that the CPUs fall on, and
the ids that share a flag with a CPU. That is never the exact account, as another id shares the flag
of the boot processor. -/
theorem accounting_never_exact (topology : Topology) (turns : List Turn) (m : Machine)
    (hrun : run (step topology) .start turns = some m) (hreturned : m.bsp = .returned) :
    ¬ Exact topology m ∧
      (m.onlineCount.toNat = topology.cpus.length ↔ (topology.cpus.map slot).Nodup) ∧
      ∀ lapicId, m.isOnline lapicId = true ↔
        ∃ listed ∈ topology.cpus, slot listed = slot lapicId := by
  have haccounted : Accounted topology m :=
    Reachable.invariant ⟨turns, hrun⟩ (accounted_start topology) fun _ _ _ h ↦ accounted_step h
  have hcount : m.onlineCount.toNat = topology.cpus.length ↔ (topology.cpus.map slot).Nodup := by
    rw [haccounted.onlineCount_eq hreturned, card_image_slot]
  have honline (lapicId : UInt32) := haccounted.online_iff hreturned (slot lapicId)
  refine ⟨fun hexact ↦ ?_, hcount, honline⟩
  have hdistinct := (List.nodup_map_iff_inj_on topology.nodup).mp (hcount.mp hexact.1)
  have hother : topology.bspId + 64 ∈ topology.cpus :=
    (hexact.2 _).mp ((honline _).mpr ⟨topology.bspId, topology.bsp_mem, (slot_add _).symm⟩)
  have hsame := hdistinct _ hother _ topology.bsp_mem (slot_add _)
  exact absurd hsame (by simp)

/-- Two CPUs: the boot processor with id 0, and another. -/
def twoCpus (ap : UInt32) (h : ap ≠ 0) : Topology :=
  ⟨0, [0, ap], by simp [h.symm], List.mem_cons_self⟩

/-- The accesses of two CPUs up to the return of `init`. -/
def twoCpusTurns (ap : UInt32) : List Turn :=
  List.replicate 6 .bsp ++ List.replicate 4 (.ap ap) ++ List.replicate 2 .bsp

/-- Two CPUs with consecutive ids are counted, and yet id 64 is reported online too. -/
theorem consecutive_not_exact :
    ∃ m, run (step (twoCpus 1 (by decide))) .start (twoCpusTurns 1) = some m ∧
      m.onlineCount.toNat = 2 ∧ m.isOnline 64 = true := by
  have hsome : (run (step (twoCpus 1 (by decide))) .start (twoCpusTurns 1)).isSome = true := by
    decide
  obtain ⟨m, hrun⟩ := Option.isSome_iff_exists.mp hsome
  have hreturned : m.bsp = .returned := by
    have hbsp : (run (step (twoCpus 1 (by decide))) .start (twoCpusTurns 1)).map (·.bsp) =
        some .returned := by decide
    rw [hrun] at hbsp
    exact Option.some.inj hbsp
  obtain ⟨-, hcount, honline⟩ := accounting_never_exact _ _ m hrun hreturned
  exact ⟨m, hrun, hcount.mpr (by decide), (honline 64).mpr ⟨0, List.mem_cons_self, by decide⟩⟩

/-- Two CPUs whose ids fall on one flag are online, and one is counted. -/
theorem two_cpus_counted_once :
    ∃ m, run (step (twoCpus 64 (by decide))) .start (twoCpusTurns 64) = some m ∧
      m.bsp = .returned ∧ m.onlineCount = 1 ∧ ¬ Exact (twoCpus 64 (by decide)) m := by
  have hsome : (run (step (twoCpus 64 (by decide))) .start (twoCpusTurns 64)).isSome = true := by
    decide
  obtain ⟨m, hrun⟩ := Option.isSome_iff_exists.mp hsome
  have htells : (run (step (twoCpus 64 (by decide))) .start (twoCpusTurns 64)).map
      (fun m ↦ (m.bsp, m.onlineCount)) = some (.returned, 1) := by decide +kernel
  rw [hrun] at htells
  obtain ⟨hreturned, hcount⟩ := Prod.mk.inj (Option.some.inj htells)
  refine ⟨m, hrun, hreturned, hcount, fun hexact ↦ ?_⟩
  have hlength := hexact.1
  rw [hcount] at hlength
  exact absurd hlength (by decide)

end Avaria.Smp
