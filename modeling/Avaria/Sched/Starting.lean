import Avaria.Sched.Scheduler

/-!
# The tasks that are started at boot

Calls of `spawn` one after another on the scheduler that `init` left, before the first tick. No task
has exited yet, so each call takes the slot after the one before (`Filled.findSlot`), and the calls
after the fifteenth find none. `spawnAll_filled` is the run lemma.
-/

namespace Avaria.Sched

open Mm

/-- The arguments of a call of `spawn`. -/
structure Start where
  entry : UInt64
  api : UInt64
  name : List UInt8

/-- Calls of `spawn` in order. -/
def spawnAll {σ : Type*} [PageSource σ] (image : Image) (starts : List Start)
    (state : Scheduler × σ) : Scheduler × σ :=
  starts.foldl (fun state start ↦
    (state.1.spawn image state.2 start.entry start.api start.name).2) state

/-- The page source after a request for a stack. -/
def afterStack {σ : Type*} [PageSource σ] (source : σ) : σ :=
  (PageSource.allocPages source TASK_STACK_ORDER).2

/-- The page source answers a number of requests for a stack, one after another. -/
def Answers {σ : Type*} [PageSource σ] (source : σ) (count : Nat) : Prop :=
  ∀ i < count, (PageSource.allocPages (afterStack^[i] source) TASK_STACK_ORDER).1.isSome = true

instance {σ : Type*} [PageSource σ] (source : σ) (count : Nat) : Decidable (Answers source count) :=
  inferInstanceAs (Decidable (∀ i < count, _))

theorem Answers.next {σ : Type*} [PageSource σ] {source : σ} {count : Nat}
    (h : Answers source (count + 1)) : Answers (afterStack source) count :=
  fun i hi ↦ h (i + 1) (Nat.succ_lt_succ hi)

/-- The slots from 1 on hold the tasks that were started, in order, and the others are empty. -/
structure Filled (image : Image) (s : Scheduler) (starts : List Start) : Prop where
  idle : (s.tasks 0).state = .running
  started : ∀ t start, t ≠ 0 → starts[t.val - 1]? = some start →
    ∃ stackBase, s.tasks t = Scheduler.newTask image t stackBase start.entry start.api start.name
  empty : ∀ t, t ≠ 0 → starts[t.val - 1]? = none → s.tasks t = Task.empty

namespace Filled

variable {image : Image} {s : Scheduler} {starts : List Start}

theorem boot (image : Image) : Filled image (Scheduler.boot image) [] where
  idle := rfl
  started t start _ h := by cases h
  empty _ ht _ := Scheduler.boot_of_ne image ht

/-- The search of `spawn` ends behind the tasks that were started. -/
theorem findSlot (h : Filled image s starts) :
    s.findSlot =
      if hlt : starts.length + 1 < MAX_TASKS then some ⟨starts.length + 1, hlt⟩ else none := by
  -- a slot that the search finds is behind the tasks that were started
  have hbehind : ∀ i, s.findSlot = some i → starts.length < i.val := by
    intro i hslot
    obtain ⟨hi, hfree⟩ := Scheduler.findSlot_eq_some hslot
    have hpos : i.val ≠ 0 := fun hzero ↦ hi (Fin.ext hzero)
    by_contra hle
    obtain ⟨stackBase, htask⟩ := h.started i starts[i.val - 1] hi
      (List.getElem?_eq_getElem (by omega))
    rw [htask] at hfree
    rcases hfree with hfree | hfree <;> cases hfree
  split
  · rename_i hlt
    obtain ⟨i, hle, hslot⟩ := Scheduler.findSlot_le (s := s) (t := ⟨starts.length + 1, hlt⟩)
      (fun hzero ↦ absurd (congrArg Fin.val hzero) (Nat.succ_ne_zero _))
      (Or.inl (by
        rw [h.empty _ (fun hzero ↦ absurd (congrArg Fin.val hzero) (Nat.succ_ne_zero _))
          (List.getElem?_eq_none (by simp))]
        rfl))
    rw [hslot, Fin.le_antisymm hle (hbehind i hslot)]
  · rename_i hfull
    cases hslot : s.findSlot with
    | none => rfl
    | some i =>
        have hlt := hbehind i hslot
        have hmax : i.val < MAX_TASKS := i.isLt
        omega

/-- A call of `spawn` that finds a stack, if it finds a slot. -/
theorem spawn {σ : Type*} [PageSource σ] (h : Filled image s starts) {source : σ} (start : Start)
    {count : Nat} (hanswers : Answers source (min (MAX_TASKS - 1 - starts.length) (count + 1))) :
    Filled image (s.spawn image source start.entry start.api start.name).2.1 (starts ++ [start]) ∧
      Answers (s.spawn image source start.entry start.api start.name).2.2
        (min (MAX_TASKS - 1 - (starts ++ [start]).length) count) := by
  have hslot := h.findSlot
  rw [List.length_append, List.length_singleton]
  by_cases hlt : starts.length + 1 < MAX_TASKS
  · rw [dif_pos hlt] at hslot
    rw [show min (MAX_TASKS - 1 - starts.length) (count + 1) =
      min (MAX_TASKS - 1 - (starts.length + 1)) count + 1 by omega] at hanswers
    obtain ⟨stackBase, hbase⟩ := Option.isSome_iff_exists.mp (hanswers 0 (Nat.zero_lt_succ _))
    have hspawn : (s.spawn image source start.entry start.api start.name).2 =
        (s.setTask ⟨starts.length + 1, hlt⟩ (Scheduler.newTask image ⟨starts.length + 1, hlt⟩
          (UInt64.ofNat stackBase) start.entry start.api start.name),
          afterStack source) := by
      simp only [Scheduler.spawn, hslot]
      split
      · rename_i hnone
        rw [Function.iterate_zero_apply, hnone] at hbase
        cases hbase
      · rename_i hcall
        rw [Function.iterate_zero_apply, hcall] at hbase
        rw [afterStack, hcall, Option.some.inj hbase]
    rw [hspawn]
    refine ⟨⟨?_, fun t other ht hother ↦ ?_, fun t ht hnone ↦ ?_⟩, hanswers.next⟩
    · rw [Scheduler.setTask_of_ne (Fin.ne_of_val_ne (Nat.succ_ne_zero _).symm)]
      exact h.idle
    · by_cases hnew : t = ⟨starts.length + 1, hlt⟩
      · subst hnew
        obtain rfl : start = other := by simpa using hother
        exact ⟨_, Scheduler.setTask_self ..⟩
      · have hpos : t.val ≠ 0 := fun hzero ↦ ht (Fin.ext hzero)
        have hbound := (List.getElem?_eq_some_iff.mp hother).1
        have hval : t.val ≠ starts.length + 1 := fun heq ↦ hnew (Fin.ext heq)
        rw [List.length_append, List.length_singleton] at hbound
        rw [List.getElem?_append_left (by omega)] at hother
        obtain ⟨stackBase, htask⟩ := h.started t other ht hother
        exact ⟨stackBase, (Scheduler.setTask_of_ne hnew _).trans htask⟩
    · have hbound := List.getElem?_eq_none_iff.mp hnone
      rw [List.length_append, List.length_singleton] at hbound
      rw [Scheduler.setTask_of_ne fun heq ↦ absurd (congrArg Fin.val heq) (by
        show t.val ≠ starts.length + 1
        omega)]
      exact h.empty t ht (List.getElem?_eq_none (by omega))
  · rw [dif_neg hlt] at hslot
    have hspawn : (s.spawn image source start.entry start.api start.name).2 = (s, source) := by
      simp only [Scheduler.spawn, hslot]
    rw [hspawn, show min (MAX_TASKS - 1 - (starts.length + 1)) count = 0 by omega]
    -- all slots are among those of the tasks before
    have hbefore (t : TaskId) : (starts ++ [start])[t.val - 1]? = starts[t.val - 1]? :=
      List.getElem?_append_left (by
        have hmax : t.val < MAX_TASKS := t.isLt
        have hfew : 1 < MAX_TASKS := by decide
        omega)
    refine ⟨⟨h.idle, fun t other ht hother ↦ ?_, fun t ht hnone ↦ ?_⟩,
      fun i hi ↦ absurd hi (Nat.not_lt_zero i)⟩
    · exact h.started t other ht (hbefore t ▸ hother)
    · exact h.empty t ht (hbefore t ▸ hnone)

end Filled

/-- The tasks that calls of `spawn` leave behind, when the page source answers as long as there are
free slots. -/
theorem spawnAll_filled {σ : Type*} [PageSource σ] {image : Image} {s : Scheduler} {source : σ}
    {done : List Start} (h : Filled image s done) (starts : List Start)
    (hanswers : Answers source (min (MAX_TASKS - 1 - done.length) starts.length)) :
    Filled image (spawnAll image starts (s, source)).1 (done ++ starts) := by
  induction starts generalizing s source done with
  | nil => exact (List.append_nil done).symm ▸ h
  | cons start rest ih =>
      obtain ⟨hnext, hleft⟩ := h.spawn start hanswers
      have hrest := ih hnext hleft
      rwa [List.append_assoc] at hrest

end Avaria.Sched
