import Avaria.Elf.LoadImage
import Avaria.Fs.Archive
import Avaria.Fs.InitrdLookup
import Avaria.Mem.MakeExecutable
import Avaria.Mm.Buddy
import Avaria.Sched.Starting

/-!
# Kernel modules at boot

The end of `_start` in `main.rs`: a loop over the files `boot/modules/*.ko` of the initrd that loads
each into a buffer of its own, makes the image executable and spawns a task for it, and then the
task of the shell. A file that the loader refuses leaves its buffer to the next one, dirty as it may
be; the fill of the loader hides that.

`modules_loaded` says what the buffers and the page tables hold afterwards, `tasks_started` what the
task table holds and when there was a slot left for the shell, and `archive_booted` what boot makes
of the archive of a list of files.
-/

namespace Avaria.Boot

open Elf Fs Mem Mm Sched

/-- `MAX_MODULES`. -/
def MAX_MODULES : Nat := 16

/-- The length of each of the `MODULE_BUFS`. -/
def MODULE_BUF_LEN : Nat := 0x10000

/-- What the loop takes from the image and the machine: the addresses of `task_trampoline` and the
kernel stack, of `MODULE_BUFS`, `AVARIA_API` and `shell_task_entry`, and the register `cr3`. -/
structure Kernel where
  image : Image
  moduleBufs : Nat
  api : UInt64
  shellTaskEntry : UInt64
  cr3 : UInt64
  moduleBufs_le : moduleBufs + MAX_MODULES * MODULE_BUF_LEN ≤ 2 ^ 64
  api_ne_zero : api ≠ 0

/-- A file of the initrd: its path and its bytes. -/
abbrev Module := List UInt8 × Slice

/-- The prefix of the paths of modules, `boot/modules/`. -/
def modulePrefix : List UInt8 :=
  [0x62, 0x6F, 0x6F, 0x74, 0x2F, 0x6D, 0x6F, 0x64, 0x75, 0x6C, 0x65, 0x73, 0x2F]

/-- The suffix of the paths of modules, `.ko`. -/
def moduleSuffix : List UInt8 := [0x2E, 0x6B, 0x6F]

/-- A mounted initrd. The files are slices, so they have at most `isize::MAX` bytes. -/
structure Initrd extends TarFs where
  length_lt : ∀ entry ∈ entries, entry.data.length < 2 ^ 63

/-- The calls that `for_each_matching` makes for the modules. -/
def Initrd.modules (initrd : Initrd) : List Module :=
  (initrd.forEachMatching modulePrefix moduleSuffix).pmap
    (fun file hfile ↦ (file.1, .ofList file.2 hfile)) fun file hfile ↦ by
      obtain ⟨entry, hentry, -, -, rfl⟩ := TarFs.mem_forEachMatching.mp hfile
      exact initrd.length_lt entry hentry

/-- The state that the loop changes: the buffers, `mod_idx`, the scheduler, the page source and the
page tables. -/
structure State (σ : Type*) where
  moduleBufs : Fin MAX_MODULES → ByteMap
  modIdx : Nat
  sched : Scheduler
  pages : σ
  tables : Ring3.PhysMem

namespace Kernel

/-- The address of a buffer. -/
def bufAddr (kernel : Kernel) (k : Nat) : Nat := kernel.moduleBufs + k * MODULE_BUF_LEN

theorem bufAddr_add_le (kernel : Kernel) (k : Fin MAX_MODULES) :
    kernel.bufAddr k + MODULE_BUF_LEN ≤ 2 ^ 64 := by
  have hle := kernel.moduleBufs_le
  have hlast : k.val * MODULE_BUF_LEN + MODULE_BUF_LEN ≤ MAX_MODULES * MODULE_BUF_LEN :=
    (Nat.succ_mul k.val MODULE_BUF_LEN).symm.le.trans (Nat.mul_le_mul_right _ k.isLt)
  rw [bufAddr]
  omega

theorem toNat_bufAddr (kernel : Kernel) (k : Fin MAX_MODULES) :
    (UInt64.ofNat (kernel.bufAddr k)).toNat = kernel.bufAddr k := by
  have hle := kernel.bufAddr_add_le k
  have hpos : 0 < MODULE_BUF_LEN := by decide
  rw [UInt64.toNat_ofNat', Nat.mod_eq_of_lt (by omega)]

/-- `MODULE_BUFS[k]`. -/
def moduleBuf (kernel : Kernel) (k : Fin MAX_MODULES) (bytes : ByteMap) : Buffer where
  length := MODULE_BUF_LEN
  bytes := bytes
  length_lt := by decide
  base := UInt64.ofNat (kernel.bufAddr k)
  base_add_le := (kernel.toNat_bufAddr k).symm ▸ kernel.bufAddr_add_le k

variable {σ : Type*} [PageSource σ] (kernel : Kernel)

/-- The closure of the loop. -/
def loadModule (state : State σ) (file : Module) : Except Fault (State σ) :=
  if h : state.modIdx < MAX_MODULES then
    let k : Fin MAX_MODULES := ⟨state.modIdx, h⟩
    match loadAt file.2 (kernel.moduleBuf k (state.moduleBufs k)) with
    | .error fault => .error fault
    | .ok (.ok loaded, after) =>
        let tables := makeExecutable kernel.cr3 loaded.load_base loaded.load_size state.tables
        let (_, sched, pages) :=
          state.sched.spawn kernel.image state.pages loaded.entry kernel.api file.1
        .ok { moduleBufs := Function.update state.moduleBufs k after.bytes
              modIdx := state.modIdx + 1
              sched, pages, tables }
    | .ok (.error _, after) =>
        .ok { state with moduleBufs := Function.update state.moduleBufs k after.bytes }
  else .ok state

/-- The loop over the modules. -/
def loadModules (state : State σ) (modules : List Module) : Except Fault (State σ) :=
  modules.foldlM kernel.loadModule state

/-- The name of the shell task. -/
def shellName : List UInt8 := [115, 104, 101, 108, 108]

/-- `_start` from the module loop to the store of `start`. The loop that follows only halts. -/
def startTasks (state : State σ) (initrd : Initrd) : Except Fault (State σ) :=
  match kernel.loadModules state initrd.modules with
  | .error fault => .error fault
  | .ok state =>
      let (_, sched, pages) :=
        state.sched.spawn kernel.image state.pages kernel.shellTaskEntry 0 shellName
      .ok { state with sched := sched.start, pages }

end Kernel

/-- The state after `sched::init`: no module is loaded, and the buffers are zero. -/
def State.init {σ : Type*} (image : Image) (pages : σ) (tables : Ring3.PhysMem) : State σ where
  moduleBufs := fun _ _ ↦ 0
  modIdx := 0
  sched := Scheduler.boot image
  pages
  tables

/-! ## The modules that are loaded -/

/-- The loader accepts the file for a buffer of the length of the module buffers. -/
def loads (file : Module) : Bool :=
  match loadAt file.2 ⟨⟨MODULE_BUF_LEN, fun _ ↦ 0, by decide⟩, 0, by decide⟩ with
  | .ok (.ok _, _) => true
  | _ => false

/-- The modules that are loaded: the first sixteen files that the loader accepts. -/
def loadable (files : List Module) : List Module := (files.filter loads).take MAX_MODULES

theorem loads_iff {file : Module} : loads file = true ↔ Accepted file.2 MODULE_BUF_LEN := by
  rw [loads]
  constructor
  · intro h
    split at h
    · rename_i hload
      exact (loadAt_eq_ok_iff.mp hload).1
    · cases h
  · intro h
    rw [loadAt_eq_ok_iff.mpr ⟨h, rfl, rfl⟩]

namespace Kernel

variable {σ : Type*} [PageSource σ] (kernel : Kernel)

/-- What the loader returns for the `k`-th module. -/
def loadedModule (k : Nat) (file : Module) : LoadedElf :=
  loadedElf file.2 (UInt64.ofNat (kernel.bufAddr k))

/-- The call of `spawn` for the `k`-th module. -/
def moduleStart (k : Nat) (file : Module) : Start where
  entry := (kernel.loadedModule k file).entry
  api := kernel.api
  name := file.1

/-- The call of `spawn` for the shell. -/
def shellStart : Start := ⟨kernel.shellTaskEntry, 0, shellName⟩

/-- The calls of `spawn` for the modules that are loaded and the shell. -/
def starts (found : List Module) : List Start :=
  found.mapIdx kernel.moduleStart ++ [kernel.shellStart]

theorem starts_module {found : List Module} {k : Nat} {file : Module}
    (h : found[k]? = some file) : (kernel.starts found)[k]? = some (kernel.moduleStart k file) := by
  have hlt := (List.getElem?_eq_some_iff.mp h).1
  rw [starts, List.getElem?_append_left (by rwa [List.length_mapIdx]), List.getElem?_mapIdx, h]
  rfl

theorem starts_shell (found : List Module) :
    (kernel.starts found)[found.length]? = some kernel.shellStart := by
  rw [starts, List.getElem?_append_right (by rw [List.length_mapIdx]), List.length_mapIdx,
    Nat.sub_self]
  rfl

/-- The page tables after the images became executable. -/
def executableTables (found : List Module) (tables : Ring3.PhysMem) : Ring3.PhysMem :=
  (found.mapIdx kernel.loadedModule).foldl
    (fun mem loaded ↦ makeExecutable kernel.cr3 loaded.load_base loaded.load_size mem) tables

/-- The state of the loop that started in `start` and has loaded some modules. -/
structure Loaded (start : State σ) (found : List Module) (state : State σ) : Prop where
  modIdx : state.modIdx = found.length
  le : found.length ≤ MAX_MODULES
  bufs : ∀ (k : Fin MAX_MODULES) file, found[k.val]? = some file →
    ∃ bytes, state.moduleBufs k = imageBytes file.2 bytes (segments file.2)
  tasks : (state.sched, state.pages) =
    spawnAll kernel.image (found.mapIdx kernel.moduleStart) (start.sched, start.pages)
  tables : state.tables = kernel.executableTables found start.tables

namespace Loaded

variable {kernel : Kernel} {start state : State σ} {found : List Module}

theorem init (h : start.modIdx = 0) : kernel.Loaded start [] start where
  modIdx := h
  le := Nat.zero_le _
  bufs k file hfile := by cases hfile
  tasks := rfl
  tables := rfl

/-- The contents of the next buffer do not matter. -/
theorem update (h : kernel.Loaded start found state) {k : Fin MAX_MODULES}
    (hk : k.val = found.length) (bytes : ByteMap) :
    kernel.Loaded start found
      { state with moduleBufs := Function.update state.moduleBufs k bytes } := by
  refine ⟨h.modIdx, h.le, fun other file hfile ↦ ?_, h.tasks, h.tables⟩
  have hbound := (List.getElem?_eq_some_iff.mp hfile).1
  show ∃ bytes', Function.update state.moduleBufs k bytes other = _
  rw [Function.update_of_ne (Fin.ne_of_val_ne (by omega))]
  exact h.bufs other file hfile

/-- The state after one more module. -/
theorem concat (h : kernel.Loaded start found state) {k : Fin MAX_MODULES}
    (hk : k.val = found.length) (file : Module) (bytes : ByteMap) :
    kernel.Loaded start (found ++ [file])
      { moduleBufs := Function.update state.moduleBufs k
          (imageBytes file.2 bytes (segments file.2))
        modIdx := state.modIdx + 1
        sched := (state.sched.spawn kernel.image state.pages
          (kernel.loadedModule k file).entry kernel.api file.1).2.1
        pages := (state.sched.spawn kernel.image state.pages
          (kernel.loadedModule k file).entry kernel.api file.1).2.2
        tables := makeExecutable kernel.cr3 (kernel.loadedModule k file).load_base
          (kernel.loadedModule k file).load_size state.tables } := by
  have hlt := k.isLt
  refine ⟨?_, ?_, fun other kept hkept ↦ ?_, ?_, ?_⟩
  · rw [List.length_append, h.modIdx]
    rfl
  · rw [List.length_append, List.length_singleton]
    omega
  · show ∃ bytes', Function.update state.moduleBufs k _ other = _
    by_cases hother : other = k
    · subst hother
      obtain rfl : file = kept := by simpa [hk] using hkept
      exact ⟨bytes, Function.update_self ..⟩
    · rw [Function.update_of_ne hother]
      have hbound := (List.getElem?_eq_some_iff.mp hkept).1
      have hval : other.val ≠ k.val := fun heq ↦ hother (Fin.ext heq)
      rw [List.length_append, List.length_singleton] at hbound
      rw [List.getElem?_append_left (by omega)] at hkept
      exact h.bufs other kept hkept
  · have htasks := h.tasks
    rw [spawnAll] at htasks ⊢
    rw [List.mapIdx_concat, List.foldl_append, ← htasks, ← hk]
    rfl
  · have htables := h.tables
    rw [executableTables] at htables ⊢
    rw [List.mapIdx_concat, List.foldl_append, ← htables, ← hk]
    rfl

/-- One file. -/
theorem loadModule (h : kernel.Loaded start found state) {file : Module} {next : State σ}
    (hstep : kernel.loadModule state file = .ok next) :
    kernel.Loaded start
      (found ++ ([file].filter loads).take (MAX_MODULES - found.length)) next := by
  rw [Kernel.loadModule] at hstep
  split at hstep
  · rename_i hlt
    have hk : state.modIdx = found.length := h.modIdx
    dsimp only at hstep
    split at hstep
    · cases hstep
    · rename_i loaded after hload
      obtain ⟨haccepted, rfl, rfl⟩ := loadAt_eq_ok_iff.mp hload
      obtain rfl := Except.ok.inj hstep
      rw [List.filter_singleton, loads_iff.mpr haccepted, cond_true, List.take_of_length_le (by
        rw [List.length_singleton]
        omega)]
      exact h.concat (k := ⟨state.modIdx, hlt⟩) hk file _
    · rename_i error after hload
      obtain rfl := Except.ok.inj hstep
      have hrefused : loads file = false := by
        refine Bool.eq_false_iff.mpr fun hloads ↦ ?_
        have haccepted : Accepted file.2 (kernel.moduleBuf ⟨state.modIdx, hlt⟩
          (state.moduleBufs ⟨state.modIdx, hlt⟩)).length := loads_iff.mp hloads
        rw [loadAt_eq_ok_iff.mpr ⟨haccepted, rfl, rfl⟩] at hload
        cases hload
      rw [List.filter_singleton, hrefused, cond_false, List.take_nil, List.append_nil]
      exact h.update (k := ⟨state.modIdx, hlt⟩) hk after.bytes
  · rename_i hfull
    obtain rfl := Except.ok.inj hstep
    have hk := h.modIdx
    rw [show MAX_MODULES - found.length = 0 by omega, List.take_zero, List.append_nil]
    exact h

/-- All files. -/
theorem loadModules (h : kernel.Loaded start found state) {files : List Module} {final : State σ}
    (hrun : kernel.loadModules state files = .ok final) :
    kernel.Loaded start (found ++ (files.filter loads).take (MAX_MODULES - found.length))
      final := by
  induction files generalizing found state with
  | nil =>
      obtain rfl := Except.ok.inj hrun
      rw [List.filter_nil, List.take_nil, List.append_nil]
      exact h
  | cons file rest ih =>
      rw [Kernel.loadModules, List.foldlM_cons] at hrun
      cases hstep : kernel.loadModule state file with
      | error fault =>
          rw [hstep] at hrun
          cases hrun
      | ok next =>
          rw [hstep] at hrun
          have hrest := ih (h.loadModule hstep) hrun
          have hsplit : ((file :: rest).filter loads).take (MAX_MODULES - found.length) =
              ([file].filter loads).take (MAX_MODULES - found.length) ++
                (rest.filter loads).take (MAX_MODULES - found.length -
                  ([file].filter loads).length) := by
            rw [← List.take_append, ← List.filter_append]
            rfl
          rw [hsplit]
          rw [List.append_assoc, List.length_append, List.length_take] at hrest
          convert hrest using 4
          omega

end Loaded

end Kernel

/-- The part of the buffer that is reported does not depend on what was there before. -/
theorem imageBytes_span {data : Slice} {k : Nat} (hk : k < imageSpan (segments data))
    (bytes bytes' : ByteMap) :
    imageBytes data bytes (segments data) k = imageBytes data bytes' (segments data) k := by
  rw [imageBytes, imageBytes]
  set transfers := (segments data).map (Elf64Phdr.placed (lowestVaddr (segments data)))
  by_cases hcovered : ∃ transfer ∈ transfers, transfer.target.Contains k
  · exact ByteMap.copies_congr hcovered
  · have hnone : ∀ transfer ∈ transfers, ¬ transfer.target.Contains k :=
      fun transfer htransfer hcontains ↦ hcovered ⟨transfer, htransfer, hcontains⟩
    have hspan : (⟨0, imageSpan (segments data)⟩ : Extent).Contains k :=
      ⟨Nat.zero_le k, (Nat.zero_add _).symm ▸ hk⟩
    rw [ByteMap.copies_of_not_covered hnone, ByteMap.copies_of_not_covered hnone,
      ByteMap.fill_of_contains hspan, ByteMap.fill_of_contains hspan]

/-- A file that is no executable, and one that is. -/
def sampleInitrd : Initrd where
  entries :=
    [⟨modulePrefix ++ [0x61] ++ moduleSuffix, [], false⟩,
      ⟨modulePrefix ++ [0x62] ++ moduleSuffix,
        encodeImage 0x1000 [⟨PT_LOAD, 120, 0x1000, 1, 8⟩] [0xAA], false⟩]
  length_lt := by decide +kernel

/-- The modules have buffers above `0x200000`. -/
def sampleKernel : Kernel where
  image := ⟨0x1000, 0x2000⟩
  moduleBufs := 0x200000
  api := 0x3000
  shellTaskEntry := 0x4000
  cr3 := 0x5000
  moduleBufs_le := by decide
  api_ne_zero := by decide

variable {σ : Type*} [PageSource σ]

/-- When the loop over the modules ends, the first sixteen files that the loader accepts are loaded,
in the order of the archive: the `k`-th of them is in the `k`-th buffer, as it would be if nothing
had been there before and nothing was loaded after it, its range is executable, and `spawn` was
called for its entry point there. -/
theorem modules_loaded {kernel : Kernel} {pages : σ} {tables : Ring3.PhysMem} {initrd : Initrd}
    {final : State σ}
    (h : kernel.loadModules (State.init kernel.image pages tables) initrd.modules = .ok final) :
    final.modIdx = (loadable initrd.modules).length ∧
      (∀ (k : Fin MAX_MODULES) file, (loadable initrd.modules)[k.val]? = some file →
        ∀ a < imageSpan (segments file.2),
          final.moduleBufs k a = imageBytes file.2 (fun _ ↦ 0) (segments file.2) a) ∧
      (final.sched, final.pages) = spawnAll kernel.image
        ((loadable initrd.modules).mapIdx kernel.moduleStart)
        (Scheduler.boot kernel.image, pages) ∧
      final.tables = kernel.executableTables (loadable initrd.modules) tables := by
  have hloaded : kernel.Loaded (State.init kernel.image pages tables)
      (loadable initrd.modules) final := (Kernel.Loaded.init rfl).loadModules h
  refine ⟨hloaded.modIdx, fun k file hfile a ha ↦ ?_, hloaded.tasks, hloaded.tables⟩
  obtain ⟨bytes, hbytes⟩ := hloaded.bufs k file hfile
  rw [hbytes]
  exact imageBytes_span ha bytes _

/-- The second file of `sampleInitrd` in the first buffer. -/
theorem modules_loaded_second :
    ∃ final, sampleKernel.loadModules
        (State.init sampleKernel.image (BuddyAllocator.init 0x100000 0x10000) fun _ ↦ 0)
        sampleInitrd.modules = .ok final ∧
      final.modIdx = 1 ∧ final.moduleBufs ⟨0, by decide⟩ 0 = 0xAA := by
  have hcompletes : (sampleKernel.loadModules
      (State.init sampleKernel.image (BuddyAllocator.init 0x100000 0x10000) fun _ ↦ 0)
      sampleInitrd.modules).toOption.isSome = true := by decide +kernel
  cases hrun : sampleKernel.loadModules
      (State.init sampleKernel.image (BuddyAllocator.init 0x100000 0x10000) fun _ ↦ 0)
      sampleInitrd.modules with
  | error fault =>
      rw [hrun] at hcompletes
      cases hcompletes
  | ok final =>
      obtain ⟨hmodIdx, hbufs, -, -⟩ := modules_loaded hrun
      have hfile : ((loadable sampleInitrd.modules)[0]?.map fun file ↦
          decide (0 < imageSpan (segments file.2)) &&
            decide (imageBytes file.2 (fun _ ↦ 0) (segments file.2) 0 = 0xAA)) = some true := by
        decide +kernel
      obtain ⟨file, hsome, htest⟩ := Option.map_eq_some_iff.mp hfile
      obtain ⟨hspan, hbyte⟩ := Bool.and_eq_true_iff.mp htest
      refine ⟨final, rfl, hmodIdx.trans (by decide +kernel), ?_⟩
      exact (hbufs ⟨0, by decide⟩ file hsome 0 (of_decide_eq_true hspan)).trans
        (of_decide_eq_true hbyte)

/-! ## The tasks that are started -/

/-- The shell was spawned in some slot. -/
def ShellStarted (kernel : Kernel) (s : Scheduler) : Prop :=
  ∃ t stackBase, s.tasks t =
    Scheduler.newTask kernel.image t stackBase kernel.shellTaskEntry 0 Kernel.shellName

/-- Among the tasks that were started at boot, the shell is the one without an API table. -/
theorem shellStarted_iff {kernel : Kernel} {s : Scheduler} {found : List Module}
    (h : Filled kernel.image s (kernel.starts found)) :
    ShellStarted kernel s ↔ found.length + 1 < MAX_TASKS := by
  constructor
  · rintro ⟨t, stackBase, htask⟩
    have ht : t ≠ 0 := fun hzero ↦ by
      have hidle := h.idle
      rw [← hzero, htask] at hidle
      cases hidle
    have hpos : t.val ≠ 0 := fun hzero ↦ ht (Fin.ext hzero)
    have hlt := t.isLt
    by_contra hfull
    have hbound : t.val - 1 < found.length := by omega
    have hstart := kernel.starts_module (List.getElem?_eq_getElem hbound)
    obtain ⟨stackBase', hmodule⟩ := h.started t _ ht hstart
    exact kernel.api_ne_zero (congrArg Task.rsi (hmodule.symm.trans htask))
  · intro hlt
    obtain ⟨stackBase, htask⟩ := h.started ⟨found.length + 1, hlt⟩ _
      (Fin.ne_of_val_ne (Nat.succ_ne_zero _)) (kernel.starts_shell found)
    exact ⟨_, stackBase, htask⟩

/-- The stacks that `spawn` asks for: one for each module, and the shell, that finds a slot. -/
def stackRequests (found : List Module) : Nat := min (MAX_TASKS - 1) (found.length + 1)

/-- The slots at `start`, after a loop that loaded some modules. -/
theorem Kernel.Loaded.filled {kernel : Kernel} {pages : σ} {tables : Ring3.PhysMem}
    {found : List Module} {state : State σ}
    (h : kernel.Loaded (State.init kernel.image pages tables) found state)
    (hanswers : Answers pages (stackRequests found)) :
    Filled kernel.image
      (state.sched.spawn kernel.image state.pages kernel.shellTaskEntry 0 shellName).2.1.start
      (kernel.starts found) := by
  have hspawns : (state.sched.spawn kernel.image state.pages kernel.shellTaskEntry 0 shellName).2 =
      spawnAll kernel.image (kernel.starts found)
        (Scheduler.boot kernel.image, pages) := by
    have htasks := h.tasks
    rw [spawnAll] at htasks ⊢
    rw [starts, List.foldl_append]
    exact congrArg (fun state : Scheduler × σ ↦
      (state.1.spawn kernel.image state.2 kernel.shellTaskEntry 0 shellName).2) htasks
  have hfilled := spawnAll_filled (Filled.boot kernel.image)
    (kernel.starts found) (show Answers pages _ by
      rwa [starts, List.length_append, List.length_mapIdx, List.length_nil, Nat.sub_zero,
        List.length_singleton, ← stackRequests])
  rw [← hspawns, List.nil_append] at hfilled
  exact ⟨hfilled.idle, hfilled.started, hfilled.empty⟩

/-- While the page source answers, the slots from 1 on hold the tasks of the modules that are
loaded, in order, and that of the shell; there is a slot for the shell exactly if at most fourteen
modules are loaded. -/
theorem tasks_started {kernel : Kernel} {pages : σ} {tables : Ring3.PhysMem} {initrd : Initrd}
    {final : State σ}
    (hanswers : Answers pages (stackRequests (loadable initrd.modules)))
    (h : kernel.startTasks (State.init kernel.image pages tables) initrd = .ok final) :
    final.sched.active = true ∧
      Filled kernel.image final.sched
        (kernel.starts (loadable initrd.modules)) ∧
      (ShellStarted kernel final.sched ↔ (loadable initrd.modules).length ≤ 14) := by
  rw [Kernel.startTasks] at h
  cases hrun : kernel.loadModules (State.init kernel.image pages tables) initrd.modules with
  | error fault =>
      rw [hrun] at h
      cases h
  | ok state =>
      rw [hrun] at h
      obtain rfl := Except.ok.inj h
      have hloaded : kernel.Loaded (State.init kernel.image pages tables)
          (loadable initrd.modules) state := (Kernel.Loaded.init rfl).loadModules hrun
      have hfilled := hloaded.filled hanswers
      have hmax : MAX_TASKS = 16 := rfl
      rw [show (loadable initrd.modules).length ≤ 14 ↔
        (loadable initrd.modules).length + 1 < MAX_TASKS by omega, ← shellStarted_iff hfilled]
      exact ⟨rfl, hfilled, Iff.rfl⟩

/-- One module and the shell. -/
theorem tasks_started_second :
    ∃ final, sampleKernel.startTasks
        (State.init sampleKernel.image (BuddyAllocator.init 0x100000 0x10000) fun _ ↦ 0)
        sampleInitrd = .ok final ∧ ShellStarted sampleKernel final.sched := by
  have hcount : (loadable sampleInitrd.modules).length = 1 := by decide +kernel
  have hanswers : Answers (BuddyAllocator.init 0x100000 0x10000)
      (stackRequests (loadable sampleInitrd.modules)) := by
    rw [stackRequests, hcount]
    decide +kernel
  have hcompletes : (sampleKernel.startTasks
      (State.init sampleKernel.image (BuddyAllocator.init 0x100000 0x10000) fun _ ↦ 0)
      sampleInitrd).toOption.isSome = true := by decide +kernel
  cases hrun : sampleKernel.startTasks
      (State.init sampleKernel.image (BuddyAllocator.init 0x100000 0x10000) fun _ ↦ 0)
      sampleInitrd with
  | error fault =>
      rw [hrun] at hcompletes
      cases hcompletes
  | ok final =>
      obtain ⟨-, -, hshell⟩ := tasks_started hanswers hrun
      refine ⟨final, rfl, hshell.mpr ?_⟩
      rw [hcount]
      decide

/-! ## From the archive to the tasks -/

/-- The member is a file `boot/modules/*.ko`. -/
def isModule (m : Member) : Bool :=
  m.content.isSome && (modulePrefix.isPrefixOf m.path && moduleSuffix.isSuffixOf m.path)

/-- A member as a file of the initrd. -/
def memberModule (m : Member) : Module :=
  (m.path, .ofList m.data (Nat.lt_trans m.data_length_lt (by decide)))

/-- The modules of an archive. -/
def archiveModules (archive : Archive) : List Module :=
  (archive.members.filter isModule).map memberModule

/-- The initrd that an archive is mounted as. -/
def archiveInitrd (archive : Archive) : Initrd where
  toTarFs := archive.files
  length_lt := by
    intro entry hentry
    obtain ⟨m, -, rfl⟩ := List.mem_map.mp hentry
    exact Nat.lt_trans m.data_length_lt (by decide)

theorem pmap_slice_congr {files files' : List (List UInt8 × List UInt8)} (h : files = files')
    (hlength : ∀ file ∈ files, file.2.length < 2 ^ 63)
    (hlength' : ∀ file ∈ files', file.2.length < 2 ^ 63) :
    files.pmap (fun file hfile ↦ ((file.1, .ofList file.2 hfile) : Module)) hlength =
      files'.pmap (fun file hfile ↦ ((file.1, .ofList file.2 hfile) : Module)) hlength' := by
  subst h
  rfl

/-- The loop goes over the modules of the archive, in order. -/
theorem modules_archiveInitrd (archive : Archive) :
    (archiveInitrd archive).modules = archiveModules archive := by
  have hfiles : (archiveInitrd archive).forEachMatching modulePrefix moduleSuffix =
      (archive.members.filter isModule).map fun m ↦ (m.path, m.data) := by
    show archive.files.forEachMatching modulePrefix moduleSuffix = _
    rw [Archive.forEachMatching_files, ← List.filterMap_eq_map, List.filterMap_filter]
    refine List.filterMap_congr fun m _ ↦ ?_
    have htrim : trimStartSlash modulePrefix = modulePrefix := by decide
    rw [isModule, htrim]
    cases hcontent : m.content with
    | none => rfl
    | some data =>
        simp only [Option.bind_some, Option.isSome_some, Bool.true_and, Bool.and_eq_true,
          List.isPrefixOf_iff_prefix, List.isSuffixOf_iff_suffix, Function.comp_apply,
          Member.data_of_content hcontent]
  rw [Initrd.modules, archiveModules,
    pmap_slice_congr hfiles _ fun file hfile ↦ by
      obtain ⟨m, -, rfl⟩ := List.mem_map.mp hfile
      exact Nat.lt_trans m.data_length_lt (by decide),
    List.pmap_map]
  refine List.ext_getElem (by rw [List.length_pmap, List.length_map]) fun i _ _ ↦ ?_
  rw [List.getElem_pmap, List.getElem_map]
  rfl

/-- A file that the loader accepts is loaded without a fault. -/
theorem Kernel.loadModule_ok (kernel : Kernel) (state : State σ) {file : Module}
    (h : Accepted file.2 MODULE_BUF_LEN) : ∃ next, kernel.loadModule state file = .ok next := by
  unfold loadModule
  split
  · rename_i hlt
    have haccepted : Accepted file.2 (kernel.moduleBuf ⟨state.modIdx, hlt⟩
      (state.moduleBufs ⟨state.modIdx, hlt⟩)).length := h
    dsimp only
    rw [loadAt_eq_ok_iff.mpr ⟨haccepted, rfl, rfl⟩]
    exact ⟨_, rfl⟩
  · exact ⟨state, rfl⟩

theorem Kernel.loadModules_ok (kernel : Kernel) (state : State σ) {modules : List Module}
    (h : ∀ file ∈ modules, Accepted file.2 MODULE_BUF_LEN) :
    ∃ final, kernel.loadModules state modules = .ok final := by
  induction modules generalizing state with
  | nil => exact ⟨state, rfl⟩
  | cons file rest ih =>
      obtain ⟨next, hnext⟩ := kernel.loadModule_ok state (h file List.mem_cons_self)
      obtain ⟨final, hfinal⟩ := ih next fun other hother ↦ h other (List.mem_cons_of_mem _ hother)
      refine ⟨final, ?_⟩
      rw [loadModules, List.foldlM_cons, hnext]
      exact hfinal

/-- From the bytes of an archive to the tasks: if the modules of the archive are at most fourteen,
images that the loader accepts, and the page source answers for them and the shell, then the archive
is mounted, and the boot comes to `start` with the `k`-th module in the `k`-th buffer, its task in
slot `k + 1`, and the shell in the slot after them. -/
theorem archive_booted {kernel : Kernel} {pages : σ} {tables : Ring3.PhysMem} {archive : Archive}
    (haccepted : ∀ file ∈ archiveModules archive, Accepted file.2 MODULE_BUF_LEN)
    (hcount : (archiveModules archive).length ≤ 14)
    (hanswers : Answers pages ((archiveModules archive).length + 1)) :
    ∃ initrd final, TarFs.parse archive.encode = some (some initrd.toTarFs) ∧
      kernel.startTasks (State.init kernel.image pages tables) initrd = .ok final ∧
      (∀ (k : Nat) file (hk : k + 1 < MAX_TASKS), (archiveModules archive)[k]? = some file →
        (∀ a < imageSpan (segments file.2), final.moduleBufs ⟨k, Nat.lt_of_succ_lt hk⟩ a =
          imageBytes file.2 (fun _ ↦ 0) (segments file.2) a) ∧
        ∃ stackBase, final.sched.tasks ⟨k + 1, hk⟩ =
          Scheduler.newTask kernel.image ⟨k + 1, hk⟩ stackBase
            (loadedElf file.2 (UInt64.ofNat (kernel.bufAddr k))).entry kernel.api file.1) ∧
      ∃ hk stackBase, final.sched.tasks ⟨(archiveModules archive).length + 1, hk⟩ =
        Scheduler.newTask kernel.image ⟨(archiveModules archive).length + 1, hk⟩ stackBase
          kernel.shellTaskEntry 0 Kernel.shellName := by
  have hloads : (archiveModules archive).filter loads = archiveModules archive :=
    List.filter_eq_self.mpr fun file hfile ↦ loads_iff.mpr (haccepted file hfile)
  have hloadable : loadable (archiveInitrd archive).modules = archiveModules archive := by
    rw [modules_archiveInitrd, loadable, hloads,
      List.take_of_length_le (Nat.le_trans hcount (by decide))]
  have hmax : MAX_TASKS = 16 := rfl
  obtain ⟨state, hrun⟩ := kernel.loadModules_ok (State.init kernel.image pages tables)
    (show ∀ file ∈ (archiveInitrd archive).modules, Accepted file.2 MODULE_BUF_LEN by
      rwa [modules_archiveInitrd])
  have hloaded : kernel.Loaded (State.init kernel.image pages tables)
      (loadable (archiveInitrd archive).modules) state := (Kernel.Loaded.init rfl).loadModules hrun
  rw [hloadable] at hloaded
  have hfilled := hloaded.filled (by
    rwa [stackRequests, Nat.min_eq_right (show _ ≤ 16 - 1 by omega)])
  obtain ⟨final, hfinal, hsched, hbufs⟩ : ∃ final,
      kernel.startTasks (State.init kernel.image pages tables) (archiveInitrd archive) = .ok final ∧
      final.sched = (state.sched.spawn kernel.image state.pages kernel.shellTaskEntry 0
        Kernel.shellName).2.1.start ∧
      final.moduleBufs = state.moduleBufs := by
    rw [Kernel.startTasks, hrun]
    exact ⟨_, rfl, rfl, rfl⟩
  rw [← hsched] at hfilled
  refine ⟨archiveInitrd archive, final, parse_encode archive, hfinal,
    fun k file hk hfile ↦ ⟨fun a ha ↦ ?_, ?_⟩, ?_⟩
  · obtain ⟨bytes, hbytes⟩ := hloaded.bufs ⟨k, Nat.lt_of_succ_lt hk⟩ file hfile
    rw [hbufs, hbytes]
    exact imageBytes_span ha bytes _
  · exact hfilled.started ⟨k + 1, hk⟩ _ (Fin.ne_of_val_ne (Nat.succ_ne_zero k))
      (kernel.starts_module hfile)
  · have hlt : (archiveModules archive).length + 1 < MAX_TASKS := by omega
    exact ⟨hlt, hfilled.started ⟨_, hlt⟩ _ (Fin.ne_of_val_ne (Nat.succ_ne_zero _))
      (kernel.starts_shell _)⟩

/-- The file "boot/modules/b.ko" with an image of one segment. -/
def sampleModule : Member where
  name := modulePrefix ++ [0x62] ++ moduleSuffix
  content := some (encodeImage 0x1000 [⟨PT_LOAD, 120, 0x1000, 1, 8⟩] [0xAA])
  typeflag := 0x30
  rest := blankRest
  utf8 := by decide +kernel
  nul_free := by decide
  length_le := by decide
  stripped_ne_nil := by decide
  stripped_head := by decide
  typeflag_iff := by decide +kernel
  file_name := by decide +kernel
  file_size := by
    intro data hdata
    cases hdata
    decide +kernel

/-- An archive with a module and another file. -/
def moduleArchive : Archive where
  root := none
  members := [sampleFile, sampleModule]
  trailer := 1024
  length_le := by decide
  distinct := by decide +kernel

/-- The entry point of the module is that of its image in the first buffer. -/
theorem archive_booted_module :
    ∃ initrd final, TarFs.parse moduleArchive.encode = some (some initrd.toTarFs) ∧
      sampleKernel.startTasks
        (State.init sampleKernel.image (BuddyAllocator.init 0x100000 0x10000) fun _ ↦ 0) initrd =
          .ok final ∧
      (final.sched.tasks 1).rdi = 0x200000 ∧ (final.sched.tasks 2).rdi = 0x4000 := by
  have hmodules : archiveModules moduleArchive = [memberModule sampleModule] := by
    have hfilter : moduleArchive.members.filter isModule = [sampleModule] := by
      have hfile : isModule sampleFile = false := by decide +kernel
      have hmodule : isModule sampleModule = true := by decide +kernel
      show [sampleFile, sampleModule].filter isModule = _
      simp [hfile, hmodule]
    rw [archiveModules, hfilter]
    rfl
  have hloads : loads (memberModule sampleModule) = true := by decide +kernel
  obtain ⟨initrd, final, hparse, hfinal, htasks, hlt, stackBase, hshell⟩ :=
    @archive_booted _ _ sampleKernel (BuddyAllocator.init 0x100000 0x10000) (fun _ ↦ 0)
      moduleArchive
      (by
        rw [hmodules]
        exact List.forall_mem_singleton.mpr (loads_iff.mp hloads))
      (by
        rw [hmodules]
        decide)
      (by
        rw [hmodules]
        decide +kernel)
  obtain ⟨-, stackBase', htask⟩ :=
    htasks 0 (memberModule sampleModule) (by decide) (by rw [hmodules]; rfl)
  refine ⟨initrd, final, hparse, hfinal, ?_, ?_⟩
  · have hentry : (loadedElf (memberModule sampleModule).2
        (UInt64.ofNat (sampleKernel.bufAddr 0))).entry = 0x200000 := by decide +kernel
    exact (congrArg Task.rdi htask).trans hentry
  · have hslot : (⟨(archiveModules moduleArchive).length + 1, hlt⟩ : TaskId) = 2 := by
      refine Fin.ext ?_
      show (archiveModules moduleArchive).length + 1 = 2
      rw [hmodules]
      rfl
    rw [hslot] at hshell
    exact congrArg Task.rdi hshell

end Avaria.Boot
