import Avaria.Sched.System
import Mathlib.Data.UInt

/-!
# Segments

The descriptor table of `gdt.rs` and what the processor makes of it. A descriptor has the bits of
its base and its limit in three and two places; that of the task state segment takes two entries,
which `install_tss` fills.

`descriptor_new` and `systemDescriptor_tss` are the round trips. `selectors_loadable` says that the
table supports every selector that the kernel loads, wherever the task state segment lies, and
`selectors_accepted` that the processor never holds others.
-/

namespace Avaria.Arch

open Transition Mm Sched Kxvm

/-! ## The table -/

/-- `struct GdtEntry`. -/
structure GdtEntry where
  limit_low : UInt16
  base_low : UInt16
  base_mid : UInt8
  access : UInt8
  granularity : UInt8
  base_high : UInt8
  deriving DecidableEq

/-- `GdtEntry::new`. -/
def GdtEntry.new (base limit : UInt32) (access flags : UInt8) : GdtEntry where
  limit_low := (limit &&& 0xFFFF).toUInt16
  base_low := (base &&& 0xFFFF).toUInt16
  base_mid := ((base >>> 16) &&& 0xFF).toUInt8
  access := access
  granularity := ((limit >>> 16) &&& 0x0F).toUInt8 ||| (flags <<< 4)
  base_high := ((base >>> 24) &&& 0xFF).toUInt8

/-- `GdtEntry::null`. -/
def GdtEntry.null : GdtEntry := .new 0 0 0 0

/-- `TSS_SEL`. -/
def TSS_SEL : UInt16 := 0x28

/-- `GDT`: the entries that the image has. -/
def gdt : List GdtEntry :=
  [.null, .new 0 0xFFFFF 0x9A 0xA, .new 0 0xFFFFF 0x92 0xC, .new 0 0xFFFFF 0xF2 0xC,
    .new 0 0xFFFFF 0xFA 0xA, .null, .null]

/-- The limit that `gdt::init` loads: `struct Gdt` has 64 bytes, since it is aligned to 16. -/
def gdtLimit : Nat := 63

/-- `entry_low` of `install_tss`. -/
def tssEntryLow (limitVal baseLo : UInt32) : GdtEntry where
  limit_low := (limitVal &&& 0xFFFF).toUInt16
  base_low := (baseLo &&& 0xFFFF).toUInt16
  base_mid := ((baseLo >>> 16) &&& 0xFF).toUInt8
  access := 0x89
  granularity := ((limitVal >>> 16) &&& 0x0F).toUInt8
  base_high := ((baseLo >>> 24) &&& 0xFF).toUInt8

/-- `entry_high` of `install_tss`. -/
def tssEntryHigh (baseHi : UInt32) : GdtEntry where
  limit_low := (baseHi &&& 0xFFFF).toUInt16
  base_low := ((baseHi >>> 16) &&& 0xFFFF).toUInt16
  base_mid := 0
  access := 0
  granularity := 0
  base_high := 0

/-- `install_tss`. -/
def installTss (base : UInt64) (limit : UInt16) (entries : List GdtEntry) : List GdtEntry :=
  (entries.set 5 (tssEntryLow limit.toUInt32 base.toUInt32)).set 6
    (tssEntryHigh (base >>> 32).toUInt32)

/-! ## The processor -/

/-- A descriptor as the processor reads it. -/
structure Descriptor where
  base : Nat
  limit : Nat
  access : UInt8
  flags : Nat
  deriving DecidableEq

/-- The descriptor in an entry of eight bytes. -/
def descriptor (entry : GdtEntry) : Descriptor where
  base := entry.base_low.toNat + entry.base_mid.toNat * 2 ^ 16 + entry.base_high.toNat * 2 ^ 24
  limit := entry.limit_low.toNat + entry.granularity.toNat % 16 * 2 ^ 16
  access := entry.access
  flags := entry.granularity.toNat / 16

/-- The descriptor in two entries: the second one has the upper half of the base. -/
def systemDescriptor (entry next : GdtEntry) : Descriptor :=
  { descriptor entry with
    base := (descriptor entry).base +
      (next.limit_low.toNat + next.base_low.toNat * 2 ^ 16) * 2 ^ 32 }

namespace Descriptor

/-- The present bit. -/
def Present (d : Descriptor) : Prop := d.access.toNat / 2 ^ 7 = 1

/-- The privilege level. -/
def dpl (d : Descriptor) : Nat := d.access.toNat / 2 ^ 5 % 4

/-- A code segment that is not conforming, for 64-bit code. -/
def Code64 (d : Descriptor) : Prop := d.access.toNat / 2 ^ 2 % 8 = 6 ∧ d.flags % 8 / 2 = 1

/-- A data segment that is writable. -/
def WritableData (d : Descriptor) : Prop :=
  d.access.toNat / 2 ^ 3 % 4 = 2 ∧ d.access.toNat / 2 % 2 = 1

/-- An available task state segment. -/
def AvailableTss (d : Descriptor) : Prop := d.access.toNat % 2 ^ 5 = 9

instance (d : Descriptor) : Decidable d.Present := inferInstanceAs (Decidable (_ = _))

instance (d : Descriptor) : Decidable d.Code64 := inferInstanceAs (Decidable (_ ∧ _))

instance (d : Descriptor) : Decidable d.WritableData := inferInstanceAs (Decidable (_ ∧ _))

instance (d : Descriptor) : Decidable d.AvailableTss := inferInstanceAs (Decidable (_ = _))

end Descriptor

/-- The entry of a selector: it is in this table, not the local one, and within the limit. -/
def entryOf (entries : List GdtEntry) (selector : UInt16) : Option GdtEntry :=
  if selector.toNat / 4 % 2 = 0 ∧ selector.toNat / 8 * 8 + 7 ≤ gdtLimit then
    entries[selector.toNat / 8]?
  else none

/-- The processor accepts the selectors for code and stack at a privilege level, as a far return or
an `iretq` loads them. -/
def Accepts (entries : List GdtEntry) (level : Nat) (cs ss : UInt16) : Prop :=
  (∃ entry, entryOf entries cs = some entry ∧ (descriptor entry).Present ∧
    (descriptor entry).Code64 ∧ (descriptor entry).dpl = level ∧ cs.toNat % 4 = level) ∧
  ∃ entry, entryOf entries ss = some entry ∧ (descriptor entry).Present ∧
    (descriptor entry).WritableData ∧ (descriptor entry).dpl = level ∧ ss.toNat % 4 = level

/-- `ltr` accepts the selector of a task state segment with a base and a limit. -/
def AcceptsTss (entries : List GdtEntry) (selector : UInt16) (base limit : Nat) : Prop :=
  ∃ entry next, entryOf entries selector = some entry ∧
    entryOf entries (selector + 8) = some next ∧
    (systemDescriptor entry next).Present ∧ (systemDescriptor entry next).AvailableTss ∧
    (systemDescriptor entry next).base = base ∧ (systemDescriptor entry next).limit = limit

/-! ## Round trips -/

section Fields

theorem toNat_low16 (x : UInt32) : (x &&& 0xFFFF).toUInt16.toNat = x.toNat % 2 ^ 16 := by
  have hmask : (0xFFFF : UInt32).toNat = 2 ^ 16 - 1 := rfl
  rw [UInt32.toNat_toUInt16, UInt32.toNat_and, hmask, Nat.and_two_pow_sub_one_eq_mod, Nat.mod_mod]

theorem toNat_byte {n : Nat} (hn : n < 32) (x : UInt32) :
    ((x >>> UInt32.ofNat n) &&& 0xFF).toUInt8.toNat = x.toNat / 2 ^ n % 2 ^ 8 := by
  have hmask : (0xFF : UInt32).toNat = 2 ^ 8 - 1 := rfl
  have hshift : (UInt32.ofNat n).toNat % 32 = n := by
    rw [UInt32.toNat_ofNat', Nat.mod_eq_of_lt (show n < 2 ^ 32 by omega), Nat.mod_eq_of_lt hn]
  rw [UInt32.toNat_toUInt8, UInt32.toNat_and, hmask, Nat.and_two_pow_sub_one_eq_mod, Nat.mod_mod,
    UInt32.toNat_shiftRight, hshift, Nat.shiftRight_eq_div_pow]

theorem toNat_high16 (x : UInt32) :
    ((x >>> 16) &&& 0xFFFF).toUInt16.toNat = x.toNat / 2 ^ 16 := by
  have hlt := x.toNat_lt
  rw [toNat_low16, UInt32.toNat_shiftRight]
  show x.toNat >>> 16 % 2 ^ 16 = _
  rw [Nat.shiftRight_eq_div_pow]
  omega

theorem toNat_nibble (x : UInt32) :
    ((x >>> 16) &&& 0x0F).toUInt8.toNat = x.toNat / 2 ^ 16 % 16 := by
  have hmask : (0x0F : UInt32).toNat = 2 ^ 4 - 1 := rfl
  rw [UInt32.toNat_toUInt8, UInt32.toNat_and, hmask, Nat.and_two_pow_sub_one_eq_mod,
    UInt32.toNat_shiftRight]
  show x.toNat >>> 16 % 2 ^ 4 % 2 ^ 8 = _
  rw [Nat.shiftRight_eq_div_pow]
  omega

/-- The upper bits of a limit and the flags share a byte. -/
theorem toNat_granularity (limit : UInt32) {flags : UInt8} (hflags : flags.toNat < 16) :
    (((limit >>> 16) &&& 0x0F).toUInt8 ||| (flags <<< 4)).toNat =
      limit.toNat / 2 ^ 16 % 16 + flags.toNat * 16 := by
  have hhigh : (flags <<< 4).toNat = 2 ^ 4 * flags.toNat := by
    rw [UInt8.toNat_shiftLeft]
    show flags.toNat <<< 4 % 2 ^ 8 = _
    rw [Nat.shiftLeft_eq]
    omega
  rw [UInt8.toNat_or, toNat_nibble, hhigh, Nat.or_comm,
    ← Nat.two_pow_add_eq_or_of_lt (i := 4) (Nat.mod_lt _ (by decide))]
  omega

/-- The base of a descriptor lies in three places. -/
theorem base_parts (x : UInt32) :
    (x &&& 0xFFFF).toUInt16.toNat + ((x >>> 16) &&& 0xFF).toUInt8.toNat * 2 ^ 16 +
      ((x >>> 24) &&& 0xFF).toUInt8.toNat * 2 ^ 24 = x.toNat := by
  have hlt := x.toNat_lt
  have hmid : ((x >>> 16) &&& 0xFF).toUInt8.toNat = x.toNat / 2 ^ 16 % 2 ^ 8 :=
    toNat_byte (n := 16) (by decide) x
  have hhigh : ((x >>> 24) &&& 0xFF).toUInt8.toNat = x.toNat / 2 ^ 24 % 2 ^ 8 :=
    toNat_byte (n := 24) (by decide) x
  rw [toNat_low16, hmid, hhigh]
  omega

end Fields

/-- The processor reads what `GdtEntry::new` was given. -/
theorem descriptor_new (base limit : UInt32) (access flags : UInt8)
    (hlimit : limit.toNat < 2 ^ 20) (hflags : flags.toNat < 16) :
    descriptor (.new base limit access flags) =
      ⟨base.toNat, limit.toNat, access, flags.toNat⟩ := by
  have hgran := toNat_granularity limit hflags
  rw [descriptor, GdtEntry.new, Descriptor.mk.injEq]
  dsimp only
  refine ⟨base_parts base, ?_, rfl, ?_⟩
  · rw [toNat_low16, hgran]
    omega
  · rw [hgran]
    omega

/-- The processor reads what `install_tss` was given. -/
theorem systemDescriptor_tss (base : UInt64) (limit : UInt16) :
    systemDescriptor (tssEntryLow limit.toUInt32 base.toUInt32)
      (tssEntryHigh (base >>> 32).toUInt32) = ⟨base.toNat, limit.toNat, 0x89, 0⟩ := by
  have hbase := base.toNat_lt
  have hlimit : limit.toUInt32.toNat < 2 ^ 16 := limit.toNat_lt
  have hhigh : (base >>> 32).toUInt32.toNat = base.toNat / 2 ^ 32 := by
    rw [UInt64.toNat_toUInt32, UInt64.toNat_shiftRight]
    show base.toNat >>> 32 % 2 ^ 32 = _
    rw [Nat.shiftRight_eq_div_pow]
    omega
  have hlow : base.toUInt32.toNat = base.toNat % 2 ^ 32 := base.toNat_toUInt32
  rw [systemDescriptor, Descriptor.mk.injEq]
  dsimp only [descriptor, tssEntryLow, tssEntryHigh]
  refine ⟨?_, ?_, rfl, ?_⟩
  · rw [base_parts, toNat_low16, toNat_high16, hhigh, hlow]
    omega
  · rw [toNat_low16, toNat_nibble]
    show limit.toUInt32.toNat % 2 ^ 16 + limit.toUInt32.toNat / 2 ^ 16 % 16 % 16 * 2 ^ 16 =
      limit.toUInt32.toNat
    omega
  · rw [toNat_nibble]
    omega

/-- The table supports every selector that the kernel loads, in either privilege level, and the
task register takes the segment that `install_tss` was given, wherever it lies. -/
theorem selectors_loadable (base : UInt64) (limit : UInt16) :
    Accepts (installTss base limit gdt) 0 KERNEL_CS KERNEL_DS ∧
      Accepts (installTss base limit gdt) 3 USER_CS USER_DS ∧
      AcceptsTss (installTss base limit gdt) TSS_SEL base.toNat limit.toNat := by
  have hkernelCode := descriptor_new 0 0xFFFFF 0x9A 0xA (by decide) (by decide)
  have hkernelData := descriptor_new 0 0xFFFFF 0x92 0xC (by decide) (by decide)
  have huserData := descriptor_new 0 0xFFFFF 0xF2 0xC (by decide) (by decide)
  have huserCode := descriptor_new 0 0xFFFFF 0xFA 0xA (by decide) (by decide)
  have htss := systemDescriptor_tss base limit
  refine ⟨⟨⟨_, rfl, ?_⟩, _, rfl, ?_⟩, ⟨⟨_, rfl, ?_⟩, _, rfl, ?_⟩, _, _, rfl, rfl, ?_⟩
  · rw [hkernelCode]; decide
  · rw [hkernelData]; decide
  · rw [huserCode]; decide
  · rw [huserData]; decide
  · rw [htss]
    have haccess : (⟨0, 0, 0x89, 0⟩ : Descriptor).Present ∧
        (⟨0, 0, 0x89, 0⟩ : Descriptor).AvailableTss := by decide
    exact ⟨haccess.1, haccess.2, rfl, rfl⟩

/-! ## Runs -/

variable {σ : Type*} [PageSource σ] {image : Image} {calls : SyscallImage}

/-- A step leaves the selectors of the kernel or those of a user program. -/
theorem selectors_step {sys next : System σ} {action : SystemAction σ}
    (hwell : WellScheduled sys.kernel.sched)
    (h : sys.selectors = kernelSelectors ∨ sys.selectors = userSelectors)
    (hstep : System.step image calls sys action = some next) :
    next.selectors = kernelSelectors ∨ next.selectors = userSelectors := by
  cases System.step_cases hstep with
  | call => exact h
  | @tick ctx hctx =>
      cases hsuppressed : sys.kernel.sched.suppressed with
      | true =>
          have hsame : (sys.timerTick ctx).selectors = sys.selectors := by
            rw [System.timerTick, Scheduler.timerTick_suppressed hsuppressed, hctx]
          rwa [hsame]
      | false => exact Or.inl (System.selectorsOf_timerTick hwell ctx hsuppressed)
  | memory => exact h
  | enterRing3 => exact Or.inr rfl
  | sysExit => exact Or.inl rfl
  | syscall => exact h

/-- In every run of tasks and user programs, with the task state segment at any address: the
processor accepts the selectors that it continues with, in ring 3 only for a user program, and the
selector of the task state segment. -/
theorem selectors_accepted {pages : σ} {sys : System σ}
    (h : Reachable (System.step image calls) (System.boot image pages) sys) (base : UInt64)
    (limit : UInt16) :
    (∃ level, Accepts (installTss base limit gdt) level sys.selectors.cs.toUInt16
        sys.selectors.ss.toUInt16 ∧ (level = 0 ∨ level = 3 ∧ sys.currentCode = .user)) ∧
      AcceptsTss (installTss base limit gdt) TSS_SEL base.toNat limit.toNat := by
  obtain ⟨hkernel, huser, htss⟩ := selectors_loadable base limit
  refine ⟨?_, htss⟩
  have hcoherent := System.coherent h
  have hselectors : sys.selectors = kernelSelectors ∨ sys.selectors = userSelectors := by
    refine (h.invariant (P := fun cur ↦ System.Coherent cur ∧ (cur.selectors = kernelSelectors ∨
      cur.selectors = userSelectors)) ⟨System.coherent_boot image pages, Or.inl rfl⟩ ?_).2
    intro cur action next hcur hstep
    exact ⟨System.coherent_step hcur.1 hstep, selectors_step hcur.1.wellScheduled hcur.2 hstep⟩
  rcases hselectors with heq | heq
  · rw [heq]
    exact ⟨0, hkernel, Or.inl rfl⟩
  · have hcode : sys.currentCode = .user := by
      by_contra hne
      have hclash := (hcoherent.selectors_of_code hne).symm.trans heq
      exact absurd hclash (by decide)
    rw [heq]
    exact ⟨3, huser, Or.inr ⟨rfl, hcode⟩⟩

/-- The code after boot enters ring 3. -/
theorem selectors_accepted_user :
    ∃ sys : System BuddyAllocator,
      run (System.step ⟨0x1000, 0x2000⟩ ⟨0x3000, 0x4000⟩)
        (System.boot ⟨0x1000, 0x2000⟩ (BuddyAllocator.init 0x100000 0x10000))
        [.enterRing3 0x400000 0x500000] = some sys ∧
      sys.selectors = userSelectors ∧
      ∃ level, Accepts (installTss 0x8000 103 gdt) level sys.selectors.cs.toUInt16
        sys.selectors.ss.toUInt16 := by
  have hfields : (run (System.step ⟨0x1000, 0x2000⟩ ⟨0x3000, 0x4000⟩)
      (System.boot ⟨0x1000, 0x2000⟩ (BuddyAllocator.init 0x100000 0x10000))
      [.enterRing3 0x400000 0x500000]).map System.selectors = some userSelectors := by
    decide +kernel
  obtain ⟨sys, hrun, hselectors⟩ := Option.map_eq_some_iff.mp hfields
  obtain ⟨level, haccepts, -⟩ := (selectors_accepted ⟨_, hrun⟩ 0x8000 103).1
  exact ⟨sys, hrun, hselectors, level, haccepts⟩

end Avaria.Arch
