import Avaria.Kxvm.SerialWrite
import Avaria.Lib.LastWrite

/-!
# The interrupt descriptor table

`idt.rs`: the gates that `init` installs, the tables of handlers, and `interrupt_dispatch`, which
prefers a handler for the interrupt context over a plain one and reports exceptions that have
neither. `IdtEntry.gate` is what the processor reads from an entry.

`gates_and_handlers` says what the tables hold after `init` and any calls of `register_handler`,
`register_ctx_handler` and `set_gate_dpl`, in any order and with any arguments.
-/

namespace Avaria.Arch

open Sched Kxvm

/-- `IDT_ENTRIES`. -/
abbrev IDT_ENTRIES : Nat := 256

/-- An interrupt vector. -/
abbrev Vector := Fin IDT_ENTRIES

/-- `struct IdtEntry`. -/
structure IdtEntry where
  offsetLow : UInt16
  selector : UInt16
  ist : UInt8
  typeAttr : UInt8
  offsetMid : UInt16
  offsetHigh : UInt32
  reserved : UInt32

/-- What the processor reads from a present gate. -/
structure Gate where
  offset : UInt64
  selector : UInt16
  ist : UInt8
  dpl : UInt8
  kind : UInt8
  deriving DecidableEq

namespace IdtEntry

/-- `IdtEntry::empty`. -/
def empty : IdtEntry := ⟨0, 0, 0, 0, 0, 0, 0⟩

/-- `IdtEntry::set_handler`. -/
def setHandler (_ : IdtEntry) (handler : UInt64) : IdtEntry where
  offsetLow := handler.toUInt16
  offsetMid := (handler >>> 16).toUInt16
  offsetHigh := (handler >>> 32).toUInt32
  selector := 0x08
  typeAttr := 0x8E
  ist := 0
  reserved := 0

/-- `IdtEntry::set_dpl`. -/
def setDpl (entry : IdtEntry) (dpl : UInt8) : IdtEntry :=
  let base := entry.typeAttr &&& 0x9F
  { entry with typeAttr := base ||| ((dpl &&& 3) <<< 5) }

/-- The gate of an entry, if its present bit is set. -/
def gate (entry : IdtEntry) : Option Gate :=
  if entry.typeAttr &&& 0x80 = 0 then none
  else some {
    offset := entry.offsetLow.toUInt64 ||| entry.offsetMid.toUInt64 <<< 16 |||
      entry.offsetHigh.toUInt64 <<< 32
    selector := entry.selector
    ist := entry.ist &&& 7
    dpl := (entry.typeAttr >>> 5) &&& 3
    kind := entry.typeAttr &&& 0xF }

/-- The three parts of an address make up the address. -/
theorem offset_parts (handler : UInt64) :
    handler.toUInt16.toUInt64 ||| (handler >>> 16).toUInt16.toUInt64 <<< 16 |||
      (handler >>> 32).toUInt32.toUInt64 <<< 32 = handler := by
  apply UInt64.toBitVec_inj.mp
  apply BitVec.eq_of_getLsbD_eq
  intro i hi
  simp only [UInt64.toBitVec_or, UInt64.toBitVec_shiftLeft, UInt64.toBitVec_shiftRight,
    UInt64.toBitVec_toUInt16, UInt64.toBitVec_toUInt32, UInt16.toBitVec_toUInt64,
    UInt32.toBitVec_toUInt64, UInt64.toBitVec_ofNat, BitVec.getLsbD_or, BitVec.getLsbD_setWidth,
    BitVec.reduceMod, BitVec.shiftLeft_eq', BitVec.ushiftRight_eq', BitVec.reduceToNat,
    BitVec.getLsbD_shiftLeft, BitVec.getLsbD_ushiftRight]
  grind

/-- `set_dpl` replaces the two bits of the privilege level. -/
theorem setDpl_typeAttr (attr dpl : UInt8) :
    let changed := attr &&& (0x9F : UInt8) ||| (dpl &&& (3 : UInt8)) <<< (5 : UInt8)
    changed &&& 0x80 = attr &&& 0x80 ∧ changed &&& 0xF = attr &&& 0xF ∧
      (changed >>> 5) &&& 3 = dpl &&& 3 := by
  have hcases : ∀ attr < 256, ∀ level < 4,
      let changed := UInt8.ofNat attr &&& (0x9F : UInt8) ||| UInt8.ofNat level <<< (5 : UInt8)
      changed &&& 0x80 = UInt8.ofNat attr &&& 0x80 ∧ changed &&& 0xF = UInt8.ofNat attr &&& 0xF ∧
        (changed >>> 5) &&& 3 = UInt8.ofNat level := by
    decide +kernel
  have hlevel : (dpl &&& 3).toNat < 4 := by
    rw [UInt8.toNat_and]
    exact Nat.lt_succ_of_le Nat.and_le_right
  have h := hcases attr.toNat attr.toNat_lt (dpl &&& 3).toNat hlevel
  rwa [UInt8.ofNat_toNat, UInt8.ofNat_toNat] at h

theorem gate_empty : empty.gate = none := rfl

/-- The gate of a handler leads to it, in ring 0, with interrupts off, and from ring 0 only. -/
theorem gate_setHandler (entry : IdtEntry) (handler : UInt64) :
    (entry.setHandler handler).gate = some ⟨handler, 0x08, 0, 0, 0xE⟩ := by
  have hparts := offset_parts handler
  simp only [gate, setHandler, hparts]
  rfl

/-- `set_dpl` changes the privilege level of a present gate and does not make a gate present. -/
theorem gate_setDpl (entry : IdtEntry) (dpl : UInt8) :
    (entry.setDpl dpl).gate = entry.gate.map fun gate ↦ { gate with dpl := dpl &&& 3 } := by
  obtain ⟨hpresent, hkind, hdpl⟩ := setDpl_typeAttr entry.typeAttr dpl
  simp only [gate, setDpl, hpresent, hkind, hdpl]
  split <;> rfl

end IdtEntry

/-! ## The tables -/

/-- A handler with access to the vector and the error code, acting on the state of the kernel. -/
abbrev Handler (K : Type*) := UInt64 → UInt64 → K → K

/-- A handler with access to the interrupt context, acting on the state of the kernel. -/
abbrev CtxHandler (K : Type*) := IsrContext → K → IsrContext × K

/-- `IDT`, `ISR_HANDLERS` and `ISR_CTX_HANDLERS`. -/
structure Vectors (K : Type*) where
  entries : Vector → IdtEntry
  isrHandlers : Vector → Option (Handler K)
  isrCtxHandlers : Vector → Option (CtxHandler K)

/-- The vectors with a stub: `isr0` to `isr47` and `isr128`. -/
def stubVectors : List Nat := List.range 48 ++ [0x80]

namespace Vectors

variable {K : Type*}

/-- The tables as they are statically initialised. -/
def empty : Vectors K := ⟨fun _ ↦ .empty, fun _ ↦ none, fun _ ↦ none⟩

/-- `init`, for the addresses of the stubs. -/
def init (stubs : Nat → UInt64) (tables : Vectors K) : Vectors K :=
  { tables with
    entries := fun v ↦
      if v.val ∈ stubVectors then (tables.entries v).setHandler (stubs v) else tables.entries v }

/-- `register_handler`. -/
def registerHandler (tables : Vectors K) (vector : Nat) (handler : Handler K) : Vectors K :=
  if h : vector < IDT_ENTRIES then
    { tables with
      isrHandlers := Function.update tables.isrHandlers ⟨vector, h⟩ (some handler) }
  else tables

/-- `register_ctx_handler`. -/
def registerCtxHandler (tables : Vectors K) (vector : Nat) (handler : CtxHandler K) : Vectors K :=
  if h : vector < IDT_ENTRIES then
    { tables with
      isrCtxHandlers := Function.update tables.isrCtxHandlers ⟨vector, h⟩ (some handler) }
  else tables

/-- `set_gate_dpl`. -/
def setGateDpl (tables : Vectors K) (vector : Nat) (dpl : UInt8) : Vectors K :=
  if h : vector < IDT_ENTRIES then
    { tables with
      entries := Function.update tables.entries ⟨vector, h⟩
        ((tables.entries ⟨vector, h⟩).setDpl dpl) }
  else tables

end Vectors

/-- What `interrupt_dispatch` leaves behind: the context, the state of the kernel, and what it
printed itself. -/
structure Dispatched (K : Type*) where
  ctx : IsrContext
  kernel : K
  output : List UInt8

/-- The digit loop of `hex`, with its buffer backwards. -/
def hexLoop (v : UInt64) (printed : List UInt8) : List UInt8 :=
  if v = 0 then printed
  else
    let d := (v &&& 0xF).toUInt8
    hexLoop (v >>> 4) ((if d < 10 then 0x30 + d else 0x61 + d - 10) :: printed)
termination_by v.toNat
decreasing_by
  rename_i hne
  have hpos : v.toNat ≠ 0 := fun hzero ↦ hne (UInt64.toNat_inj.mp hzero)
  rw [UInt64.toNat_shiftRight, Nat.shiftRight_eq_div_pow]
  exact Nat.div_lt_self (Nat.pos_of_ne_zero hpos) (by decide)

/-- `serial::hex`. -/
def hex (v : UInt64) : List UInt8 := if v = 0 then [0x30] else hexLoop v []

/-- The report of an exception without a handler. -/
def exceptionText (ctx : IsrContext) : List UInt8 :=
  text "EXCEPTION #" ++ dec ctx.vector ++ text " err=0x" ++ hex ctx.errorCode ++
    text " rip=0x" ++ hex ctx.rip ++ text "\n"

/-- `interrupt_dispatch`. -/
def interruptDispatch {K : Type*} (tables : Vectors K) (ctx : IsrContext) (kernel : K) :
    Dispatched K :=
  let unhandled : Dispatched K :=
    ⟨ctx, kernel, if ctx.vector < 32 then exceptionText ctx else []⟩
  if h : ctx.vector.toNat < IDT_ENTRIES then
    match tables.isrCtxHandlers ⟨ctx.vector.toNat, h⟩ with
    | some handler =>
        let (ctx, kernel) := handler ctx kernel
        ⟨ctx, kernel, []⟩
    | none =>
        match tables.isrHandlers ⟨ctx.vector.toNat, h⟩ with
        | some handler => ⟨ctx, handler ctx.vector ctx.errorCode kernel, []⟩
        | none => unhandled
  else unhandled

/-! ## Calls in any order -/

/-- A call of another part of the kernel. -/
inductive VectorCall (K : Type*) where
  | registerHandler (vector : Nat) (handler : Handler K)
  | registerCtxHandler (vector : Nat) (handler : CtxHandler K)
  | setGateDpl (vector : Nat) (dpl : UInt8)

namespace VectorCall

variable {K : Type*}

/-- The plain handler that a call registers for a vector. -/
def handler (v : Vector) : VectorCall K → Option (Handler K)
  | .registerHandler vector handler => if vector = v then some handler else none
  | _ => none

/-- The handler for the context that a call registers for a vector. -/
def ctxHandler (v : Vector) : VectorCall K → Option (CtxHandler K)
  | .registerCtxHandler vector handler => if vector = v then some handler else none
  | _ => none

/-- The privilege level that a call sets for a vector. -/
def dpl (v : Vector) : VectorCall K → Option UInt8
  | .setGateDpl vector dpl => if vector = v then some (dpl &&& 3) else none
  | _ => none

end VectorCall

namespace Vectors

open LastWrite

variable {K : Type*}

/-- The effect of a call. -/
def serve (tables : Vectors K) : VectorCall K → Vectors K
  | .registerHandler vector handler => tables.registerHandler vector handler
  | .registerCtxHandler vector handler => tables.registerCtxHandler vector handler
  | .setGateDpl vector dpl => tables.setGateDpl vector dpl

/-- The tables after `init` and some calls. -/
def after (stubs : Nat → UInt64) (calls : List (VectorCall K)) : Vectors K :=
  calls.foldl serve (empty.init stubs)

/-- An update at a vector that is checked against the size of the table. -/
theorem update_guarded {β : Type*} (table : Vector → β) (vector : Nat) (v : Vector) (value : β) :
    (if h : vector < IDT_ENTRIES then Function.update table ⟨vector, h⟩ value else table) v =
      if vector = v then value else table v := by
  by_cases hv : vector = v
  · subst hv
    rw [dif_pos v.isLt, if_pos rfl, Fin.eta, Function.update_self]
  · rw [if_neg hv]
    split
    · exact Function.update_of_ne (fun heq ↦ hv (congrArg Fin.val heq).symm) _ _
    · rfl

theorem registerHandler_isrHandlers (tables : Vectors K) (vector : Nat) (handler : Handler K)
    (v : Vector) : (tables.registerHandler vector handler).isrHandlers v =
      if vector = v then some handler else tables.isrHandlers v := by
  rw [← update_guarded tables.isrHandlers vector v (some handler), registerHandler]
  split <;> rfl

theorem registerCtxHandler_isrCtxHandlers (tables : Vectors K) (vector : Nat)
    (handler : CtxHandler K) (v : Vector) :
    (tables.registerCtxHandler vector handler).isrCtxHandlers v =
      if vector = v then some handler else tables.isrCtxHandlers v := by
  rw [← update_guarded tables.isrCtxHandlers vector v (some handler), registerCtxHandler]
  split <;> rfl

theorem setGateDpl_entries (tables : Vectors K) (vector : Nat) (dpl : UInt8) (v : Vector) :
    (tables.setGateDpl vector dpl).entries v =
      if vector = v then (tables.entries v).setDpl dpl else tables.entries v := by
  by_cases hv : vector = v
  · subst hv
    rw [if_pos rfl, setGateDpl, dif_pos v.isLt]
    exact Function.update_self _ _ _
  · rw [if_neg hv, setGateDpl]
    split
    · exact Function.update_of_ne (fun heq ↦ hv (congrArg Fin.val heq).symm) _ _
    · rfl

section Frame

variable (tables : Vectors K) (vector : Nat) (handler : Handler K) (ctxHandler : CtxHandler K)
  (dpl : UInt8)

@[simp] theorem registerHandler_entries :
    (tables.registerHandler vector handler).entries = tables.entries := by
  unfold registerHandler
  split <;> rfl

@[simp] theorem registerHandler_isrCtxHandlers :
    (tables.registerHandler vector handler).isrCtxHandlers = tables.isrCtxHandlers := by
  unfold registerHandler
  split <;> rfl

@[simp] theorem registerCtxHandler_entries :
    (tables.registerCtxHandler vector ctxHandler).entries = tables.entries := by
  unfold registerCtxHandler
  split <;> rfl

@[simp] theorem registerCtxHandler_isrHandlers :
    (tables.registerCtxHandler vector ctxHandler).isrHandlers = tables.isrHandlers := by
  unfold registerCtxHandler
  split <;> rfl

@[simp] theorem setGateDpl_isrHandlers :
    (tables.setGateDpl vector dpl).isrHandlers = tables.isrHandlers := by
  unfold setGateDpl
  split <;> rfl

@[simp] theorem setGateDpl_isrCtxHandlers :
    (tables.setGateDpl vector dpl).isrCtxHandlers = tables.isrCtxHandlers := by
  unfold setGateDpl
  split <;> rfl

end Frame

theorem isrHandlers_serve (v : Vector) (tables : Vectors K) (call : VectorCall K) :
    (tables.serve call).isrHandlers v =
      (call.handler v).or (tables.isrHandlers v) := by
  cases call with
  | registerHandler vector handler =>
      rw [serve, registerHandler_isrHandlers, VectorCall.handler]
      split <;> rfl
  | registerCtxHandler vector handler =>
      rw [serve, registerCtxHandler_isrHandlers]
      rfl
  | setGateDpl vector dpl =>
      rw [serve, setGateDpl_isrHandlers]
      rfl

theorem isrCtxHandlers_serve (v : Vector) (tables : Vectors K) (call : VectorCall K) :
    (tables.serve call).isrCtxHandlers v =
      (call.ctxHandler v).or (tables.isrCtxHandlers v) := by
  cases call with
  | registerHandler vector handler =>
      rw [serve, registerHandler_isrCtxHandlers]
      rfl
  | registerCtxHandler vector handler =>
      rw [serve, registerCtxHandler_isrCtxHandlers, VectorCall.ctxHandler]
      split <;> rfl
  | setGateDpl vector dpl =>
      rw [serve, setGateDpl_isrCtxHandlers]
      rfl

theorem gate_serve (v : Vector) (tables : Vectors K) (call : VectorCall K) :
    ((tables.serve call).entries v).gate =
      (tables.entries v).gate.map fun gate ↦ { gate with dpl := (call.dpl v).getD gate.dpl } := by
  cases call with
  | registerHandler vector handler =>
      rw [serve, registerHandler_entries]
      exact Option.map_id'.symm
  | registerCtxHandler vector handler =>
      rw [serve, registerCtxHandler_entries]
      exact Option.map_id'.symm
  | setGateDpl vector dpl =>
      rw [serve, setGateDpl_entries, VectorCall.dpl]
      split
      · exact IdtEntry.gate_setDpl _ _
      · exact Option.map_id'.symm

/-- Calls change the privilege level of a gate only, to the one that was set last. -/
theorem gate_foldl (v : Vector) (tables : Vectors K) (calls : List (VectorCall K)) :
    ((calls.foldl serve tables).entries v).gate = (tables.entries v).gate.map fun gate ↦
      { gate with dpl := (last (VectorCall.dpl v) calls).getD gate.dpl } := by
  induction calls generalizing tables with
  | nil => exact Option.map_id'.symm
  | cons call rest ih =>
      rw [List.foldl_cons, ih, gate_serve, Option.map_map, last_cons]
      congr 1
      funext gate
      rw [Option.getD_or]
      rfl

/-- The gates that `init` installs. -/
theorem gate_init (stubs : Nat → UInt64) (v : Vector) :
    (((empty : Vectors K).init stubs).entries v).gate =
      if v.val ∈ stubVectors then some ⟨stubs v, 0x08, 0, 0, 0xE⟩ else none := by
  by_cases hstub : v.val ∈ stubVectors
  · simp only [init, if_pos hstub]
    exact IdtEntry.gate_setHandler _ _
  · simp only [init, if_neg hstub]
    exact IdtEntry.gate_empty

/-- What a vector with these handlers does to an interrupt: the handler for the context has
precedence, a plain handler leaves the context alone, and exceptions without a handler are
reported. -/
def handled (v : Vector) (ctxHandler : Option (CtxHandler K)) (handler : Option (Handler K))
    (ctx : IsrContext) (kernel : K) : Dispatched K :=
  match ctxHandler, handler with
  | some ctxHandler, _ => ⟨(ctxHandler ctx kernel).1, (ctxHandler ctx kernel).2, []⟩
  | none, some handler => ⟨ctx, handler ctx.vector ctx.errorCode kernel, []⟩
  | none, none => ⟨ctx, kernel, if v.val < 32 then exceptionText ctx else []⟩

/-- After `init` and any calls, an interrupt is handled by the handlers of either kind that were
registered last. -/
theorem interruptDispatch_after (stubs : Nat → UInt64) (calls : List (VectorCall K)) (v : Vector)
    {ctx : IsrContext} (hvector : ctx.vector = UInt64.ofNat v) (kernel : K) :
    interruptDispatch (after stubs calls) ctx kernel =
      handled v (last (VectorCall.ctxHandler v) calls) (last (VectorCall.handler v) calls)
        ctx kernel := by
  have hnat : ctx.vector.toNat = v := by
    rw [hvector, UInt64.toNat_ofNat']
    exact Nat.mod_eq_of_lt (Nat.lt_trans v.isLt (by decide))
  have hlt : ctx.vector.toNat < IDT_ENTRIES := by
    rw [hnat]
    exact v.isLt
  have hindex : (⟨ctx.vector.toNat, hlt⟩ : Vector) = v := Fin.ext hnat
  have hctx : (after stubs calls).isrCtxHandlers v = last (VectorCall.ctxHandler v) calls :=
    (optional_foldl (fun tables : Vectors K ↦ tables.isrCtxHandlers v) (isrCtxHandlers_serve v) _
      calls).trans Option.or_none
  have hplain : (after stubs calls).isrHandlers v = last (VectorCall.handler v) calls :=
    (optional_foldl (fun tables : Vectors K ↦ tables.isrHandlers v) (isrHandlers_serve v) _
      calls).trans Option.or_none
  have hexception : ctx.vector < 32 ↔ v.val < 32 := by
    rw [UInt64.lt_iff_toNat_lt, hnat]
    rfl
  unfold interruptDispatch
  simp only [dif_pos hlt, hindex, hctx, hplain, hexception]
  cases last (VectorCall.ctxHandler v) calls with
  | some handler => rfl
  | none =>
      cases last (VectorCall.handler v) calls with
      | some handler => rfl
      | none => rfl

/-- After `init` and any calls, the gates of the vectors with a stub lead to the stub and are open
to the privilege level that was set last. -/
theorem gate_after (stubs : Nat → UInt64) (calls : List (VectorCall K)) (v : Vector) :
    ((after stubs calls).entries v).gate =
      if v.val ∈ stubVectors then
        some ⟨stubs v, 0x08, 0, (last (VectorCall.dpl v) calls).getD 0, 0xE⟩
      else none := by
  rw [after, gate_foldl, gate_init]
  split <;> rfl

/-- After `init` and any calls, the vectors that are present are those with a stub; their gates lead
to the stub in ring 0 and are open to the privilege level that was set last, at first to ring 0
only. An interrupt is handled by the handlers of either kind that were registered last. -/
theorem gates_and_handlers (stubs : Nat → UInt64) (calls : List (VectorCall K)) (v : Vector) :
    ((after stubs calls).entries v).gate =
      (if v.val ∈ stubVectors then
        some ⟨stubs v, 0x08, 0, (last (VectorCall.dpl v) calls).getD 0, 0xE⟩
      else none) ∧
    ∀ (ctx : IsrContext) (kernel : K), ctx.vector = UInt64.ofNat v →
      interruptDispatch (after stubs calls) ctx kernel =
        handled v (last (VectorCall.ctxHandler v) calls) (last (VectorCall.handler v) calls)
          ctx kernel :=
  ⟨gate_after stubs calls v,
    fun _ kernel hvector ↦ interruptDispatch_after stubs calls v hvector kernel⟩

end Vectors

end Avaria.Arch
