/-
  Popcorn.Metadata.Lowering — from a stackmap instruction to its record
  (patches/llvm/llvm-3.7.1.patch, lib/CodeGen/StackMaps.cpp).

  `parseOperand` turns an operand of a stackmap, as a target has lowered it, into its
  locations: a frame address, a spill slot, a constant, or a register with the other places
  of the same value. `addArchLiveVals` adds the values only one target has, each a
  list of small instructions that compute it. What LLVM hands over (register numbers, frame
  offsets, the addresses of symbols) is data here.

  Proved:
  - `readRecord_decodes`: what gen-stackinfo reads of a record, field widths included.
  - `readRecord_overflow`: what it reads of the record for a list too long to encode.
-/

import Popcorn.Metadata.StackmapProofs

namespace Popcorn.Metadata

open Popcorn.Lib

/-! ## Operands -/

/-- What an operand lookup needs of the function: the DWARF number of its frame register. -/
structure Target where
  arch : Arch
  frameReg : UInt32

/-- `MachineLiveLoc`: a register, with its DWARF number and the offset of the sub-register,
    or a stack slot, with its offset from the frame register. -/
inductive MachineLiveLoc where
  | reg (dwarf offset size : UInt32)
  | stackSlot (offset : Int64) (size : UInt32)
  deriving DecidableEq

/-- The operands of a lowered stackmap; a register comes with the value's other places. -/
inductive MachineOperand where
  | directMemRef (reg : UInt32) (imm : Int64)
  | indirectMemRef (reg : UInt32) (imm : Int64)
  | constant (imm : Int64)
  | register (dwarf offset : UInt32) (dups : List MachineLiveLoc)
  deriving DecidableEq

/-- An operand of a stackmap: its IR type and how a target has lowered it. An alloca is an
    address of the frame and never folds to a constant. -/
structure StackmapOp where
  isPointerTy : Bool
  isAllocaInst : Bool
  /-- `getTypeAllocSize` of the value and, for a pointer, of what it points to. -/
  typeSize : UInt32
  elementSize : UInt32
  operand : MachineOperand
  alloca_place : isPointerTy = true → isAllocaInst = true → ∀ imm, operand ≠ .constant imm

/-- `getPointerInfo`: `isPtr`, `isAlloca` and `AllocaSize`. -/
def getPointerInfo (op : StackmapOp) : Bool × Bool × UInt32 :=
  if op.isPointerTy then if op.isAllocaInst then (true, true, op.elementSize) else (true, false, 0)
  else (false, false, 0)

def addDuplicateLocs (t : Target) (size : UInt32) (ptr alloca : Bool) (allocaSize : UInt32) (dups : List MachineLiveLoc) :
    List Location :=
  dups.map fun
    | .reg dwarf offset _ => ⟨.register, size, dwarf, Int64.ofNat offset.toNat, ptr, alloca, true, allocaSize⟩
    | .stackSlot offset _ => ⟨.indirect, size, t.frameReg, offset, ptr, alloca, true, allocaSize⟩

def parseOperand (t : Target) (op : StackmapOp) : List Location :=
  let (isPtr, isAlloca, allocaSize) := getPointerInfo op
  match op.operand with
  | .directMemRef reg imm => [⟨.direct, 8, reg, imm, isPtr, isAlloca, false, allocaSize⟩]
  | .indirectMemRef reg imm => [⟨.indirect, op.typeSize, reg, imm, isPtr, isAlloca, false, allocaSize⟩]
  | .constant imm => [⟨.constant, 8, 0, imm, isPtr, isAlloca, false, allocaSize⟩]
  | .register dwarf offset dups =>
    ⟨.register, op.typeSize, dwarf, Int64.ofNat offset.toNat, isPtr, isAlloca, false, allocaSize⟩ ::
      addDuplicateLocs t op.typeSize isPtr isAlloca allocaSize dups

/-- `isInt<32>`. -/
def isInt32 (v : Int64) : Bool := decide (-2147483648 ≤ v.toInt) && decide (v.toInt < 2147483648)

/-- A constant of more than 32 bits moves to the constant pool; LLVM gives its index there. -/
def moveToConstPool (pool : Int64 → Int64) (l : Location) : Location :=
  if l.type = .constant ∧ isInt32 l.offset = false then { l with type := .constantIndex, offset := pool l.offset } else l

/-! ## Architecture-specific values -/

/-- `ValueGenInst`, with the types each class of instructions is restricted to. -/
inductive ValueGenInst where
  | reg (type : InstType) (dwarf : UInt32) (offset : Int32)
      (valid : type ∈ [.set, .add, .subtract, .multiply, .divide, .load])
  | imm (type : InstType) (size : UInt32) (value : Int64)
      (valid : type ∈ [.set, .add, .subtract, .multiply, .divide, .leftShift, .rightShiftLog, .rightShiftArith, .mask])
  | stackSlot (genType : InstType) (offset : Int64) (valid : genType ∈ [.add, .set])
  | constantPool (symbol : UInt64)

/-- `MachineLiveVal`; a reference holds the address its symbol resolves to. -/
inductive MachineLiveVal where
  | immediate (size : UInt32) (value : Int64)
  | reference (symbol : UInt64)
  | generated (insts : List ValueGenInst)

/-- The operation an instruction becomes. -/
def ValueGenInst.operation (t : Target) : ValueGenInst → Operation
  | .stackSlot genType offset _ => ⟨genType, .direct, 8, t.frameReg, offset, false, 0⟩
  | .constantPool symbol => ⟨.set, .constant, 8, 0, 0, true, symbol⟩
  | .reg type dwarf offset _ =>
    if type = .load then ⟨.load, .direct, 8, dwarf, Int64.ofInt offset.toInt, false, 0⟩
    else ⟨type, .register, 8, dwarf, 0, false, 0⟩
  | .imm type size value _ => ⟨type, .constant, size, 0, value, false, 0⟩

/-- A stack slot makes the value a pointer, for the instructions after it too. -/
def genArchValsFromInsts (t : Target) : Location → List ValueGenInst → List (Location × Operation)
  | _, [] => []
  | loc, inst :: insts =>
    let loc := match inst with
      | .stackSlot _ _ _ => { loc with ptr := true }
      | _ => loc
    (loc, inst.operation t) :: genArchValsFromInsts t loc insts

def archLocation (t : Target) : MachineLiveLoc → Location
  | .reg dwarf offset size => ⟨.register, size, dwarf, Int64.ofNat offset.toNat, false, false, false, 0⟩
  | .stackSlot offset size => ⟨.indirect, size, t.frameReg, offset, false, false, false, 0⟩

def addArchLiveVals (t : Target) (vals : List (MachineLiveLoc × MachineLiveVal)) : List (Location × Operation) :=
  vals.flatMap fun (l, v) =>
    let loc := archLocation t l
    match v with
    | .immediate size value => [(loc, ⟨.set, .constant, size, 0, value, false, 0⟩)]
    | .reference symbol => [({ loc with ptr := true }, ⟨.set, .constant, 8, 0, 0, true, symbol⟩)]
    | .generated insts => genArchValsFromInsts t loc insts

/-! ## Stackmaps -/

/-- A stackmap as one target has lowered it. -/
structure LoweredStackmap where
  target : Target
  pool : Int64 → Int64
  func : Nat
  csOffset : UInt32
  id : UInt64
  ops : List StackmapOp
  liveOuts : List LiveOutReg
  archVals : List (MachineLiveLoc × MachineLiveVal)

def LoweredStackmap.group (s : LoweredStackmap) (op : StackmapOp) : List Location :=
  (parseOperand s.target op).map (moveToConstPool s.pool)

def recordStackMapOpers (s : LoweredStackmap) : CallsiteInfo where
  func := s.func
  csOffset := s.csOffset
  id := s.id
  locations := s.ops.flatMap s.group
  liveOuts := s.liveOuts
  vals := addArchLiveVals s.target s.archVals

/-- A call site's record as it is emitted. -/
def callsiteRecord (M : Module) (c : CallsiteInfo) : List UInt8 := if overflows c then overflowEntry c else callsiteEntry M c

/-! ## What is read of a record -/

/-- A location cut to the widths of its fields. -/
def decodeLocation (l : Location) : LiveValue where
  isDuplicate := l.duplicate
  isAlloca := l.alloca
  isPtr := l.ptr
  bitPad := false
  type := l.type.code
  size := UInt8.ofNat l.size.toNat
  regnum := UInt16.ofNat l.reg.toNat
  offsetOrConstant := Int32.ofInt l.offset.toInt
  allocaSize := l.allocaSize

def decodeArchValue (v : Location × Operation) : ArchLiveValue where
  isPtr := v.1.ptr
  bitPad := 0
  type := v.1.type.code
  size := UInt8.ofNat v.1.size.toNat
  regnum := UInt16.ofNat v.1.reg.toNat
  offset := UInt32.ofNat (v.1.offset.toInt % 4294967296).toNat
  operandType := v.2.operandType.code
  instType := v.2.instType.code
  operandSize := UInt8.ofNat v.2.size.toNat
  operandRegnum := UInt16.ofNat v.2.dwarfReg.toNat
  operandOffsetOrConstant := if v.2.isSymbol then Int64.ofInt v.2.symbol.toNat else v.2.constant

theorem byte_emit {m : Mem} {a v : Nat} (h : At m a (emitIntValue v 1)) : m a = UInt8.ofNat v := by
  have hread := readLe_emit h
  have hbyte : readLe 1 m a = (m a).toNat := by simp [readLe, load, leVal]
  rw [hbyte] at hread
  apply UInt8.toNat_inj.mp
  rw [UInt8.toNat_ofNat']
  omega

theorem u16At_emit_mod {m : Mem} {a v : Nat} (h : At m a (emitIntValue v 2)) : u16At m a = UInt16.ofNat v := by
  have := readLe_emit h
  apply UInt16.toNat_inj.mp
  rw [u16At, UInt16.toNat_ofNat', UInt16.toNat_ofNat']
  omega

theorem i32_emit_mod {m : Mem} {a : Nat} {v : Int} (h : At m a (emitIntValue v 4)) :
    Int32.ofInt (readLe 4 m a) = Int32.ofInt v := by
  have e : ((Int32.size : Nat) : Int) = 4294967296 := rfl
  rw [readLe_emit h]
  apply Int32.toInt_inj.mp
  rw [Int32.toInt_ofInt, Int32.toInt_ofInt]
  simp only [Int.bmod, e]
  omega

theorem readLiveValue_decodes {m : Mem} {a : Nat} {l : Location} (h : At m a (emitLocation l)) :
    readLiveValue m a = decodeLocation l := by
  simp only [emitLocation, at_append, List.length_append, emitIntValue_length, Nat.reduceAdd] at h
  obtain ⟨⟨⟨⟨ht, hs⟩, hr⟩, ho⟩, ha⟩ := h
  obtain ⟨h0, h1, h2, h3, h4, h5⟩ := typeAndFlags_unpack l.type.code l.ptr l.alloca l.duplicate
  have hb := byte_emit_nat ht h5
  have hty := highNibble_eq hb h4
  unfold readLiveValue decodeLocation
  simp only [hb, h0, h1, h2, h3, hty, byte_emit hs, u16At_emit_mod hr, i32_emit_mod ho, LiveValue.mk.injEq, true_and]
  exact UInt32.toNat_inj.mp (u32At_emit ha l.allocaSize.toNat_lt)

theorem readArchLiveValue_decodes {m : Mem} {a : Nat} {v : Location × Operation} (h : At m a (emitArchValue v)) :
    readArchLiveValue m a = decodeArchValue v := by
  simp only [emitArchValue, at_append, List.length_append, emitIntValue_length, Nat.reduceAdd] at h
  obtain ⟨⟨⟨⟨⟨⟨⟨ht, hs⟩, hr⟩, hoff⟩, hop⟩, hos⟩, hor⟩, hoc⟩ := h
  obtain ⟨h0, h1, h2, h3⟩ := archTypeAndFlags_unpack v.1.type.code v.1.ptr
  obtain ⟨g0, g1, g2⟩ := archOpType_unpack v.2.instType.code v.2.operandType.code
  have hb := byte_emit_nat ht h3
  have hb' := byte_emit_nat hop g2
  have hty := highNibble_eq hb h2
  have hop1 := lowNibble_eq hb' g0
  have hop2 := highNibble_eq hb' g1
  have hoff' : u32At m (a + 4) = UInt32.ofNat (v.1.offset.toInt % 4294967296).toNat := by
    have := readLe_emit hoff
    unfold u32At
    congr 1
    omega
  unfold readArchLiveValue decodeArchValue
  simp only [hb, h0, hty, byte_emit hs, u16At_emit_mod hr, hoff', hop1, hop2, byte_emit hos, u16At_emit_mod hor, i64_emit hoc,
    ArchLiveValue.mk.injEq, true_and]
  refine ⟨Fin.ext h1, ?_⟩
  split
  · rfl
  · exact Int64.ofInt_toInt _

theorem forall₂_eq_map {α β : Type} {g : α → β} {xs : List α} {ys : List β} (h : List.Forall₂ (fun x y => y = g x) xs ys) :
    ys = xs.map g := by
  induction h with
  | nil => rfl
  | cons hxy _ ih => rw [hxy, ih, List.map_cons]

/-- What gen-stackinfo reads of a record whose lists can be encoded. -/
theorem readRecord_decodes {m : Mem} {a : Nat} {M : Module} {c : CallsiteInfo} (hM : M.fnStackSize.length < 4294967296)
    (hc : overflows c = false) (h : At m a (callsiteRecord M c)) :
    (readRecord m a).1.id = c.id ∧ (readRecord m a).1.funcIdx.toNat = fnIndex M c.func ∧
      (readRecord m a).1.locations = c.locations.map decodeLocation ∧ (readRecord m a).1.archLive = c.vals.map decodeArchValue := by
  have hentry : callsiteRecord M c = callsiteEntry M c := by
    unfold callsiteRecord
    rw [hc]
    rfl
  rw [hentry] at h
  obtain ⟨⟨hid, hfn, -, -⟩, hl, -, hv, -⟩ := readRecord_parts (P := fun l v => v = decodeLocation l) (Q := fun _ _ => True)
    (R := fun v r => r = decodeArchValue v) hM hc (fun _ _ _ => readLiveValue_decodes) (fun _ _ _ _ => trivial)
    (fun _ _ _ => readArchLiveValue_decodes) h
  exact ⟨hid, hfn, forall₂_eq_map hl, forall₂_eq_map hv⟩

/-- What it reads of the record for a list too long to encode. -/
theorem readRecord_overflow {m : Mem} {a : Nat} {M : Module} {c : CallsiteInfo} (hc : overflows c = true)
    (h : At m a (callsiteRecord M c)) :
    (readRecord m a).1.id = uint64Max ∧ (readRecord m a).1.funcIdx.toNat = 4294967295 ∧ (readRecord m a).1.locations = [] := by
  have hentry : callsiteRecord M c = overflowEntry c := by
    unfold callsiteRecord
    rw [hc]
    rfl
  rw [hentry] at h
  simp only [overflowEntry, at_append, List.length_append, emitIntValue_length, Nat.reduceAdd] at h
  obtain ⟨⟨⟨⟨⟨⟨⟨⟨⟨hid, hfn⟩, -⟩, -⟩, hnl⟩, -⟩, -⟩, -⟩, -⟩, -⟩ := h
  have e1 : (u16At m (a + offsetofNumLocations)).toNat = 0 := u16At_emit hnl (by omega)
  refine ⟨UInt64.toNat_inj.mp (u64At_emit hid uint64Max.toNat_lt), u32At_emit hfn (by decide), ?_⟩
  simp only [readRecord, e1]
  rfl

end Popcorn.Metadata
