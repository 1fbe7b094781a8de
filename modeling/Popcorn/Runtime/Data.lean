/-
  Popcorn.Runtime.Data — reading and writing live values
  (lib/stack_transformation/src/data.c).

  A location is an address or a register of an activation. The source context is only
  read; what a function writes is the destination's state, a context and the memory both
  stacks share. NULL is address 0, as in the source. Registers are written in place: a
  value larger than its register spills into the bytes after it.
-/

import Popcorn.Metadata.Stackmap
import Popcorn.Runtime.Unwind

namespace Popcorn.Runtime

open Popcorn.Lib Popcorn.Metadata

/-! ## Locations -/

inductive Loc where
  | mem (a : Nat)
  | reg (act off : Nat)
  deriving DecidableEq, Repr

/-- A context that is written, and the memory. -/
structure Dst where
  ctx : Ctx
  mem : Mem

def readLoc (c : Ctx) (mem : Mem) : Loc → Nat → List UInt8
  | .mem a, n => load mem a n
  | .reg act off, n => load (c.acts act).regs off n

/-- `memcpy` to a location. -/
def writeLoc (st : Dst) (l : Loc) (bs : List UInt8) : Dst :=
  match l with
  | .mem a => { st with mem := store st.mem a bs }
  | .reg act off => { st with ctx := st.ctx.modAct act fun x => { x with regs := store x.regs off bs } }

def getValLoc (c : Ctx) (type : Fin 16) (regnum : UInt16) (offsetOrConstant : Int) (act : Nat) : Except Fault Loc :=
  match LocationType.ofCode type with
  | some .register => do
    let off ← c.regops.reg regnum
    pure (.reg act off)
  | some .direct | some .indirect => do
    let off ← c.regops.reg regnum
    pure (.mem (padd (rget (c.acts act).regs off) offsetOrConstant))
  | some .constant | some .constIdx => .error (.stErr 1 "cannot get location for constant/constant index\n" [])
  | none => .error (.stErr 1 "invalid live value location type (%u)\n" [type.val])

/-! ## Source values -/

/-- The bytes of a live value record (`struct live_value`, packed). -/
def liveValueBytes (v : LiveValue) : List UInt8 :=
  leBytes 1 (v.isDuplicate.toNat + 2 * v.isAlloca.toNat + 4 * v.isPtr.toNat + 8 * v.bitPad.toNat + 16 * v.type.val) ++
    leBytes 1 v.size.toNat ++ leBytes 2 v.regnum.toNat ++ leBytes 4 (v.offsetOrConstant.toInt % 4294967296).toNat ++
    leBytes 4 v.allocaSize.toNat

theorem liveValueBytes_length (v : LiveValue) : (liveValueBytes v).length = sizeofLiveValue := by
  simp only [liveValueBytes, List.length_append, leBytes_length]
  rfl

/-- `n` bytes from the `offset_or_constant` of record `i` on, running into the records after it. -/
def constantBytes (h : Handle) (i n : Nat) : List UInt8 :=
  (((List.range (n / sizeofLiveValue + 2)).flatMap fun k => liveValueBytes (h.liveVals (i + k))).drop 4).take n

/-- `get_src_loc` of the live value record `i`, and the `n` bytes there. -/
def getSrcBytes (c : Ctx) (mem : Mem) (i act n : Nat) : Except Fault (List UInt8) :=
  let v := c.handle.liveVals i
  match LocationType.ofCode v.type with
  | some .register | some .direct | some .indirect => do
    let loc ← getValLoc c v.type v.regnum v.offsetOrConstant.toInt act
    pure (readLoc c mem loc n)
  | some .constant => .ok (constantBytes c.handle i n)
  | some .constIdx => .error (.stErr 1 "constant pool entries not supported\n" [])
  | none => .error (.stErr 1 "invalid live value location type (%u)\n" [v.type.val])

/-! ## Callee-saved registers -/

/-- The walk of `callee_saved_loc` down from activation `act - 1`; none is NULL. -/
def savedLocLoop (c : Ctx) (r : UInt16) : Nat → Except Fault (Option Loc)
  | 0 => do
    -- still live in the outermost frame
    let off ← c.regops.reg r
    pure (some (.reg 0 off))
  | act + 1 => do
    if ← bitmapIsSet (poolWords c.handle.arch) c.pool (c.acts act).calleeSaved r.toNat then
      let addr ← getRegisterSaveLoc c (c.acts act) r
      pure (if addr = 0 then none else some (.mem addr))
    else savedLocLoop c r act

def calleeSavedLoc (c : Ctx) (r : UInt16) (act : Nat) : Except Fault (Option Loc) :=
  if act = 0 then .ok none else savedLocLoop c r act

/-- The second location of a value in a callee-saved register. -/
def calleeAddr (c : Ctx) (type : Fin 16) (r : UInt16) (act : Nat) : Except Fault (Option Loc) :=
  if LocationType.ofCode type = some .register ∧ c.props.isCalleeSaved r = true then calleeSavedLoc c r act else .ok none

/-- Write a value to its location and to the one its register is saved in. -/
def writeBoth (st : Dst) (dest : Loc) (callee : Option Loc) (bs : List UInt8) : Dst :=
  let st := writeLoc st dest bs
  match callee with
  | some l => writeLoc st l bs
  | none => st

/-! ## Data access -/

def isConstant (v : LiveValue) : Bool :=
  LocationType.ofCode v.type == some .constant || LocationType.ofCode v.type == some .constIdx

/-- `put_val`: copy the value of source record `i` to the destination record `w`. -/
def putVal (src : Ctx) (i : Nat) (st : Dst) (w : LiveValue) : Except Fault Dst :=
  if isConstant w then .ok st
  else do
    let bs ← getSrcBytes src st.mem i src.act w.valSize
    let dest ← getValLoc st.ctx w.type w.regnum w.offsetOrConstant.toInt src.act
    let callee ← calleeAddr st.ctx w.type w.regnum st.ctx.act
    pure (writeBoth st dest callee bs)

/-- `put_val_data`: write a pointer to the record `w` of activation `act`. -/
def putValData (st : Dst) (w : LiveValue) (act data : Nat) : Except Fault Dst :=
  if isConstant w then .ok st
  else do
    let dest ← getValLoc st.ctx w.type w.regnum w.offsetOrConstant.toInt act
    let callee ← calleeAddr st.ctx w.type w.regnum act
    pure (writeBoth st dest callee (leBytes 8 data))

/-- `get_arch_operand_loc`; the operand as a 64-bit word. The offset of a location is cut to
    32 bits on the way to `get_val_loc`. -/
def getArchOperandLoc (c : Ctx) (v : ArchLiveValue) (act : Nat) : Except Fault Nat :=
  if LocationType.ofCode v.operandType = some .constant then .ok (v.operandOffsetOrConstant.toInt % 18446744073709551616).toNat
  else do
    let loc ← getValLoc c v.operandType v.operandRegnum (Int32.ofInt v.operandOffsetOrConstant.toInt).toInt act
    match LocationType.ofCode v.operandType, loc with
    | some .register, .reg k off => pure (rget (c.acts k).regs off)
    | some .direct, .mem a => pure a
    | _, _ => .error (.stErr 1 "Invalid architecture-specific instruction operand\n" [])

/-- The value `apply_arch_operation` computes. `Load` has no `break` and falls through to the
    error; both right shifts are of an unsigned value. -/
def archOperation (orig operand : Nat) (inst : Fin 16) : Except Fault Nat :=
  let a := UInt64.ofNat orig
  let b := UInt64.ofNat operand
  match inst with
  | 0 => .ok operand
  | 1 => .ok (a + b).toNat
  | 2 => .ok (a - b).toNat
  | 3 => .ok (a * b).toNat
  | 4 => if b = 0 then .error .undefined else .ok (a / b).toNat
  | 5 => if operand < 64 then .ok (a <<< b).toNat else .error .undefined
  | 6 => if operand < 64 then .ok (a >>> b).toNat else .error .undefined
  | 7 => if operand < 64 then .ok (a >>> b).toNat else .error .undefined
  | 8 => .ok (a &&& b).toNat
  | _ => .error (.stErr 1 "Invalid instruction type (%d)\n" [inst.val])

/-- `put_val_arch`. -/
def putValArch (st : Dst) (v : ArchLiveValue) : Except Fault Dst := do
  let dest ← getValLoc st.ctx v.type v.regnum (Int32.ofInt v.offset.toNat).toInt st.ctx.act
  let callee ← calleeAddr st.ctx v.type v.regnum st.ctx.act
  let operand ← getArchOperandLoc st.ctx v st.ctx.act
  let value ← archOperation (leVal (readLoc st.ctx st.mem dest 8)) operand v.instType
  pure (writeBoth st dest callee (leBytes 8 value))

/-- `points_to_stack`: the pointed-to address of a live value of the current activation, or
    NULL. -/
def pointsToStack (c : Ctx) (mem : Mem) (v : LiveValue) : Except Fault Nat :=
  if v.isPtr && !v.isAlloca then do
    let addr ← match LocationType.ofCode v.type with
      | some .register => do
        let off ← c.regops.reg v.regnum
        pure (rget c.cur.regs off)
      | some .direct => .error (.stErr 1 "incorrectly encoded live value\n" [])
      | some .indirect => do
        let off ← c.regops.reg v.regnum
        pure (readLe 8 mem (padd (rget c.cur.regs off) v.offsetOrConstant.toInt))
      | some .constant => .error (.stErr 1 "directly-encoded constants too small to store pointers\n" [])
      | some .constIdx => .error (.stErr 1 "constant pool entries not supported\n" [])
      | none => .error (.stErr 1 "invalid value type (%d)" [v.type.val])
    pure (if addr < c.stack ∨ c.stackBase ≤ addr then 0 else addr)
  else .ok 0

/-- The address a location stands for. `points_to_data` is only used on allocas, which are in
    memory; the address of a register of the context is none of the program's. -/
def Loc.addr : Loc → Nat
  | .mem a => a
  | .reg _ _ => 0

/-- `points_to_data`: if `ptr` points into the source value, its address in the destination. -/
def pointsToData (src : Ctx) (v : LiveValue) (dest : Ctx) (w : LiveValue) (ptr : Nat) : Except Fault Nat := do
  let srcAddr ← getValLoc src v.type v.regnum v.offsetOrConstant.toInt src.act
  if srcAddr.addr ≤ ptr ∧ ptr < padd srcAddr.addr v.valSize then
    let destAddr ← getValLoc dest w.type w.regnum w.offsetOrConstant.toInt dest.act
    pure (padd destAddr.addr (ptr - srcAddr.addr : Nat))
  else pure 0

/-! ## Return address and saved FBP -/

def setReturnAddress (st : Dst) (retaddr : Nat) : Dst :=
  writeLoc st (.mem (padd st.ctx.cur.cfa st.ctx.props.raOffset)) (leBytes 8 retaddr)

def setReturnAddressFuncentry (st : Dst) (retaddr : Nat) : Dst :=
  match st.ctx.regops.raOff with
  | some ra => writeLoc st (.reg st.ctx.act ra) (leBytes 8 retaddr)
  | none => setReturnAddress st retaddr

def getSavedfbpLoc (c : Ctx) : Nat := padd c.cur.cfa c.props.savedfbpOffset

end Popcorn.Runtime
