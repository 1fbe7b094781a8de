/-
  Popcorn.Metadata.CallSite — the records the compiler, the metadata tool and the
  runtime share (common/stack_transformation/include/call_site.h).

  Fields keep their C widths: bit-fields are `Bool` or `Fin`, the others `UIntN` or
  `IntN`. The 64-bit offsets into the unwind, live-value and arch-live sections are
  indices of records in memory and stay natural numbers.
-/

import Popcorn.Lib.Bytes

namespace Popcorn.Metadata

instance neZeroSixteen : NeZero (16 : Nat) := ⟨by decide⟩

/-- The architectures the tools and the runtime support (`e_machine`). -/
inductive Arch where
  | x86_64
  | aarch64
  deriving DecidableEq, Repr

/-- A function's address and its slice of the unwind section. -/
structure UnwindAddr where
  addr : UInt64
  numUnwind : UInt32
  unwindOffset : UInt32
  deriving DecidableEq, Repr

/-- A callee-saved register and where the function spilled it, relative to the FBP. -/
structure UnwindLoc where
  reg : UInt16
  offset : Int16
  deriving DecidableEq, Repr

structure CallSite where
  id : UInt64
  addr : UInt64
  frameSize : UInt32
  numUnwind : UInt16
  unwindOffset : Nat
  numLive : UInt16
  liveOffset : Nat
  numArchLive : UInt16
  archLiveOffset : Nat
  deriving DecidableEq, Repr

/-- `EMPTY_CALL_SITE`. -/
def emptyCallSite : CallSite := ⟨0, 0, 0, 0, 0, 0, 0, 0, 0⟩

/-- `enum location_type`. -/
inductive LocationType where
  | register
  | direct
  | indirect
  | constant
  | constIdx
  deriving DecidableEq, Repr

def LocationType.code : LocationType → Fin 16
  | .register => 1
  | .direct => 2
  | .indirect => 3
  | .constant => 4
  | .constIdx => 5

/-- The type a 4-bit field names; `none` is the `default:` branch of a switch on it. -/
def LocationType.ofCode (c : Fin 16) : Option LocationType :=
  match c with
  | 1 => some .register
  | 2 => some .direct
  | 3 => some .indirect
  | 4 => some .constant
  | 5 => some .constIdx
  | _ => none

@[simp] theorem LocationType.ofCode_code (t : LocationType) : ofCode t.code = some t := by cases t <;> rfl

structure LiveValue where
  isDuplicate : Bool
  isAlloca : Bool
  isPtr : Bool
  bitPad : Bool
  type : Fin 16
  size : UInt8
  regnum : UInt16
  offsetOrConstant : Int32
  allocaSize : UInt32
  deriving DecidableEq, Repr

/-- `VAL_SIZE`. -/
def LiveValue.valSize (v : LiveValue) : Nat := if v.isAlloca then v.allocaSize.toNat else v.size.toNat

structure ArchLiveValue where
  isPtr : Bool
  bitPad : Fin 8
  type : Fin 16
  size : UInt8
  regnum : UInt16
  offset : UInt32
  operandType : Fin 16
  instType : Fin 16
  operandSize : UInt8
  operandRegnum : UInt16
  operandOffsetOrConstant : Int64
  deriving DecidableEq, Repr

/-- The on-disk sizes of the packed records (`sizeof`). -/
def sizeofLiveValue : Nat := 12
def sizeofArchLiveValue : Nat := 20

/-- `UINT64_MAX`. -/
def uint64Max : UInt64 := 0xFFFFFFFFFFFFFFFF

end Popcorn.Metadata
