/-
  Popcorn.Duplicates.CopyLocs — the search for other places of a stackmap's operands
  (patches/llvm/src/lib/CodeGen/StackTransformMetadata.cpp).

  Registers are allocated but still virtual. Starting from a register operand the pass follows
  copies between registers and, through the loads and stores of a stack slot, between
  registers and slots; a register or slot it meets that is live across the call is recorded as one
  more place of the operand's IR values. The live intervals, the chains of a register's
  definitions and uses, and what a target takes for a load from or a store to a stack slot are
  LLVM's, and data here; `MachineFunction.Ok` says what it promises of them.
-/

import Mathlib.Data.List.Basic
import Mathlib.Data.List.MinMax
import Mathlib.Tactic.Common

namespace Popcorn.Duplicates

/-! ## Instructions -/

/-- A register; 0 is no register, and physical. Virtual ones are counted from 0. -/
inductive Register where
  | physical (n : Nat)
  | virtual (n : Nat)
  deriving DecidableEq, Repr

structure MachineOperand where
  isReg : Bool
  isDef : Bool
  reg : Register
  deriving DecidableEq, Repr

structure MachineInstr where
  isStackMap : Bool
  isCopyLike : Bool
  operands : List MachineOperand
  /-- `TargetInstrInfo`'s answers: the register and the slot. -/
  isLoadFromStackSlot : Option (Register × Int)
  isStoreToStackSlot : Option (Register × Int)
  /-- The slots it writes. -/
  slotDefs : List Int
  /-- As a copy it moves the whole value, not a part of it. -/
  movesWhole : Bool
  deriving DecidableEq, Repr

/-- Virtual registers only. -/
inductive CopyLoc where
  | regCopy (vreg srcVreg : Nat)
  | stackLoad (vreg : Nat) (stackSlot : Int)
  | stackStore (vreg : Nat) (stackSlot : Int)
  deriving DecidableEq, Repr

namespace CopyLoc

def vreg : CopyLoc → Nat
  | regCopy vreg _ => vreg
  | stackLoad vreg _ => vreg
  | stackStore vreg _ => vreg

def stackSlot : CopyLoc → Option Int
  | regCopy _ _ => none
  | stackLoad _ stackSlot => some stackSlot
  | stackStore _ stackSlot => some stackSlot

def defs : CopyLoc → List Nat
  | regCopy vreg _ => [vreg]
  | stackLoad vreg _ => [vreg]
  | stackStore _ _ => []

def uses : CopyLoc → List Nat
  | regCopy _ srcVreg => [srcVreg]
  | stackLoad _ _ => []
  | stackStore vreg _ => [vreg]

def slotDefs : CopyLoc → List Int
  | stackStore _ stackSlot => [stackSlot]
  | _ => []

end CopyLoc

namespace MachineInstr

/-- The last register it defines and the last it uses. -/
def copyRegs (MI : MachineInstr) : Register × Register :=
  MI.operands.foldl (fun (DefVreg, SrcVreg) MO =>
    if MO.isReg then if MO.isDef then (MO.reg, SrcVreg) else (DefVreg, MO.reg) else (DefVreg, SrcVreg))
    (.physical 0, .physical 0)

def regCopyLocation (MI : MachineInstr) : Option CopyLoc :=
  if MI.isCopyLike then
    match MI.copyRegs with
    | (.virtual DefVreg, .virtual SrcVreg) => some (.regCopy DefVreg SrcVreg)
    | _ => none
  else none

def loadLocation (MI : MachineInstr) : Option CopyLoc :=
  match MI.isLoadFromStackSlot with
  | some (.virtual DefVreg, SS) => some (.stackLoad DefVreg SS)
  | _ => none

def storeLocation (MI : MachineInstr) : Option CopyLoc :=
  match MI.isStoreToStackSlot with
  | some (.virtual SrcVreg, SS) => some (.stackStore SrcVreg SS)
  | _ => none

def getCopyLocation (MI : MachineInstr) : Option CopyLoc := MI.regCopyLocation.or (MI.loadLocation.or MI.storeLocation)

/-- The virtual registers among its operands. -/
def vregs (MI : MachineInstr) (isDef : Bool) : List Nat :=
  MI.operands.filterMap fun MO =>
    match MO.reg with
    | .virtual n => if MO.isReg && MO.isDef == isDef then some n else none
    | .physical _ => none

/-- A copy has no virtual registers but those it copies between, and writes no slot but the one
    it stores to; a stackmap is not a copy. -/
structure Ok (MI : MachineInstr) : Prop where
  defs : ∀ loc, MI.getCopyLocation = some loc → ∀ r, r ∈ MI.vregs true ↔ r ∈ loc.defs
  uses : ∀ loc, MI.getCopyLocation = some loc → ∀ r, r ∈ MI.vregs false ↔ r ∈ loc.uses
  slotDefs : ∀ loc, MI.getCopyLocation = some loc → ∀ ss, ss ∈ MI.slotDefs ↔ ss ∈ loc.slotDefs
  stackMap : MI.isStackMap = true → MI.getCopyLocation = none

end MachineInstr

/-! ## Functions -/

structure SlotIndex where
  entry : Nat
  slot : Nat
  deriving DecidableEq, Repr

def SlotIndex.lt (a b : SlotIndex) : Bool := a.entry < b.entry || (a.entry == b.entry && decide (a.slot < b.slot))

structure Segment where
  start : SlotIndex
  stop : SlotIndex
  deriving DecidableEq, Repr

/-- Live in the first segment that ends behind the instruction, and that not in the instruction. -/
def isLiveAcross (InstrIdx : SlotIndex) (interval : List Segment) : Bool :=
  match interval.find? fun Seg => InstrIdx.lt Seg.stop with
  | none => false
  | some Seg => !InstrIdx.lt Seg.start && Seg.stop.entry != InstrIdx.entry

structure MachineBasicBlock where
  instrs : List MachineInstr
  successors : List Nat
  deriving DecidableEq, Repr

/-- Block and place in it. -/
abbrev InstrPtr := Nat × Nat

structure MachineFunction where
  blocks : List MachineBasicBlock
  /-- `MachineRegisterInfo`'s chains. -/
  defInstrs : Nat → List InstrPtr
  useInstrs : Nat → List InstrPtr
  /-- `LiveIntervals`, `LiveStacks`, `SlotIndexes` and `VirtRegMap`. -/
  vregInterval : Nat → Option (List Segment)
  stackInterval : Int → Option (List Segment)
  instructionIndex : InstrPtr → SlotIndex
  getPhys : Nat → Nat

namespace MachineFunction

def instr (F : MachineFunction) (p : InstrPtr) : Option MachineInstr := F.blocks[p.1]?.bind fun MBB => MBB.instrs[p.2]?

def ptrs (F : MachineFunction) : List InstrPtr :=
  F.blocks.zipIdx.flatMap fun (MBB, b) => (List.range MBB.instrs.length).map fun i => (b, i)

def copyAt (F : MachineFunction) (p : InstrPtr) : Option CopyLoc := (F.instr p).bind MachineInstr.getCopyLocation

/-- `SSUses`: the loads from and stores to a slot, in the function's order. -/
def ssUses (F : MachineFunction) (SS : Int) : List InstrPtr :=
  F.ptrs.filter fun p =>
    match F.instr p with
    | none => false
    | some MI => !MI.isStackMap && MI.getCopyLocation.any fun loc => loc.stackSlot == some SS

def isVregLiveAcrossInstr (F : MachineFunction) (Vreg : Nat) (MI : InstrPtr) : Bool :=
  (F.vregInterval Vreg).any (isLiveAcross (F.instructionIndex MI))

def isSSLiveAcrossInstr (F : MachineFunction) (SS : Int) (MI : InstrPtr) : Bool :=
  (F.stackInterval SS).any (isLiveAcross (F.instructionIndex MI))

structure Ok (F : MachineFunction) : Prop where
  defInstrs : ∀ r p, p ∈ F.defInstrs r ↔ ∃ MI, F.instr p = some MI ∧ r ∈ MI.vregs true
  useInstrs : ∀ r p, p ∈ F.useInstrs r ↔ ∃ MI, F.instr p = some MI ∧ r ∈ MI.vregs false
  instrs : ∀ p MI, F.instr p = some MI → MI.Ok

end MachineFunction

/-! ## Stackmaps -/

/-- An operand of a stackmap with its IR value. -/
inductive StackMapOp (V : Type) where
  | directMemRef (frameIdx : Int) (IRVal : V)
  | indirectMemRef (frameIdx : Int) (IRVal : V)
  | constant
  | reg (vreg : Nat) (IRVal : V)
  deriving DecidableEq, Repr

inductive Loc where
  | vreg (r : Nat)
  | stackSlot (ss : Int)
  deriving DecidableEq, Repr

/-- The IR values of an operand; entries of one operand share one vector. -/
structure ValueVec (V : Type) where
  operand : Loc
  vals : List V
  deriving DecidableEq, Repr

inductive MachineLiveLoc where
  | reg (phys : Nat)
  | stackSlot (ss : Int)
  deriving DecidableEq, Repr

/-- The stackmap, the call before it, and the operands. -/
structure SMInstBundle (V : Type) where
  MISM : InstrPtr
  MICall : InstrPtr
  ops : List (StackMapOp V)

section
variable {V : Type}

def pushBack {κ : Type} [DecidableEq κ] (operand : κ → Loc) (k : κ) (IRVal : V) : List (κ × ValueVec V) → List (κ × ValueVec V)
  | [] => [(k, ⟨operand k, [IRVal]⟩)]
  | (k', vec) :: rest =>
    if k' = k then (k', { vec with vals := vec.vals ++ [IRVal] }) :: rest else (k', vec) :: pushBack operand k IRVal rest

/-- `SMVregs` and `SMStackSlots` of a stackmap. -/
def mapOpsToIR (ops : List (StackMapOp V)) : List (Nat × ValueVec V) × List (Int × ValueVec V) :=
  ops.foldl (fun (vregs, sslots) op =>
    match op with
    | .directMemRef frameIdx IRVal => (vregs, pushBack .stackSlot frameIdx IRVal sslots)
    | .indirectMemRef frameIdx IRVal => (vregs, pushBack .stackSlot frameIdx IRVal sslots)
    | .constant => (vregs, sslots)
    | .reg vreg IRVal => (pushBack .vreg vreg IRVal vregs, sslots)) ([], [])

/-! ## The search -/

/-- The maps of the stackmap, the locations added to the function's metadata, and the state of
    the search from one register. -/
structure State (V : Type) where
  vregs : List (Nat × ValueVec V)
  sslots : List (Int × ValueVec V)
  smOpLocations : List (V × MachineLiveLoc)
  visited : List InstrPtr
  work : List Nat
  deriving DecidableEq

variable (F : MachineFunction) (SM : SMInstBundle V)

def isVregLive (Vreg : Nat) : Bool := F.isVregLiveAcrossInstr Vreg SM.MISM || F.isVregLiveAcrossInstr Vreg SM.MICall

def isSSLive (SS : Int) : Bool := F.isSSLiveAcrossInstr SS SM.MISM || F.isSSLiveAcrossInstr SS SM.MICall

def addVregMetadata (Vreg : Nat) (IRVals : ValueVec V) (s : State V) : State V × Bool :=
  if Vreg ∉ s.vregs.map Prod.fst ∧ isVregLive F SM Vreg = true then
    ({ s with
        vregs := s.vregs ++ [(Vreg, IRVals)]
        smOpLocations := s.smOpLocations ++ IRVals.vals.map fun IRVal => (IRVal, .reg (F.getPhys Vreg)) }, true)
  else (s, false)

def addSSMetadata (SS : Int) (IRVals : ValueVec V) (s : State V) : State V × Bool :=
  if SS ∉ s.sslots.map Prod.fst ∧ isSSLive F SM SS = true then
    ({ s with
        sslots := s.sslots ++ [(SS, IRVals)]
        smOpLocations := s.smOpLocations ++ IRVals.vals.map fun IRVal => (IRVal, .stackSlot SS) }, true)
  else (s, false)

/-- `Visited.insert` and `work.push`. -/
def follow (p : InstrPtr) (Vreg : Nat) (IRVals : ValueVec V) (s : State V) : State V :=
  let s' := (addVregMetadata F SM Vreg IRVals s).1
  { s' with visited := p :: s'.visited, work := s'.work ++ [Vreg] }

/-- One round of the loop of `searchStackSlotCopies`. -/
def followCopy (IRVals : ValueVec V) (s : State V) (p : InstrPtr) : State V :=
  match F.copyAt p with
  | none => s
  | some loc => if s.visited.contains p then s else follow F SM p loc.vreg IRVals s

def searchStackSlotCopies (SS : Int) (IRVals : ValueVec V) (s : State V) : State V := (F.ssUses SS).foldl (followCopy F SM IRVals) s

/-- A load or store met in a walk. -/
def expandSlot (p : InstrPtr) (SS : Int) (IRVals : ValueVec V) (s : State V) : State V :=
  let (s', added) := addSSMetadata F SM SS IRVals s
  if added then searchStackSlotCopies F SM SS IRVals { s' with visited := p :: s'.visited } else s'

/-- One round of the walk over definitions; `none` is `llvm_unreachable`. -/
def visitDef (IRVals : ValueVec V) (s : State V) (p : InstrPtr) : Option (State V) :=
  if s.visited.contains p then some s
  else
    match F.copyAt p with
    | none => some s
    | some (.regCopy _ srcVreg) => some (follow F SM p srcVreg IRVals s)
    | some (.stackLoad _ ss) => some (expandSlot F SM p ss IRVals s)
    | some (.stackStore _ _) => none

def visitUse (IRVals : ValueVec V) (s : State V) (p : InstrPtr) : Option (State V) :=
  if s.visited.contains p then some s
  else
    match F.copyAt p with
    | none => some s
    | some (.regCopy vreg _) => some (follow F SM p vreg IRVals s)
    | some (.stackStore _ ss) => some (expandSlot F SM p ss IRVals s)
    | some (.stackLoad _ _) => none

def walk (IRVals : ValueVec V) (cur : Nat) (s : State V) : Option (State V) := do
  let s' ← (F.defInstrs cur).foldlM (visitDef F SM IRVals) s
  (F.useInstrs cur).foldlM (visitUse F SM IRVals) s'

/-- The loop while there is work. -/
def search (IRVals : ValueVec V) : Nat → State V → Option (State V)
  | 0, _ => none
  | fuel + 1, s =>
    match s.work with
    | [] => some s
    | cur :: rest => (walk F SM IRVals cur { s with work := rest }).bind (search IRVals fuel)

/-- The loop over the map's entries from a register on, in ascending order; entries are added as
    it runs. -/
def iterate : Nat → Nat → State V → Option (State V)
  | 0, _, _ => none
  | fuel + 1, first, s =>
    match (s.vregs.filter fun entry => first ≤ entry.1).argmin Prod.fst with
    | none => some s
    | some (origVreg, IRVals) =>
      (search F SM IRVals fuel { s with visited := [], work := s.work ++ [origVreg] }).bind (iterate fuel (origVreg + 1))

def initialState : State V := ⟨(mapOpsToIR SM.ops).1, (mapOpsToIR SM.ops).2, [], [], []⟩

def findAlternateVregLocs (fuel : Nat) : Option (State V) := iterate F SM fuel 0 (initialState SM)

end

end Popcorn.Duplicates
