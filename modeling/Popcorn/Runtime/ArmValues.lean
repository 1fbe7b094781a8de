/-
  Popcorn.Runtime.ArmValues — AArch64 UBFM as a generated value
  (patches/llvm/src/lib/Target/AArch64/AArch64Values.cpp, `genBitfieldInstructions`).

  An unsigned bit-field move takes the bits from `immr` to `imms` of a register down to bit 0,
  or, where `imms` is the lower, its lowest bits up to the top of the word. It becomes a list
  of a register, a shift and a mask; the mask is all ones shifted left, inverted. A field of
  all 64 bits makes the compiler shift by 64, which C++ does not define.

  Proved: `ubfm_exact_iff`: the list is there, and run it leaves the moved bits of every register
  value, for all immediates but these.
-/

import Popcorn.Metadata.Lowering
import Popcorn.Runtime.ArchValues

namespace Popcorn.Runtime

open Popcorn.Lib Popcorn.Metadata

/-! ## Model -/

/-- The operands of a UBFMXri: the source by its DWARF number, and two immediates of six bits. -/
structure UbfmOperands where
  reg : UInt32
  immr : Fin 64
  imms : Fin 64
  deriving DecidableEq, Repr

/-- `Mask << n`, undefined by 64 and more. -/
def shiftMask (n : Nat) : Option UInt64 := if n < 64 then some ⟨BitVec.allOnes 64 <<< n⟩ else none

theorem set_register : InstType.set ∈ [InstType.set, .add, .subtract, .multiply, .divide, .load] := by decide

theorem rightShift_immediate :
    InstType.rightShiftLog ∈ [InstType.set, .add, .subtract, .multiply, .divide, .leftShift, .rightShiftLog, .rightShiftArith, .mask] := by
  decide

theorem leftShift_immediate :
    InstType.leftShift ∈ [InstType.set, .add, .subtract, .multiply, .divide, .leftShift, .rightShiftLog, .rightShiftArith, .mask] := by
  decide

theorem mask_immediate :
    InstType.mask ∈ [InstType.set, .add, .subtract, .multiply, .divide, .leftShift, .rightShiftLog, .rightShiftArith, .mask] := by
  decide

def genBitfieldInstructions (mi : UbfmOperands) : Option (List ValueGenInst) :=
  if mi.immr ≤ mi.imms then do
    let mask ← shiftMask (mi.imms - mi.immr + 1)
    some [.reg .set mi.reg 0 set_register, .imm .rightShiftLog 8 (Int64.ofNat mi.immr) rightShift_immediate,
      .imm .mask 8 (~~~mask).toInt64 mask_immediate]
  else do
    let mask ← shiftMask (mi.imms + 1)
    some [.reg .set mi.reg 0 set_register, .imm .mask 8 (~~~mask).toInt64 mask_immediate,
      .imm .leftShift 8 (Int64.ofNat (64 - mi.immr)) leftShift_immediate]

/-- The operand of an operation, from the registers by their DWARF numbers. -/
def operandValue (regs : UInt32 → UInt64) (o : Operation) : UInt64 :=
  match o.operandType with
  | .register => regs o.dwarfReg
  | .direct => regs o.dwarfReg + o.constant.toUInt64
  | _ => if o.isSymbol then o.symbol else o.constant.toUInt64

/-- `apply_arch_operation` over a list of instructions, from what the location holds. -/
def applyInsts (t : Metadata.Target) (regs : UInt32 → UInt64) (v : UInt64) (insts : List ValueGenInst) : Except Fault Nat :=
  insts.foldlM (fun v inst => archOperation v (operandValue regs (inst.operation t)).toNat (inst.operation t).instType.code) v.toNat

/-- UBFM: bits `s` to `r` at bit 0, or bits `s` to 0 at bit `64 - r`. -/
def ubfm (r s : Fin 64) (x : UInt64) : UInt64 :=
  if r ≤ s then ⟨(x.toBitVec.extractLsb' r (s - r + 1)).setWidth 64⟩
  else ⟨(x.toBitVec.extractLsb' 0 (s + 1)).setWidth 64 <<< (64 - r.val)⟩

/-- The list is emitted, and leaves the moved bits of whatever the register holds. -/
def UbfmExact (mi : UbfmOperands) : Prop :=
  ∃ insts, genBitfieldInstructions mi = some insts ∧ ∀ (t : Metadata.Target) (regs : UInt32 → UInt64) (v : UInt64),
    applyInsts t regs v insts = .ok (ubfm mi.immr mi.imms (regs mi.reg)).toNat

/-! ## Masks -/

theorem mask_bit {n : Nat} (i : Nat) : (~~~(BitVec.allOnes 64 <<< n)).getLsbD i = (decide (i < 64) && decide (i < n)) := by
  rw [BitVec.getLsbD_not, BitVec.getLsbD_shiftLeft, BitVec.getLsbD_allOnes]
  by_cases h : i < 64 <;> by_cases hn : i < n <;> simp [h, hn]
  omega

/-- Shifted down and masked: a field at bit 0. -/
theorem field_down (x : BitVec 64) (r n : Nat) : (x >>> r) &&& ~~~(BitVec.allOnes 64 <<< n) = (x.extractLsb' r n).setWidth 64 := by
  apply BitVec.eq_of_getLsbD_eq
  intro i hi
  rw [BitVec.getLsbD_and, mask_bit, BitVec.getLsbD_ushiftRight, BitVec.getLsbD_setWidth, BitVec.getLsbD_extractLsb']
  simp [hi, Bool.and_comm]

/-- Masked and shifted up: the lowest bits, higher. -/
theorem field_up (x : BitVec 64) (k n : Nat) :
    (x &&& ~~~(BitVec.allOnes 64 <<< n)) <<< k = (x.extractLsb' 0 n).setWidth 64 <<< k := by
  rw [← field_down x 0 n, BitVec.ushiftRight_zero]

/-! ## The instructions on words -/

section
variable {r s : Fin 64} {mask x : UInt64}

theorem shiftMask_some {n : Nat} (h : shiftMask n = some mask) : mask.toBitVec = BitVec.allOnes 64 <<< n := by
  unfold shiftMask at h
  split at h
  · exact (congrArg UInt64.toBitVec (Option.some.inj h)).symm
  · cases h

theorem shiftLeft_toBitVec {v o : UInt64} (ho : o.toNat < 64) : (v <<< o).toBitVec = v.toBitVec <<< o.toNat := by
  apply BitVec.eq_of_toNat_eq
  rw [BitVec.toNat_shiftLeft]
  show (v <<< o).toNat = _
  rw [UInt64.toNat_shiftLeft, Nat.mod_eq_of_lt ho]
  rfl

theorem shift_operand {n : Nat} (hn : n < 64) : (Int64.ofNat n).toUInt64.toNat = n := by
  show (UInt64.ofNat n).toNat = n
  rw [UInt64.toNat_ofNat']
  omega

/-- `S >= R`. -/
theorem ubfm_down (hle : r ≤ s) (hm : shiftMask (s - r + 1) = some mask) : ∃ y,
    runtimeValue .rightShiftLog x (Int64.ofNat r).toUInt64 = some y ∧
      runtimeValue .mask y (~~~mask).toInt64.toUInt64 = some (ubfm r s x) := by
  have ho := shift_operand r.isLt
  refine ⟨x >>> (Int64.ofNat r).toUInt64, if_pos (by rw [ho]; exact r.isLt), ?_⟩
  refine congrArg some (UInt64.toBitVec_inj.mp ?_)
  rw [ubfm, if_pos hle, UInt64.toBitVec_and, shiftRight_toBitVec (by rw [ho]; exact r.isLt), ho]
  show _ &&& ~~~mask.toBitVec = _
  rw [shiftMask_some hm, field_down]

/-- `S < R`. -/
theorem ubfm_up (hlt : ¬ r ≤ s) (hm : shiftMask (s + 1) = some mask) : ∃ y,
    runtimeValue .mask x (~~~mask).toInt64.toUInt64 = some y ∧
      runtimeValue .leftShift y (Int64.ofNat (64 - r)).toUInt64 = some (ubfm r s x) := by
  have hr : 64 - r.val < 64 := by omega
  have ho := shift_operand hr
  refine ⟨x &&& ~~~mask, rfl, (if_pos (by rw [ho]; exact hr)).trans ?_⟩
  refine congrArg some (UInt64.toBitVec_inj.mp ?_)
  rw [ubfm, if_neg hlt, shiftLeft_toBitVec (by rw [ho]; exact hr), ho]
  show (_ &&& ~~~mask.toBitVec) <<< _ = _
  rw [shiftMask_some hm, field_up]

end

/-! ## The list -/

theorem mask_defined {n : Nat} (hn : n < 64) : ∃ mask, shiftMask n = some mask := ⟨_, if_pos hn⟩

theorem mask_undefined {n : Nat} (hn : ¬ n < 64) : shiftMask n = none := if_neg hn

/-- The shift is by 64 just for the whole word. -/
theorem whole_iff (mi : UbfmOperands) (hle : mi.immr ≤ mi.imms) :
    ¬ mi.imms.val - mi.immr.val + 1 < 64 ↔ mi.immr = 0 ∧ mi.imms = 63 := by
  have := mi.imms.isLt
  have := mi.immr.isLt
  simp only [Fin.ext_iff, Fin.le_def, Fin.val_zero] at *
  show _ ↔ _ ∧ mi.imms.val = 63
  omega

theorem gen_undefined {mi : UbfmOperands} (h : mi.immr = 0 ∧ mi.imms = 63) : genBitfieldInstructions mi = none := by
  have hle : mi.immr ≤ mi.imms := by rw [h.1]; exact Fin.zero_le _
  rw [genBitfieldInstructions, if_pos hle, mask_undefined ((whole_iff mi hle).mpr h)]
  rfl

/-- Elsewhere the register's value is set, and two operations with immediates move the bits. -/
theorem gen_shape {mi : UbfmOperands} (h : ¬ (mi.immr = 0 ∧ mi.imms = 63)) : ∃ a b p q ha hb,
    genBitfieldInstructions mi = some [.reg .set mi.reg 0 set_register, .imm a 8 p ha, .imm b 8 q hb] ∧
    instOfCode a.code = some a ∧ instOfCode b.code = some b ∧ ∀ x, ∃ y,
      runtimeValue a x p.toUInt64 = some y ∧ runtimeValue b y q.toUInt64 = some (ubfm mi.immr mi.imms x) := by
  by_cases hle : mi.immr ≤ mi.imms
  · obtain ⟨mask, hm⟩ := mask_defined (Decidable.not_not.mp fun hw => h ((whole_iff mi hle).mp hw))
    refine ⟨.rightShiftLog, .mask, _, _, rightShift_immediate, mask_immediate, ?_, rfl, rfl, fun x => ubfm_down hle hm⟩
    rw [genBitfieldInstructions, if_pos hle, hm]
    rfl
  · obtain ⟨mask, hm⟩ := mask_defined (n := mi.imms + 1) (by have := mi.immr.isLt; rw [Fin.le_def] at hle; omega)
    refine ⟨.mask, .leftShift, _, _, mask_immediate, leftShift_immediate, ?_, rfl, rfl, fun x => ubfm_up hle hm⟩
    rw [genBitfieldInstructions, if_neg hle, hm]
    rfl

/-- One step of `applyInsts` on words. -/
theorem archOperation_word {type : InstType} (hi : instOfCode type.code = some type) {v o w : UInt64} (h : runtimeValue type v o = some w) :
    archOperation v.toNat o.toNat type.code = .ok w.toNat := (archOperation_iff hi).mpr h

theorem ubfm_exact_iff (mi : UbfmOperands) : UbfmExact mi ↔ ¬ (mi.immr = 0 ∧ mi.imms = 63) := by
  constructor
  · rintro ⟨insts, hgen, -⟩ hwhole
    rw [gen_undefined hwhole] at hgen
    cases hgen
  · intro hwhole
    obtain ⟨a, b, p, q, ha, hb, hgen, hia, hib, hrun⟩ := gen_shape hwhole
    refine ⟨_, hgen, ?_⟩
    intro t regs v
    obtain ⟨y, hfirst, hsecond⟩ := hrun (regs mi.reg)
    have hset : archOperation v.toNat (regs mi.reg).toNat InstType.set.code = .ok (regs mi.reg).toNat := archOperation_word rfl rfl
    refine bind_ok.mpr ⟨(regs mi.reg).toNat, hset, ?_⟩
    refine bind_ok.mpr ⟨y.toNat, archOperation_word hia hfirst, ?_⟩
    exact bind_ok.mpr ⟨_, archOperation_word hib hsecond, rfl⟩

/-- `lsr x0, x1, #0`: its list asks for a mask of 64 ones. -/
theorem whole_word_undefined : ¬ UbfmExact ⟨1, 0, 63⟩ := by
  rintro ⟨insts, hgen, -⟩
  cases hgen

end Popcorn.Runtime
