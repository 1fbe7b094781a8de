/-
  Popcorn.Runtime.Constants — constants as values (lib/stack_transformation/src/data.c,
  `put_val` from a record of kind SM_CONSTANT).

  A constant is four bytes of its record, and the copy is as long as the value. What a value of
  more than four bytes gets beyond them is the field that follows in the packed record,
  `alloca_size`, 0 for a value that is no alloca: the constant without its sign.

  Proved: `constant_put_iff`: the destination and the place its register is saved in get the
  constant's sign extension exactly when the value has four bytes or fewer or that field happens to
  continue the sign.
-/

import Popcorn.Runtime.ArchValues
import Popcorn.Runtime.FrameWalk

namespace Popcorn.Runtime

open Popcorn.Lib Popcorn.Metadata

/-! ## The bytes of a constant -/

/-- The constant extended to 64 bits. -/
def signExtended (c : Int32) : Nat := c.toInt64.toUInt64.toNat

/-- The upper half of the extended constant. -/
def signWord (c : Int32) : Nat := if c.toInt < 0 then 4294967295 else 0

theorem signExtended_eq (c : Int32) : signExtended c = (c.toInt % 4294967296).toNat + 4294967296 * signWord c := by
  have hlow := c.le_toInt
  have hhigh := c.toInt_lt
  rw [signExtended, ← toInt_mod c.toInt64, Int32.toInt_toInt64, signWord]
  split <;> omega

/-- The record's field after the constant, as far as `n` bytes reach, is the constant's sign. -/
def SignContinued (v : LiveValue) (n : Nat) : Prop :=
  v.allocaSize.toNat % 256 ^ (n - 4) = signWord v.offsetOrConstant % 256 ^ (n - 4)

theorem constantBytes_eq (h : Handle) (i : Nat) {n : Nat} (hn : n ≤ 8) : constantBytes h i n =
    leBytes n (((h.liveVals i).offsetOrConstant.toInt % 4294967296).toNat + 4294967296 * (h.liveVals i).allocaSize.toNat) := by
  have hc : ((h.liveVals i).offsetOrConstant.toInt % 4294967296).toNat < 256 ^ 4 := by
    show _ < 4294967296
    omega
  rw [constantBytes_record h i hn, ← leBytes_take hn]
  refine congrArg (List.take n) ?_
  rw [show (8 : Nat) = 4 + 4 from rfl, show (4294967296 : Nat) = 256 ^ 4 from rfl, ← leBytes_append hc]
  rfl

theorem constantBytes_iff (h : Handle) (i : Nat) {n : Nat} (hn : n ≤ 8) :
    constantBytes h i n = leBytes n (signExtended (h.liveVals i).offsetOrConstant) ↔ n ≤ 4 ∨ SignContinued (h.liveVals i) n := by
  rw [constantBytes_eq h i hn, signExtended_eq, leBytes_inj_iff, SignContinued]
  generalize hc : ((h.liveVals i).offsetOrConstant.toInt % 4294967296).toNat = c
  generalize (h.liveVals i).allocaSize.toNat = a
  generalize signWord (h.liveVals i).offsetOrConstant = s
  have hlt : c < 4294967296 := by omega
  by_cases h4 : n ≤ 4
  · refine iff_of_true ?_ (.inl h4)
    obtain ⟨k, hk⟩ : 256 ^ n ∣ 4294967296 := Nat.pow_dvd_pow 256 h4
    rw [hk, Nat.mul_assoc, Nat.mul_assoc, Nat.add_mul_mod_self_left, Nat.add_mul_mod_self_left]
  · have hsplit : ∀ w, (c + 4294967296 * w) % 256 ^ n = c + 4294967296 * (w % 256 ^ (n - 4)) := by
      intro w
      have hpow : 256 ^ n = 4294967296 * 256 ^ (n - 4) := by
        rw [show (4294967296 : Nat) = 256 ^ 4 from rfl, ← Nat.pow_add, Nat.add_sub_cancel' (Nat.le_of_not_le h4)]
      rw [hpow, Nat.mod_mul, Nat.add_mul_mod_self_left, Nat.mod_eq_of_lt hlt, Nat.add_mul_div_left _ _ (by decide),
        Nat.div_eq_of_lt hlt, Nat.zero_add]
    rw [hsplit a, hsplit s]
    constructor
    · intro h
      exact .inr (by omega)
    · intro h
      rw [h.resolve_left h4]

/-! ## Putting a constant -/

/-- The bytes written last can be read back. -/
theorem writeBoth_inj {st : Dst} {l : Loc} {callee : Option Loc} {bs bs' : List UInt8} (hlen : bs.length = bs'.length)
    (h : writeBoth st l callee bs = writeBoth st l callee bs') : bs = bs' := by
  have hread : ∀ (st : Dst) (l : Loc) (bs : List UInt8), (writeLoc st l bs).read l bs.length = bs := fun st l bs =>
    (read_writeLoc_same st l (Nat.le_refl _)).trans (List.take_length ..)
  unfold writeBoth at h
  cases callee with
  | none =>
    dsimp only at h
    rw [← hread st l bs, h, hlen, hread]
  | some c =>
    dsimp only at h
    rw [← hread (writeLoc st l bs) c bs, h, hlen, hread]

/-- `put_val` of a constant writes what its record holds from the constant on. -/
theorem putVal_constant {src : Ctx} {i : Nat} {st : Dst} {w : LiveValue} {dest : Loc} {callee : Option Loc}
    (hsrc : LocationType.ofCode (src.handle.liveVals i).type = some .constant) (hw : isConstant w = false)
    (hd : getValLoc st.ctx w.type w.regnum w.offsetOrConstant.toInt src.act = .ok dest)
    (hc : calleeAddr st.ctx w.type w.regnum st.ctx.act = .ok callee) :
    putVal src i st w = .ok (writeBoth st dest callee (constantBytes src.handle i w.valSize)) := by
  have hbytes : getSrcBytes src st.mem i src.act w.valSize = .ok (constantBytes src.handle i w.valSize) := by
    unfold getSrcBytes
    dsimp only
    rw [hsrc]
  unfold putVal
  rw [if_neg (by rw [hw]; exact Bool.false_ne_true), hbytes, hd, hc]
  rfl

theorem constant_put_iff (src : Ctx) (i : Nat) (st : Dst) (w : LiveValue) (dest : Loc) (callee : Option Loc)
    (hsrc : LocationType.ofCode (src.handle.liveVals i).type = some .constant) (hw : isConstant w = false) (hn : w.valSize ≤ 8)
    (hd : getValLoc st.ctx w.type w.regnum w.offsetOrConstant.toInt src.act = .ok dest)
    (hc : calleeAddr st.ctx w.type w.regnum st.ctx.act = .ok callee) :
    putVal src i st w =
        .ok (writeBoth st dest callee (leBytes w.valSize (signExtended (src.handle.liveVals i).offsetOrConstant))) ↔
      w.valSize ≤ 4 ∨ SignContinued (src.handle.liveVals i) w.valSize := by
  rw [putVal_constant hsrc hw hd hc, Except.ok.injEq, ← constantBytes_iff src.handle i hn]
  constructor
  · exact writeBoth_inj (by rw [constantBytes_eq src.handle i hn, leBytes_length, leBytes_length])
  · exact fun h => by rw [h]

/-- The compiler gives a value that is no alloca no alloca size: there the sign must be 0. -/
theorem signContinued_compiled {v : LiveValue} (hv : v.allocaSize = 0) {n : Nat} (h4 : 4 < n) (h8 : n ≤ 8) :
    SignContinued v n ↔ 0 ≤ v.offsetOrConstant.toInt := by
  rw [SignContinued, hv, signWord]
  have hcases : n - 4 = 1 ∨ n - 4 = 2 ∨ n - 4 = 3 ∨ n - 4 = 4 := by omega
  split
  · refine iff_of_false ?_ (by omega)
    rcases hcases with h | h | h | h <;> rw [h] <;> decide
  · exact iff_of_true (by rw [UInt32.toNat_zero]) (by omega)

/-! ## Minus one -/

/-- The frame of `calledFrame`, from a binary where every live value is the constant -1. -/
def minusOneFrame : Ctx :=
  { calledFrame.ctx with handle := { bareHandle with liveVals := fun _ => ⟨false, false, false, false, 4, 8, 0, -1, 0⟩ } }

/-- A value in the callee-saved `%r12`. -/
def r12Live (size : UInt8) : LiveValue := ⟨false, false, false, false, 1, size, 12, 0, 0⟩

/-- As an `int` it arrives. -/
theorem constant_put_iff_int : putVal minusOneFrame 0 calledFrame (r12Live 4) =
    .ok (writeBoth calledFrame (.reg 1 104) (some (.reg 0 104)) (leBytes 4 (signExtended (-1)))) :=
  (constant_put_iff minusOneFrame 0 calledFrame (r12Live 4) (.reg 1 104) (some (.reg 0 104)) rfl rfl (by decide) rfl
    calledFrame_saved).mpr (.inl (by decide))

/-- As a `long` it becomes 2^32 - 1. -/
theorem minus_one_zero_extended : putVal minusOneFrame 0 calledFrame (r12Live 8) =
      .ok (writeBoth calledFrame (.reg 1 104) (some (.reg 0 104)) (leBytes 8 4294967295)) ∧
    putVal minusOneFrame 0 calledFrame (r12Live 8) ≠
      .ok (writeBoth calledFrame (.reg 1 104) (some (.reg 0 104)) (leBytes 8 (signExtended (-1)))) := by
  have hput : putVal minusOneFrame 0 calledFrame (r12Live 8) =
      .ok (writeBoth calledFrame (.reg 1 104) (some (.reg 0 104)) (constantBytes minusOneFrame.handle 0 8)) :=
    putVal_constant rfl rfl rfl calledFrame_saved
  rw [constantBytes_eq _ _ (by decide)] at hput
  refine ⟨hput, ?_⟩
  intro h
  have hbytes := writeBoth_inj (by rw [leBytes_length, leBytes_length]) (Except.ok.inj (hput.symm.trans h))
  exact absurd hbytes (by decide)

end Popcorn.Runtime
