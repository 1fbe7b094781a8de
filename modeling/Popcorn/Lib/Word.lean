/-
  Popcorn.Lib.Word — fixed-width integers.

  An integer type is its least value and how many values it has; arithmetic in it is
  arithmetic in the integers, wrapped. A value computed with wrapping at every step is the
  true one as soon as the true one is representable (`wrap_eq`), whatever the steps did.
-/

import Mathlib.Data.Int.ModEq
import Mathlib.Tactic.Common

namespace Popcorn.Lib

structure IntType where
  lo : Int
  modulus : Int

namespace IntType

def int32 : IntType := ⟨-2147483648, 4294967296⟩
def uint32 : IntType := ⟨0, 4294967296⟩
def int64 : IntType := ⟨-9223372036854775808, 18446744073709551616⟩
def uint64 : IntType := ⟨0, 18446744073709551616⟩

variable (t : IntType)

/-- The value is one of the type's. -/
def InRange (z : Int) : Prop := t.lo ≤ z ∧ z < t.lo + t.modulus

instance (z : Int) : Decidable (t.InRange z) := inferInstanceAs (Decidable (_ ∧ _))

def wrap (z : Int) : Int := t.lo + (z - t.lo) % t.modulus

variable {t}

theorem wrap_modEq (z : Int) : t.wrap z ≡ z [ZMOD t.modulus] := by
  have h : t.lo + (z - t.lo) % t.modulus ≡ t.lo + (z - t.lo) [ZMOD t.modulus] := (Int.mod_modEq _ _).add_left _
  rwa [show t.lo + (z - t.lo) = z by omega] at h

theorem wrap_eq {a b : Int} (h : a ≡ b [ZMOD t.modulus]) (hb : t.InRange b) : t.wrap a = b := by
  have hsub : a - t.lo ≡ b - t.lo [ZMOD t.modulus] := h.sub_right _
  have hlo := hb.1
  have hhi := hb.2
  unfold wrap
  rw [hsub, Int.emod_eq_of_lt (by omega) (by omega)]
  omega

theorem wrap_of_inRange {z : Int} (h : t.InRange z) : t.wrap z = z := wrap_eq rfl h

end IntType

end Popcorn.Lib
