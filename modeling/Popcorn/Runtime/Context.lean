/-
  Popcorn.Runtime.Context — the rewriting context
  (lib/stack_transformation/include/{definitions,bitmap}.h).

  A context holds the activations found so far, the fixups to be resolved, and the pool
  its callee-saved bitmaps are cut from. The pool is an array of 64-bit words
  (`STORAGE_TYPE*`): a bitmap is the index of its first word. `malloc` leaves the pool
  and the register sets unspecified, so their first contents are parameters of the model.

  Proved: what the bits of a bitmap read after `bitmap_set` (`isSet_set`).
-/

import Mathlib.Data.Nat.Bitwise
import Popcorn.Metadata.Lookup
import Popcorn.Runtime.Arch

namespace Popcorn.Runtime

open Popcorn.Lib Popcorn.Metadata

/-- `MAX_FRAMES`. -/
def maxFrames : Nat := 512

/-! ## Bitmaps -/

/-- `STORAGE_TYPE_BITS`. -/
def storageTypeBits : Nat := 64

/-- `bitmap_size`: the size of a bitmap of `num` bits, in bytes. -/
def bitmapSize (num : Nat) : Nat :=
  8 * (if num % storageTypeBits ≠ 0 then num / storageTypeBits + 1 else num / storageTypeBits)

structure Bitmap where
  size : Nat
  bits : Nat

abbrev Pool := Nat → UInt64

/-- The number of words of a context's pool: `bitmap_size(num_regs) * MAX_FRAMES` bytes. -/
def poolWords (a : Arch) : Nat := bitmapSize (getRegops a).numRegs * maxFrames / 8

/-- The mask `1 << fine`. The shift is on `int`; only callee-saved registers are looked up
    and set, and their bits are below 31. -/
def bitMask (num : Nat) : UInt64 := 1 <<< UInt64.ofNat (num % storageTypeBits)

/-- `bitmap_set`. -/
def bitmapSet (words : Nat) (pool : Pool) (b : Bitmap) (num : Nat) : Except Fault Pool :=
  let coarse := b.bits + num / storageTypeBits
  if coarse < words then .ok (Function.update pool coarse (pool coarse ||| bitMask num)) else .error .outOfBounds

/-- The bit `num` of a bitmap. -/
def testBit (pool : Pool) (b : Bitmap) (num : Nat) : Bool :=
  decide (pool (b.bits + num / storageTypeBits) &&& bitMask num ≠ 0)

/-- `bitmap_is_set`. -/
def bitmapIsSet (words : Nat) (pool : Pool) (b : Bitmap) (num : Nat) : Except Fault Bool :=
  if b.bits + num / storageTypeBits < words then .ok (testBit pool b num) else .error .outOfBounds

/-! ## Contexts -/

/-- `struct activation`. -/
structure Activation where
  site : CallSite
  cfa : Nat
  regs : RegSet
  calleeSaved : Bitmap

/-- `struct fixup`. -/
structure Fixup where
  srcAddr : Nat
  act : Nat
  destLoc : LiveValue
  deriving DecidableEq, Repr

/-- `struct rewrite_context`. -/
structure Ctx where
  handle : Handle
  stackBase : Nat
  stack : Nat
  numActs : Nat
  act : Nat
  acts : Nat → Activation
  stackPointers : List Fixup
  pool : Pool

namespace Ctx

def regops (c : Ctx) : RegOps := getRegops c.handle.arch
def props (c : Ctx) : Props := getProperties c.handle.arch

/-- `ACT(ctx)`. -/
def cur (c : Ctx) : Activation := c.acts c.act

/-- Update one activation. -/
def modAct (c : Ctx) (k : Nat) (f : Activation → Activation) : Ctx := { c with acts := Function.update c.acts k (f (c.acts k)) }

section ModAct
variable (c : Ctx) (k : Nat) (f : Activation → Activation)

@[simp] theorem modAct_handle : (c.modAct k f).handle = c.handle := rfl
@[simp] theorem modAct_stackBase : (c.modAct k f).stackBase = c.stackBase := rfl
@[simp] theorem modAct_stack : (c.modAct k f).stack = c.stack := rfl
@[simp] theorem modAct_numActs : (c.modAct k f).numActs = c.numActs := rfl
@[simp] theorem modAct_act : (c.modAct k f).act = c.act := rfl
@[simp] theorem modAct_stackPointers : (c.modAct k f).stackPointers = c.stackPointers := rfl
@[simp] theorem modAct_pool : (c.modAct k f).pool = c.pool := rfl
@[simp] theorem modAct_regops : (c.modAct k f).regops = c.regops := rfl
@[simp] theorem modAct_props : (c.modAct k f).props = c.props := rfl
@[simp] theorem modAct_same : (c.modAct k f).acts k = f (c.acts k) := by simp [modAct]
@[simp] theorem modAct_ne {j : Nat} (h : j ≠ k) : (c.modAct k f).acts j = c.acts j := by simp [modAct, h]

/-- Two updates of one activation are one. -/
theorem modAct_modAct (g : Activation → Activation) : (c.modAct k f).modAct k g = c.modAct k fun x => g (f x) := by
  simp [modAct]

end ModAct

end Ctx

/-! ## What the bits read -/

theorem bitmapSize_numRegs (a : Arch) : bitmapSize (getRegops a).numRegs = 16 := by cases a <;> rfl
theorem poolWords_eq (a : Arch) : poolWords a = 1024 := by cases a <;> rfl

theorem bitMask_toNat (num : Nat) : (bitMask num).toNat = 2 ^ (num % 64) := by
  have h : num % 64 < 64 := Nat.mod_lt _ (by omega)
  have h2 : 2 ^ (num % 64) < 2 ^ 64 := Nat.pow_lt_pow_right (by omega) h
  simp only [bitMask, storageTypeBits, UInt64.toNat_shiftLeft, UInt64.toNat_ofNat', UInt64.reduceToNat]
  rw [Nat.mod_eq_of_lt (show num % 64 < 2 ^ 64 by omega), Nat.mod_mod, Nat.one_shiftLeft, Nat.mod_eq_of_lt h2]

/-- A bit of a bitmap is a bit of its word. -/
theorem testBit_iff (pool : Pool) (b : Bitmap) (num : Nat) :
    testBit pool b num = (pool (b.bits + num / 64)).toNat.testBit (num % 64) := by
  rw [Bool.eq_iff_iff]
  unfold testBit storageTypeBits
  rw [decide_eq_true_iff, Ne, ← UInt64.toNat_inj, UInt64.toNat_and, bitMask_toNat, Nat.and_two_pow]
  cases (pool (b.bits + num / 64)).toNat.testBit (num % 64)
  · simp
  · simp

theorem isSet_set {words : Nat} {pool pool' : Pool} {b : Bitmap} {num : Nat} (h : bitmapSet words pool b num = .ok pool')
    (b' : Bitmap) (num' : Nat) :
    testBit pool' b' num' = (testBit pool b' num' || decide (b'.bits + num' / 64 = b.bits + num / 64 ∧ num' % 64 = num % 64)) := by
  unfold bitmapSet storageTypeBits at h
  simp only at h
  split at h
  · cases h
    simp only [testBit_iff]
    by_cases hw : b'.bits + num' / 64 = b.bits + num / 64
    · rw [hw, Function.update_self, UInt64.toNat_or, Nat.testBit_or, bitMask_toNat, Nat.testBit_two_pow]
      simp [eq_comm]
    · rw [Function.update_of_ne hw]
      simp [hw]
  · cases h

end Popcorn.Runtime
