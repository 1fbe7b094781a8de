/-
  Popcorn.Runtime.BitmapWords — the masks of a bitmap
  (lib/stack_transformation/include/bitmap.h).

  `bitmap_set` and `bitmap_is_set` pick a 64-bit word and build their mask as `1 << fine`
  with `fine` below 64. The shift is one of `int`: C leaves it undefined from 32 on, and for
  `fine = 31` too, where the compilers document that it gives the smallest `int`, which is
  widened to 64 bits by its sign. `IntShift` is that shift: `shiftC` faults where neither gives
  a result, `shiftTarget` is what both targets compute, whose 32-bit shifts take the count
  modulo 32.

  The storage is the `bitmap_size(n)` bytes from the bitmap's first word on; an access to
  any other word faults.

  Proved:
  - `bitmapSetWith_eq`, `bitmapIsSetWith_eq`: at positions below 31 of a word the shift on
    `int` is the 64-bit shift that the model of the runtime uses.
  - `bitmap_as_set_iff`: a bitmap behaves as a set just when it has at most 32 bits, and on
    the targets when with each bit that is set its partner, 32 away in the same word, is
    set or absent (`bitmap_not_a_set`).
-/

import Popcorn.Lib.Run
import Popcorn.Runtime.Context

namespace Popcorn.Runtime

open Popcorn.Lib

/-! ## Model -/

/-- `1 << fine` on `int`. -/
abbrev IntShift := Nat → Except Fault Int32

def shiftC (fine : Nat) : Except Fault Int32 := if fine < 32 then .ok (1 <<< Int32.ofNat fine) else .error .undefined

def shiftTarget (fine : Nat) : Except Fault Int32 := .ok (1 <<< Int32.ofNat (fine % 32))

/-- The conversion to `STORAGE_TYPE` that `|=` and `&` make. -/
def toStorage (i : Int32) : UInt64 := i.toInt64.toUInt64

/-- The number of words of the storage. -/
def Bitmap.storageWords (b : Bitmap) : Nat := bitmapSize b.size / 8

/-- `bitmap.bits[coarse]` lies in the storage. -/
def Bitmap.Within (b : Bitmap) (coarse : Nat) : Prop := coarse < b.storageWords

instance (b : Bitmap) (coarse : Nat) : Decidable (b.Within coarse) := inferInstanceAs (Decidable (_ < _))

/-- `bitmap_set`. -/
def bitmapSetWith (shl : IntShift) (b : Bitmap) (pool : Pool) (num : Nat) : Except Fault Pool := do
  let coarse := num / storageTypeBits
  let fine := num % storageTypeBits
  let mask ← shl fine
  if b.Within coarse then
    .ok (Function.update pool (b.bits + coarse) (pool (b.bits + coarse) ||| toStorage mask))
  else .error .outOfBounds

/-- `bitmap_is_set`. -/
def bitmapIsSetWith (shl : IntShift) (b : Bitmap) (pool : Pool) (num : Nat) : Except Fault Bool := do
  let coarse := num / storageTypeBits
  let fine := num % storageTypeBits
  let mask ← shl fine
  if b.Within coarse then .ok (decide (pool (b.bits + coarse) &&& toStorage mask ≠ 0)) else .error .outOfBounds

/-! ## Masks -/

/-- The mask both targets build for a bit number. -/
def intMask (num : Nat) : UInt64 := toStorage (1 <<< Int32.ofNat (num % 32))

theorem shiftTarget_eq (num : Nat) : shiftTarget (num % storageTypeBits) = .ok (1 <<< Int32.ofNat (num % 32)) := by
  have h : num % 64 % 32 = num % 32 := by omega
  rw [shiftTarget, storageTypeBits, h]

theorem shiftC_eq {num : Nat} (h : num % storageTypeBits < 32) : shiftC (num % storageTypeBits) = shiftTarget (num % storageTypeBits) := by
  rw [shiftC, if_pos h, shiftTarget, Nat.mod_eq_of_lt h]

theorem one_shift_toBitVec {k : Nat} (hk : k < 32) : (1 <<< Int32.ofNat k : Int32).toBitVec = 1#32 <<< k := by
  rw [Int32.toBitVec_shiftLeft]
  interval_cases k <;> rfl

/-- Position 31 is the sign of the `int` and fills the upper half of the word. -/
theorem intMask_bit (num j : Nat) :
    (intMask num).toBitVec.getLsbD j = decide (j < 64 ∧ (j = num % 32 ∨ (num % 32 = 31 ∧ 31 ≤ j))) := by
  have hk : num % 32 < 32 := Nat.mod_lt _ (by omega)
  unfold intMask toStorage
  rw [Int64.toBitVec_toUInt64, Int32.toBitVec_toInt64, one_shift_toBitVec hk, BitVec.getLsbD_signExtend,
    BitVec.msb_shiftLeft, BitVec.getLsbD_shiftLeft, Bool.eq_iff_iff]
  simp only [BitVec.getLsbD_one, BitVec.getMsbD_one, Bool.and_eq_true, decide_eq_true_eq]
  split
  · simp
    omega
  · simp
    omega

/-- Two masks meet just when their positions agree modulo 32. -/
theorem intMask_meet (a m : Nat) : intMask a &&& intMask m ≠ 0 ↔ a % 32 = m % 32 := by
  have hbit : ∀ j, (intMask a &&& intMask m).toBitVec.getLsbD j =
      ((intMask a).toBitVec.getLsbD j && (intMask m).toBitVec.getLsbD j) := by
    intro j
    rw [UInt64.toBitVec_and, BitVec.getLsbD_and]
  constructor
  · intro h
    by_contra hne
    refine h (UInt64.toBitVec_inj.mp (BitVec.eq_of_getLsbD_eq fun j hj => ?_))
    rw [hbit, intMask_bit, intMask_bit, ← Bool.decide_and]
    simp
    omega
  · intro h h0
    have hj := hbit (a % 32)
    rw [h0, intMask_bit, intMask_bit] at hj
    have : a % 32 < 32 := Nat.mod_lt _ (by omega)
    simp [h] at hj
    omega

/-- Below position 31 the mask is the bit itself. -/
theorem intMask_eq {num : Nat} (h : num % storageTypeBits < 31) : intMask num = bitMask num := by
  unfold storageTypeBits at h
  refine UInt64.toBitVec_inj.mp (BitVec.eq_of_getLsbD_eq fun j hj => ?_)
  have hb : (bitMask num).toBitVec.getLsbD j = (2 ^ (num % 64)).testBit j := by
    rw [← bitMask_toNat]
    rfl
  rw [intMask_bit, hb, Nat.testBit_two_pow, decide_eq_decide]
  constructor <;> intro _ <;> omega

/-! ## What the bits read -/

section
variable {b : Bitmap}

theorem within_of_lt {num : Nat} (h : num < b.size) : b.Within (num / storageTypeBits) := by
  unfold Bitmap.Within Bitmap.storageWords bitmapSize storageTypeBits
  split <;> omega

theorem set_target {pool : Pool} {num : Nat} (h : num < b.size) : bitmapSetWith shiftTarget b pool num =
    .ok (Function.update pool (b.bits + num / 64) (pool (b.bits + num / 64) ||| intMask num)) := by
  unfold bitmapSetWith
  dsimp only
  rw [shiftTarget_eq]
  exact if_pos (within_of_lt h)

theorem isSet_target {pool : Pool} {num : Nat} (h : num < b.size) :
    bitmapIsSetWith shiftTarget b pool num = .ok (decide (pool (b.bits + num / 64) &&& intMask num ≠ 0)) := by
  unfold bitmapIsSetWith
  dsimp only
  rw [shiftTarget_eq]
  exact if_pos (within_of_lt h)

/-- Where the compilers give the shift a result, it is the targets'. -/
theorem set_c {pool : Pool} {num : Nat} (h : num % storageTypeBits < 32) :
    bitmapSetWith shiftC b pool num = bitmapSetWith shiftTarget b pool num := by
  unfold bitmapSetWith
  dsimp only
  rw [shiftC_eq h]

theorem isSet_c {pool : Pool} {num : Nat} (h : num % storageTypeBits < 32) :
    bitmapIsSetWith shiftC b pool num = bitmapIsSetWith shiftTarget b pool num := by
  unfold bitmapIsSetWith
  dsimp only
  rw [shiftC_eq h]

/-- For bits below 31 of a word the runtime's model has the masks of the code. -/
theorem bitmapSetWith_eq {pool : Pool} {num words : Nat} (h : num % storageTypeBits < 31) (hn : num < b.size)
    (hw : b.bits + b.storageWords ≤ words) : bitmapSetWith shiftC b pool num = bitmapSet words pool b num := by
  have hin : num / storageTypeBits < b.storageWords := within_of_lt hn
  have hlt : b.bits + num / storageTypeBits < words := by omega
  rw [set_c (by omega), set_target hn, intMask_eq h]
  exact (if_pos hlt).symm

theorem bitmapIsSetWith_eq {pool : Pool} {num words : Nat} (h : num % storageTypeBits < 31) (hn : num < b.size)
    (hw : b.bits + b.storageWords ≤ words) : bitmapIsSetWith shiftC b pool num = bitmapIsSet words pool b num := by
  have hin : num / storageTypeBits < b.storageWords := within_of_lt hn
  have hlt : b.bits + num / storageTypeBits < words := by omega
  rw [isSet_c (by omega), isSet_target hn, intMask_eq h]
  exact (if_pos hlt).symm

/-- The storage after the calls for `done`: what a bit reads, and the words around it. -/
structure Marked (b : Bitmap) (pool : Pool) (done : List Nat) (pool' : Pool) : Prop where
  reads : ∀ m, pool' (b.bits + m / 64) &&& intMask m ≠ 0 ↔
    pool (b.bits + m / 64) &&& intMask m ≠ 0 ∨ ∃ a ∈ done, a / 64 = m / 64 ∧ a % 32 = m % 32
  outside : ∀ i, (i < b.bits ∨ b.bits + b.storageWords ≤ i) → pool' i = pool i

theorem Marked.nil (pool : Pool) : Marked b pool [] pool where
  reads m := by simp
  outside i _ := rfl

theorem or_meets (x y z : UInt64) : (x ||| y) &&& z ≠ 0 ↔ x &&& z ≠ 0 ∨ y &&& z ≠ 0 := by
  have h : (x ||| y) &&& z = x &&& z ||| y &&& z := UInt64.toBitVec_inj.mp BitVec.and_or_distrib_right
  rw [h, Ne, UInt64.or_eq_zero_iff]
  exact Decidable.not_and_iff_or_not

theorem Marked.step {pool pool' : Pool} {done : List Nat} {num : Nat} (h : Marked b pool done pool') (hn : num < b.size) :
    Marked b pool (done ++ [num]) (Function.update pool' (b.bits + num / 64) (pool' (b.bits + num / 64) ||| intMask num)) where
  reads m := by
    have hdone : (∃ a ∈ done ++ [num], a / 64 = m / 64 ∧ a % 32 = m % 32) ↔
        (∃ a ∈ done, a / 64 = m / 64 ∧ a % 32 = m % 32) ∨ (num / 64 = m / 64 ∧ num % 32 = m % 32) := by
      simp only [List.mem_append, List.mem_singleton, or_and_right, exists_or, exists_eq_left]
    rw [hdone, ← or_assoc, ← h.reads m]
    by_cases hw : num / 64 = m / 64
    · rw [hw, Function.update_self, or_meets, intMask_meet, and_iff_right rfl]
    · rw [Function.update_of_ne (by omega), or_iff_left (fun h => hw h.1)]
  outside i hi := by
    have hin : b.Within (num / 64) := within_of_lt hn
    unfold Bitmap.Within at hin
    rw [Function.update_of_ne (by omega)]
    exact h.outside i hi

theorem marked_run {pool : Pool} : ∀ (nums done : List Nat) (pool' : Pool), (∀ a ∈ nums, a < b.size) → Marked b pool done pool' →
    ∃ out, nums.foldlM (bitmapSetWith shiftTarget b) pool' = .ok out ∧ Marked b pool (done ++ nums) out := by
  intro nums
  induction nums with
  | nil =>
    intro done pool' _ h
    exact ⟨pool', rfl, by rwa [List.append_nil]⟩
  | cons num nums ih =>
    intro done pool' hlt h
    have hn := hlt num (by simp)
    obtain ⟨out, hout, hm⟩ := ih (done ++ [num]) _ (fun a ha => hlt a (by simp [ha])) (h.step hn)
    refine ⟨out, ?_, by rwa [List.append_assoc] at hm⟩
    rw [List.foldlM_cons, set_target hn]
    exact hout

end

/-! ## A bitmap as a set -/

/-- After `bitmap_set` of `nums` the bits below the size that read as set are `nums`, and no
    word outside the storage has changed. -/
def BitmapAsSet (shl : IntShift) (b : Bitmap) (pool : Pool) (nums : List Nat) : Prop :=
  ∃ out, nums.foldlM (bitmapSetWith shl b) pool = .ok out ∧
    (∀ m < b.size, bitmapIsSetWith shl b out m = .ok (decide (m ∈ nums))) ∧
    ∀ i, (i < b.bits ∨ b.bits + b.storageWords ≤ i) → out i = pool i

/-- With each bit set, the bit 32 away in its word is set too or is none of the bitmap's. -/
def PartnersSet (b : Bitmap) (nums : List Nat) : Prop :=
  ∀ a ∈ nums, ∀ m < b.size, a / 64 = m / 64 → a % 32 = m % 32 → m ∈ nums

instance (b : Bitmap) (nums : List Nat) : Decidable (PartnersSet b nums) := inferInstanceAs (Decidable (∀ a ∈ nums, _))

section
variable {b : Bitmap} {pool : Pool} {nums : List Nat} (hzero : ∀ i < b.storageWords, pool (b.bits + i) = 0)
  (hlt : ∀ a ∈ nums, a < b.size)

include hzero hlt in
theorem asSet_target_iff : BitmapAsSet shiftTarget b pool nums ↔ PartnersSet b nums := by
  obtain ⟨out, hout, hm⟩ := marked_run nums [] pool hlt (Marked.nil pool)
  have hreads : ∀ m < b.size, bitmapIsSetWith shiftTarget b out m =
      .ok (decide (∃ a ∈ nums, a / 64 = m / 64 ∧ a % 32 = m % 32)) := by
    intro m hlm
    have h0 : pool (b.bits + m / 64) = 0 := hzero _ (within_of_lt hlm)
    rw [isSet_target hlm, Except.ok.injEq, decide_eq_decide, hm.reads, h0]
    simp
  constructor
  · rintro ⟨out', hout', hset, -⟩ a ha m hlm h1 h2
    rw [hout, Except.ok.injEq] at hout'
    subst hout'
    have := hset m hlm
    rw [hreads m hlm, Except.ok.injEq, decide_eq_decide] at this
    exact this.mp ⟨a, ha, h1, h2⟩
  · intro hp
    refine ⟨out, hout, fun m hlm => ?_, hm.outside⟩
    rw [hreads m hlm, Except.ok.injEq, decide_eq_decide]
    exact ⟨fun ⟨a, ha, h1, h2⟩ => hp a ha m hlm h1 h2, fun h => ⟨m, h, rfl, rfl⟩⟩

include hzero hlt in
theorem asSet_c_iff : BitmapAsSet shiftC b pool nums ↔ b.size ≤ 32 := by
  constructor
  · rintro ⟨out, -, hset, -⟩
    by_contra hn
    have h : bitmapIsSetWith shiftC b out 32 = .error .undefined := rfl
    rw [hset 32 (by omega)] at h
    cases h
  · intro hn
    have hpos : ∀ m < b.size, m % storageTypeBits < 32 := by
      intro m hm
      unfold storageTypeBits
      omega
    have hsets : ∀ (xs : List Nat) (p : Pool), (∀ a ∈ xs, a < b.size) →
        xs.foldlM (bitmapSetWith shiftC b) p = xs.foldlM (bitmapSetWith shiftTarget b) p := by
      intro xs
      induction xs with
      | nil => intro p _; rfl
      | cons a xs ih =>
        intro p ha
        rw [List.foldlM_cons, List.foldlM_cons]
        rw [set_c (hpos a (ha a (by simp)))]
        congr 1
        funext q
        exact ih q fun c hc => ha c (by simp [hc])
    have hpart : PartnersSet b nums := by
      intro a ha m hm _ h
      have := hlt a ha
      rwa [show m = a by omega]
    obtain ⟨out, hout, hset, hrest⟩ := (asSet_target_iff hzero hlt).mpr hpart
    refine ⟨out, (hsets nums pool hlt).trans hout, fun m hm => ?_, hrest⟩
    rw [← hset m hm]
    exact isSet_c (hpos m hm)

end

/-- A bitmap that starts out as zero behaves as a set of the bits set just when no shift
    count reaches the width of `int`; as compiled, when each bit set comes with its partner. -/
theorem bitmap_as_set_iff (b : Bitmap) (pool : Pool) (nums : List Nat) (hzero : ∀ i < b.storageWords, pool (b.bits + i) = 0)
    (hlt : ∀ a ∈ nums, a < b.size) : (BitmapAsSet shiftC b pool nums ↔ b.size ≤ 32) ∧
      (BitmapAsSet shiftTarget b pool nums ↔ PartnersSet b nums) :=
  ⟨asSet_c_iff hzero hlt, asSet_target_iff hzero hlt⟩

/-- A bitmap of 32 bits with the highest set, and one of x86-64's 67 registers with a bit and its partner set. -/
theorem bitmap_as_set_iff_small : BitmapAsSet shiftC ⟨32, 0⟩ (fun _ => 0) [3, 31] ∧
    BitmapAsSet shiftTarget ⟨67, 0⟩ (fun _ => 0) [5, 37, 64] :=
  ⟨(bitmap_as_set_iff ⟨32, 0⟩ (fun _ => 0) [3, 31] (fun _ _ => rfl) (by decide)).1.mpr (by decide),
    (bitmap_as_set_iff ⟨67, 0⟩ (fun _ => 0) [5, 37, 64] (fun _ _ => rfl) (by decide)).2.mpr (by decide)⟩

/-- With bit 5 set, bit 37 reads as set on the targets and has no reading in C. -/
theorem bitmap_not_a_set : ¬ BitmapAsSet shiftC ⟨67, 0⟩ (fun _ => 0) [5] ∧ ¬ BitmapAsSet shiftTarget ⟨67, 0⟩ (fun _ => 0) [5] := by
  constructor
  · rw [asSet_c_iff (fun _ _ => rfl) (by decide)]
    decide
  · rw [asSet_target_iff (fun _ _ => rfl) (by decide)]
    decide

end Popcorn.Runtime
