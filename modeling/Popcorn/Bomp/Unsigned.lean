/-
  Popcorn.Bomp.Unsigned — the unsigned loop schedulers against the signed ones
  (lib/libbomp/kmp.c, `__kmpc_for_static_init_{4u,8u}` and `__kmpc_for_static_init_{4,8}`).

  The macro is compiled at both types of a width. Addition and multiplication agree modulo the
  width, so the two can differ only where a value is compared or divided: in the trip count,
  and in a chunk size below 1. An unsigned increment below -1 takes the branch of an
  increment above 1, and the distance of a loop that runs the other way is a huge one.

  Proved: `unsigned_agrees_iff`: for each schedule, where the unsigned version writes what the
  signed one does. In the static schedule, which never reads the chunk size, it is the loops
  whose trips both count alike. In the chunked schedule it is said of each call, and of the loops
  all of whose calls agree.
-/

import Popcorn.Bomp.StaticInit

namespace Popcorn.Bomp

open Popcorn.Lib

/-! ## The two types of a width -/

inductive Width where
  | w32
  | w64
  deriving DecidableEq, Repr

namespace Width

def signed : Width → LoopType
  | .w32 => .int32
  | .w64 => .int64

def unsigned : Width → LoopType
  | .w32 => .uint32
  | .w64 => .uint64

/-- `2 ^ (w - 1)`. -/
def half : Width → Int
  | .w32 => 2147483648
  | .w64 => 9223372036854775808

variable (w : Width)

theorem signed_lo : w.signed.type.lo = -w.half := by cases w <;> rfl
theorem signed_modulus : w.signed.type.modulus = 2 * w.half := by cases w <;> rfl
theorem unsigned_lo : w.unsigned.type.lo = 0 := by cases w <;> rfl
theorem unsigned_modulus : w.unsigned.type.modulus = 2 * w.half := by cases w <;> rfl
theorem half_ge : 2147483648 ≤ w.half := by cases w <;> decide
theorem modulus_three : (2 * w.half - 1) % 3 = 0 := by cases w <;> rfl

/-- A signed value as the unsigned version has it. -/
def toUnsigned (z : Int) : Int := w.unsigned.type.wrap z

def boundsToUnsigned (b : Bounds) : Bounds := ⟨b.lastiter, w.toUnsigned b.lower, w.toUnsigned b.upper, w.toUnsigned b.stride⟩

end Width

/-! ## Overflow -/

/-- The operations of `total_trips` stay in the type. -/
def TripsFit (t : IntType) (lower upper incr : Int) : Prop :=
  if incr = 1 then t.InRange (upper - lower) ∧ t.InRange (upper - lower + 1)
  else if incr = -1 then t.InRange (lower - upper) ∧ t.InRange (lower - upper + 1)
  else if incr > 1 then t.InRange (upper - lower) ∧ t.InRange ((upper - lower).tdiv incr + 1)
  else t.InRange (lower - upper) ∧ t.InRange (-incr) ∧ t.InRange ((lower - upper).tdiv (-incr) + 1)

/-- The operations of `kmp_sch_static` stay in the type. -/
def StaticFit (t : IntType) (nthreads gtid trips lower upper incr : Int) : Prop :=
  if trips < nthreads then
    (if gtid < trips then t.InRange (gtid * incr) ∧ t.InRange (lower + gtid * incr) else t.InRange (upper + incr)) ∧
      t.InRange (trips - 1)
  else
    let chunk := trips.tdiv nthreads
    let extras := trips.tmod nthreads
    let first := gtid * chunk + (if gtid < extras then gtid else extras)
    let l := lower + incr * first
    t.InRange (gtid * chunk) ∧ t.InRange first ∧ t.InRange (incr * first) ∧ t.InRange l ∧ t.InRange (chunk * incr) ∧
      t.InRange (l + chunk * incr) ∧ t.InRange (l + chunk * incr - (if gtid < extras then 0 else incr))

/-- The operations of `kmp_sch_static_chunked` stay in the type. -/
def ChunkedFit (t : IntType) (nthreads gtid trips lower incr chunk : Int) : Prop :=
  let span := spanOf incr chunk
  t.InRange span ∧ t.InRange (span * nthreads) ∧ t.InRange (span * gtid) ∧ t.InRange (lower + span * gtid) ∧
    t.InRange (lower + span * gtid + span) ∧ t.InRange (lower + span * gtid + span - incr) ∧ t.InRange (trips - 1)

instance (t : IntType) (lower upper incr : Int) : Decidable (TripsFit t lower upper incr) := inferInstanceAs (Decidable (ite _ _ _))

instance (t : IntType) (nthreads gtid trips lower upper incr : Int) : Decidable (StaticFit t nthreads gtid trips lower upper incr) :=
  inferInstanceAs (Decidable (ite _ _ _))

/-- No operation of the signed version's call overflows. -/
def NoOverflow (t : LoopType) (nthreads gtid schedtype lower upper incr chunk : Int) : Prop :=
  TripsFit t.type lower upper incr ∧
    match SchedType.ofCode schedtype with
    | some .static => StaticFit t.type nthreads gtid (totalTrips t.type lower upper incr) lower upper incr
    | some .staticChunked => ChunkedFit t.type nthreads gtid (totalTrips t.type lower upper incr) lower incr chunk
    | none => True

/-! ## Agreement -/

/-- The two versions write the same in a call. -/
def CallAgrees (w : Width) (nthreads gtid schedtype lower upper stride incr chunk : Int) : Prop :=
  kmpcForStaticInit w.unsigned nthreads gtid schedtype lower upper (w.toUnsigned stride) (w.toUnsigned incr) (w.toUnsigned chunk) =
    (kmpcForStaticInit w.signed nthreads gtid schedtype lower upper stride incr chunk).map w.boundsToUnsigned

instance (w : Width) (nthreads gtid schedtype lower upper stride incr chunk : Int) :
    Decidable (CallAgrees w nthreads gtid schedtype lower upper stride incr chunk) := inferInstanceAs (Decidable (_ = _))

/-- The arguments a call takes besides the loop, and `omp_get_num_threads`. -/
structure Called (w : Width) (nthreads gtid stride chunk : Int) : Prop where
  threads : 1 ≤ nthreads ∧ nthreads ≤ 2147483647
  gtidIn : 0 ≤ gtid ∧ gtid ≤ 2147483647
  strideIn : w.signed.type.InRange stride
  chunkIn : w.signed.type.InRange chunk

/-- Every call of a loop in a schedule, with a chunk size of a kind, that does not overflow in the
    signed version writes the same in the unsigned one. -/
def Agrees (w : Width) (s : SchedType) (lower upper incr : Int) (kind : Int → Prop) : Prop :=
  ∀ nthreads gtid stride chunk : Int, Called w nthreads gtid stride chunk → kind chunk →
    NoOverflow w.signed nthreads gtid s.code lower upper incr chunk →
    CallAgrees w nthreads gtid s.code lower upper stride incr chunk

/-- The two versions count the same trips. -/
structure SameTrips (lower upper incr : Int) : Prop where
  one : incr = 1 → lower ≤ upper + 1
  minusOne : incr = -1 → upper ≤ lower + 1
  up : 1 < incr → lower ≤ upper
  down : incr < -1 → upper = lower ∨ upper = lower + incr ∨ (lower < upper ∧ upper < lower - incr)

/-- A loop without iterations that is counted as one has its last iteration in some thread of the
    unsigned version, unless no chunk fits above `lower`. -/
structure SameLast (w : Width) (lower upper incr : Int) : Prop where
  one : incr = 1 → lower ≤ upper ∨ lower = w.half - 1
  minusOne : incr = -1 → upper ≤ lower

/-- The index of the last iteration, from the distance to the upper bound. -/
def lastIndex (lower upper incr : Int) : Int := (upper - lower).tdiv incr

/-- The same in the unsigned type, which takes the distance the increment's way only for an
    increment of -1. -/
def unsignedLastIndex (w : Width) (lower upper incr : Int) : Int :=
  if incr = -1 then w.toUnsigned (lower - upper) else w.toUnsigned (upper - lower) / w.toUnsigned incr

/-- A chunked call: the chunks are as long modulo the width, and the thread is in both versions
    the one with the last iteration or in both not. -/
structure ChunkAgrees (w : Width) (nthreads gtid lower upper incr chunk : Int) : Prop where
  span : chunk < 0 → 2 * w.half ∣ (chunk - 1) * incr
  last : gtid = ((lastIndex lower upper incr).tdiv (max 1 chunk)).tmod nthreads ↔
    gtid = unsignedLastIndex w lower upper incr / max 1 (w.toUnsigned chunk) % nthreads

/-- Which calls of a loop agree, for each schedule. -/
structure AgreeBySchedule (w : Width) (lower upper incr : Int) : Prop where
  static : Agrees w .static lower upper incr (fun _ => True) ↔ SameTrips lower upper incr
  chunked : ∀ nthreads gtid stride chunk : Int, Called w nthreads gtid stride chunk →
    NoOverflow w.signed nthreads gtid SchedType.staticChunked.code lower upper incr chunk →
    (CallAgrees w nthreads gtid SchedType.staticChunked.code lower upper stride incr chunk ↔
      ChunkAgrees w nthreads gtid lower upper incr chunk)
  /-- No call with a negative chunk size fits, or one disagrees. -/
  negative : Agrees w .staticChunked lower upper incr (· < 0) ↔ w.half ≤ lower + incr
  counted : SameTrips lower upper incr → (Agrees w .staticChunked lower upper incr (0 ≤ ·) ↔ SameLast w lower upper incr)
  unknown : ∀ nthreads gtid schedtype stride chunk : Int, SchedType.ofCode schedtype = none →
    CallAgrees w nthreads gtid schedtype lower upper stride incr chunk

/-! ## Values of the two types -/

section
variable {w : Width}

theorem inRange_signed {z : Int} : w.signed.type.InRange z ↔ -w.half ≤ z ∧ z < w.half := by
  unfold IntType.InRange
  rw [w.signed_lo, w.signed_modulus]
  exact and_congr_right fun _ => by omega

theorem unsigned_wrap (z : Int) : w.unsigned.type.wrap z = z % (2 * w.half) := by
  unfold IntType.wrap
  rw [w.unsigned_lo, w.unsigned_modulus, Int.zero_add, Int.sub_zero]

theorem unsigned_wrap_of_nonneg {z : Int} (h0 : 0 ≤ z) (h : z < 2 * w.half) : w.unsigned.type.wrap z = z :=
  (unsigned_wrap z).trans (Int.emod_eq_of_lt h0 h)

theorem toUnsigned_of_nonneg {z : Int} (h0 : 0 ≤ z) (h : z < w.half) : w.toUnsigned z = z :=
  unsigned_wrap_of_nonneg h0 (by omega)

theorem toUnsigned_of_neg {z : Int} (h0 : z < 0) (h : -w.half ≤ z) : w.toUnsigned z = z + 2 * w.half := by
  rw [Width.toUnsigned, unsigned_wrap, ← Int.add_mul_emod_self_left z (2 * w.half) 1, Int.mul_one]
  exact Int.emod_eq_of_lt (by omega) (by omega)

/-! ## Trips -/

/-- The trips without the wrapping. -/
def exactTrips (lower upper incr : Int) : Int :=
  if incr = 1 then upper - lower + 1
  else if incr = -1 then lower - upper + 1
  else if incr > 1 then (upper - lower).tdiv incr + 1
  else (lower - upper).tdiv (-incr) + 1

variable {lower upper incr : Int}

theorem signed_trips (h : TripsFit w.signed.type lower upper incr) :
    totalTrips w.signed.type lower upper incr = exactTrips lower upper incr := by
  have hminus : w.signed.type.wrap (-1) = -1 := by cases w <;> rfl
  unfold TripsFit at h
  unfold totalTrips exactTrips
  rw [hminus]
  split_ifs at h ⊢ with h1 h2 h3
  · rw [IntType.wrap_of_inRange h.1, IntType.wrap_of_inRange h.2]
  · rw [IntType.wrap_of_inRange h.1, IntType.wrap_of_inRange h.2]
  · rw [IntType.wrap_of_inRange h.1, IntType.wrap_of_inRange h.2]
  · rw [IntType.wrap_of_inRange h.1, IntType.wrap_of_inRange h.2.1, IntType.wrap_of_inRange h.2.2]

/-- An increment below -1 is one above 1 in the unsigned version. -/
theorem unsigned_trips (hi : w.signed.type.InRange incr) (h0 : incr ≠ 0) :
    totalTrips w.unsigned.type lower upper (w.toUnsigned incr) =
      if incr = 1 then w.toUnsigned (upper - lower + 1)
      else if incr = -1 then w.toUnsigned (lower - upper + 1)
      else w.toUnsigned ((w.toUnsigned (upper - lower)).tdiv (w.toUnsigned incr) + 1) := by
  have hH := w.half_ge
  obtain ⟨hlo, hhi⟩ := inRange_signed.mp hi
  have hadd : ∀ z, w.unsigned.type.wrap (w.unsigned.type.wrap z + 1) = w.toUnsigned (z + 1) := by
    intro z
    rw [Width.toUnsigned, unsigned_wrap, unsigned_wrap, unsigned_wrap, Int.emod_add_emod]
  have hminus : w.unsigned.type.wrap (-1) = 2 * w.half - 1 := (toUnsigned_of_neg (by decide) (by omega)).trans (by omega)
  unfold totalTrips
  rw [hminus, hadd, hadd]
  by_cases hneg : incr < 0
  · rw [toUnsigned_of_neg hneg hlo, if_neg (by omega)]
    by_cases hm : incr = -1
    · rw [if_pos (by omega), if_neg (by omega), if_pos hm]
    · rw [if_neg (by omega), if_pos (by omega), if_neg (by omega), if_neg hm]
      rfl
  · rw [toUnsigned_of_nonneg (by omega) hhi]
    by_cases h1 : incr = 1
    · rw [if_pos h1, if_pos h1]
    · rw [if_neg h1, if_neg (by omega), if_pos (by omega), if_neg h1, if_neg (by omega)]
      rfl

/-- The bounds are values of both types, and the increment is one whose negation is. -/
structure Bounded (w : Width) (lower upper incr : Int) : Prop where
  lowerIn : 0 ≤ lower ∧ lower < w.half
  upperIn : 0 ≤ upper ∧ upper < w.half
  incrIn : -w.half < incr ∧ incr < w.half
  incr_ne : incr ≠ 0

/-- Where the distance runs the increment's way both types divide the same numbers. -/
theorem same_trips (hb : Bounded w lower upper incr) (hs : SameTrips lower upper incr) (hfit : TripsFit w.signed.type lower upper incr) :
    totalTrips w.unsigned.type lower upper (w.toUnsigned incr) = exactTrips lower upper incr ∧ 0 ≤ exactTrips lower upper incr := by
  have hH := w.half_ge
  obtain ⟨⟨hl0, hl⟩, ⟨hu0, hu⟩, ⟨hilo, hihi⟩, h0⟩ := hb
  rw [unsigned_trips (inRange_signed.mpr ⟨by omega, hihi⟩) h0]
  unfold TripsFit at hfit
  unfold exactTrips
  by_cases h1 : incr = 1
  · rw [if_pos h1] at hfit ⊢
    rw [if_pos h1]
    have hle := hs.one h1
    exact ⟨toUnsigned_of_nonneg (by omega) (inRange_signed.mp hfit.2).2, by omega⟩
  rw [if_neg h1] at hfit ⊢
  rw [if_neg h1]
  by_cases hm : incr = -1
  · rw [if_pos hm] at hfit ⊢
    rw [if_pos hm]
    have hle := hs.minusOne hm
    exact ⟨toUnsigned_of_nonneg (by omega) (inRange_signed.mp hfit.2).2, by omega⟩
  rw [if_neg hm] at hfit ⊢
  rw [if_neg hm]
  by_cases hup : incr > 1
  · rw [if_pos hup] at hfit ⊢
    have hle := hs.up hup
    have hq : 0 ≤ (upper - lower).tdiv incr := Int.tdiv_nonneg (by omega) (by omega)
    rw [toUnsigned_of_nonneg (by omega) (show upper - lower < w.half by omega), toUnsigned_of_nonneg (by omega) hihi]
    exact ⟨toUnsigned_of_nonneg (by omega) (inRange_signed.mp hfit.2).2, by omega⟩
  · rw [if_neg hup] at hfit ⊢
    rw [toUnsigned_of_neg (show incr < 0 by omega) (by omega)]
    rcases hs.down (by omega) with heq | heq | ⟨hlt, hlt'⟩
    · rw [heq, Int.sub_self, toUnsigned_of_nonneg (Int.le_refl 0) (by omega), Int.zero_tdiv, Int.zero_tdiv]
      exact ⟨toUnsigned_of_nonneg (by decide) (by omega), by decide⟩
    · have hd : upper - lower = incr := by omega
      have hd' : lower - upper = -incr := by omega
      rw [hd, hd', toUnsigned_of_neg (show incr < 0 by omega) (by omega), Int.tdiv_self (by omega), Int.tdiv_self (by omega)]
      exact ⟨toUnsigned_of_nonneg (by decide) (by omega), by decide⟩
    · have hd : (lower - upper).tdiv (-incr) = 0 := by
        rw [← Int.neg_sub, Int.neg_tdiv, Int.tdiv_eq_zero_of_lt (by omega) (by omega)]
        rfl
      rw [toUnsigned_of_nonneg (by omega) (show upper - lower < w.half by omega), Int.tdiv_eq_zero_of_lt (by omega) (by omega), hd]
      exact ⟨toUnsigned_of_nonneg (by decide) (by omega), by decide⟩

/-- What the signed and the unsigned trips can be where they differ. -/
inductive TripsDiffer (w : Width) (lower upper incr : Int) (trips unsignedTrips : Int) : Prop
  | empty (h : trips ≤ 0) (hlo : -w.half < trips) (hu : 1 ≤ unsignedTrips) (past : w.signed.type.InRange (upper + incr))
  | single (h : trips = 1) (hu : 2 ≤ unsignedTrips)
  | several (h : 2 ≤ trips) (hu : unsignedTrips = 1) (hdown : incr < -1) (hmul : trips * -incr ≤ lower - upper - incr)

/-- Counting up by more than one: the bounds are the wrong way round. -/
theorem other_trips_up (hb : Bounded w lower upper incr) (hup : 1 < incr) (hd : upper < lower) :
    (w.signed.type.InRange (upper - lower) ∧ w.signed.type.InRange ((upper - lower).tdiv incr + 1)) ∧
      TripsDiffer w lower upper incr ((upper - lower).tdiv incr + 1)
        (w.toUnsigned ((w.toUnsigned (upper - lower)).tdiv (w.toUnsigned incr) + 1)) := by
  have hH := w.half_ge
  obtain ⟨⟨hl0, hl⟩, ⟨hu0, hu⟩, ⟨hilo, hihi⟩, h0⟩ := hb
  simp only [inRange_signed]
  rw [toUnsigned_of_neg (show upper - lower < 0 by omega) (by omega), toUnsigned_of_nonneg (by omega) hihi]
  -- the quotients of the distance and of its complement
  have hq : (upper - lower).tdiv incr = -((lower - upper) / incr) := by
    rw [← Int.neg_sub, Int.neg_tdiv, Int.tdiv_eq_ediv_of_nonneg (by omega)]
  have hv : (upper - lower + 2 * w.half).tdiv incr = (upper - lower + 2 * w.half) / incr := Int.tdiv_eq_ediv_of_nonneg (by omega)
  have hqlo : 0 ≤ (lower - upper) / incr := Int.ediv_nonneg (by omega) (by omega)
  have hqhi : (lower - upper) / incr ≤ lower - upper := Int.ediv_le_self _ (by omega)
  have hvlo : 1 ≤ (upper - lower + 2 * w.half) / incr := (Int.le_ediv_iff_mul_le (by omega)).mpr (by omega)
  have hvhi : (upper - lower + 2 * w.half) / incr < w.half := Int.ediv_lt_of_lt_mul (by omega) (by nlinarith)
  have hV : w.toUnsigned ((upper - lower + 2 * w.half) / incr + 1) = (upper - lower + 2 * w.half) / incr + 1 :=
    unsigned_wrap_of_nonneg (by omega) (by omega)
  rw [hq, hv, hV]
  refine ⟨by omega, ?_⟩
  by_cases hz : (lower - upper) / incr = 0
  · exact .single (by omega) (by omega)
  · have hge : 1 * incr ≤ lower - upper := (Int.le_ediv_iff_mul_le (by omega)).mp (by omega)
    exact .empty (by omega) (by omega) (by omega) (inRange_signed.mpr (by omega))

/-- Counting down by more than one, from an upper bound below the lower one. -/
theorem other_trips_down (hb : Bounded w lower upper incr) (hdown : incr < -1) (hlt : upper < lower) (hne : upper ≠ lower + incr) :
    (w.signed.type.InRange (lower - upper) ∧ w.signed.type.InRange (-incr) ∧
      w.signed.type.InRange ((lower - upper).tdiv (-incr) + 1)) ∧
      TripsDiffer w lower upper incr ((lower - upper).tdiv (-incr) + 1)
        (w.toUnsigned ((w.toUnsigned (upper - lower)).tdiv (w.toUnsigned incr) + 1)) := by
  have hH := w.half_ge
  obtain ⟨⟨hl0, hl⟩, ⟨hu0, hu⟩, ⟨hilo, hihi⟩, h0⟩ := hb
  simp only [inRange_signed]
  rw [toUnsigned_of_neg (show incr < 0 by omega) (by omega), toUnsigned_of_neg (show upper - lower < 0 by omega) (by omega),
    Int.tdiv_eq_ediv_of_nonneg (show 0 ≤ lower - upper by omega),
    Int.tdiv_eq_ediv_of_nonneg (show 0 ≤ upper - lower + 2 * w.half by omega)]
  have hdiv := Int.emod_add_mul_ediv (lower - upper) (-incr)
  have hr := Int.emod_lt_of_pos (lower - upper) (show 0 < -incr by omega)
  have hr0 := Int.emod_nonneg (lower - upper) (show -incr ≠ 0 by omega)
  have hqlo : 0 ≤ (lower - upper) / -incr := Int.ediv_nonneg (by omega) (by omega)
  have hqhi : 2 * ((lower - upper) / -incr) ≤ -incr * ((lower - upper) / -incr) := Int.mul_le_mul_of_nonneg_right (by omega) hqlo
  refine ⟨by omega, ?_⟩
  by_cases hpast : upper < lower + incr
  · have hv : (upper - lower + 2 * w.half) / (incr + 2 * w.half) = 0 := Int.ediv_eq_zero_of_lt (by omega) (by omega)
    have hge : 1 ≤ (lower - upper) / -incr := (Int.le_ediv_iff_mul_le (by omega)).mpr (by omega)
    rw [hv]
    refine .several (by omega) (toUnsigned_of_nonneg (by decide) (by omega)) (by omega) ?_
    rw [Int.add_mul, Int.mul_comm]
    omega
  · have hv : (upper - lower + 2 * w.half) / (incr + 2 * w.half) = 1 :=
      (Int.ediv_eq_iff_of_pos (by omega)).mpr ⟨by omega, by omega⟩
    rw [hv, Int.ediv_eq_zero_of_lt (by omega) (by omega)]
    exact .single (by omega) (by rw [toUnsigned_of_nonneg (by decide) (by omega)]; decide)

/-- Counting down by more than one, with the bounds the wrong way round. -/
theorem other_trips_down_past (hb : Bounded w lower upper incr) (hdown : incr < -1) (hgt : lower < upper)
    (hpast : lower - incr ≤ upper) :
    (w.signed.type.InRange (lower - upper) ∧ w.signed.type.InRange (-incr) ∧
      w.signed.type.InRange ((lower - upper).tdiv (-incr) + 1)) ∧
      TripsDiffer w lower upper incr ((lower - upper).tdiv (-incr) + 1)
        (w.toUnsigned ((w.toUnsigned (upper - lower)).tdiv (w.toUnsigned incr) + 1)) := by
  have hH := w.half_ge
  obtain ⟨⟨hl0, hl⟩, ⟨hu0, hu⟩, ⟨hilo, hihi⟩, h0⟩ := hb
  simp only [inRange_signed]
  have hv : (upper - lower).tdiv (incr + 2 * w.half) = 0 := Int.tdiv_eq_zero_of_lt (by omega) (by omega)
  have hq : (lower - upper).tdiv (-incr) = -((upper - lower) / -incr) := by
    rw [← Int.neg_sub, Int.neg_tdiv, Int.tdiv_eq_ediv_of_nonneg (by omega)]
  have hqhi : (upper - lower) / -incr ≤ upper - lower := Int.ediv_le_self _ (by omega)
  have hge : 1 ≤ (upper - lower) / -incr := (Int.le_ediv_iff_mul_le (by omega)).mpr (by omega)
  rw [toUnsigned_of_neg (show incr < 0 by omega) (by omega), toUnsigned_of_nonneg (by omega) (show upper - lower < w.half by omega),
    hv, hq]
  refine ⟨by omega, .empty (by omega) (by omega) ?_ (inRange_signed.mpr (by omega))⟩
  rw [toUnsigned_of_nonneg (by decide) (by omega)]
  decide

/-- Where it runs the other way, or counts down by more than one. -/
theorem other_trips (hb : Bounded w lower upper incr) (hs : ¬ SameTrips lower upper incr) :
    TripsFit w.signed.type lower upper incr ∧ TripsDiffer w lower upper incr (exactTrips lower upper incr)
      (totalTrips w.unsigned.type lower upper (w.toUnsigned incr)) := by
  have hH := w.half_ge
  have hb' := hb
  obtain ⟨⟨hl0, hl⟩, ⟨hu0, hu⟩, ⟨hilo, hihi⟩, h0⟩ := hb'
  rw [unsigned_trips (inRange_signed.mpr ⟨by omega, hihi⟩) h0]
  unfold TripsFit exactTrips
  by_cases h1 : incr = 1
  · have hd : upper < lower - 1 := by
      by_contra hge
      exact hs ⟨fun _ => by omega, fun h => by omega, fun h => by omega, fun h => by omega⟩
    simp only [if_pos h1, inRange_signed]
    rw [toUnsigned_of_neg (by omega) (by omega)]
    exact ⟨by omega, .empty (by omega) (by omega) (by omega) (inRange_signed.mpr (by omega))⟩
  rw [if_neg h1, if_neg h1, if_neg h1]
  by_cases hm : incr = -1
  · have hd : lower < upper - 1 := by
      by_contra hge
      exact hs ⟨fun h => by omega, fun _ => by omega, fun h => by omega, fun h => by omega⟩
    simp only [if_pos hm, inRange_signed]
    rw [toUnsigned_of_neg (by omega) (by omega)]
    exact ⟨by omega, .empty (by omega) (by omega) (by omega) (inRange_signed.mpr (by omega))⟩
  rw [if_neg hm, if_neg hm, if_neg hm]
  by_cases hup : incr > 1
  · rw [if_pos hup, if_pos hup]
    apply other_trips_up hb hup
    by_contra hge
    exact hs ⟨fun h => by omega, fun h => by omega, fun _ => by omega, fun h => by omega⟩
  rw [if_neg hup, if_neg hup]
  rcases Int.lt_trichotomy upper lower with hlt | heq | hgt
  · apply other_trips_down hb (by omega) hlt
    intro h
    exact hs ⟨fun h => by omega, fun h => by omega, fun h => by omega, fun _ => .inr (.inl h)⟩
  · exact absurd ⟨fun h => by omega, fun h => by omega, fun h => by omega, fun _ => .inl heq⟩ hs
  · apply other_trips_down_past hb (by omega) hgt
    by_contra hge
    exact hs ⟨fun h => by omega, fun h => by omega, fun h => by omega, fun _ => .inr (.inr ⟨hgt, by omega⟩)⟩

/-! ## The static schedule -/

theorem staticBounds_lastiter (t : IntType) (nthreads gtid trips lower upper stride incr : Int) :
    (staticBounds t nthreads gtid trips lower upper stride incr).lastiter =
      if trips < nthreads then decide (gtid = t.wrap (trips - 1)) else decide (gtid = nthreads - 1) := by
  unfold staticBounds
  split_ifs <;> rfl

/-- The first thread has the last iteration in both versions or in none. -/
theorem static_lastiter (ha : Agrees w .static lower upper incr fun _ => True) (hfit : TripsFit w.signed.type lower upper incr)
    (nthreads : Int) (h1 : 1 ≤ nthreads) (hn : nthreads ≤ 2147483647)
    (hs : StaticFit w.signed.type nthreads 0 (exactTrips lower upper incr) lower upper incr) :
    (staticBounds w.unsigned.type nthreads 0 (totalTrips w.unsigned.type lower upper (w.toUnsigned incr)) lower upper
        (w.toUnsigned 0) (w.toUnsigned incr)).lastiter =
      (staticBounds w.signed.type nthreads 0 (exactTrips lower upper incr) lower upper 0 incr).lastiter := by
  have hH := w.half_ge
  have hz : w.signed.type.InRange 0 := inRange_signed.mpr (by omega)
  have h := ha nthreads 0 0 0 ⟨⟨h1, hn⟩, by decide, hz, hz⟩ trivial ⟨hfit, by rw [signed_trips hfit]; exact hs⟩
  have h' := congrArg Bounds.lastiter (Option.some.inj h)
  rwa [signed_trips hfit] at h'

/-- One thread or two are enough to tell different trip counts apart. -/
theorem TripsDiffer.disagrees (hb : Bounded w lower upper incr) (hfit : TripsFit w.signed.type lower upper incr)
    (hd : TripsDiffer w lower upper incr (exactTrips lower upper incr) (totalTrips w.unsigned.type lower upper (w.toUnsigned incr))) :
    ¬ Agrees w .static lower upper incr fun _ => True := by
  intro ha
  have hH := w.half_ge
  obtain ⟨⟨hl0, hl⟩, ⟨hu0, hu⟩, ⟨hilo, hihi⟩, h0⟩ := hb
  cases hd with
  | empty h hlo hv past =>
    have hs : StaticFit w.signed.type 1 0 (exactTrips lower upper incr) lower upper incr := by
      unfold StaticFit
      rw [if_pos (by omega), if_neg (by omega)]
      exact ⟨past, inRange_signed.mpr (by omega)⟩
    have heq := static_lastiter ha hfit 1 (by decide) (by decide) hs
    rw [staticBounds_lastiter, staticBounds_lastiter, if_neg (by omega), if_pos (by omega),
      IntType.wrap_of_inRange (inRange_signed.mpr (by omega)), decide_eq_decide] at heq
    omega
  | single h hv =>
    have hs : StaticFit w.signed.type 2 0 (exactTrips lower upper incr) lower upper incr := by
      unfold StaticFit
      rw [if_pos (by omega), if_pos (by omega), Int.zero_mul, Int.add_zero]
      exact ⟨⟨inRange_signed.mpr (by omega), inRange_signed.mpr (by omega)⟩, inRange_signed.mpr (by omega)⟩
    have heq := static_lastiter ha hfit 2 (by decide) (by decide) hs
    rw [staticBounds_lastiter, staticBounds_lastiter, if_neg (by omega), if_pos (by omega),
      IntType.wrap_of_inRange (inRange_signed.mpr (by omega)), decide_eq_decide] at heq
    omega
  | several h hv hdown hmul =>
    have hs : StaticFit w.signed.type 2 0 (exactTrips lower upper incr) lower upper incr := by
      have hc := Int.tmod_add_mul_tdiv (exactTrips lower upper incr) 2
      have hr : 0 ≤ (exactTrips lower upper incr).tmod 2 := Int.tmod_nonneg 2 (by omega)
      have hr' : (exactTrips lower upper incr).tmod 2 < 2 := Int.tmod_lt_of_pos _ (by decide)
      have hhalf : 2 * (exactTrips lower upper incr).tdiv 2 * -incr ≤ exactTrips lower upper incr * -incr :=
        Int.mul_le_mul_of_nonneg_right (by omega) (by omega)
      have hone : 1 * -incr ≤ (exactTrips lower upper incr).tdiv 2 * -incr := Int.mul_le_mul_of_nonneg_right (by omega) (by omega)
      rw [Int.mul_assoc] at hhalf
      simp only [Int.mul_neg] at hhalf hone hmul
      unfold StaticFit
      rw [if_neg (by omega)]
      have hfirst : (if 0 < (exactTrips lower upper incr).tmod 2 then 0 else (exactTrips lower upper incr).tmod 2) = 0 := by
        split_ifs <;> omega
      simp only [hfirst, Int.zero_mul, Int.mul_zero, Int.add_zero, inRange_signed]
      refine ⟨by omega, by omega, by omega, by omega, by omega, by omega, ?_⟩
      split_ifs <;> omega
    have heq := static_lastiter ha hfit 2 (by decide) (by decide) hs
    rw [staticBounds_lastiter, staticBounds_lastiter, if_pos (by omega), if_neg (by omega), hv,
      unsigned_wrap_of_nonneg (by decide) (by omega), decide_eq_decide] at heq
    omega

/-- Wrapping to types of one width preserves congruence. -/
theorem wrap_congr {a b : Int} (h : a ≡ b [ZMOD 2 * w.half]) : w.unsigned.type.wrap a ≡ w.signed.type.wrap b [ZMOD 2 * w.half] := by
  have hu : w.unsigned.type.wrap a ≡ a [ZMOD 2 * w.half] := w.unsigned_modulus ▸ IntType.wrap_modEq a
  have hs : w.signed.type.wrap b ≡ b [ZMOD 2 * w.half] := w.signed_modulus ▸ IntType.wrap_modEq b
  exact hu.trans (h.trans hs.symm)

theorem toUnsigned_modEq (z : Int) : w.toUnsigned z ≡ z [ZMOD 2 * w.half] := w.unsigned_modulus ▸ IntType.wrap_modEq z

theorem wrap_eq_toUnsigned {a b : Int} (h : w.unsigned.type.wrap a ≡ b [ZMOD 2 * w.half]) : w.unsigned.type.wrap a = w.toUnsigned b := by
  have hu : w.unsigned.type.wrap a ≡ a [ZMOD 2 * w.half] := toUnsigned_modEq a
  rw [Width.toUnsigned, unsigned_wrap, unsigned_wrap]
  exact hu.symm.trans h


theorem static_agrees {nthreads gtid trips stride : Int} (hup : 0 ≤ upper ∧ upper < w.half)
    (ht : 0 ≤ trips) (hg : 0 ≤ gtid) (hg' : gtid ≤ 2147483647) (hn : nthreads ≤ 2147483647) :
    staticBounds w.unsigned.type nthreads gtid trips lower upper (w.toUnsigned stride) (w.toUnsigned incr) =
      w.boundsToUnsigned (staticBounds w.signed.type nthreads gtid trips lower upper stride incr) := by
  have hH := w.half_ge
  have hi : w.toUnsigned incr ≡ incr [ZMOD 2 * w.half] := toUnsigned_modEq incr
  unfold staticBounds
  by_cases hfew : trips < nthreads
  · -- without trips no thread has the last one, in either type
    have hlast : gtid = w.unsigned.type.wrap (trips - 1) ↔ gtid = w.signed.type.wrap (trips - 1) := by
      rw [IntType.wrap_of_inRange (inRange_signed.mpr ⟨by omega, by omega⟩)]
      rcases Int.lt_or_le 0 trips with hpos | hnone
      · rw [unsigned_wrap_of_nonneg (by omega) (by omega)]
      · have hminus : w.unsigned.type.wrap (trips - 1) = trips - 1 + 2 * w.half := toUnsigned_of_neg (by omega) (by omega)
        rw [hminus]
        omega
    rw [if_pos hfew, if_pos hfew]
    by_cases hin : gtid < trips
    · have hl : w.unsigned.type.wrap (lower + w.unsigned.type.wrap (gtid * w.toUnsigned incr)) =
          w.toUnsigned (w.signed.type.wrap (lower + w.signed.type.wrap (gtid * incr))) :=
        wrap_eq_toUnsigned (wrap_congr ((wrap_congr (hi.mul_left gtid)).add_left lower))
      rw [if_pos hin, if_pos hin]
      simp only [Width.boundsToUnsigned, hl, hlast]
    · have hl : w.unsigned.type.wrap (upper + w.toUnsigned incr) = w.toUnsigned (w.signed.type.wrap (upper + incr)) :=
        wrap_eq_toUnsigned (wrap_congr (hi.add_left upper))
      rw [if_neg hin, if_neg hin]
      simp only [Width.boundsToUnsigned, hl, hlast, toUnsigned_of_nonneg hup.1 hup.2]
  · rw [if_neg hfew, if_neg hfew]
    have hfirst (e : Int) := (wrap_congr (w := w) (Int.ModEq.refl (gtid * trips.tdiv nthreads))).add_right e
    have hl (e : Int) := wrap_congr ((wrap_congr (hi.mul (wrap_congr (hfirst e)))).add_left lower)
    have hlast : (if gtid < trips.tmod nthreads then 0 else w.toUnsigned incr) ≡ (if gtid < trips.tmod nthreads then 0 else incr) [ZMOD 2 * w.half] := by
      split_ifs
      · exact Int.ModEq.rfl
      · exact hi
    have hu (e : Int) := wrap_congr ((wrap_congr ((hl e).add (wrap_congr (hi.mul_left (trips.tdiv nthreads))))).sub hlast)
    exact (Bounds.mk.injEq ..).mpr ⟨rfl, wrap_eq_toUnsigned (hl _), wrap_eq_toUnsigned (hu _), rfl⟩

theorem static_agrees_iff (hb : Bounded w lower upper incr) (hfit : TripsFit w.signed.type lower upper incr) :
    (Agrees w .static lower upper incr fun _ => True) ↔ SameTrips lower upper incr := by
  constructor
  · intro ha
    by_contra hs
    exact (other_trips hb hs).2.disagrees hb hfit ha
  · rintro hs nthreads gtid stride chunk hc - -
    obtain ⟨hsame, hnn⟩ := same_trips hb hs hfit
    unfold CallAgrees kmpcForStaticInit
    rw [hsame, signed_trips hfit, SchedType.ofCode_code]
    exact congrArg some (static_agrees hb.upperIn hnn hc.gtidIn.1 hc.gtidIn.2 hc.threads.2)

/-! ## The chunked schedule -/

theorem chunked_lower_modEq (t : IntType) (nthreads gtid trips lower incr chunk : Int) :
    (chunkedBounds t nthreads gtid trips lower incr chunk).lower ≡ lower + spanOf incr chunk * gtid [ZMOD t.modulus] := by
  have hspan : t.wrap (spanOf incr chunk) ≡ spanOf incr chunk [ZMOD t.modulus] := IntType.wrap_modEq _
  exact (IntType.wrap_modEq _).trans (((IntType.wrap_modEq _).trans (hspan.mul_right gtid)).add_left lower)

theorem chunked_upper_modEq (t : IntType) (nthreads gtid trips lower incr chunk : Int) :
    (chunkedBounds t nthreads gtid trips lower incr chunk).upper ≡
      lower + spanOf incr chunk * gtid + spanOf incr chunk - incr [ZMOD t.modulus] := by
  have hspan : t.wrap (spanOf incr chunk) ≡ spanOf incr chunk [ZMOD t.modulus] := IntType.wrap_modEq _
  have hl := chunked_lower_modEq t nthreads gtid trips lower incr chunk
  exact (IntType.wrap_modEq _).trans (((IntType.wrap_modEq _).trans (hl.add hspan)).sub_right incr)

/-- A negative chunk size is a large one of the unsigned version and 1 of the signed one. -/
theorem span_congr_iff {chunk : Int} (hc : w.signed.type.InRange chunk) :
    spanOf (w.toUnsigned incr) (w.toUnsigned chunk) ≡ spanOf incr chunk [ZMOD 2 * w.half] ↔
      (chunk < 0 → 2 * w.half ∣ (chunk - 1) * incr) := by
  have hi : w.toUnsigned incr ≡ incr [ZMOD 2 * w.half] := toUnsigned_modEq incr
  obtain ⟨hlo, hhi⟩ := inRange_signed.mp hc
  unfold spanOf
  rcases Int.lt_or_le chunk 0 with hneg | hnn
  · have hlarge : (if w.toUnsigned chunk < 1 then 1 else w.toUnsigned chunk) = w.toUnsigned chunk := by
      rw [toUnsigned_of_neg hneg hlo, if_neg (by have := w.half_ge; omega)]
    have hspan : w.toUnsigned chunk * w.toUnsigned incr ≡ chunk * incr [ZMOD 2 * w.half] := (toUnsigned_modEq chunk).mul hi
    have hone : (if chunk < 1 then 1 else chunk) * incr = incr := by rw [if_pos (by omega), Int.one_mul]
    rw [hlarge, hone]
    have hdvd : chunk * incr ≡ incr [ZMOD 2 * w.half] ↔ 2 * w.half ∣ (chunk - 1) * incr := by
      rw [Int.sub_mul, Int.one_mul]
      exact ⟨fun h => h.symm.dvd, fun h => (Int.modEq_iff_dvd.mpr h).symm⟩
    exact ⟨fun h _ => hdvd.mp (hspan.symm.trans h), fun h => hspan.trans (hdvd.mpr (h hneg))⟩
  · rw [toUnsigned_of_nonneg hnn hhi]
    exact ⟨fun _ h => absurd h (by omega), fun _ => hi.mul_left _⟩

theorem one_le_chunk (chunk : Int) : (if chunk < 1 then 1 else chunk) = max 1 chunk := by
  split_ifs <;> omega

theorem signed_last : exactTrips lower upper incr - 1 = lastIndex lower upper incr := by
  have hback : (lower - upper).tdiv (-incr) = (upper - lower).tdiv incr := by
    rw [Int.tdiv_neg, ← Int.neg_tdiv, Int.neg_sub]
  unfold exactTrips lastIndex
  split_ifs with h1 hm hup
  · rw [h1, Int.tdiv_one]
    omega
  · rw [← hback, hm, Int.neg_neg, Int.tdiv_one]
    omega
  · omega
  · rw [hback]
    omega

theorem unsigned_last (hb : Bounded w lower upper incr) :
    w.unsigned.type.wrap (totalTrips w.unsigned.type lower upper (w.toUnsigned incr) - 1) = unsignedLastIndex w lower upper incr := by
  have hH := w.half_ge
  have hpred (z : Int) : w.unsigned.type.wrap (w.toUnsigned (z + 1) - 1) = w.toUnsigned z := by
    refine wrap_eq_toUnsigned ((toUnsigned_modEq _).trans ?_)
    have h := (toUnsigned_modEq (w := w) (z + 1)).sub_right 1
    rwa [Int.add_sub_cancel] at h
  have hnn (z : Int) : 0 ≤ w.toUnsigned z := by
    rw [Width.toUnsigned, unsigned_wrap]
    exact Int.emod_nonneg _ (by omega)
  have hlt (z : Int) : w.toUnsigned z < 2 * w.half := by
    rw [Width.toUnsigned, unsigned_wrap]
    exact Int.emod_lt_of_pos _ (by omega)
  rw [unsigned_trips (inRange_signed.mpr ⟨by have := hb.incrIn.1; omega, hb.incrIn.2⟩) hb.incr_ne, unsignedLastIndex]
  by_cases h1 : incr = 1
  · have hone : w.toUnsigned 1 = 1 := toUnsigned_of_nonneg (by decide) (by omega)
    rw [if_pos h1, hpred, if_neg (by omega), h1, hone, Int.ediv_one]
  rw [if_neg h1]
  by_cases hm : incr = -1
  · rw [if_pos hm, hpred, if_pos hm]
  rw [if_neg hm, hpred, if_neg hm, Int.tdiv_eq_ediv_of_nonneg (hnn _)]
  exact unsigned_wrap_of_nonneg (Int.ediv_nonneg (hnn _) (hnn _)) (Int.lt_of_le_of_lt (Int.ediv_le_self _ (hnn _)) (hlt _))

/-- The two versions of a chunked call that fits. -/
theorem chunked_agrees_iff {nthreads gtid chunk : Int} (hb : Bounded w lower upper incr) (hc : w.signed.type.InRange chunk)
    (hlast : w.signed.type.InRange (exactTrips lower upper incr - 1)) :
    chunkedBounds w.unsigned.type nthreads gtid (totalTrips w.unsigned.type lower upper (w.toUnsigned incr)) lower
        (w.toUnsigned incr) (w.toUnsigned chunk) =
      w.boundsToUnsigned (chunkedBounds w.signed.type nthreads gtid (exactTrips lower upper incr) lower incr chunk) ↔
    ChunkAgrees w nthreads gtid lower upper incr chunk := by
  have hi : w.toUnsigned incr ≡ incr [ZMOD 2 * w.half] := toUnsigned_modEq incr
  have hindex : 0 ≤ unsignedLastIndex w lower upper incr := by
    rw [← unsigned_last hb, unsigned_wrap]
    exact Int.emod_nonneg _ (by have := w.half_ge; omega)
  -- the test of the last iteration, in each type
  have hsigned : (chunkedBounds w.signed.type nthreads gtid (exactTrips lower upper incr) lower incr chunk).lastiter =
      decide (gtid = ((lastIndex lower upper incr).tdiv (max 1 chunk)).tmod nthreads) := by
    rw [← signed_last, ← one_le_chunk, ← IntType.wrap_of_inRange hlast]
    rfl
  have hunsigned : (chunkedBounds w.unsigned.type nthreads gtid (totalTrips w.unsigned.type lower upper (w.toUnsigned incr)) lower
      (w.toUnsigned incr) (w.toUnsigned chunk)).lastiter =
      decide (gtid = unsignedLastIndex w lower upper incr / max 1 (w.toUnsigned chunk) % nthreads) := by
    rw [← Int.tdiv_eq_ediv_of_nonneg hindex, ← Int.tmod_eq_emod_of_nonneg (Int.tdiv_nonneg hindex (by omega)), ← unsigned_last hb, ← one_le_chunk]
    rfl
  constructor
  · intro h
    constructor
    · refine (span_congr_iff hc).mp ?_
      have hl := chunked_lower_modEq w.unsigned.type nthreads gtid (totalTrips w.unsigned.type lower upper (w.toUnsigned incr)) lower
        (w.toUnsigned incr) (w.toUnsigned chunk)
      have hu := chunked_upper_modEq w.unsigned.type nthreads gtid (totalTrips w.unsigned.type lower upper (w.toUnsigned incr)) lower
        (w.toUnsigned incr) (w.toUnsigned chunk)
      have hl' := chunked_lower_modEq w.signed.type nthreads gtid (exactTrips lower upper incr) lower incr chunk
      have hu' := chunked_upper_modEq w.signed.type nthreads gtid (exactTrips lower upper incr) lower incr chunk
      rw [h, w.unsigned_modulus] at hl hu
      rw [w.signed_modulus] at hl' hu'
      have hlow := hl.symm.trans ((toUnsigned_modEq _).trans hl')
      have hup := hu.symm.trans ((toUnsigned_modEq _).trans hu')
      -- a chunk is as long as its bounds are apart
      have hspan := (hup.sub hlow).add hi
      rwa [show ∀ a b c : Int, a + b - c - a + c = b from fun a b c => by omega,
        show ∀ a b c : Int, a + b - c - a + c = b from fun a b c => by omega] at hspan
    · have h' := congrArg Bounds.lastiter h
      rw [hunsigned] at h'
      exact (decide_eq_decide.mp (h'.trans hsigned)).symm
  · rintro ⟨hspan, hlast⟩
    have hwrapped := wrap_congr ((span_congr_iff hc).mpr hspan)
    have hl := wrap_congr ((wrap_congr (hwrapped.mul_right gtid)).add_left lower)
    have hu := wrap_congr ((wrap_congr (hl.add hwrapped)).sub hi)
    refine (Bounds.mk.injEq ..).mpr ⟨?_, wrap_eq_toUnsigned hl, wrap_eq_toUnsigned hu, wrap_eq_toUnsigned (wrap_congr (hwrapped.mul_right nthreads))⟩
    exact hunsigned.trans ((decide_eq_decide.mpr hlast.symm).trans hsigned.symm)

theorem trips_inRange (hfit : TripsFit w.signed.type lower upper incr) : w.signed.type.InRange (exactTrips lower upper incr) := by
  unfold TripsFit at hfit
  unfold exactTrips
  split_ifs at hfit ⊢
  · exact hfit.2
  · exact hfit.2
  · exact hfit.2
  · exact hfit.2.2

theorem not_tripsFit_half : ¬ TripsFit w.signed.type lower upper (-w.half) := by
  have hH := w.half_ge
  unfold TripsFit
  rw [if_neg (by omega), if_neg (by omega), if_neg (by omega), inRange_signed, inRange_signed]
  omega

/-- A loop that counts no trips runs one step backwards. -/
theorem SameTrips.backwards (hs : SameTrips lower upper incr) (h0 : incr ≠ 0) (hzero : exactTrips lower upper incr = 0) :
    incr = 1 ∧ lower = upper + 1 ∨ incr = -1 ∧ upper = lower + 1 := by
  unfold exactTrips at hzero
  split_ifs at hzero with h1 hm hup
  · omega
  · omega
  · have := Int.tdiv_nonneg (show 0 ≤ upper - lower by have := hs.up hup; omega) (show 0 ≤ incr by omega)
    omega
  · rcases hs.down (by omega) with heq | heq | ⟨hlt, hlt'⟩
    · rw [heq, Int.sub_self, Int.zero_tdiv] at hzero
      omega
    · rw [show lower - upper = -incr by omega, Int.tdiv_self (by omega)] at hzero
      omega
    · rw [← Int.neg_sub, Int.neg_tdiv, Int.tdiv_eq_zero_of_lt (by omega) (by omega)] at hzero
      omega

/-- Where the trips are counted alike and there is one, its index is the same. -/
theorem SameTrips.same_last (hb : Bounded w lower upper incr) (hs : SameTrips lower upper incr)
    (hfit : TripsFit w.signed.type lower upper incr) (hone : 1 ≤ exactTrips lower upper incr) :
    unsignedLastIndex w lower upper incr = lastIndex lower upper incr := by
  have hlt := (inRange_signed.mp (trips_inRange hfit)).2
  rw [← unsigned_last hb, (same_trips hb hs hfit).1, ← signed_last]
  exact unsigned_wrap_of_nonneg (by omega) (by omega)

/-- Of three threads the first has the last iteration of no iteration, as the unsigned version
    counts. -/
theorem none_disagrees (hb : Bounded w lower upper incr) (hs : SameTrips lower upper incr)
    (hfit : TripsFit w.signed.type lower upper incr) (hzero : exactTrips lower upper incr = 0) :
    ¬ ChunkAgrees w 3 0 lower upper incr 1 := by
  intro h
  have hH := w.half_ge
  have hsigned : lastIndex lower upper incr = -1 := by rw [← signed_last, hzero]; rfl
  have hunsigned : unsignedLastIndex w lower upper incr = 2 * w.half - 1 := by
    rw [← unsigned_last hb, (same_trips hb hs hfit).1, hzero]
    exact (toUnsigned_of_neg (by decide) (by omega)).trans (by omega)
  have hlast := h.last
  rw [hsigned, hunsigned, toUnsigned_of_nonneg (by decide) (by omega), max_self, Int.ediv_one, w.modulus_three] at hlast
  exact absurd (hlast.mpr rfl) (by decide)

theorem chunked_call_iff (hb : Bounded w lower upper incr) (hfit : TripsFit w.signed.type lower upper incr)
    {nthreads gtid stride chunk : Int} (hc : Called w nthreads gtid stride chunk)
    (hcall : NoOverflow w.signed nthreads gtid SchedType.staticChunked.code lower upper incr chunk) :
    CallAgrees w nthreads gtid SchedType.staticChunked.code lower upper stride incr chunk ↔
      ChunkAgrees w nthreads gtid lower upper incr chunk := by
  obtain ⟨-, hcall⟩ := hcall
  rw [SchedType.ofCode_code, signed_trips hfit] at hcall
  obtain ⟨-, -, -, -, -, -, hlast⟩ := hcall
  unfold CallAgrees kmpcForStaticInit
  rw [signed_trips hfit, SchedType.ofCode_code]
  exact Option.some_inj.trans (chunked_agrees_iff hb hc.chunkIn hlast)

/-- The first thread's call, with a chunk of one iteration. -/
theorem first_fits (hfit : TripsFit w.signed.type lower upper incr) {nthreads chunk : Int} (hc : spanOf incr chunk = incr)
    (hspan : w.signed.type.InRange (incr * nthreads)) (hincr : w.signed.type.InRange incr) (hlower : 0 ≤ lower ∧ lower < w.half)
    (hpast : lower + incr < w.half) (hmin : -w.half < exactTrips lower upper incr) :
    NoOverflow w.signed nthreads 0 SchedType.staticChunked.code lower upper incr chunk := by
  refine ⟨hfit, ?_⟩
  have htrips := inRange_signed.mp (trips_inRange hfit)
  have hi := inRange_signed.mp hincr
  rw [SchedType.ofCode_code, signed_trips hfit]
  show ChunkedFit _ _ _ _ _ _ _
  unfold ChunkedFit
  rw [hc]
  refine ⟨hincr, hspan, ?_, ?_, ?_, ?_, ?_⟩ <;> exact inRange_signed.mpr (by omega)

theorem exactTrips_gt (hb : Bounded w lower upper incr) (hfit : TripsFit w.signed.type lower upper incr) :
    -w.half < exactTrips lower upper incr := by
  by_cases hs : SameTrips lower upper incr
  · have := (same_trips hb hs hfit).2
    have := w.half_ge
    omega
  · cases (other_trips hb hs).2 with
    | empty h hlo hu past => exact hlo
    | single h hu =>
      have := w.half_ge
      omega
    | several h hu hdown hmul =>
      have := w.half_ge
      omega

/-- A chunk size of -1 is the largest one of the unsigned version. -/
theorem minus_one_disagrees (hb : Bounded w lower upper incr) {nthreads gtid : Int} : ¬ ChunkAgrees w nthreads gtid lower upper incr (-1) := by
  intro h
  obtain ⟨⟨hlo, hhi⟩, hne⟩ := And.intro hb.incrIn hb.incr_ne
  -- the width divides twice the increment
  have hdvd : 2 * w.half ∣ 2 * incr := by
    have hneg := Int.dvd_neg.mpr (h.span (by decide))
    rwa [← Int.neg_mul] at hneg
  rcases Int.lt_or_gt_of_ne hne with hneg | hpos
  · have := Int.le_of_dvd (by omega) (Int.dvd_neg.mpr hdvd)
    omega
  · have := Int.le_of_dvd (by omega) hdvd
    omega

theorem negative_agrees_iff (hb : Bounded w lower upper incr) (hfit : TripsFit w.signed.type lower upper incr) :
    Agrees w .staticChunked lower upper incr (· < 0) ↔ w.half ≤ lower + incr := by
  have hH := w.half_ge
  obtain ⟨hlo, hhi⟩ := hb.incrIn
  constructor
  · intro ha
    by_contra hlt
    have hin : w.signed.type.InRange incr := inRange_signed.mpr (by omega)
    have hz : w.signed.type.InRange 0 := inRange_signed.mpr (by omega)
    have hminus : w.signed.type.InRange (-1) := inRange_signed.mpr (by omega)
    have hcalled : Called w 1 0 0 (-1) := ⟨by decide, by decide, hz, hminus⟩
    have hfits : NoOverflow w.signed 1 0 SchedType.staticChunked.code lower upper incr (-1) :=
      first_fits hfit (Int.one_mul _) (by rwa [Int.mul_one]) hin hb.lowerIn (by omega) (exactTrips_gt hb hfit)
    exact minus_one_disagrees hb ((chunked_call_iff hb hfit hcalled hfits).mp (ha 1 0 0 (-1) hcalled (by decide) hfits))
  · rintro hpast nthreads gtid stride chunk hc hneg ⟨-, hcall⟩
    rw [SchedType.ofCode_code] at hcall
    obtain ⟨-, -, -, -, hend, -, -⟩ := hcall
    have hone : spanOf incr chunk = incr := by rw [spanOf, if_pos (by omega), Int.one_mul]
    rw [hone, inRange_signed] at hend
    -- no chunk of one iteration fits above the lower bound
    have := Int.mul_nonneg (show 0 ≤ incr by have := hb.lowerIn.2; omega) hc.gtidIn.1
    omega

/-- A counted loop whose calls fit has an iteration, where none could lie past the bounds. -/
theorem SameLast.has_trip (hb : Bounded w lower upper incr) (hs : SameTrips lower upper incr) (hlast : SameLast w lower upper incr)
    (hnn : 0 ≤ exactTrips lower upper incr) {nthreads gtid trips chunk : Int} (hg : 0 ≤ gtid)
    (hfit : ChunkedFit w.signed.type nthreads gtid trips lower incr chunk) : 1 ≤ exactTrips lower upper incr := by
  by_contra hnone
  obtain ⟨-, -, -, -, hend, -, -⟩ := hfit
  have hpast := (inRange_signed.mp hend).2
  rcases hs.backwards hb.incr_ne (by omega) with ⟨h1, hback⟩ | ⟨hm, hback⟩
  · have hmax : lower = w.half - 1 := by
      rcases hlast.one h1 with h | h
      · omega
      · exact h
    have hspan : 1 ≤ spanOf incr chunk := by
      rw [spanOf, one_le_chunk, h1, Int.mul_one]
      exact le_max_left 1 chunk
    have := Int.mul_nonneg (show 0 ≤ spanOf incr chunk by omega) hg
    omega
  · have := hlast.minusOne hm
    omega

theorem counted_agrees_iff (hb : Bounded w lower upper incr) (hfit : TripsFit w.signed.type lower upper incr)
    (hs : SameTrips lower upper incr) : Agrees w .staticChunked lower upper incr (0 ≤ ·) ↔ SameLast w lower upper incr := by
  have hH := w.half_ge
  obtain ⟨hsame, hnn⟩ := same_trips hb hs hfit
  constructor
  · intro ha
    have hz : w.signed.type.InRange 0 := inRange_signed.mpr (by omega)
    have hone : w.signed.type.InRange 1 := inRange_signed.mpr (by omega)
    have hcalled : Called w 3 0 0 1 := ⟨by decide, by decide, hz, hone⟩
    -- a loop of one step backwards has a call that fits and disagrees
    have hback : exactTrips lower upper incr = 0 → incr = 1 ∨ incr = -1 → w.half ≤ lower + incr := by
      intro hzero hunit
      by_contra hlt
      have hfits : NoOverflow w.signed 3 0 SchedType.staticChunked.code lower upper incr 1 :=
        first_fits hfit (Int.one_mul _) (inRange_signed.mpr (by omega)) (inRange_signed.mpr (by omega)) hb.lowerIn (by omega) (by omega)
      exact none_disagrees hb hs hfit hzero ((chunked_call_iff hb hfit hcalled hfits).mp (ha 3 0 0 1 hcalled (by decide) hfits))
    constructor
    · intro h1
      by_contra hlow
      have hzero : exactTrips lower upper incr = 0 := by
        have := hs.one h1
        rw [exactTrips, if_pos h1]
        omega
      have := hback hzero (.inl h1)
      have := hb.lowerIn.2
      omega
    · intro hm
      by_contra hlow
      have hzero : exactTrips lower upper incr = 0 := by
        have := hs.minusOne hm
        rw [exactTrips, if_neg (by omega), if_pos hm]
        omega
      have := hback hzero (.inr hm)
      have := hb.lowerIn.2
      omega
  · rintro hlast nthreads gtid stride chunk hc hpos hcall
    refine (chunked_call_iff hb hfit hc hcall).mpr ⟨fun hneg => absurd hneg (by omega), ?_⟩
    obtain ⟨-, hcall⟩ := hcall
    rw [SchedType.ofCode_code] at hcall
    have htrip := hlast.has_trip hb hs hnn hc.gtidIn.1 hcall
    have hindex : 0 ≤ lastIndex lower upper incr := by rw [← signed_last]; omega
    rw [hs.same_last hb hfit htrip, toUnsigned_of_nonneg hpos (inRange_signed.mp hc.chunkIn).2, Int.tdiv_eq_ediv_of_nonneg hindex,
      Int.tmod_eq_emod_of_nonneg (Int.ediv_nonneg hindex (by omega))]

end

/-! ## Result -/

theorem unsigned_agrees_iff (w : Width) (lower upper incr : Int) (hlower : 0 ≤ lower ∧ lower < w.half)
    (hupper : 0 ≤ upper ∧ upper < w.half) (hincr : w.signed.type.InRange incr) (h0 : incr ≠ 0)
    (hfit : TripsFit w.signed.type lower upper incr) : AgreeBySchedule w lower upper incr := by
  have hlo : -w.half < incr := by
    refine lt_of_le_of_ne (inRange_signed.mp hincr).1 fun h => ?_
    rw [← h] at hfit
    exact not_tripsFit_half hfit
  have hb : Bounded w lower upper incr := ⟨hlower, hupper, ⟨hlo, (inRange_signed.mp hincr).2⟩, h0⟩
  refine ⟨static_agrees_iff hb hfit, ?_, negative_agrees_iff hb hfit, counted_agrees_iff hb hfit, ?_⟩
  · exact fun nthreads gtid stride chunk hc hcall => chunked_call_iff hb hfit hc hcall
  · intro nthreads gtid schedtype stride chunk hnone
    unfold CallAgrees kmpcForStaticInit
    rw [hnone]
    rfl

/-- From 0 to 9 by threes, in the static schedule with a chunk size of -1, and in chunks of two. -/
theorem unsigned_agrees_up :
    CallAgrees .w32 2 1 SchedType.static.code 0 9 0 3 (-1) ∧ (Agrees .w32 .staticChunked 0 9 3 (0 ≤ ·)) ∧
      CallAgrees .w32 2 1 SchedType.staticChunked.code 0 9 0 3 2 := by
  have h : AgreeBySchedule .w32 0 9 3 := unsigned_agrees_iff .w32 0 9 3 (by decide) (by decide) (by decide) (by decide) (by decide)
  have hs : SameTrips 0 9 3 := ⟨by decide, by decide, by decide, by decide⟩
  have hstatic : NoOverflow .int32 2 1 SchedType.static.code 0 9 3 (-1) := by
    refine ⟨by decide, ?_⟩
    have hs : StaticFit .int32 2 1 (totalTrips .int32 0 9 3) 0 9 3 := by decide
    rw [SchedType.ofCode_code]
    exact hs
  have hchunked : NoOverflow .int32 2 1 SchedType.staticChunked.code 0 9 3 2 := by
    refine ⟨by decide, ?_⟩
    rw [SchedType.ofCode_code]
    show ChunkedFit _ _ _ _ _ _ _
    unfold ChunkedFit
    decide
  refine ⟨?_, (h.counted hs).mpr ⟨by decide, by decide⟩, ?_⟩
  · exact h.static.mpr hs 2 1 0 (-1) ⟨by decide, by decide, by decide, by decide⟩ trivial hstatic
  · exact (h.chunked 2 1 0 2 ⟨by decide, by decide, by decide, by decide⟩ hchunked).mpr ⟨by decide, by decide⟩

/-- From 10 down to 0 by twos: six trips, of which the unsigned version counts one. -/
theorem unsigned_down_short :
    NoOverflow .int32 1 0 SchedType.static.code 10 0 (-2) 1 ∧
      kmpcForStaticInit .int32 1 0 SchedType.static.code 10 0 0 (-2) 1 = some ⟨true, 10, 0, 0⟩ ∧
      kmpcForStaticInit .uint32 1 0 SchedType.static.code 10 0 0 (Width.w32.toUnsigned (-2)) 1 = some ⟨true, 10, 10, 0⟩ ∧
      ¬ CallAgrees .w32 1 0 SchedType.static.code 10 0 0 (-2) 1 := by
  have hfit : NoOverflow .int32 1 0 SchedType.static.code 10 0 (-2) 1 := by
    refine ⟨by decide, ?_⟩
    have hs : StaticFit .int32 1 0 (totalTrips .int32 10 0 (-2)) 10 0 (-2) := by decide
    rw [SchedType.ofCode_code]
    exact hs
  exact ⟨hfit, by decide, by decide, by decide⟩

end Popcorn.Bomp
