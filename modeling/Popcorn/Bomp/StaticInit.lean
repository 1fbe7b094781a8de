/-
  Popcorn.Bomp.StaticInit — static loop scheduling (lib/libbomp/kmp.c,
  `__kmpc_for_static_init_{4,4u,8,8u}`).

  Each thread of a team calls the function with the loop's bounds and gets the bounds of
  its own share. The four functions are one macro over the loop's integer type; values are
  integers and every operation of the type wraps. `nthreads` and `gtid` are ints that are
  not negative, which every one of the types represents. In the chunked schedule a thread repeats its chunk every `pstride` and stops at the
  loop's own upper bound.

  Proved: `static_init_partitions`: over all threads, the iterations executed are the
  loop's, each once, and the thread with the last one has `plastiter` set.
-/

import Mathlib.Tactic.Linarith
import Mathlib.Tactic.Ring
import Popcorn.Lib.Concat
import Popcorn.Lib.Word

namespace Popcorn.Bomp

open Popcorn.Lib

/-! ## Model -/

/-- The instantiations of the macro. -/
inductive LoopType where
  | int32
  | uint32
  | int64
  | uint64
  deriving DecidableEq, Repr

def LoopType.type : LoopType → IntType
  | .int32 => .int32
  | .uint32 => .uint32
  | .int64 => .int64
  | .uint64 => .uint64

/-- `enum sched_type`. -/
inductive SchedType where
  | staticChunked
  | static
  deriving DecidableEq, Repr

def SchedType.code : SchedType → Int
  | .staticChunked => 33
  | .static => 34

def SchedType.ofCode (c : Int) : Option SchedType := if c = 33 then some .staticChunked else if c = 34 then some .static else none

@[simp] theorem SchedType.ofCode_code (s : SchedType) : ofCode s.code = some s := by cases s <;> rfl

/-- What the function leaves in `*plastiter`, `*plower`, `*pupper` and `*pstride`. -/
structure Bounds where
  lastiter : Bool
  lower : Int
  upper : Int
  stride : Int
  deriving DecidableEq, Repr

/-- `total_trips`. The constant -1 converts to the loop's type. -/
def totalTrips (t : IntType) (lower upper incr : Int) : Int :=
  if incr = 1 then t.wrap (t.wrap (upper - lower) + 1)
  else if incr = t.wrap (-1) then t.wrap (t.wrap (lower - upper) + 1)
  else if incr > 1 then t.wrap ((t.wrap (upper - lower)).tdiv incr + 1)
  else t.wrap ((t.wrap (lower - upper)).tdiv (t.wrap (-incr)) + 1)

/-- `kmp_sch_static`. -/
def staticBounds (t : IntType) (nthreads gtid trips lower upper stride incr : Int) : Bounds :=
  if trips < nthreads then
    if gtid < trips then
      let l := t.wrap (lower + t.wrap (gtid * incr))
      ⟨decide (gtid = t.wrap (trips - 1)), l, l, stride⟩
    else ⟨decide (gtid = t.wrap (trips - 1)), t.wrap (upper + incr), upper, stride⟩
  else
    let chunk := trips.tdiv nthreads
    let extras := trips.tmod nthreads
    let l := t.wrap (lower + t.wrap (incr * t.wrap (t.wrap (gtid * chunk) + (if gtid < extras then gtid else extras))))
    let u := t.wrap (t.wrap (l + t.wrap (chunk * incr)) - (if gtid < extras then 0 else incr))
    ⟨decide (gtid = nthreads - 1), l, u, stride⟩

/-- `kmp_sch_static_chunked`. -/
def chunkedBounds (t : IntType) (nthreads gtid trips lower incr chunk : Int) : Bounds :=
  let chunk := if chunk < 1 then 1 else chunk
  let span := t.wrap (chunk * incr)
  let l := t.wrap (lower + t.wrap (span * gtid))
  ⟨decide (gtid = ((t.wrap (trips - 1)).tdiv chunk).tmod nthreads), l, t.wrap (t.wrap (l + span) - incr),
    t.wrap (span * nthreads)⟩

/-- `none` is the failed assertion of an unknown schedule. -/
def kmpcForStaticInit (t : LoopType) (nthreads gtid schedtype lower upper stride incr chunk : Int) : Option Bounds :=
  let trips := totalTrips t.type lower upper incr
  (SchedType.ofCode schedtype).map fun
    | .static => staticBounds t.type nthreads gtid trips lower upper stride incr
    | .staticChunked => chunkedBounds t.type nthreads gtid trips lower incr chunk

/-! ## The loop and its shares -/

/-- `i` is not past `upper`, in the direction of `incr`. -/
def Within (incr i upper : Int) : Prop := if 0 < incr then i ≤ upper else upper ≤ i

instance (incr i upper : Int) : Decidable (Within incr i upper) := inferInstanceAs (Decidable (ite _ _ _))

/-- How many iterations the loop has. -/
def tripCount (lower upper incr : Int) : Nat :=
  (if 0 < incr then (upper - lower) / incr else (lower - upper) / (-incr)).toNat + 1

/-- The `j`th iteration of a thread's `m`th chunk is iteration `i`; the static schedule has one
    chunk. -/
def Executes (s : SchedType) (b : Bounds) (upper incr : Int) (m j : Nat) (i : Int) : Prop :=
  match s with
  | .static => m = 0 ∧ i = b.lower + j * incr ∧ Within incr i b.upper
  | .staticChunked => i = b.lower + m * b.stride + j * incr ∧ Within incr i (b.upper + m * b.stride) ∧ Within incr i upper

/-- The distance between the first chunks of two neighbouring threads. -/
def spanOf (incr chunk : Int) : Int := (if chunk < 1 then 1 else chunk) * incr

/-- A loop with at least one iteration, whose distance, trip count, `upper + incr` and last
    thread's first chunk the loop's type can represent. -/
structure Valid (t : LoopType) (nthreads : Int) (s : SchedType) (lower upper incr chunk : Int) : Prop where
  threads : 1 ≤ nthreads ∧ nthreads ≤ 2147483647
  lowerIn : t.type.InRange lower
  upperIn : t.type.InRange upper
  incrIn : t.type.InRange incr
  chunkIn : t.type.InRange chunk
  incr_ne : incr ≠ 0
  nonempty : Within incr lower upper
  distance : t.type.InRange (upper - lower)
  trips : t.type.InRange (tripCount lower upper incr)
  past : t.type.InRange (upper + incr)
  lastLower : s = .staticChunked → t.type.InRange (lower + spanOf incr chunk * (nthreads - 1))
  lastUpper : s = .staticChunked → t.type.InRange (lower + spanOf incr chunk * (nthreads - 1) + spanOf incr chunk - incr)

/-- The distance of a loop that counts down is taken as `lower - upper`, and the stride of the
    chunked schedule is returned in the loop's type. -/
structure Representable (t : LoopType) (nthreads : Int) (s : SchedType) (lower upper incr chunk : Int) : Prop where
  back : incr < 0 → t.type.InRange (lower - upper)
  stride : s = .staticChunked → t.type.InRange (spanOf incr chunk * nthreads)

/-- The team's shares are the loop's iterations, each once. -/
structure Partitions (t : LoopType) (nthreads : Int) (s : SchedType) (lower upper stride incr chunk : Int) : Prop where
  total : ∀ g : Nat, g < nthreads → ∃ b, kmpcForStaticInit t nthreads g s.code lower upper stride incr chunk = some b
  covered : ∀ i, (∃ q : Nat, i = lower + q * incr) → Within incr i upper → ∃ (g m j : Nat) (b : Bounds), g < nthreads ∧
    kmpcForStaticInit t nthreads g s.code lower upper stride incr chunk = some b ∧ Executes s b upper incr m j i
  inside : ∀ (g m j : Nat) (b : Bounds) (i : Int), g < nthreads →
    kmpcForStaticInit t nthreads g s.code lower upper stride incr chunk = some b → Executes s b upper incr m j i →
      (∃ q : Nat, i = lower + q * incr) ∧ Within incr i upper
  once : ∀ (g g' m m' j j' : Nat) (b b' : Bounds) (i : Int), g < nthreads → g' < nthreads →
    kmpcForStaticInit t nthreads g s.code lower upper stride incr chunk = some b →
    kmpcForStaticInit t nthreads g' s.code lower upper stride incr chunk = some b' →
    Executes s b upper incr m j i → Executes s b' upper incr m' j' i → g = g' ∧ m = m' ∧ j = j'
  /-- A thread without work gets an empty range. -/
  idle : ∀ (g : Nat) (b : Bounds), g < nthreads → kmpcForStaticInit t nthreads g s.code lower upper stride incr chunk = some b →
    (∀ m j i, ¬ Executes s b upper incr m j i) → ¬ (Within incr b.lower b.upper ∧ Within incr b.lower upper)
  /-- `plastiter` is set for the thread that executes the last iteration. -/
  last : ∀ (g : Nat) (b : Bounds), g < nthreads → kmpcForStaticInit t nthreads g s.code lower upper stride incr chunk = some b →
    (b.lastiter = true ↔ ∃ m j, Executes s b upper incr m j (lower + ((tripCount lower upper incr : Int) - 1) * incr))

/-! ## Iterations by index -/

section
variable {lower upper incr : Int}

theorem within_index (l : Int) (hne : incr ≠ 0) (a b : Int) : Within incr (l + a * incr) (l + b * incr) ↔ a ≤ b := by
  unfold Within
  split
  · rename_i hpos
    rw [Int.add_le_add_iff_left, Int.mul_le_mul_right hpos]
  · have hneg : 0 < -incr := by omega
    rw [Int.add_le_add_iff_left, ← Int.neg_le_neg_iff, ← Int.mul_neg, ← Int.mul_neg, Int.mul_le_mul_right hneg]

theorem within_upper (hne : incr ≠ 0) (h : Within incr lower upper) (q : Nat) :
    Within incr (lower + q * incr) upper ↔ q < tripCount lower upper incr := by
  unfold Within at h ⊢
  unfold tripCount
  split at h
  · rename_i hpos
    have hle : (q : Int) ≤ (upper - lower) / incr ↔ q * incr ≤ upper - lower := Int.le_ediv_iff_mul_le hpos
    have hnn : 0 ≤ (upper - lower) / incr := Int.ediv_nonneg (by omega) (by omega)
    simp only [hpos, if_true]
    omega
  · rename_i hpos
    have hneg : 0 < -incr := by omega
    have hle : (q : Int) ≤ (lower - upper) / (-incr) ↔ q * (-incr) ≤ lower - upper := Int.le_ediv_iff_mul_le hneg
    have hnn : 0 ≤ (lower - upper) / (-incr) := Int.ediv_nonneg (by omega) (by omega)
    rw [Int.mul_neg] at hle
    simp only [hpos, if_false]
    omega

theorem tripCount_pos : 0 < tripCount lower upper incr := Nat.succ_pos _

/-- One past the last iteration is not past `upper + incr`. -/
theorem within_past (hne : incr ≠ 0) (h : Within incr lower upper) :
    Within incr (lower + tripCount lower upper incr * incr) (upper + incr) := by
  have hpos : 0 < tripCount lower upper incr := tripCount_pos
  have hlast := (within_upper hne h (tripCount lower upper incr - 1)).mpr (by omega)
  rw [Int.natCast_sub hpos, Int.sub_mul] at hlast
  unfold Within at hlast ⊢
  split
  · rename_i hp
    simp only [hp, if_true] at hlast
    omega
  · rename_i hp
    simp only [hp, if_false] at hlast
    omega

theorem within_lower (hne : incr ≠ 0) (q : Nat) : Within incr lower (lower + q * incr) := by
  have h := (within_index lower hne 0 q).mpr (by omega)
  rwa [Int.zero_mul, Int.add_zero] at h

/-- What is between two representable values is representable. -/
theorem inRange_between {t : IntType} {a b c : Int} (ha : t.InRange a) (hc : t.InRange c) (hab : Within incr a b)
    (hbc : Within incr b c) : t.InRange b := by
  obtain ⟨ha1, ha2⟩ := ha
  obtain ⟨hc1, hc2⟩ := hc
  unfold Within at hab hbc
  split at hab
  · simp_all only [if_true]
    exact ⟨by omega, by omega⟩
  · simp_all only [if_false]
    exact ⟨by omega, by omega⟩

end

section
variable {t : LoopType} {n : Nat} {s : SchedType} {lower upper stride incr chunk : Int}

theorem Valid.inRange_index (hv : Valid t n s lower upper incr chunk) {q : Nat} (hq : q ≤ tripCount lower upper incr) :
    t.type.InRange (lower + q * incr) := by
  apply inRange_between hv.lowerIn hv.past (within_lower hv.incr_ne q)
  have h1 := (within_index lower hv.incr_ne q (tripCount lower upper incr)).mpr (by omega)
  have h2 := within_past hv.incr_ne hv.nonempty
  unfold Within at *
  split
  · simp_all only [if_true]
    omega
  · simp_all only [if_false]
    omega

/-- A schedule that hands out the iterations by index: execution `(m, j)` of thread `g` is
    iteration `index g m j` where `Ok g m j` holds. -/
theorem partitions_of_index (bounds : Nat → Bounds) (Ok : Nat → Nat → Nat → Prop) (index : Nat → Nat → Nat → Nat)
    (hne : incr ≠ 0) (hw : Within incr lower upper)
    (hb : ∀ g < n, kmpcForStaticInit t n g s.code lower upper stride incr chunk = some (bounds g))
    (hex : ∀ g < n, ∀ m j i, Executes s (bounds g) upper incr m j i ↔ Ok g m j ∧ i = lower + index g m j * incr)
    (hlast : ∀ g < n, (bounds g).lastiter = true ↔ ∃ m j, Ok g m j ∧ index g m j + 1 = tripCount lower upper incr)
    (hcover : ∀ q < tripCount lower upper incr, ∃ g m j, g < n ∧ Ok g m j ∧ index g m j = q)
    (hin : ∀ g m j, g < n → Ok g m j → index g m j < tripCount lower upper incr)
    (hinj : ∀ g g' m m' j j', g < n → g' < n → Ok g m j → Ok g' m' j' → index g m j = index g' m' j' → g = g' ∧ m = m' ∧ j = j')
    (hidle : ∀ g < n, (∀ m j, ¬ Ok g m j) → ¬ (Within incr (bounds g).lower (bounds g).upper ∧ Within incr (bounds g).lower upper)) :
    Partitions t n s lower upper stride incr chunk := by
  have hidx : ∀ {a b : Nat}, lower + a * incr = lower + b * incr → a = b := by
    intro a b h
    have := Int.eq_of_mul_eq_mul_right hne (show (a : Int) * incr = b * incr by omega)
    omega
  constructor
  case total =>
    intro g hg
    exact ⟨_, hb g (by omega)⟩
  case covered =>
    intro i ⟨q, hq⟩ hwi
    rw [hq, within_upper hne hw] at hwi
    obtain ⟨g, m, j, hg, hok, hqi⟩ := hcover q hwi
    exact ⟨g, m, j, bounds g, by omega, hb g hg, (hex g hg m j i).mpr ⟨hok, by rw [hqi]; exact hq⟩⟩
  case inside =>
    intro g m j b i hg hgb he
    cases (hb g (by omega)).symm.trans hgb
    obtain ⟨hok, rfl⟩ := (hex g (by omega) m j i).mp he
    exact ⟨⟨_, rfl⟩, (within_upper hne hw _).mpr (hin g m j (by omega) hok)⟩
  case once =>
    intro g g' m m' j j' b b' i hg hg' hgb hgb' he he'
    cases (hb g (by omega)).symm.trans hgb
    cases (hb g' (by omega)).symm.trans hgb'
    obtain ⟨hok, hi⟩ := (hex g (by omega) m j i).mp he
    obtain ⟨hok', hi'⟩ := (hex g' (by omega) m' j' i).mp he'
    exact hinj g g' m m' j j' (by omega) (by omega) hok hok' (hidx (hi.symm.trans hi'))
  case idle =>
    intro g b hg hgb hno
    cases (hb g (by omega)).symm.trans hgb
    apply hidle g (by omega)
    intro m j hok
    exact hno m j _ ((hex g (by omega) m j _).mpr ⟨hok, rfl⟩)
  case last =>
    intro g b hg hgb
    cases (hb g (by omega)).symm.trans hgb
    rw [hlast g (by omega)]
    have hpos : 0 < tripCount lower upper incr := tripCount_pos
    have hcast : ((tripCount lower upper incr : Int) - 1) = ((tripCount lower upper incr - 1 : Nat) : Int) := by omega
    rw [hcast]
    constructor
    · intro ⟨m, j, hok, hi⟩
      exact ⟨m, j, (hex g (by omega) m j _).mpr ⟨hok, by rw [show tripCount lower upper incr - 1 = index g m j by omega]⟩⟩
    · intro ⟨m, j, he⟩
      obtain ⟨hok, hi⟩ := (hex g (by omega) m j _).mp he
      have := hidx hi
      exact ⟨m, j, hok, by omega⟩

/-! ## The trip count -/

theorem Valid.distance_nonneg (hv : Valid t n s lower upper incr chunk) :
    (0 < incr → 0 ≤ upper - lower) ∧ (incr < 0 → 0 ≤ lower - upper) := by
  have hw := hv.nonempty
  unfold Within at hw
  split at hw
  · exact ⟨fun _ => by omega, fun _ => by omega⟩
  · exact ⟨fun _ => by omega, fun _ => by omega⟩

/-- The division of a loop that counts down; the least value is its own negation. -/
theorem down_trips {t : LoopType} (hd : t.type.InRange (lower - upper)) (h0 : 0 ≤ lower - upper) (hi : t.type.InRange incr)
    (hneg : incr < 0) : (lower - upper).tdiv (t.type.wrap (-incr)) = (lower - upper) / (-incr) := by
  by_cases hlo : incr = t.type.lo
  · -- only a signed type has it, and then the distance is smaller
    have hwrap : t.type.wrap (-incr) = incr := by
      rw [hlo]
      cases t <;> rfl
    have hlt : lower - upper < -incr := by
      have := hd.2
      rw [hlo] at hneg ⊢
      cases t <;> simp only [LoopType.type, IntType.int32, IntType.uint32, IntType.int64, IntType.uint64] at * <;> omega
    rw [hwrap, Int.ediv_eq_zero_of_lt h0 hlt, ← Int.neg_neg incr, Int.tdiv_neg, Int.tdiv_eq_zero_of_lt h0 hlt]
    rfl
  · have hin : t.type.InRange (-incr) := by
      obtain ⟨h1, h2⟩ := hi
      refine ⟨?_, ?_⟩
      · cases t <;> simp only [LoopType.type, IntType.int32, IntType.uint32, IntType.int64, IntType.uint64] at * <;> omega
      · cases t <;> simp only [LoopType.type, IntType.int32, IntType.uint32, IntType.int64, IntType.uint64] at * <;> omega
    rw [IntType.wrap_of_inRange hin, Int.tdiv_eq_ediv_of_nonneg h0]

theorem Valid.totalTrips_eq (hv : Valid t n s lower upper incr chunk) (hr : Representable t n s lower upper incr chunk) :
    totalTrips t.type lower upper incr = tripCount lower upper incr := by
  obtain ⟨hup, hdown⟩ := hv.distance_nonneg
  have htrips := hv.trips
  unfold totalTrips
  split
  · -- incr = 1
    rename_i h1
    have hT : (tripCount lower upper incr : Int) = upper - lower + 1 := by
      have := hup (by omega)
      unfold tripCount
      rw [h1]
      simp
      omega
    rw [hT] at htrips ⊢
    exact IntType.wrap_eq ((IntType.wrap_modEq _).add_right 1) htrips
  · rename_i h1
    split
    · rename_i hm1
      -- incr = -1; in an unsigned type this is the greatest value, which only fits a loop at 0
      have hT : (tripCount lower upper incr : Int) = lower - upper + 1 := by
        have hp := hv.past.2
        have hl := hv.lowerIn.1
        have hu := hv.upperIn.1
        unfold tripCount
        have hcase : incr = -1 ∨ (0 < incr ∧ lower = upper) := by
          cases t <;> simp only [LoopType.type, IntType.int32, IntType.uint32, IntType.int64, IntType.uint64, IntType.wrap] at *
          · omega
          · have := hup (by omega)
            omega
          · omega
          · have := hup (by omega)
            omega
        obtain rfl | ⟨hpos, rfl⟩ := hcase
        · have := hdown (by omega)
          simp
          omega
        · simp [hpos]
      rw [hT] at htrips ⊢
      exact IntType.wrap_eq ((IntType.wrap_modEq _).add_right 1) htrips
    · rename_i hm1
      split
      · rename_i hgt
        have hpos : 0 < incr := by omega
        have h0 := hup hpos
        have hT : (tripCount lower upper incr : Int) = (upper - lower) / incr + 1 := by
          have := Int.ediv_nonneg h0 (Int.le_of_lt hpos)
          unfold tripCount
          rw [if_pos hpos]
          omega
        rw [IntType.wrap_of_inRange hv.distance, Int.tdiv_eq_ediv_of_nonneg h0, ← hT]
        exact IntType.wrap_of_inRange htrips
      · rename_i hgt
        have hneg : incr < 0 := by
          have := hv.incr_ne
          omega
        have h0 := hdown hneg
        have hT : (tripCount lower upper incr : Int) = (lower - upper) / (-incr) + 1 := by
          have := Int.ediv_nonneg h0 (show 0 ≤ -incr by omega)
          unfold tripCount
          rw [if_neg (by omega)]
          omega
        rw [IntType.wrap_of_inRange (hr.back hneg), down_trips (hr.back hneg) h0 hv.incrIn hneg, ← hT]
        exact IntType.wrap_of_inRange htrips

/-! ## The static schedule -/

/-- The index of thread `g`'s first iteration, of `trips` over `n` threads. -/
def firstIndex (trips n g : Nat) : Nat := if trips < n then min g trips else g * (trips / n) + min g (trips % n)

theorem firstIndex_zero (trips n : Nat) : firstIndex trips n 0 = 0 := by
  unfold firstIndex
  split <;> simp

theorem firstIndex_last {t n : Nat} (hn : 0 < n) : firstIndex t n n = t := by
  unfold firstIndex
  split
  · omega
  · rw [Nat.min_eq_right (Nat.le_of_lt (Nat.mod_lt _ hn))]
    exact Nat.div_add_mod _ _

/-- The share of thread `g`. -/
theorem firstIndex_succ {trips n : Nat} (h : n ≤ trips) (g : Nat) :
    firstIndex trips n (g + 1) = firstIndex trips n g + trips / n + if g < trips % n then 1 else 0 := by
  unfold firstIndex
  rw [if_neg (by omega), if_neg (by omega), Nat.add_mul]
  split <;> omega

theorem firstIndex_mono {t n j k : Nat} (h : j ≤ k) : firstIndex t n j ≤ firstIndex t n k := by
  unfold firstIndex
  split
  · omega
  · have := Nat.mul_le_mul_right (t / n) h
    omega

/-- Thread `g`'s bounds when there is a thread for every iteration. -/
theorem Valid.static_few (hv : Valid t n s lower upper incr chunk) (hlt : tripCount lower upper incr < n) (g : Nat) :
    staticBounds t.type n g (tripCount lower upper incr) lower upper stride incr =
      if g < tripCount lower upper incr then
        ⟨decide (g + 1 = tripCount lower upper incr), lower + g * incr, lower + g * incr, stride⟩
      else ⟨false, upper + incr, upper, stride⟩ := by
  have hpos : 0 < tripCount lower upper incr := tripCount_pos
  have hlast : t.type.wrap ((tripCount lower upper incr : Int) - 1) = (tripCount lower upper incr : Int) - 1 := by
    apply IntType.wrap_of_inRange
    have h1 := hv.trips
    obtain ⟨h2, h3⟩ := hv.trips
    refine ⟨?_, by omega⟩
    have hlo : t.type.lo ≤ 0 := by cases t <;> decide
    omega
  unfold staticBounds
  rw [if_pos (by omega), hlast]
  by_cases hg : g < tripCount lower upper incr
  · have hl : t.type.wrap (lower + t.type.wrap (g * incr)) = lower + g * incr :=
      IntType.wrap_eq ((IntType.wrap_modEq _).add_left lower) (hv.inRange_index (by omega))
    rw [if_pos hg, if_pos (by omega)]
    simp only [hl, Bounds.mk.injEq, and_self, and_true]
    apply decide_eq_decide.mpr
    omega
  · have hu : t.type.wrap (upper + incr) = upper + incr := IntType.wrap_of_inRange hv.past
    rw [if_neg hg, if_neg (by omega)]
    simp only [hu, Bounds.mk.injEq, and_self, and_true, decide_eq_false_iff_not]
    omega

/-- Thread `g`'s bounds when every thread has an iteration. -/
theorem Valid.static_many (hv : Valid t n s lower upper incr chunk) (hge : n ≤ tripCount lower upper incr) {g : Nat} (hg : g < n) :
    staticBounds t.type n g (tripCount lower upper incr) lower upper stride incr =
      ⟨decide (g + 1 = n), lower + firstIndex (tripCount lower upper incr) n g * incr,
        lower + (firstIndex (tripCount lower upper incr) n (g + 1) - 1 : Int) * incr, stride⟩ := by
  have hle := firstIndex_mono (t := tripCount lower upper incr) (n := n) (show g + 1 ≤ n by omega)
  rw [firstIndex_last (by omega)] at hle
  have hsucc := firstIndex_succ hge g
  have hfirst : firstIndex (tripCount lower upper incr) n g =
      g * (tripCount lower upper incr / n) + min g (tripCount lower upper incr % n) := by
    unfold firstIndex
    rw [if_neg (by omega)]
  have hc1 : 1 ≤ tripCount lower upper incr / n := (Nat.one_le_div_iff (by omega)).mpr hge
  have hdiv : ((tripCount lower upper incr : Int)).tdiv n = ((tripCount lower upper incr / n : Nat) : Int) := rfl
  have hmod : ((tripCount lower upper incr : Int)).tmod n = ((tripCount lower upper incr % n : Nat) : Int) := rfl
  unfold staticBounds
  rw [if_neg (by omega), hdiv, hmod]
  generalize tripCount lower upper incr / n = c at *
  generalize tripCount lower upper incr % n = e at *
  have hmin : (if (g : Int) < e then (g : Int) else e) = ((min g e : Nat) : Int) := by
    split <;> omega
  have hl : t.type.wrap (lower + t.type.wrap (incr * t.type.wrap (t.type.wrap (g * c) + ((min g e : Nat) : Int)))) =
      lower + firstIndex (tripCount lower upper incr) n g * incr := by
    apply IntType.wrap_eq _ (hv.inRange_index (by omega))
    apply Int.ModEq.add_left
    refine (IntType.wrap_modEq _).trans ?_
    rw [Int.mul_comm, hfirst, Int.natCast_add, Int.natCast_mul]
    exact ((IntType.wrap_modEq _).trans ((IntType.wrap_modEq _).add_right _)).mul_right _
  have hu : t.type.wrap (t.type.wrap (lower + firstIndex (tripCount lower upper incr) n g * incr + t.type.wrap (c * incr)) -
      (if (g : Int) < e then 0 else incr)) = lower + (firstIndex (tripCount lower upper incr) n (g + 1) - 1 : Int) * incr := by
    have hin := hv.inRange_index (q := firstIndex (tripCount lower upper incr) n (g + 1) - 1) (by omega)
    rw [Int.natCast_sub (by omega)] at hin
    apply IntType.wrap_eq _ hin
    have hstep : (lower + (firstIndex (tripCount lower upper incr) n (g + 1) - 1 : Int) * incr) =
        lower + firstIndex (tripCount lower upper incr) n g * incr + c * incr - (if (g : Int) < e then 0 else incr) := by
      rw [hsucc]
      split
      · rename_i hge'
        rw [if_pos (by omega)]
        push_cast
        ring
      · rename_i hge'
        rw [if_neg (by omega)]
        push_cast
        ring
    rw [show ((1 : Nat) : Int) = 1 from rfl, hstep]
    apply Int.ModEq.sub_right
    exact (IntType.wrap_modEq _).trans ((IntType.wrap_modEq _).add_left _)
  simp only [hmin, hl, hu, Bounds.mk.injEq, and_self, and_true]
  apply decide_eq_decide.mpr
  omega

theorem not_within_past (hne : incr ≠ 0) (j : Nat) : ¬ Within incr (upper + incr + j * incr) upper := by
  have h := within_index upper hne (j + 1) 0
  rw [Int.add_mul, Int.one_mul, Int.zero_mul, Int.add_zero, Int.add_comm (j * incr), ← Int.add_assoc] at h
  rw [h]
  omega

theorem executes_static (first : Nat) (past : Int) (hne : incr ≠ 0) {b : Bounds} (hl : b.lower = lower + first * incr)
    (hu : b.upper = lower + (past - 1) * incr) (m j : Nat) (i : Int) :
    Executes .static b upper incr m j i ↔ (m = 0 ∧ ((first + j : Nat) : Int) < past) ∧ i = lower + ((first + j : Nat) : Int) * incr := by
  unfold Executes
  simp only [hl, hu]
  have hidx : lower + first * incr + j * incr = lower + ((first + j : Nat) : Int) * incr := by
    push_cast
    ring
  rw [hidx]
  constructor
  · intro ⟨hm, hi, hw⟩
    rw [hi, within_index _ hne] at hw
    exact ⟨⟨hm, by omega⟩, hi⟩
  · intro ⟨⟨hm, hlt⟩, hi⟩
    refine ⟨hm, hi, ?_⟩
    rw [hi, within_index _ hne]
    omega

theorem Valid.executes_few (hv : Valid t n s lower upper incr chunk) (hlt : tripCount lower upper incr < n) (g m j : Nat) (i : Int) :
    Executes .static (staticBounds t.type n g (tripCount lower upper incr) lower upper stride incr) upper incr m j i ↔
      (m = 0 ∧ firstIndex (tripCount lower upper incr) n g + j < firstIndex (tripCount lower upper incr) n (g + 1)) ∧
        i = lower + ((firstIndex (tripCount lower upper incr) n g + j : Nat) : Int) * incr := by
  rw [hv.static_few hlt]
  unfold firstIndex
  rw [if_pos hlt, if_pos hlt]
  split
  · rename_i hg
    rw [executes_static g (g + 1) hv.incr_ne rfl (by simp), Nat.min_eq_left (by omega), Nat.min_eq_left (by omega)]
    apply and_congr_left
    intro _
    apply and_congr_right
    intro _
    omega
  · rename_i hg
    constructor
    · intro ⟨_, hi, hw⟩
      rw [hi] at hw
      exact absurd hw (not_within_past hv.incr_ne j)
    · intro ⟨⟨_, h⟩, _⟩
      omega

theorem Valid.executes_many (hv : Valid t n s lower upper incr chunk) (hge : n ≤ tripCount lower upper incr) {g : Nat} (hg : g < n)
    (m j : Nat) (i : Int) :
    Executes .static (staticBounds t.type n g (tripCount lower upper incr) lower upper stride incr) upper incr m j i ↔
      (m = 0 ∧ firstIndex (tripCount lower upper incr) n g + j < firstIndex (tripCount lower upper incr) n (g + 1)) ∧
        i = lower + ((firstIndex (tripCount lower upper incr) n g + j : Nat) : Int) * incr := by
  rw [hv.static_many hge hg, executes_static (firstIndex (tripCount lower upper incr) n g)
    (firstIndex (tripCount lower upper incr) n (g + 1)) hv.incr_ne rfl rfl, Int.ofNat_lt]

theorem Valid.executes_block (hv : Valid t n s lower upper incr chunk) {g : Nat} (hg : g < n) (m j : Nat) (i : Int) :
    Executes .static (staticBounds t.type n g (tripCount lower upper incr) lower upper stride incr) upper incr m j i ↔
      (m = 0 ∧ firstIndex (tripCount lower upper incr) n g + j < firstIndex (tripCount lower upper incr) n (g + 1)) ∧
        i = lower + ((firstIndex (tripCount lower upper incr) n g + j : Nat) : Int) * incr := by
  by_cases hlt : tripCount lower upper incr < n
  · exact hv.executes_few hlt g m j i
  · exact hv.executes_many (by omega) hg m j i

/-- With few iterations the thread of the last one has it alone. -/
theorem Valid.static_last_few (hv : Valid t n s lower upper incr chunk) (hlt : tripCount lower upper incr < n) (g : Nat) :
    (staticBounds t.type n g (tripCount lower upper incr) lower upper stride incr).lastiter = true ↔
      ∃ m j, (m = 0 ∧ firstIndex (tripCount lower upper incr) n g + j < firstIndex (tripCount lower upper incr) n (g + 1)) ∧
        firstIndex (tripCount lower upper incr) n g + j + 1 = tripCount lower upper incr := by
  have hpos : 0 < tripCount lower upper incr := tripCount_pos
  have hf : firstIndex (tripCount lower upper incr) n g = min g (tripCount lower upper incr) := if_pos hlt
  have hf' : firstIndex (tripCount lower upper incr) n (g + 1) = min (g + 1) (tripCount lower upper incr) := if_pos hlt
  rw [hv.static_few hlt]
  constructor
  · intro h
    split at h
    · rename_i hg'
      have := of_decide_eq_true h
      exact ⟨0, 0, ⟨rfl, by omega⟩, by omega⟩
    · cases h
  · intro ⟨m, j, ⟨_, h1⟩, h2⟩
    rw [if_pos (by omega)]
    exact decide_eq_true (by omega)

/-- With at least one iteration a thread, the last one is in the block of the last thread. -/
theorem Valid.static_last_many (hv : Valid t n s lower upper incr chunk) (hn : 0 < n) (hge : n ≤ tripCount lower upper incr)
    {g : Nat} (hg : g < n) :
    (staticBounds t.type n g (tripCount lower upper incr) lower upper stride incr).lastiter = true ↔
      ∃ m j, (m = 0 ∧ firstIndex (tripCount lower upper incr) n g + j < firstIndex (tripCount lower upper incr) n (g + 1)) ∧
        firstIndex (tripCount lower upper incr) n g + j + 1 = tripCount lower upper incr := by
  have hsucc := firstIndex_succ hge g
  have hc1 : 1 ≤ tripCount lower upper incr / n := (Nat.one_le_div_iff hn).mpr hge
  rw [hv.static_many hge hg]
  constructor
  · intro h
    obtain rfl : g + 1 = n := of_decide_eq_true h
    rw [firstIndex_last hn] at hsucc ⊢
    exact ⟨0, tripCount lower upper incr - 1 - firstIndex (tripCount lower upper incr) (g + 1) g, ⟨rfl, by omega⟩, by omega⟩
  · intro ⟨m, j, ⟨_, h1⟩, h2⟩
    apply decide_eq_true
    have hsucc' := firstIndex_succ hge (n - 1)
    rw [show n - 1 + 1 = n by omega, firstIndex_last hn] at hsucc'
    have := block_unique (s := firstIndex (tripCount lower upper incr) n) (i := tripCount lower upper incr - 1)
      (k := g) (l := n - 1) (fun _ _ => firstIndex_mono) ⟨by omega, by omega⟩
      ⟨by omega, by rw [show n - 1 + 1 = n by omega, firstIndex_last hn]; omega⟩
    omega

theorem Valid.static_partitions (hv : Valid t n .static lower upper incr chunk)
    (hr : Representable t n .static lower upper incr chunk) : Partitions t n .static lower upper stride incr chunk := by
  have hn : 0 < n := by
    have := hv.threads.1
    omega
  have hlast : ∀ g < n, firstIndex (tripCount lower upper incr) n (g + 1) ≤ tripCount lower upper incr := by
    intro g hg
    have := firstIndex_mono (t := tripCount lower upper incr) (n := n) (show g + 1 ≤ n by omega)
    rwa [firstIndex_last hn] at this
  apply partitions_of_index (fun g => staticBounds t.type n g (tripCount lower upper incr) lower upper stride incr)
    (fun g m j => m = 0 ∧ firstIndex (tripCount lower upper incr) n g + j < firstIndex (tripCount lower upper incr) n (g + 1))
    (fun g _ j => firstIndex (tripCount lower upper incr) n g + j) hv.incr_ne hv.nonempty
  case hb =>
    intro g _
    unfold kmpcForStaticInit
    rw [SchedType.ofCode_code, hv.totalTrips_eq hr]
    rfl
  case hex =>
    intro g hg m j i
    exact hv.executes_block hg m j i
  case hlast =>
    intro g hg
    by_cases hlt : tripCount lower upper incr < n
    · exact hv.static_last_few hlt g
    · exact hv.static_last_many hn (by omega) hg
  case hcover =>
    intro q hq
    rw [← firstIndex_last (t := tripCount lower upper incr) hn] at hq
    obtain ⟨g, hg, h1, h2⟩ := block_cover (s := firstIndex (tripCount lower upper incr) n) (by rw [firstIndex_zero]; omega) hq
    exact ⟨g, 0, q - firstIndex (tripCount lower upper incr) n g, hg, ⟨rfl, by omega⟩, by omega⟩
  case hin =>
    intro g m j hg hok
    have := hlast g hg
    omega
  case hinj =>
    intro g g' m m' j j' _ _ hok hok' he
    have hgg := block_unique (s := firstIndex (tripCount lower upper incr) n)
      (i := firstIndex (tripCount lower upper incr) n g + j) (k := g) (l := g') (fun _ _ => firstIndex_mono)
      ⟨by omega, hok.2⟩ ⟨by omega, by omega⟩
    subst hgg
    exact ⟨rfl, by omega, by omega⟩
  case hidle =>
    intro g hg hno hw
    apply hno 0 0
    have := (hv.executes_block hg 0 0 _).mp ⟨rfl, rfl, by simpa using hw.1⟩
    exact this.1

/-! ## The chunked schedule -/

theorem Valid.chunked_bounds (hv : Valid t n .staticChunked lower upper incr chunk)
    (hr : Representable t n .staticChunked lower upper incr chunk) {g : Nat} (hg : g < n) {c : Nat}
    (hc : (if chunk < 1 then 1 else chunk) = c) :
    chunkedBounds t.type n g (tripCount lower upper incr) lower incr chunk =
      ⟨decide (g = (tripCount lower upper incr - 1) / c % n), lower + ((c * g : Nat) : Int) * incr,
        lower + ((c * g + c : Nat) - 1 : Int) * incr, ((c * n : Nat) : Int) * incr⟩ := by
  have hspan : spanOf incr chunk = c * incr := by
    unfold spanOf
    rw [hc]
  have hc1 : 1 ≤ c := by
    split at hc <;> omega
  have hpos : 0 < tripCount lower upper incr := tripCount_pos
  have hT : t.type.wrap ((tripCount lower upper incr : Int) - 1) = ((tripCount lower upper incr - 1 : Nat) : Int) := by
    rw [show ((tripCount lower upper incr : Int) - 1) = ((tripCount lower upper incr - 1 : Nat) : Int) by omega]
    apply IntType.wrap_of_inRange
    have h2 := hv.trips.2
    have hlo : t.type.lo ≤ 0 := by cases t <;> decide
    exact ⟨by omega, by omega⟩
  -- the bounds of a thread are between the loop's lower bound and the last thread's
  have hlow : t.type.InRange (lower + ((c * g : Nat) : Int) * incr) := by
    have hlast := hv.lastLower rfl
    have hcast : (lower + spanOf incr chunk * ((n : Int) - 1)) = lower + ((c * (n - 1) : Nat) : Int) * incr := by
      rw [hspan, Int.natCast_mul, Int.natCast_sub (by omega)]
      push_cast
      ring
    rw [hcast] at hlast
    apply inRange_between hv.lowerIn hlast (within_lower hv.incr_ne _)
    rw [within_index _ hv.incr_ne]
    exact_mod_cast Nat.mul_le_mul_left c (show g ≤ n - 1 by omega)
  have hupp : t.type.InRange (lower + ((c * g + c : Nat) - 1 : Int) * incr) := by
    have hlast := hv.lastUpper rfl
    have hcast : (lower + spanOf incr chunk * ((n : Int) - 1) + spanOf incr chunk - incr) =
        lower + ((c * (n - 1) + c - 1 : Nat) : Int) * incr := by
      rw [hspan, Int.natCast_sub (by omega), Int.natCast_add, Int.natCast_mul, Int.natCast_sub (by omega)]
      push_cast
      ring
    rw [hcast] at hlast
    rw [show ((c * g + c : Nat) - 1 : Int) = ((c * g + c - 1 : Nat) : Int) by omega]
    apply inRange_between hv.lowerIn hlast (within_lower hv.incr_ne _)
    rw [within_index _ hv.incr_ne]
    have := Nat.mul_le_mul_left c (show g ≤ n - 1 by omega)
    omega
  have hl : t.type.wrap (lower + t.type.wrap (t.type.wrap (c * incr) * g)) = lower + ((c * g : Nat) : Int) * incr := by
    apply IntType.wrap_eq _ hlow
    apply Int.ModEq.add_left
    refine (IntType.wrap_modEq _).trans (((IntType.wrap_modEq _).mul_right _).trans ?_)
    rw [Int.natCast_mul, Int.mul_right_comm]
  have hu : t.type.wrap (t.type.wrap (lower + ((c * g : Nat) : Int) * incr + t.type.wrap (c * incr)) - incr) =
      lower + ((c * g + c : Nat) - 1 : Int) * incr := by
    apply IntType.wrap_eq _ hupp
    have hstep : lower + ((c * g + c : Nat) - 1 : Int) * incr = lower + ((c * g : Nat) : Int) * incr + c * incr - incr := by
      push_cast
      ring
    rw [hstep]
    exact ((IntType.wrap_modEq _).trans ((IntType.wrap_modEq _).add_left _)).sub_right _
  have hs : t.type.wrap (t.type.wrap (c * incr) * n) = ((c * n : Nat) : Int) * incr := by
    have hin := hr.stride rfl
    rw [hspan] at hin
    rw [show ((c * n : Nat) : Int) * incr = c * incr * n by push_cast; ring]
    exact IntType.wrap_eq ((IntType.wrap_modEq _).mul_right _) hin
  unfold chunkedBounds
  simp only [hc, hT, hl, hu, hs, Bounds.mk.injEq, and_self, and_true]
  apply decide_eq_decide.mpr
  show (g : Int) = (((tripCount lower upper incr - 1) / c % n : Nat) : Int) ↔ _
  omega

theorem Valid.executes_chunked (hv : Valid t n .staticChunked lower upper incr chunk)
    (hr : Representable t n .staticChunked lower upper incr chunk) {g : Nat} (hg : g < n) {c : Nat}
    (hc : (if chunk < 1 then 1 else chunk) = c) (m j : Nat) (i : Int) :
    Executes .staticChunked (chunkedBounds t.type n g (tripCount lower upper incr) lower incr chunk) upper incr m j i ↔
      (j < c ∧ c * (g + m * n) + j < tripCount lower upper incr) ∧ i = lower + ((c * (g + m * n) + j : Nat) : Int) * incr := by
  rw [hv.chunked_bounds hr hg hc]
  unfold Executes
  have hi : lower + ((c * g : Nat) : Int) * incr + m * (((c * n : Nat) : Int) * incr) + j * incr =
      lower + ((c * (g + m * n) + j : Nat) : Int) * incr := by
    push_cast
    ring
  have hu : lower + ((c * g + c : Nat) - 1 : Int) * incr + m * (((c * n : Nat) : Int) * incr) =
      lower + ((c * (g + m * n) + c : Nat) - 1 : Int) * incr := by
    push_cast
    ring
  simp only [hi, hu]
  constructor
  · rintro ⟨rfl, h1, h2⟩
    rw [within_index _ hv.incr_ne] at h1
    rw [within_upper hv.incr_ne hv.nonempty] at h2
    exact ⟨⟨by omega, h2⟩, rfl⟩
  · rintro ⟨⟨h1, h2⟩, rfl⟩
    refine ⟨rfl, ?_, ?_⟩
    · rw [within_index _ hv.incr_ne]
      omega
    · rw [within_upper hv.incr_ne hv.nonempty]
      exact h2

/-- Chunk `g + m * n` is the `m`th chunk of thread `g`. -/
theorem chunk_place {c g m j : Nat} (hg : g < n) (hj : j < c) : (c * (g + m * n) + j) / c % n = g ∧
    (c * (g + m * n) + j) / c / n = m ∧ (c * (g + m * n) + j) % c = j := by
  have h1 : (c * (g + m * n) + j) / c = g + m * n := by
    rw [Nat.mul_add_div (by omega), Nat.div_eq_of_lt hj, Nat.add_zero]
  rw [h1, Nat.add_mul_mod_self_right, Nat.mod_eq_of_lt hg, Nat.add_mul_div_right _ _ (by omega), Nat.div_eq_of_lt hg,
    Nat.mul_add_mod, Nat.mod_eq_of_lt hj]
  exact ⟨rfl, by omega, rfl⟩

theorem chunk_index (c q : Nat) : c * (q / c % n + q / c / n * n) + q % c = q := by
  rw [Nat.mul_comm (q / c / n) n, Nat.mod_add_div]
  exact Nat.div_add_mod q c

theorem Valid.chunked_last (hv : Valid t n .staticChunked lower upper incr chunk)
    (hr : Representable t n .staticChunked lower upper incr chunk) {g : Nat} (hg : g < n) {c : Nat}
    (hc : (if chunk < 1 then 1 else chunk) = c) (hc1 : 1 ≤ c) :
    (chunkedBounds t.type n g (tripCount lower upper incr) lower incr chunk).lastiter = true ↔
      ∃ m j, (j < c ∧ c * (g + m * n) + j < tripCount lower upper incr) ∧
        c * (g + m * n) + j + 1 = tripCount lower upper incr := by
  have hpos : 0 < tripCount lower upper incr := tripCount_pos
  rw [hv.chunked_bounds hr hg hc]
  constructor
  · intro h
    have hgl : g = (tripCount lower upper incr - 1) / c % n := of_decide_eq_true h
    have hq := chunk_index (n := n) c (tripCount lower upper incr - 1)
    rw [← hgl] at hq
    exact ⟨(tripCount lower upper incr - 1) / c / n, (tripCount lower upper incr - 1) % c, ⟨Nat.mod_lt _ hc1, by omega⟩, by omega⟩
  · intro ⟨m, j, ⟨hj, h1⟩, h2⟩
    apply decide_eq_true
    have hb := (chunk_place (m := m) hg hj).1
    rw [show c * (g + m * n) + j = tripCount lower upper incr - 1 by omega] at hb
    exact hb.symm

theorem Valid.chunked_partitions (hv : Valid t n .staticChunked lower upper incr chunk)
    (hr : Representable t n .staticChunked lower upper incr chunk) : Partitions t n .staticChunked lower upper stride incr chunk := by
  have hn : 0 < n := by
    have := hv.threads.1
    omega
  obtain ⟨c, hc, hc1⟩ : ∃ c : Nat, (if chunk < 1 then 1 else chunk) = (c : Int) ∧ 1 ≤ c := by
    split
    · exact ⟨1, rfl, Nat.le_refl 1⟩
    · exact ⟨chunk.toNat, by omega, by omega⟩
  apply partitions_of_index (fun g => chunkedBounds t.type n g (tripCount lower upper incr) lower incr chunk)
    (fun g m j => j < c ∧ c * (g + m * n) + j < tripCount lower upper incr)
    (fun g m j => c * (g + m * n) + j) hv.incr_ne hv.nonempty
  case hb =>
    intro g _
    unfold kmpcForStaticInit
    rw [SchedType.ofCode_code, hv.totalTrips_eq hr]
    rfl
  case hex =>
    intro g hg m j i
    exact hv.executes_chunked hr hg hc m j i
  case hlast =>
    intro g hg
    exact hv.chunked_last hr hg hc hc1
  case hcover =>
    intro q hq
    have hqi := chunk_index (n := n) c q
    exact ⟨q / c % n, q / c / n, q % c, Nat.mod_lt _ hn, ⟨Nat.mod_lt _ hc1, by omega⟩, hqi⟩
  case hin =>
    intro g m j _ hok
    exact hok.2
  case hinj =>
    intro g g' m m' j j' hg hg' hok hok' he
    obtain ⟨h1, h2, h3⟩ := chunk_place (m := m) hg hok.1
    obtain ⟨h1', h2', h3'⟩ := chunk_place (m := m') hg' hok'.1
    rw [he] at h1 h2 h3
    exact ⟨h1.symm.trans h1', h2.symm.trans h2', h3.symm.trans h3'⟩
  case hidle =>
    intro g hg hno hw
    have h0 := (hv.executes_chunked hr hg hc 0 0 (chunkedBounds t.type n g (tripCount lower upper incr) lower incr chunk).lower).mp
      ⟨by simp, by simpa using hw.1, hw.2⟩
    exact hno 0 0 h0.1

end

/-- Static scheduling partitions the iterations of every loop whose distance, trip count, next
    value, first chunks and stride are representable in the loop's type. -/
theorem static_init_partitions (t : LoopType) (nthreads : Int) (s : SchedType) (lower upper stride incr chunk : Int)
    (hv : Valid t nthreads s lower upper incr chunk) (hr : Representable t nthreads s lower upper incr chunk) :
    Partitions t nthreads s lower upper stride incr chunk := by
  obtain ⟨n, rfl⟩ : ∃ n : Nat, nthreads = n := ⟨nthreads.toNat, by have := hv.threads.1; omega⟩
  cases s with
  | static => exact hv.static_partitions hr
  | staticChunked => exact hv.chunked_partitions hr

/-- A loop that counts down by two from 10 to -5, in chunks of three on four threads. -/
theorem static_init_partitions_down : Partitions .int32 4 .staticChunked 10 (-5) 0 (-2) 3 :=
  static_init_partitions .int32 4 .staticChunked 10 (-5) 0 (-2) 3
    ⟨by decide, by decide, by decide, by decide, by decide, by decide, by decide, by decide, by decide, by decide,
      fun _ => by decide, fun _ => by decide⟩ ⟨fun _ => by decide, fun _ => by decide⟩

/-- In 32 bits, without these: two threads with chunks of 2^31 get the stride 0 and execute
    their chunk again and again; a loop from 2^31 - 1 down to -1 has a negative distance and
    no thread executes anything. -/
theorem static_init_not_partitions :
    (Valid .uint32 2 .staticChunked 0 10 1 2147483648 ∧ ¬ Partitions .uint32 2 .staticChunked 0 10 0 1 2147483648) ∧
      Valid .int32 1 .static 2147483647 (-1) (-2) 1 ∧ ¬ Partitions .int32 1 .static 2147483647 (-1) 0 (-2) 1 := by
  refine ⟨⟨?_, ?_⟩, ?_, ?_⟩
  · exact ⟨by decide, by decide, by decide, by decide, by decide, by decide, by decide, by decide, by decide, by decide,
      fun _ => by decide, fun _ => by decide⟩
  · intro h
    have hb : kmpcForStaticInit .uint32 2 (0 : Nat) SchedType.staticChunked.code 0 10 0 1 2147483648 =
        some ⟨true, 0, 2147483647, 0⟩ := by decide
    have := h.once 0 0 0 1 0 0 _ _ 0 (by decide) (by decide) hb hb ⟨by decide, by decide, by decide⟩ ⟨by decide, by decide, by decide⟩
    exact absurd this.2.1 (by decide)
  · exact ⟨by decide, by decide, by decide, by decide, by decide, by decide, by decide, by decide, by decide, by decide,
      SchedType.noConfusion, SchedType.noConfusion⟩
  · intro h
    obtain ⟨g, m, j, b, hg, hb, -, hi, -⟩ := h.covered 2147483647 ⟨0, by decide⟩ (by decide)
    obtain rfl : g = 0 := by omega
    have hb' : kmpcForStaticInit .int32 1 (0 : Nat) SchedType.static.code 2147483647 (-1) 0 (-2) 1 =
        some ⟨false, -3, -1, 0⟩ := by decide
    cases hb.symm.trans hb'
    simp only at hi
    omega

end Popcorn.Bomp
