/-
  Popcorn.Runtime.Bitmaps — the callee-saved bitmaps over a rewrite.

  `DestRun` is what holds of the destination context when the rewrite has reached
  activation `m`: the call sites and CFAs of the frames laid out so far, and the bits of
  every bitmap. A bit is set if the pool held it when the frame was reached or if the
  frame's own unwind records list the register.

  Proved:
  - `rewriteStep_destRun`, `stRewriteStack_destRun`: a round, and the whole rewrite.
  - `bitmaps_sound_iff`: the bitmaps lie in the pool, apart from each other, start out
    empty and end up with the listed registers exactly when the rewrite has fewer than 64
    activations and `malloc` returned zeroes in the words `memset` leaves out.
-/

import Popcorn.Runtime.UnwindProofs
import Popcorn.Runtime.Writes

namespace Popcorn.Runtime

open Popcorn.Lib Popcorn.Metadata

/-! ## The destination context over a run -/

/-- The bit of register `r` in the bitmap of activation `k`. -/
def bitAt (pool : Pool) (k : Nat) (r : UInt16) : Bool := testBit pool ⟨0, k * 16⟩ r.toNat

theorem testBit_eq_bitAt {pool : Pool} {b : Bitmap} {k : Nat} (h : b.bits = k * 16) (r : UInt16) :
    testBit pool b r.toNat = bitAt pool k r := by
  unfold bitAt testBit
  rw [h]

/-- The function's unwind records list the register. -/
def Lists (h : Handle) (s : CallSite) (r : UInt16) : Prop := ∃ l ∈ unwindRecords h s, l.reg = r

theorem not_lists_empty (h : Handle) (r : UInt16) : ¬ Lists h emptyCallSite r := by
  intro ⟨l, hl, _⟩
  have : unwindRecords h emptyCallSite = [] := by
    unfold unwindRecords
    exact List.take_zero
  rw [this] at hl
  cases hl

/-- The call sites of the destination's activations; the function being entered has none. -/
def destSite (ds : Nat → CallSite) (k : Nat) : CallSite := if k = 0 then emptyCallSite else ds k

/-- The CFAs of the destination's activations. -/
def destCfa (x : RewriteArgs) (ds : Nat → CallSite) (n : Nat) : Nat → Nat
  | 0 => padd (destTop x.handleDest.arch x.spBaseDest (frameSpan ds (n - 1))) (getProperties x.handleDest.arch).cfaOffsetFuncentry
  | k + 1 => padd (destCfa x ds n k) (ds (k + 1)).frameSize.toNat

theorem destCfa_lt (x : RewriteArgs) (ds : Nat → CallSite) (n k : Nat) : destCfa x ds n k < 18446744073709551616 := by
  cases k <;> exact padd_lt _ _

/-- The destination's pool after `memset`. -/
def clearedPool (x : RewriteArgs) (n : Nat) : Pool := fun w => if w < 2 * n then 0 else x.freshDest.pool w

structure DestRun (x : RewriteArgs) (n : Nat) (ds : Nat → CallSite) (m : Nat) (c : Ctx) : Prop where
  handle : c.handle = x.handleDest
  act : c.act = m
  site : ∀ k < n, (c.acts k).site = destSite ds k
  cfa : ∀ k ≤ m, (c.acts k).cfa = destCfa x ds n k
  bits : ∀ k ≤ m, (c.acts k).calleeSaved.bits = k * 16
  marked : ∀ k r, isCalleeSaved x.handleDest.arch r = true →
    (bitAt c.pool k r = true ↔ bitAt (clearedPool x n) k r = true ∨ (k < m ∧ Lists x.handleDest (destSite ds k) r))

section
variable {mem : Mem} {x : RewriteArgs} {n m : Nat} {sf : Nat → VFrame} {ds : Nat → CallSite} {c c' : Ctx}

theorem DestRun.same (h : DestRun x n ds m c) (hs : SameFrames c c') : DestRun x n ds m c' where
  handle := hs.handle.trans h.handle
  act := hs.act.trans h.act
  site k hk := (hs.site k).trans (h.site k hk)
  cfa k hk := (hs.cfa k).trans (h.cfa k hk)
  bits k hk := (congrArg Bitmap.bits (hs.calleeSaved k)).trans (h.bits k hk)
  marked := by
    rw [hs.pool]
    exact h.marked

theorem DestRun.cur_site (h : DestRun x n ds m c) (hm : m < n) : c.cur.site = destSite ds m := by
  unfold Ctx.cur
  rw [h.act]
  exact h.site m hm

theorem DestRun.cur_cfa (h : DestRun x n ds m c) : c.cur.cfa = destCfa x ds n m := by
  unfold Ctx.cur
  rw [h.act]
  exact h.cfa m (Nat.le_refl m)

theorem DestRun.cur_bits (h : DestRun x n ds m c) : c.cur.calleeSaved.bits = m * 16 := by
  unfold Ctx.cur
  rw [h.act]
  exact h.bits m (Nat.le_refl m)

/-- Marking activation `m` sets the bits of the registers it lists, and no others. -/
theorem bitAt_mark {a : Arch} {b : Bitmap} {recs : List UnwindLoc} (hb : b.bits = m * 16) (hm : Markable a b recs)
    (pool : Pool) (k : Nat) {r : UInt16} (hr : isCalleeSaved a r = true) :
    bitAt (mark b recs pool) k r = true ↔ bitAt pool k r = true ∨ (k = m ∧ ∃ l ∈ recs, l.reg = r) := by
  unfold bitAt
  rw [testBit_mark]
  apply or_congr_right
  have hr' := (calleeSaved_cases hr).2.2.2
  constructor
  · intro ⟨l, hl, h1, h2⟩
    have hl' := (calleeSaved_cases (hm l hl).1).2.2.2
    simp only [hb] at h1
    refine ⟨by omega, l, hl, UInt16.toNat_inj.mp (by omega)⟩
  · intro ⟨hk, l, hl, hlr⟩
    subst hk hlr
    exact ⟨l, hl, by rw [hb], rfl⟩

theorem DestRun.popped (h : DestRun x n ds m c) (mem : Mem) (hm : m + 1 < n) (hp : CanPop c) :
    DestRun x n ds (m + 1) (popped mem c true) := by
  have hcfa := h.cur_cfa
  have hb := popped_bounds mem c (by rw [hcfa]; exact destCfa_lt x ds n m)
  have hbits := popped_bits mem c true
  have hpool := popped_pool mem c true
  have hsite := popped_site mem c true
  rw [h.act] at hb hbits hsite
  have hnext : (c.acts (m + 1)).site = ds (m + 1) := (h.site (m + 1) hm).trans (if_neg (by omega))
  constructor
  case handle => rw [popped_handle, h.handle]
  case act => rw [popped_act, h.act]
  case site =>
    intro k hk
    by_cases he : k = m + 1
    · subst he
      exact hsite.trans (h.site _ hk)
    · rw [popped_acts_ne _ _ _ (by rw [h.act]; exact he)]
      exact h.site k hk
  case cfa =>
    intro k hk
    obtain rfl | hk := Nat.eq_or_lt_of_le hk
    · rw [hb.cfa, hcfa, hnext]
      rfl
    · rw [popped_acts_ne _ _ _ (by rw [h.act]; omega)]
      exact h.cfa k (by omega)
  case bits =>
    intro k hk
    obtain rfl | hk := Nat.eq_or_lt_of_le hk
    · exact hbits
    · rw [popped_acts_ne _ _ _ (by rw [h.act]; omega)]
      exact h.bits k (by omega)
  case marked =>
    intro k r hr
    have hmark := hp.markable
    rw [h.handle] at hmark
    rw [hpool, bitAt_mark h.cur_bits (by rw [h.handle]; exact hmark) c.pool k hr, h.marked k r hr, h.handle, h.cur_site (by omega), or_assoc]
    apply or_congr_right
    constructor
    · rintro (⟨hk, hl⟩ | ⟨rfl, hl⟩)
      · exact ⟨by omega, hl⟩
      · exact ⟨by omega, hl⟩
    · intro ⟨hk, hl⟩
      obtain rfl | hk := Nat.eq_or_lt_of_le (Nat.lt_succ_iff.mp hk)
      · exact .inr ⟨rfl, hl⟩
      · exact .inl ⟨hk, hl⟩

/-- One round of the rewrite moves to the next activation. -/
theorem rewriteStep_destRun {src : Ctx} {found : Bool} {st st' : Dst} (hr : DestRun x n ds m st.ctx) (hm : m + 1 < n)
    (h : rewriteStep src found st = .ok st') : DestRun x n ds (m + 1) st'.ctx := by
  unfold rewriteStep at h
  obtain ⟨st1, h1, h⟩ := bind_ok.mp h
  obtain ⟨c1, h2, h⟩ := bind_ok.mp h
  have hr1 := (hr.same (writeLoc_same st _ _)).same (rewriteFrame_same h1)
  obtain ⟨hp, rfl⟩ := popFrame_ok_iff.mp h2
  have hr2 := hr1.popped st1.mem hm hp
  cases h
  exact hr2

/-- The contexts `unwind_and_size` leaves, at the function being entered. -/
theorem Unwound.destRun {u : Unwinding} (hu : Unwound x n sf ds u) : DestRun x n ds 0 u.dest where
  handle := hu.destHandle
  act := hu.destAct
  site k hk := by
    unfold destSite
    split
    · subst k
      exact hu.destSite0
    · exact hu.destSites k (by omega) hk
  cfa k hk := by
    obtain rfl := Nat.le_zero.mp hk
    exact hu.destCfa
  bits k hk := by
    obtain rfl := Nat.le_zero.mp hk
    exact hu.destBits0
  marked k r _ := by
    rw [hu.destPool]
    show bitAt (clearedPool x n) k r = true ↔ _
    simp

theorem DestRun.entered (h : DestRun x n ds 0 c) (hn : 2 ≤ n) : DestRun x n ds 1 (entered mem c) := by
  have hcfa := h.cur_cfa
  have hlt : c.cur.cfa < 18446744073709551616 := by
    rw [hcfa]
    exact destCfa_lt x ds n 0
  have hb := entered_next mem c hlt
  have hcur := entered_cur mem c hlt
  have hbits := entered_bits mem c
  rw [h.act] at hb hcur hbits
  have hnext : (c.acts 1).site = ds 1 := (h.site 1 (by omega)).trans (if_neg (by omega))
  constructor
  case handle => rw [entered_handle, h.handle]
  case act => rw [entered_act, h.act]
  case site =>
    intro k hk
    rw [entered_site]
    exact h.site k hk
  case cfa =>
    intro k hk
    obtain rfl | hk := Nat.eq_or_lt_of_le hk
    · rw [hb.cfa, hcfa, hnext]
      rfl
    · obtain rfl : k = 0 := by omega
      rw [hcur]
      exact hcfa
  case bits =>
    intro k hk
    obtain rfl | hk := Nat.eq_or_lt_of_le hk
    · exact hbits
    · obtain rfl : k = 0 := by omega
      rw [hcur]
      exact h.cur_bits
  case marked =>
    intro k r hr
    rw [entered_pool, h.marked k r hr]
    constructor
    · rintro (hb | ⟨hk, -⟩)
      · exact .inl hb
      · omega
    · rintro (hb | ⟨hk, hl⟩)
      · exact .inl hb
      · obtain rfl : k = 0 := by omega
        exact absurd hl (not_lists_empty _ r)

theorem setReturnAddressFuncentry_same (st : Dst) (a : Nat) : SameFrames st.ctx (setReturnAddressFuncentry st a).ctx := by
  unfold setReturnAddressFuncentry
  split
  · exact writeLoc_same st _ _
  · exact writeLoc_same st _ _

/-- The steps of a rewrite that returns 0. -/
theorem stRewriteStack_ok {out : Rewritten} (h : stRewriteStack mem x = .ok (some out)) :
    ∃ u st0 st, unwindStack mem x = .ok u ∧ rewriteOutermost mem u.dest = .ok st0 ∧
      (List.range' 1 (u.src.numActs - 2)).foldlM (fun st k => rewriteStep { u.src with act := k } (x.foundFixup k) st) st0 = .ok st ∧
      out = ⟨(st.ctx.acts 0).regs, st.mem, st.ctx⟩ := by
  unfold stRewriteStack at h
  split at h
  · cases h
  · obtain ⟨u, hu, h⟩ := bind_ok.mp h
    obtain ⟨st0, h0, h⟩ := bind_ok.mp h
    obtain ⟨st, hst, h⟩ := bind_ok.mp h
    cases h
    exact ⟨u, st0, st, hu, h0, hst, rfl⟩

theorem rewriteOutermost_destRun {u : Unwinding} (hu : Unwound x n sf ds u) (hn : 2 ≤ n) {st : Dst}
    (h : rewriteOutermost mem u.dest = .ok st) : DestRun x n ds 1 st.ctx := by
  unfold rewriteOutermost at h
  obtain ⟨c, h1, h⟩ := bind_ok.mp h
  obtain ⟨-, rfl⟩ := popFrameFuncentry_ok_iff.mp h1
  cases h
  exact (hu.destRun.same (setReturnAddressFuncentry_same ⟨u.dest, mem⟩ _)).entered hn

/-- The destination context at the end of a rewrite. -/
theorem stRewriteStack_destRun (hs : SourceStack mem x n sf ds) {out : Rewritten}
    (h : stRewriteStack mem x = .ok (some out)) : DestRun x n ds (n - 1) out.dest := by
  have h2 := hs.two
  obtain ⟨u, st0, st, hu, h0, hst, rfl⟩ := stRewriteStack_ok h
  have hun := unwindStack_unwound hs hu
  rw [hun.numActs] at hst
  have := foldlM_range (P := fun m st => DestRun x n ds m st.ctx) (n - 2) 1
    (fun k s s' _ hk hr h => rewriteStep_destRun hr (by omega) h) hst (rewriteOutermost_destRun hun h2 h0)
  rwa [show 1 + (n - 2) = n - 1 by omega] at this

end

/-! ## Soundness of the bitmaps -/

/-- The bitmap `setup_callee_saved_bits` gives to activation `k`, and its number of words. -/
def bitmapOf (c : Ctx) (k : Nat) : Bitmap := ((setupCalleeSavedBits c k).acts k).calleeSaved
def Bitmap.words (b : Bitmap) : Nat := bitmapSize b.size / 8

theorem bitmapOf_bits (c : Ctx) (k : Nat) : (bitmapOf c k).bits = k * 16 ∧ (bitmapOf c k).words = 2 := by
  have h : bitmapSize c.regops.numRegs = 16 := bitmapSize_numRegs c.handle.arch
  unfold bitmapOf setupCalleeSavedBits Bitmap.words
  simp [h]

/-- The bitmaps of a rewrite of `n` activations. -/
structure BitmapsSound (mem : Mem) (x : RewriteArgs) (n : Nat) : Prop where
  /-- They lie in their pools. The source sets up one more activation, for the caller of its
      start function. -/
  insideSrc : ∀ c : Ctx, c.handle = x.handleSrc → ∀ k ≤ n, (bitmapOf c k).bits + (bitmapOf c k).words ≤ poolWords c.handle.arch
  insideDest : ∀ c : Ctx, c.handle = x.handleDest → ∀ k < n, (bitmapOf c k).bits + (bitmapOf c k).words ≤ poolWords c.handle.arch
  disjoint : ∀ (c : Ctx) (j k : Nat), j < k → (bitmapOf c j).bits + (bitmapOf c j).words ≤ (bitmapOf c k).bits
  /-- `unwind_and_size` hands the destination's over empty. -/
  cleared : ∀ (dest d : Ctx) (stackSize : Nat), dest.handle = x.handleDest → dest.pool = x.freshDest.pool → dest.numActs = n →
    layoutDest dest stackSize = .ok d → ∀ k < n, ∀ i < (bitmapOf d k).words, d.pool ((bitmapOf d k).bits + i) = 0
  /-- Those of the frames popped from the destination end up with the registers they list. -/
  listed : ∀ out, stRewriteStack mem x = .ok (some out) → ∀ k, k + 1 < n → ∀ r, isCalleeSaved x.handleDest.arch r = true →
    (testBit out.dest.pool (out.dest.acts k).calleeSaved r.toNat = true ↔ Lists x.handleDest (out.dest.acts k).site r)

/-- The words of the destination's bitmaps that `memset` leaves out are zero. -/
def PoolClean (pool : Pool) (n : Nat) : Prop := ∀ k < n, ∀ i < 2, 2 * n ≤ k * 16 + i → pool (k * 16 + i) = 0

theorem bitAt_clean {x : RewriteArgs} {n : Nat} (hc : PoolClean x.freshDest.pool n) {k : Nat} (hk : k < n) {a : Arch} {r : UInt16}
    (hr : isCalleeSaved a r = true) : bitAt (clearedPool x n) k r = false := by
  have hr' := (calleeSaved_cases hr).2.2.2
  have hz : clearedPool x n (k * 16 + r.toNat / 64) = 0 := by
    unfold clearedPool
    split
    · rfl
    · exact hc k hk _ (by omega) (by omega)
  unfold bitAt
  rw [testBit_iff, hz]
  exact Nat.zero_testBit _

/-- The callee-saved bitmaps of a rewrite are sound exactly when it has fewer than 64
    activations and the destination's pool is clean where `memset` does not reach. -/
theorem bitmaps_sound_iff (mem : Mem) (x : RewriteArgs) (n : Nat) (sf : Nat → VFrame) (ds : Nat → CallSite)
    (hs : SourceStack mem x n sf ds) : BitmapsSound mem x n ↔ n < 64 ∧ PoolClean x.freshDest.pool n := by
  constructor
  · intro h
    refine ⟨?_, ?_⟩
    · have := h.insideSrc (srcStart x.handleSrc 0 x.freshSrc (sf 0)) rfl n (Nat.le_refl n)
      rw [(bitmapOf_bits _ _).1, (bitmapOf_bits _ _).2, poolWords_eq] at this
      omega
    · intro k hk i hi hle
      let dest : Ctx := ⟨x.handleDest, 0, 0, n, 0, x.freshDest.acts, [], x.freshDest.pool⟩
      have := h.cleared dest _ 0 rfl rfl rfl (layoutDest_ok dest 0) k hk i (by rw [(bitmapOf_bits _ _).2]; exact hi)
      rw [(bitmapOf_bits _ _).1, laidOut_pool] at this
      exact (if_neg (by show ¬ k * 16 + i < 2 * n; omega)).symm.trans this
  · intro ⟨hn, hc⟩
    constructor
    case insideSrc =>
      intro c _ k hk
      rw [(bitmapOf_bits c k).1, (bitmapOf_bits c k).2, poolWords_eq]
      omega
    case insideDest =>
      intro c _ k hk
      rw [(bitmapOf_bits c k).1, (bitmapOf_bits c k).2, poolWords_eq]
      omega
    case disjoint =>
      intro c j k hjk
      rw [(bitmapOf_bits c j).1, (bitmapOf_bits c j).2, (bitmapOf_bits c k).1]
      omega
    case cleared =>
      intro dest d size _ hpool hnum hd k hk i hi
      cases (layoutDest_ok dest size).symm.trans hd
      rw [(bitmapOf_bits _ _).2] at hi
      rw [(bitmapOf_bits _ _).1, laidOut_pool, hnum, hpool]
      show (if k * 16 + i < 2 * n then 0 else _) = _
      split
      · rfl
      · exact hc k hk i hi (by omega)
    case listed =>
      intro out hout k hk r hr
      have hrun := stRewriteStack_destRun hs hout
      rw [testBit_eq_bitAt (hrun.bits k (by omega)), hrun.marked k r hr, bitAt_clean hc (by omega) hr, hrun.site k (by omega)]
      constructor
      · rintro (h | ⟨-, h⟩)
        · cases h
        · exact h
      · intro h
        exact .inr ⟨by omega, h⟩

theorem bitmaps_sound_iff_rec :
    ∃ sf ds, SourceStack (recMem 3) (recArgs .start) 3 sf ds ∧ BitmapsSound (recMem 3) (recArgs .start) 3 := by
  obtain ⟨sf, ds, hs⟩ := (recChain .start 3 (by decide) (by decide)).sourceStack (x := recArgs .start)
    (recHolds .start 3 (by decide)) (by decide) (by decide)
  refine ⟨sf, ds, hs, (bitmaps_sound_iff (recMem 3) (recArgs .start) 3 sf ds hs).mpr ⟨by decide, ?_⟩⟩
  intro k _ i _ _
  rfl

/-- The arguments of `recArgs` with a pool in which `malloc` returned ones. -/
def dirtyArgs : RewriteArgs := { recArgs .start with freshDest := ⟨(recArgs .start).freshDest.acts, fun _ => uint64Max⟩ }

/-- Three activations in a pool that is not zero: the bitmap of activation 1 is not cleared.
    And 64 activations: the last bitmap lies past the pool. -/
theorem bitmaps_not_sound :
    (∃ sf ds, SourceStack (recMem 3) dirtyArgs 3 sf ds ∧ ¬ BitmapsSound (recMem 3) dirtyArgs 3) ∧
      ∃ sf ds, SourceStack (recMem 64) (recArgs .start) 64 sf ds ∧ ¬ BitmapsSound (recMem 64) (recArgs .start) 64 := by
  constructor
  · obtain ⟨sf, ds, hs⟩ := (recChain .start 3 (by decide) (by decide)).sourceStack (x := dirtyArgs)
      (recHolds .start 3 (by decide)) (by decide) (by decide)
    refine ⟨sf, ds, hs, ?_⟩
    intro h
    let dest : Ctx := ⟨dirtyArgs.handleDest, 0, 0, 3, 0, dirtyArgs.freshDest.acts, [], dirtyArgs.freshDest.pool⟩
    have := h.cleared dest _ 0 rfl rfl rfl (layoutDest_ok dest 0) 1 (by decide) 0 (by rw [(bitmapOf_bits _ _).2]; decide)
    rw [(bitmapOf_bits _ _).1, laidOut_pool] at this
    exact absurd this (by decide)
  · obtain ⟨sf, ds, hs⟩ := (recChain .start 64 (by decide) (by decide)).sourceStack (x := recArgs .start)
      (recHolds .start 64 (by decide)) (by decide) (by decide)
    refine ⟨sf, ds, hs, ?_⟩
    intro h
    have := h.insideSrc (srcStart (recArgs .start).handleSrc 0 (recArgs .start).freshSrc (sf 0)) rfl 64 (Nat.le_refl 64)
    rw [(bitmapOf_bits _ _).1, (bitmapOf_bits _ _).2, poolWords_eq] at this
    omega

end Popcorn.Runtime
