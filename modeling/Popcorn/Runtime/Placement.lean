/-
  Popcorn.Runtime.Placement — the destination stack as a rewrite lays it out.

  `unwind_and_size` adds up the frame sizes and puts the SP that far below the stack base,
  aligned as a function entry wants it; `pop_frame_funcentry` and `pop_frame` then place
  the frames upwards from the entered function's CFA, which on x86-64 is 8 bytes above the
  SP, past its return address. The sum leaves out these 8 bytes: the last frame ends at the
  base only when the alignment has moved the SP down by as much.

  Proved:
  - `destCfa_eq_base`: where every frame ends, relative to the base.
  - `dest_layout_sound_iff`: the frames stand next to each other, below the base, with their
    return-address and FBP slots apart, exactly when `HasRoom` holds.
  - `dest_layout_past_base`: a frame of 24 bytes ends 8 bytes above the base.
-/

import Popcorn.Runtime.Bitmaps

namespace Popcorn.Runtime

open Popcorn.Lib Popcorn.Metadata

/-! ## The states of a rewrite -/

/-- The destination when the rewrite of the stacks `u` has reached activation `m`. -/
def destAt (mem : Mem) (x : RewriteArgs) (u : Unwinding) : Nat → Except Fault Dst
  | 0 => .ok ⟨u.dest, mem⟩
  | 1 => rewriteOutermost mem u.dest
  | m + 2 => do
    let st ← destAt mem x u (m + 1)
    rewriteStep { u.src with act := m + 1 } (x.foundFixup (m + 1)) st

/-- The return-address and FBP slots the round at the current activation writes. The return
    address of the function being entered is in a register where there is one for it. -/
def writtenSlots (c : Ctx) : List Nat :=
  if c.act = 0 then if c.regops.raOff.isSome then [] else [padd c.cur.cfa c.props.raOffset]
  else [padd c.cur.cfa c.props.raOffset, getSavedfbpLoc c]

/-- The stack pointer at a function's entry. -/
def EntryAligned (a : Arch) (sp : Nat) : Prop :=
  match a with
  | .x86_64 => (sp + 8) % 16 = 0
  | .aarch64 => sp % 16 = 0

/-- The destination stack of a rewrite of `n` activations, in every state it goes through. -/
structure DestLayoutSound (mem : Mem) (x : RewriteArgs) (n : Nat) (u : Unwinding) : Prop where
  contiguous : ∀ m st, m + 1 < n → destAt mem x u (m + 1) = .ok st →
    (getRegops x.handleDest.arch).sp (st.ctx.acts (m + 1)).regs = (st.ctx.acts m).cfa
  below : ∀ st, destAt mem x u (n - 1) = .ok st → (st.ctx.acts (n - 1)).cfa ≤ x.spBaseDest
  inside : ∀ m st, m + 1 < n → destAt mem x u m = .ok st → ∀ a ∈ writtenSlots st.ctx,
    u.dest.stack ≤ a ∧ a + 8 ≤ x.spBaseDest
  apart : ∀ m m' st st', m < m' → m' + 1 < n → destAt mem x u m = .ok st → destAt mem x u m' = .ok st' →
    ∀ a ∈ writtenSlots st.ctx, ∀ b ∈ writtenSlots st'.ctx, a + 8 ≤ b ∨ b + 8 ≤ a
  entry : EntryAligned x.handleDest.arch ((getRegops x.handleDest.arch).sp (u.dest.acts 0).regs)

def sizeUnit : Arch → Nat
  | .x86_64 => 8
  | .aarch64 => 16

/-- Frame sizes are positive multiples of 8 on x86-64 and of 16 on aarch64. -/
def SizesAligned (a : Arch) (ds : Nat → CallSite) (n : Nat) : Prop :=
  ∀ k, 0 < k → k < n → 0 < (ds k).frameSize.toNat ∧
    (ds k).frameSize.toNat % sizeUnit a = 0

/-- The frames of the destination fit below its base. -/
def HasRoom (a : Arch) (ds : Nat → CallSite) (n base : Nat) : Prop :=
  match a with
  | .x86_64 => frameSpan ds (n - 1) % 16 = 0 ∧ frameSpan ds (n - 1) + 8 ≤ base ∧
      ∀ k, 0 < k → k + 1 < n → 16 ≤ (ds k).frameSize.toNat
  | .aarch64 => n = 2 ∨ frameSpan ds (n - 1) ≤ base

section
variable {mem : Mem} {x : RewriteArgs} {n : Nat} {sf : Nat → VFrame} {ds : Nat → CallSite} {u : Unwinding}

/-- The rounds of `st_rewrite_stack` go through these states. -/
theorem destAt_foldlM {st0 : Dst} (h0 : rewriteOutermost mem u.dest = .ok st0) (j : Nat) :
    (List.range' 1 j).foldlM (fun st k => rewriteStep { u.src with act := k } (x.foundFixup k) st) st0 =
      destAt mem x u (j + 1) := by
  induction j with
  | zero =>
    show Except.ok st0 = rewriteOutermost mem u.dest
    rw [h0]
  | succ j ih =>
    rw [List.range'_concat, List.foldlM_append, ih]
    show _ = (destAt mem x u (j + 1) >>= fun st => _)
    cases destAt mem x u (j + 1) with
    | error e => rfl
    | ok st =>
      show (rewriteStep _ _ st >>= pure) = _
      rw [bind_pure, show 1 + 1 * j = j + 1 by omega]
      rfl

theorem destAt_destRun (hu : Unwound x n sf ds u) (hn : 2 ≤ n) (m : Nat) :
    ∀ st, m < n → destAt mem x u m = .ok st → DestRun x n ds m st.ctx := by
  induction m with
  | zero =>
    intro st _ h
    cases h
    exact hu.destRun
  | succ m ih =>
    intro st hm h
    cases m with
    | zero => exact rewriteOutermost_destRun hu hn h
    | succ m =>
      obtain ⟨st1, h1, h2⟩ := bind_ok.mp h
      exact rewriteStep_destRun (ih st1 (by omega) h1) hm h2

/-- A frame is placed at the CFA of the frame it called. -/
theorem destAt_contiguous (hu : Unwound x n sf ds u) (hn : 2 ≤ n) {m : Nat} {st : Dst} (hm : m + 1 < n)
    (h : destAt mem x u (m + 1) = .ok st) :
    (getRegops x.handleDest.arch).sp (st.ctx.acts (m + 1)).regs = (st.ctx.acts m).cfa := by
  cases m with
  | zero =>
    unfold destAt rewriteOutermost at h
    obtain ⟨c, h1, h⟩ := bind_ok.mp h
    obtain ⟨-, rfl⟩ := popFrameFuncentry_ok_iff.mp h1
    cases h
    have hr := hu.destRun.same (setReturnAddressFuncentry_same ⟨u.dest, mem⟩ (u.dest.acts (u.dest.act + 1)).site.addr.toNat)
    generalize (setReturnAddressFuncentry ⟨u.dest, mem⟩ (u.dest.acts (u.dest.act + 1)).site.addr.toNat) = st1 at hr ⊢
    have hlt : st1.ctx.cur.cfa < 18446744073709551616 := by
      rw [hr.cur_cfa]
      exact destCfa_lt x ds n 0
    have hb := entered_next st1.mem st1.ctx hlt
    have hcur := entered_cur st1.mem st1.ctx hlt
    rw [hr.act] at hb hcur
    rw [hr.handle] at hb
    exact hb.sp.trans (congrArg Activation.cfa hcur).symm
  | succ m =>
    obtain ⟨st1, h1, h2⟩ := bind_ok.mp h
    have hr := destAt_destRun hu hn (m + 1) st1 (by omega) h1
    unfold rewriteStep at h2
    obtain ⟨st2, h3, h2⟩ := bind_ok.mp h2
    obtain ⟨c, h4, h2⟩ := bind_ok.mp h2
    have hr2 := (hr.same (writeLoc_same st1 _ _)).same (rewriteFrame_same h3)
    obtain ⟨-, rfl⟩ := popFrame_ok_iff.mp h4
    have hb := popped_bounds st2.mem st2.ctx (by rw [hr2.cur_cfa]; exact destCfa_lt x ds n (m + 1))
    have hprev := popped_acts_ne st2.mem st2.ctx true (show m + 1 ≠ st2.ctx.act + 1 by rw [hr2.act]; omega)
    rw [hr2.act, hr2.handle] at hb
    cases h2
    show (getRegops _).sp ((popped st2.mem st2.ctx true).acts (m + 1 + 1)).regs = ((popped st2.mem st2.ctx true).acts (m + 1)).cfa
    rw [hb.sp, hprev]
    unfold Ctx.cur
    rw [hr2.act]

/-- The destination's `stack` is the SP its function is entered with. -/
theorem unwindStack_stack (h : unwindStack mem x = .ok u) (hu : Unwound x n sf ds u) :
    u.dest.stack = destTop x.handleDest.arch x.spBaseDest (frameSpan ds (n - 1)) := by
  obtain ⟨f, -, h⟩ := unwindStack_ok_iff.mp h
  obtain ⟨v, -, -, rfl⟩ := unwindAndSize_ok_iff.mp h
  rw [← hu.destSp, ← hu.destHandle]
  exact (laidOut_first { v.dest with numActs := v.dest.numActs + 1, act := 0 } v.stackSize rfl).2.2.1.symm

theorem ctx_raOffset (c : Ctx) : c.props.raOffset = -8 := by
  unfold Ctx.props
  cases c.handle.arch <;> rfl

theorem ctx_savedfbpOffset (c : Ctx) : c.props.savedfbpOffset = -16 := by
  unfold Ctx.props
  cases c.handle.arch <;> rfl

/-- The slots written in the state at activation `m`. -/
theorem writtenSlots_eq {m : Nat} {c : Ctx} (hr : DestRun x n ds m c) :
    writtenSlots c = if m = 0 then if (getRegops x.handleDest.arch).raOff.isSome then [] else [padd (destCfa x ds n 0) (-0x8)]
      else [padd (destCfa x ds n m) (-0x8), padd (destCfa x ds n m) (-0x10)] := by
  unfold writtenSlots getSavedfbpLoc Ctx.regops
  rw [hr.act, ctx_raOffset, ctx_savedfbpOffset, hr.handle, hr.cur_cfa]
  by_cases h0 : m = 0
  · subst h0
    rfl
  · rw [if_neg h0, if_neg h0]

end

/-! ## Geometry -/

theorem padd_padd (a : Nat) (d e : Int) : padd (padd a d) e = padd a (d + e) := by
  unfold padd
  omega

theorem frameSpan_mod {a : Arch} {ds : Nat → CallSite} {n : Nat} (hs : SizesAligned a ds n) (k : Nat) (hk : k < n) :
    frameSpan ds k % sizeUnit a = 0 := by
  induction k with
  | zero => rw [frameSpan, Nat.zero_mod]
  | succ k ih =>
    have h := ih (by omega)
    have h1 := (hs (k + 1) (by omega) hk).2
    rw [frameSpan]
    cases a <;> simp only [sizeUnit] at h h1 ⊢ <;> omega

/-- What the frames take below the base, with the 8 bytes an x86-64 SP may be moved down. -/
def needed (a : Arch) (base span : Nat) : Nat :=
  match a with
  | .x86_64 => if padd (padd base (-span)) 8 % 0x10 ≠ 0 then span + 8 else span
  | .aarch64 => span

theorem needed_bounds (a : Arch) (base span : Nat) : span ≤ needed a base span ∧ needed a base span ≤ span + 8 := by
  unfold needed
  cases a with
  | x86_64 => dsimp only; split <;> omega
  | aarch64 => dsimp only; omega

theorem destTop_needed (a : Arch) (base span : Nat) : destTop a base span = padd base (-needed a base span) := by
  unfold destTop needed
  cases a with
  | x86_64 =>
    simp only
    split
    · rw [padd_padd]
      congr 1
      push_cast
      omega
    · rfl
  | aarch64 => rfl

/-- How far above the base the last frame ends. -/
def overshoot (a : Arch) (span : Nat) : Nat :=
  match a with
  | .x86_64 => if span % 16 = 0 then 0 else 8
  | .aarch64 => 0

theorem destTop_eq {a : Arch} {base span : Nat} (hb : base % 16 = 0)
    (hs : span % sizeUnit a = 0) :
    destTop a base span = padd base (overshoot a span - (getProperties a).cfaOffsetFuncentry - span) := by
  cases a with
  | x86_64 =>
    simp only [sizeUnit] at hs
    unfold destTop overshoot
    simp only [getProperties, propertiesX86_64]
    by_cases h16 : span % 16 = 0
    · rw [if_pos (by unfold padd; omega), if_pos h16, padd_padd]
      congr 1
      omega
    · rw [if_neg (by unfold padd; omega), if_neg h16]
      congr 1
      omega
  | aarch64 =>
    simp [destTop, overshoot, getProperties, propertiesAarch64]

/-- Where a frame ends, relative to the base. -/
theorem destCfa_eq_base {x : RewriteArgs} {ds : Nat → CallSite} {n : Nat} (hb : x.spBaseDest % 16 = 0) (hn : 2 ≤ n)
    (hs : SizesAligned x.handleDest.arch ds n) (k : Nat) :
    destCfa x ds n k = padd x.spBaseDest (overshoot x.handleDest.arch (frameSpan ds (n - 1)) + frameSpan ds k -
      frameSpan ds (n - 1)) := by
  induction k with
  | zero =>
    rw [destCfa, destTop_eq hb (frameSpan_mod hs (n - 1) (by omega)), padd_padd, frameSpan]
    congr 1
    omega
  | succ k ih =>
    rw [destCfa, ih, padd_padd, frameSpan]
    congr 1
    push_cast
    omega

/-! ## Soundness -/

/-- The frames end at the base, the first slot is in the address space, and every rewritten
    frame has a place for its two slots. -/
structure Roomy (x : RewriteArgs) (ds : Nat → CallSite) (n : Nat) : Prop where
  ends : overshoot x.handleDest.arch (frameSpan ds (n - 1)) = 0
  fits : frameSpan ds (n - 1) + (getProperties x.handleDest.arch).cfaOffsetFuncentry ≤ x.spBaseDest
  slots : ∀ k, 0 < k → k + 1 < n → 16 ≤ (ds k).frameSize.toNat

theorem entryOffset_cases (a : Arch) :
    (a = .x86_64 ∧ (getProperties a).cfaOffsetFuncentry = 8 ∧ (getRegops a).raOff.isSome = false) ∨
      (a = .aarch64 ∧ (getProperties a).cfaOffsetFuncentry = 0 ∧ (getRegops a).raOff.isSome = true) := by
  cases a
  · exact .inl ⟨rfl, rfl, rfl⟩
  · exact .inr ⟨rfl, rfl, rfl⟩

section
variable {mem : Mem} {x : RewriteArgs} {n : Nat} {sf : Nat → VFrame} {ds : Nat → CallSite} {u : Unwinding}

/-- An aarch64 stack of two frames has no slots to write. -/
theorem hasRoom_iff (hs : SizesAligned x.handleDest.arch ds n) :
    HasRoom x.handleDest.arch ds n x.spBaseDest ↔ (x.handleDest.arch = .aarch64 ∧ n = 2) ∨ Roomy x ds n := by
  have hiff : Roomy x ds n ↔ overshoot x.handleDest.arch (frameSpan ds (n - 1)) = 0 ∧
      frameSpan ds (n - 1) + (getProperties x.handleDest.arch).cfaOffsetFuncentry ≤ x.spBaseDest ∧
      ∀ k, 0 < k → k + 1 < n → 16 ≤ (ds k).frameSize.toNat := ⟨fun h => ⟨h.1, h.2, h.3⟩, fun h => ⟨h.1, h.2.1, h.2.2⟩⟩
  rw [hiff]
  clear hiff
  unfold HasRoom overshoot
  generalize x.handleDest.arch = a at hs ⊢
  cases a with
  | x86_64 =>
    simp only [reduceCtorEq, false_and, false_or, getProperties, propertiesX86_64, ite_eq_left_iff, OfNat.ofNat_ne_zero, imp_false,
      not_not]
    apply and_congr_right
    intro _
    apply and_congr_left
    intro _
    omega
  | aarch64 =>
    simp only [true_and, getProperties, propertiesAarch64, Int.add_zero, Int.ofNat_le]
    apply or_congr_right
    constructor
    · intro h
      refine ⟨h, ?_⟩
      intro k h0 hk
      have := hs k h0 (by omega)
      simp only [sizeUnit] at this
      omega
    · intro h
      exact h.1

section
variable (hn : 2 ≤ n) (hb : x.spBaseDest % 16 = 0) (hlt : x.spBaseDest < 18446744073709551616)
  (hs : SizesAligned x.handleDest.arch ds n)

include hn hb hlt hs in
/-- With room, no CFA wraps. -/
theorem Roomy.destCfa_eq (hroom : Roomy x ds n) {k : Nat} (hk : k < n) :
    destCfa x ds n k + frameSpan ds (n - 1) = x.spBaseDest + frameSpan ds k := by
  have hle : frameSpan ds k ≤ frameSpan ds (n - 1) := frameSpan_mono ds (by omega)
  have hfits := hroom.fits
  have hoff := entryOffset_cases x.handleDest.arch
  rw [destCfa_eq_base hb hn hs k, hroom.ends, padd_eq (b := x.spBaseDest + frameSpan ds k - frameSpan ds (n - 1))] <;> omega

include hn hb hlt hs in
theorem Roomy.destTop_eq (hroom : Roomy x ds n) :
    (destTop x.handleDest.arch x.spBaseDest (frameSpan ds (n - 1)) : Int) + (getProperties x.handleDest.arch).cfaOffsetFuncentry =
      destCfa x ds n 0 := by
  have hcfa := hroom.destCfa_eq hn hb hlt hs (show 0 < n by omega)
  have hfits := hroom.fits
  have hoff := entryOffset_cases x.handleDest.arch
  have h0 : frameSpan ds 0 = 0 := rfl
  rw [Popcorn.Runtime.destTop_eq hb (frameSpan_mod hs (n - 1) (by omega)), hroom.ends]
  obtain ⟨-, ho, -⟩ | ⟨-, ho, -⟩ := hoff
  · rw [ho] at hfits ⊢
    rw [padd_eq (b := x.spBaseDest - 8 - frameSpan ds (n - 1))] <;> omega
  · rw [ho] at hfits ⊢
    rw [padd_eq (b := x.spBaseDest - frameSpan ds (n - 1))] <;> omega

include hn hb hlt hs in
/-- The slots a round writes are in the frame of its activation. -/
theorem Roomy.slot_bounds (hroom : Roomy x ds n) {m : Nat} {c : Ctx} (hr : DestRun x n ds m c) (hm : m + 1 < n) {a : Nat}
    (ha : a ∈ writtenSlots c) :
    destTop x.handleDest.arch x.spBaseDest (frameSpan ds (n - 1)) ≤ a ∧ a + 8 ≤ destCfa x ds n m ∧
      (0 < m → destCfa x ds n (m - 1) ≤ a) := by
  have hcfa := hroom.destCfa_eq hn hb hlt hs (show m < n by omega)
  have htop := hroom.destTop_eq hn hb hlt hs
  have hfits := hroom.fits
  have hoff := entryOffset_cases x.handleDest.arch
  rw [writtenSlots_eq hr] at ha
  by_cases h0 : m = 0
  · subst h0
    rw [if_pos rfl] at ha
    obtain ⟨-, ho, hra⟩ | ⟨-, ho, hra⟩ := hoff
    · rw [hra, if_neg (by decide), List.mem_singleton] at ha
      rw [ho] at htop hfits
      have h00 : frameSpan ds 0 = 0 := rfl
      rw [padd_eq (b := destCfa x ds n 0 - 8) (by omega) (by omega)] at ha
      omega
    · rw [hra, if_pos rfl] at ha
      cases ha
  · obtain ⟨j, rfl⟩ : ∃ j, m = j + 1 := ⟨m - 1, by omega⟩
    have hprev := hroom.destCfa_eq hn hb hlt hs (show j < n by omega)
    have h0' := hroom.destCfa_eq hn hb hlt hs (show 0 < n by omega)
    have hsize := hroom.slots (j + 1) (by omega) hm
    have hspan : frameSpan ds (j + 1) = frameSpan ds j + (ds (j + 1)).frameSize.toNat := rfl
    have hle : frameSpan ds (j + 1) ≤ frameSpan ds (n - 1) := frameSpan_mono ds (by omega)
    have h00 : frameSpan ds 0 = 0 := rfl
    rw [if_neg h0, padd_eq (b := destCfa x ds n (j + 1) - 8) (by omega) (by omega),
      padd_eq (b := destCfa x ds n (j + 1) - 16) (by omega) (by omega)] at ha
    simp only [List.mem_cons, List.not_mem_nil, or_false] at ha
    rw [Nat.add_sub_cancel]
    obtain ⟨-, ho, -⟩ | ⟨-, ho, -⟩ := hoff <;> rw [ho] at htop <;> omega

include hn hb hs in
theorem entry_aligned (hu : Unwound x n sf ds u) :
    EntryAligned x.handleDest.arch ((getRegops x.handleDest.arch).sp (u.dest.acts 0).regs) := by
  have hmod := frameSpan_mod hs (n - 1) (by omega)
  rw [hu.destSp, Popcorn.Runtime.destTop_eq hb hmod]
  generalize frameSpan ds (n - 1) = span at hmod ⊢
  generalize x.handleDest.arch = a at hmod ⊢
  unfold EntryAligned overshoot padd
  cases a with
  | x86_64 =>
    simp only [sizeUnit] at hmod
    simp only [getProperties, propertiesX86_64]
    split <;> omega
  | aarch64 =>
    simp only [sizeUnit] at hmod
    simp only [getProperties, propertiesAarch64]
    omega

include hn hb hlt hs in
/-- With room the layout is sound, in every state the rewrite reaches. -/
theorem HasRoom.sound (hu : Unwound x n sf ds u) (hok : unwindStack mem x = .ok u)
    (hroom : HasRoom x.handleDest.arch ds n x.spBaseDest) : DestLayoutSound mem x n u where
  contiguous m st hm h := destAt_contiguous hu hn hm h
  entry := entry_aligned hn hb hs hu
  below st h := by
    have hends : overshoot x.handleDest.arch (frameSpan ds (n - 1)) = 0 := by
      obtain ⟨ha, -⟩ | hr := (hasRoom_iff hs).mp hroom
      · rw [ha]
        rfl
      · exact hr.ends
    rw [(destAt_destRun hu hn (n - 1) st (by omega) h).cfa (n - 1) (Nat.le_refl _), destCfa_eq_base hb hn hs, hends,
      padd_eq (b := x.spBaseDest)] <;> omega
  inside m st hm h a ha := by
    have hrun := destAt_destRun hu hn m st (by omega) h
    rw [unwindStack_stack hok hu]
    obtain ⟨harch, rfl⟩ | hr := (hasRoom_iff hs).mp hroom
    · obtain rfl : m = 0 := by omega
      rw [writtenSlots_eq hrun, harch] at ha
      cases ha
    · obtain ⟨h1, h2, -⟩ := hr.slot_bounds hn hb hlt hs hrun hm ha
      have hcfa := hr.destCfa_eq hn hb hlt hs (show m < n by omega)
      have hle : frameSpan ds m ≤ frameSpan ds (n - 1) := frameSpan_mono ds (by omega)
      omega
  apart m m' st st' hmm hm h h' a ha b hb' := by
    obtain ⟨-, rfl⟩ | hr := (hasRoom_iff hs).mp hroom
    · omega
    · obtain ⟨-, h2, -⟩ := hr.slot_bounds hn hb hlt hs (destAt_destRun hu hn m st (by omega) h) (by omega) ha
      obtain ⟨-, -, h3⟩ := hr.slot_bounds hn hb hlt hs (destAt_destRun hu hn m' st' (by omega) h') hm hb'
      have hcfa := hr.destCfa_eq hn hb hlt hs (show m < n by omega)
      have hcfa' := hr.destCfa_eq hn hb hlt hs (show m' - 1 < n by omega)
      have hle : frameSpan ds m ≤ frameSpan ds (m' - 1) := frameSpan_mono ds (by omega)
      omega

end

/-- A rewrite that has come to an activation has come to those before it. -/
theorem destAt_before {m j : Nat} (hj : j ≤ m) (h : ∃ st, destAt mem x u m = .ok st) : ∃ st, destAt mem x u j = .ok st := by
  induction m with
  | zero =>
    obtain rfl := Nat.le_zero.mp hj
    exact h
  | succ m ih =>
    obtain rfl | hj := Nat.eq_or_lt_of_le hj
    · exact h
    · apply ih (by omega)
      cases m with
      | zero => exact ⟨_, rfl⟩
      | succ m =>
        obtain ⟨st, h⟩ := h
        obtain ⟨st1, h1, -⟩ := bind_ok.mp h
        exact ⟨st1, h1⟩

theorem unwindLoop_numActs_le (fuel : Nat) : ∀ v v' : Unwinding, unwindLoop mem fuel v = .ok v' →
    v'.src.numActs ≤ v.src.numActs + fuel := by
  induction fuel with
  | zero => intro v v' h; cases h
  | succ fuel ih =>
    intro v v' h
    unfold unwindLoop at h
    obtain ⟨v1, h1, h2⟩ := bind_ok.mp h
    obtain ⟨-, f, siteDest, -, -, rfl⟩ := unwindStep_ok_iff.mp h1
    split at h2
    · cases h2
      rw [stepped_numActs]
      omega
    · have := ih _ _ h2
      rw [stepped_numActs] at this
      omega

/-- The sizes of the frames of a rewrite do not add up to an address space. -/
theorem frameSpan_small (hu : Unwound x n sf ds u) (hok : unwindStack mem x = .ok u) : frameSpan ds (n - 1) < 4398046511104 := by
  have hnum := hu.numActs
  obtain ⟨f, -, h⟩ := unwindStack_ok_iff.mp hok
  obtain ⟨v, hloop, -, rfl⟩ := unwindAndSize_ok_iff.mp h
  have hle := unwindLoop_numActs_le maxFrames _ _ hloop
  have h0 : (x.init f).src.numActs = 0 := rfl
  have hn : n ≤ 513 := by
    rw [← hnum]
    show v.src.numActs + 1 ≤ 513
    simp only [h0, maxFrames] at hle
    omega
  have hspan : ∀ k, frameSpan ds k ≤ 4294967295 * k := by
    intro k
    induction k with
    | zero => exact Nat.le_refl _
    | succ k ih =>
      have := (ds (k + 1)).frameSize.toNat_lt
      rw [frameSpan]
      omega
  have := hspan (n - 1)
  omega

/-- A sound layout of a rewrite that has placed all frames has room. -/
theorem DestLayoutSound.hasRoom (hu : Unwound x n sf ds u) (hok : unwindStack mem x = .ok u) (hn : 2 ≤ n)
    (hb : x.spBaseDest % 16 = 0) (hlt : x.spBaseDest < 18446744073709551616) (hs : SizesAligned x.handleDest.arch ds n)
    (hend : ∃ st, destAt mem x u (n - 1) = .ok st) (h : DestLayoutSound mem x n u) :
    HasRoom x.handleDest.arch ds n x.spBaseDest := by
  have hstate : ∀ m, m < n → ∃ st, destAt mem x u m = .ok st ∧ DestRun x n ds m st.ctx := by
    intro m hm
    obtain ⟨st, hst⟩ := destAt_before (show m ≤ n - 1 by omega) hend
    exact ⟨st, hst, destAt_destRun hu hn m st hm hst⟩
  have hsmall := frameSpan_small hu hok
  have hends : overshoot x.handleDest.arch (frameSpan ds (n - 1)) = 0 := by
    obtain ⟨st, hst, hrun⟩ := hstate (n - 1) (by omega)
    have hle := h.below st hst
    rw [hrun.cfa (n - 1) (Nat.le_refl _), destCfa_eq_base hb hn hs] at hle
    have h8 : overshoot x.handleDest.arch (frameSpan ds (n - 1)) ≤ 8 := by
      unfold overshoot
      cases x.handleDest.arch with
      | x86_64 => simp only; split <;> omega
      | aarch64 => simp
    rw [padd_eq (b := x.spBaseDest + overshoot x.handleDest.arch (frameSpan ds (n - 1))) (by omega) (by omega)] at hle
    omega
  have hstack := unwindStack_stack hok hu
  rw [destTop_eq hb (frameSpan_mod hs (n - 1) (by omega)), hends] at hstack
  have hcfa := fun k => destCfa_eq_base hb hn hs k
  rw [hasRoom_iff hs]
  obtain ⟨ha, ho, hra⟩ | ⟨ha, ho, hra⟩ := entryOffset_cases x.handleDest.arch
  · refine .inr ⟨hends, ?_, ?_⟩
    · -- the return address of the entered function
      obtain ⟨st, hst, hrun⟩ := hstate 0 (by omega)
      have hmem : padd (destCfa x ds n 0) (-0x8) ∈ writtenSlots st.ctx := by
        rw [writtenSlots_eq hrun, if_pos rfl, hra]
        simp
      have hin := h.inside 0 st (by omega) hst _ hmem
      rw [hstack, ho] at hin
      rw [ho]
      unfold padd at hin
      omega
    · -- a frame of 8 bytes has its FBP slot at the return address below
      intro k h0 hk
      obtain ⟨j, rfl⟩ : ∃ j, k = j + 1 := ⟨k - 1, by omega⟩
      have hsize := hs (j + 1) h0 (by omega)
      rw [ha] at hsize
      simp only [sizeUnit] at hsize
      by_contra hlt16
      obtain ⟨st, hst, hrun⟩ := hstate j (by omega)
      obtain ⟨st', hst', hrun'⟩ := hstate (j + 1) (by omega)
      have hmem : padd (destCfa x ds n j) (-0x8) ∈ writtenSlots st.ctx := by
        rw [writtenSlots_eq hrun, hra]
        split
        · rename_i hj
          simp [hj]
        · simp
      have hmem' : padd (destCfa x ds n (j + 1)) (-0x10) ∈ writtenSlots st'.ctx := by
        rw [writtenSlots_eq hrun', if_neg (by omega)]
        simp
      have hap := h.apart j (j + 1) st st' (by omega) hk hst hst' _ hmem _ hmem'
      have hsame : padd (destCfa x ds n (j + 1)) (-0x10) = padd (destCfa x ds n j) (-0x8) := by
        rw [destCfa, padd_padd]
        congr 1
        omega
      omega
  · by_cases h2 : n = 2
    · exact .inl ⟨ha, h2⟩
    · refine .inr ⟨hends, ?_, ?_⟩
      · obtain ⟨st, hst, hrun⟩ := hstate 1 (by omega)
        have hmem : padd (destCfa x ds n 1) (-0x8) ∈ writtenSlots st.ctx := by
          rw [writtenSlots_eq hrun, if_neg (by decide)]
          simp
        have hin := h.inside 1 st (by omega) hst _ hmem
        rw [hstack, ho] at hin
        rw [ho]
        unfold padd at hin
        omega
      · intro k h0 hk
        have hsize := hs k h0 (by omega)
        rw [ha] at hsize
        simp only [sizeUnit] at hsize
        omega

end

/-- A rewrite that returns has gone through all the states. -/
theorem stRewriteStack_destAt {mem : Mem} {x : RewriteArgs} {n : Nat} {sf : Nat → VFrame} {ds : Nat → CallSite} {u : Unwinding}
    (hsrc : SourceStack mem x n sf ds) (hok : unwindStack mem x = .ok u) {out : Rewritten}
    (h : stRewriteStack mem x = .ok (some out)) : ∃ st, destAt mem x u (n - 1) = .ok st := by
  have h2 := hsrc.two
  obtain ⟨u', st0, st, hu, h0, hst, -⟩ := stRewriteStack_ok h
  cases hok.symm.trans hu
  rw [(unwindStack_unwound hsrc hok).numActs, destAt_foldlM h0, show n - 2 + 1 = n - 1 by omega] at hst
  exact ⟨st, hst⟩

/-- The destination stack is laid out soundly in every state the rewrite goes through if its
    frames have room; and when the rewrite returns, only then. -/
theorem dest_layout_sound_iff (mem : Mem) (x : RewriteArgs) (n : Nat) (sf : Nat → VFrame) (ds : Nat → CallSite) (u : Unwinding)
    (hsrc : SourceStack mem x n sf ds) (hok : unwindStack mem x = .ok u) (hb : x.spBaseDest % 16 = 0)
    (hlt : x.spBaseDest < 18446744073709551616) (hs : SizesAligned x.handleDest.arch ds n) :
    (HasRoom x.handleDest.arch ds n x.spBaseDest → DestLayoutSound mem x n u) ∧
      (∀ out, stRewriteStack mem x = .ok (some out) →
        DestLayoutSound mem x n u → HasRoom x.handleDest.arch ds n x.spBaseDest) := by
  have hu := unwindStack_unwound hsrc hok
  refine ⟨fun hroom => hroom.sound hsrc.two hb hlt hs hu hok, ?_⟩
  intro out hout h
  exact h.hasRoom hu hok hsrc.two hb hlt hs (stRewriteStack_destAt hsrc hok hout)

/-- The recursive function again, with destination frames of `size` bytes. -/
def sizedHandle (size : UInt32) : Handle where
  arch := .x86_64
  unwindAddrs := (recHandle .start).unwindAddrs
  unwindLocs := (recHandle .start).unwindLocs
  sitesId := [{ recSite with frameSize := size }, { startSite .start with frameSize := size }]
  sitesAddr := [{ recSite with frameSize := size }, { startSite .start with frameSize := size }]
  liveVals := (recHandle .start).liveVals
  liveValsCount := 0
  archLiveVals := []
  sites_len := rfl

def sizedArgs (size : UInt32) (baseSrc baseDest : Nat) : RewriteArgs :=
  { recArgs .start with handleDest := sizedHandle size, spBaseSrc := baseSrc, spBaseDest := baseDest }

theorem sizedChain (size : UInt32) (n : Nat) (hn : 0 < n) (hmax : n < 1000) :
    Chain (recHandle .start) (sizedHandle size) (recMem n) n (recFrame .start n) :=
  { recChain .start n hn hmax with
    dest := by
      intro k _ _
      show ∃ s, getSiteById (sizedHandle size) (if k + 1 = n then startSite .start else recSite).id = some s
      have hsorted : (sizedHandle size).Sorted := by
        constructor <;> simp [sizedHandle, recSite, startSite, smids, uint64Max]
      split
      · exact ⟨_, (getSiteById_iff hsorted _ _).mpr ⟨List.mem_cons_of_mem _ (List.mem_singleton.mpr rfl), rfl⟩⟩
      · exact ⟨_, (getSiteById_iff hsorted _ _).mpr ⟨List.mem_cons_self, rfl⟩⟩ }

/-- The stack of `n` frames, all of `size` bytes in the destination. -/
theorem sized_stack (size : UInt32) (baseSrc baseDest n : Nat) (h2 : 2 ≤ n) (hn : n ≤ 64) : ∃ sf ds u,
    SourceStack (recMem n) (sizedArgs size baseSrc baseDest) n sf ds ∧ unwindStack (recMem n) (sizedArgs size baseSrc baseDest) = .ok u ∧
      ∀ k, 0 < k → k < n → (ds k).frameSize = size := by
  have hc := sizedChain size n (by omega) (by omega)
  have hh := recHolds .start n h2
  have hlast : firstFrame (recFrame .start n (n - 1)).site.id = true := by
    show firstFrame (if n - 1 + 1 = n then startSite .start else recSite).id = true
    rw [if_pos (by omega)]
    rfl
  obtain ⟨sf, ds, hsrc⟩ := hc.sourceStack (x := sizedArgs size baseSrc baseDest) hh h2 hlast
  obtain ⟨u, hok, -⟩ := unwindStack_recovers (x := sizedArgs size baseSrc baseDest) hc hh h2 hn hlast
  refine ⟨sf, ds, u, hsrc, hok, ?_⟩
  intro k h0 hk
  have hmem := (getSiteById_mem (hsrc.visits.dest k h0 hk)).1
  simp only [sizedArgs, sizedHandle, List.mem_cons, List.not_mem_nil, or_false] at hmem
  obtain h | h := hmem <;> rw [h]

theorem dest_layout_sound_iff_sized : ∃ u, unwindStack (recMem 3) (sizedArgs 32 0x20000 0x40000) = .ok u ∧
    DestLayoutSound (recMem 3) (sizedArgs 32 0x20000 0x40000) 3 u := by
  obtain ⟨sf, ds, u, hsrc, hok, hsize⟩ := sized_stack 32 0x20000 0x40000 3 (by decide) (by decide)
  have h1 : (ds 1).frameSize.toNat = 32 := congrArg UInt32.toNat (hsize 1 (by decide) (by decide))
  have h2 : (ds 2).frameSize.toNat = 32 := congrArg UInt32.toNat (hsize 2 (by decide) (by decide))
  refine ⟨u, hok, (dest_layout_sound_iff (recMem 3) (sizedArgs 32 0x20000 0x40000) 3 sf ds u hsrc hok (by decide) (by decide) ?_).1 ?_⟩
  · intro k h0 hk
    rw [hsize k h0 hk]
    decide
  · show frameSpan ds 2 % 16 = 0 ∧ frameSpan ds 2 + 8 ≤ 0x40000 ∧ _
    refine ⟨by simp [frameSpan, h1, h2], by simp [frameSpan, h1, h2], ?_⟩
    intro k h0 hk
    rw [hsize k h0 (by omega)]
    decide

/-- The outermost frame can always be popped. -/
theorem outermost_ok {mem : Mem} {x : RewriteArgs} {n : Nat} {sf : Nat → VFrame} {ds : Nat → CallSite} {u : Unwinding}
    (hu : Unwound x n sf ds u) : ∃ st, rewriteOutermost mem u.dest = .ok st := by
  refine ⟨_, bind_ok.mpr ⟨_, popFrameFuncentry_ok_iff.mpr ⟨?_, rfl⟩, rfl⟩⟩
  have := hu.destRun.same (setReturnAddressFuncentry_same ⟨u.dest, mem⟩ (u.dest.acts (u.dest.act + 1)).site.addr.toNat)
  rw [this.act]
  decide

/-- One frame of 24 bytes under the function being entered: its CFA is above the base. -/
theorem dest_layout_past_base : ∃ sf ds u, SourceStack (recMem 2) (sizedArgs 24 0x20000 0x40000) 2 sf ds ∧
    unwindStack (recMem 2) (sizedArgs 24 0x20000 0x40000) = .ok u ∧ SizesAligned .x86_64 ds 2 ∧ (sizedArgs 24 0x20000 0x40000).spBaseDest % 16 = 0 ∧
      ¬ DestLayoutSound (recMem 2) (sizedArgs 24 0x20000 0x40000) 2 u := by
  obtain ⟨sf, ds, u, hsrc, hok, hsize⟩ := sized_stack 24 0x20000 0x40000 2 (by decide) (by decide)
  have h1 : (ds 1).frameSize.toNat = 24 := congrArg UInt32.toNat (hsize 1 (by decide) (by decide))
  have hs : SizesAligned .x86_64 ds 2 := by
    intro k h0 hk
    rw [hsize k h0 hk]
    decide
  refine ⟨sf, ds, u, hsrc, hok, hs, by decide, ?_⟩
  intro h
  have hu := unwindStack_unwound hsrc hok
  have hroom := h.hasRoom hu hok (by decide) (by decide) (by decide) hs (outermost_ok hu)
  have hspan : frameSpan ds (2 - 1) % 16 = 0 := hroom.1
  simp [frameSpan, h1] at hspan

end Popcorn.Runtime
