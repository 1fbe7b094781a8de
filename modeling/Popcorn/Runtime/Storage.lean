/-
  Popcorn.Runtime.Storage — the storage a rewrite has for its activations.

  A context has room for `MAX_FRAMES` activations, register sets and callee-saved bitmaps.
  The bitmap of activation `k` starts `k * bitmap_size` words into its pool, and
  `bitmap_size` is in bytes: it is the bitmap of index `8 * k`. Depth is only checked by
  an `ASSERT`, which the default build leaves out, after the next activation is set up.

  Proved:
  - `popFrame_outOfBounds`: marking a register of a frame whose bitmap lies past the pool.
  - `unwindStack_outOfBounds`: the source pass of a chain of more than 64 frames.
  - `storage_safe_iff`: a rewrite stays in its storage exactly when the chain has at most
    64 frames.
-/

import Popcorn.Runtime.Placement

namespace Popcorn.Runtime

open Popcorn.Lib Popcorn.Metadata

/-! ## Safety -/

/-- The index of a bitmap among those of a context's pool. -/
def Bitmap.index (a : Arch) (b : Bitmap) : Nat := 8 * b.bits / bitmapSize (getRegops a).numRegs

/-- The round at a destination context stays in the storage: it sets up the activation after
    the current one, and looks at the bitmaps of those up to it. -/
structure RoundSafe (c : Ctx) : Prop where
  next : c.act + 1 < maxFrames
  bitmaps : ∀ k ≤ c.act, (c.acts k).calleeSaved.index c.handle.arch < maxFrames

/-- No step of `st_rewrite_stack` leaves the storage of either context: not the source pass
    with its extra pop, not the clearing of the destination's bitmaps, and no round. -/
structure StorageSafe (mem : Mem) (x : RewriteArgs) : Prop where
  pass : unwindStack mem x ≠ .error .outOfBounds
  source : ∀ u, unwindStack mem x = .ok u → u.src.numActs ≤ maxFrames
  cleared : ∀ u, unwindStack mem x = .ok u → u.dest.numActs ≤ maxFrames
  rounds : ∀ u m st, unwindStack mem x = .ok u → m + 1 < u.src.numActs → destAt mem x u m = .ok st → RoundSafe st.ctx

/-! ## Past the pool -/

/-- The first record of a frame whose bitmap lies past the pool is marked out of bounds. -/
theorem restoreReg_outOfBounds {mem : Mem} {h : Handle} {fbp : Nat} {b : Bitmap} {s : RegSet × Pool} {i : Nat} {l : UnwindLoc}
    (hl : h.unwindLocs[i]? = some l) (hc : isCalleeSaved h.arch l.reg = true) (hb : poolWords h.arch ≤ b.bits) :
    restoreReg mem h fbp b s i = .error .outOfBounds := by
  obtain ⟨hreg, hsize, -, -⟩ := calleeSaved_cases hc
  have hset : bitmapSet (poolWords h.arch) s.2 b l.reg.toNat = .error .outOfBounds :=
    if_neg (Nat.not_lt.mpr (Nat.le_trans hb (Nat.le_add_right _ _)))
  unfold restoreReg unwindLocAt
  rw [hl]
  show ((getRegops h.arch).reg l.reg >>= fun off => (getProperties h.arch).calleeRegSize l.reg >>= fun size =>
    bitmapSet (poolWords h.arch) s.2 b l.reg.toNat >>= _) = _
  rw [hreg, hsize, hset]
  rfl

theorem popFrame_outOfBounds {mem : Mem} {c : Ctx} {setupBounds : Bool}
    (hslice : unwindEnd c.cur.site ≤ c.handle.unwindLocs.length)
    (hrecs : ∀ l ∈ unwindRecords c.handle c.cur.site, isCalleeSaved c.handle.arch l.reg = true)
    (hne : unwindRecords c.handle c.cur.site ≠ []) (hb : poolWords c.handle.arch ≤ c.cur.calleeSaved.bits) :
    popFrame mem c setupBounds = .error .outOfBounds := by
  show (setupRegset c (c.act + 1) >>= _) = _
  by_cases hn : c.act + 1 < maxFrames
  · have hr : setupRegset c (c.act + 1) = .ok (c.modAct (c.act + 1) fun x => { x with regs := c.cur.regs }) := if_pos hn
    have hlen : unwindStart c.cur.site < unwindEnd c.cur.site := by
      apply Nat.lt_of_not_le
      intro hle
      apply hne
      rw [unwindRecords, Nat.sub_eq_zero_of_le hle, List.take_zero]
    obtain ⟨len, he⟩ : ∃ len, unwindEnd c.cur.site - unwindStart c.cur.site = len + 1 := ⟨_, (Nat.succ_pred (by omega)).symm⟩
    have hl : c.handle.unwindLocs[unwindStart c.cur.site]? = some (c.handle.unwindLocs[unwindStart c.cur.site]) :=
      List.getElem?_eq_getElem (by omega)
    have hmem : c.handle.unwindLocs[unwindStart c.cur.site] ∈ unwindRecords c.handle c.cur.site := by
      rw [unwindRecords, he, List.drop_eq_getElem_cons (by omega), List.take_succ_cons]
      exact List.mem_cons_self
    rw [hr]
    show (restoreCalleeSavedRegs mem (nextAct c) (c.act + 1) >>= _) = _
    unfold restoreCalleeSavedRegs
    simp only [Nat.add_sub_cancel, nextAct_cur]
    rw [he, List.range'_succ, List.foldlM_cons, show (nextAct c).handle = c.handle from rfl,
      restoreReg_outOfBounds hl (hrecs _ hmem) hb]
    rfl
  · rw [show setupRegset c (c.act + 1) = .error .outOfBounds from if_neg hn]
    rfl

section
variable {mem : Mem} {x : RewriteArgs} {n : Nat} {fr : Nat → Frame} {sf : Nat → VFrame} {ds : Nat → CallSite} {f : VFrame}

/-- The frame at activation 64 cannot be popped: its bitmap is the first past the pool. -/
theorem Chain.pop_outOfBounds (hc : Chain x.handleSrc x.handleDest mem n fr)
    (hm : ∀ k < n, Matches x.handleSrc.arch (sf k) (fr k)) {u : Unwinding} (hr : Reached sf ds (x.init f) 64 u) (hn : 64 < n) :
    popFrame mem u.src false = .error .outOfBounds := by
  have hsite : u.src.cur.site = (fr 64).site := hr.cur_site.trans (hm 64 hn).site
  have hhandle : u.src.handle = x.handleSrc := hr.srcHandle
  apply popFrame_outOfBounds
  · have h1 := hc.slice 64 hn
    have h2 := hc.offsets
    rw [hhandle, hsite]
    unfold unwindEnd unwindStart
    omega
  · rw [hhandle, hsite]
    exact hc.calleeSaved 64 hn
  · obtain ⟨l, hl, -⟩ := hc.listsFbp 64 hn
    rw [hhandle, hsite]
    exact List.ne_nil_of_mem hl
  · unfold Ctx.cur
    rw [hr.act, hr.bits 64 (Nat.le_refl _), poolWords_eq]

/-- The loop over a chain of more than 64 frames gets to activation 64 and no further. -/
theorem Chain.loop_outOfBounds (hc : Chain x.handleSrc x.handleDest mem n fr) (hn : 64 < n)
    (hm : ∀ k < n, Matches x.handleSrc.arch (sf k) (fr k)) (hv : Visits mem x.handleSrc x.handleDest n sf ds)
    (hinner : ∀ k, 0 < k → k + 1 < n → firstFrame (sf k).site.id = false) (fuel : Nat) :
    ∀ (k : Nat) (u : Unwinding), Reached sf ds (x.init f) k u → k ≤ 64 → 64 < k + fuel →
      unwindLoop mem fuel u = .error .outOfBounds ∨ ∃ u', unwindLoop mem fuel u = .ok u' ∧ Reached sf ds (x.init f) 64 u' := by
  induction fuel with
  | zero => intro k u _ h1 h2; omega
  | succ fuel ih =>
    intro k u hr hk hfuel
    unfold unwindLoop
    obtain rfl | hlt := Nat.eq_or_lt_of_le hk
    · left
      unfold unwindStep
      rw [hc.pop_outOfBounds hm hr hn]
      rfl
    · obtain ⟨u1, h1⟩ := hr.step_ok hv (by omega) ((hc.canPop_iff hm hr (by omega)).mpr hlt)
      have hr1 := hr.step hv (by omega) h1
      rw [h1]
      show (if firstFrame u1.src.cur.site.id = true then _ else _) = _ ∨
        ∃ u', (if firstFrame u1.src.cur.site.id = true then _ else _) = _ ∧ _
      by_cases hstop : firstFrame u1.src.cur.site.id = true
      · -- only the last frame is a start function's, and there are more than 64
        rw [if_pos hstop]
        have he : k + 1 = 64 := by
          by_contra hne
          rw [hr1.cur_site, hinner (k + 1) (by omega) (by omega)] at hstop
          cases hstop
        exact .inr ⟨u1, rfl, he ▸ hr1⟩
      · rw [if_neg hstop]
        exact ih (k + 1) u1 hr1 (by omega) (by omega)

theorem unwindStack_outOfBounds (hc : Chain x.handleSrc x.handleDest mem n fr)
    (hh : Holds x.handleSrc.arch x.regsetSrc (fr 0)) (hn : 64 < n) : unwindStack mem x = .error .outOfBounds := by
  obtain ⟨f, sf, ds, hf, h0, hv, hm, hinner⟩ := hc.start_visits hh
  have hinit : initSrcContext x.handleSrc x.regsetSrc x.spBaseSrc x.freshSrc = .ok (x.init f).src :=
    initSrcContext_ok_iff.mpr ⟨f, hf, rfl⟩
  unfold unwindStack
  rw [hinit]
  show unwindAndSize mem (x.init f).src (x.init f).dest = _
  unfold unwindAndSize
  obtain hloop | ⟨v, hloop, hr⟩ :=
    hc.loop_outOfBounds hn hm hv hinner maxFrames 0 _ (x.reached_init ds h0) (by omega) (by decide)
  · rw [show (⟨(x.init f).src, (x.init f).dest, 0, []⟩ : Unwinding) = x.init f from rfl, hloop]
    rfl
  · rw [show (⟨(x.init f).src, (x.init f).dest, 0, []⟩ : Unwinding) = x.init f from rfl, hloop]
    show (popFrame mem v.src false >>= _) = _
    rw [hc.pop_outOfBounds hm hr hn]
    rfl

end

/-! ## The condition -/

theorem unwindStack_destNumActs {mem : Mem} {x : RewriteArgs} {n : Nat} {sf : Nat → VFrame} {ds : Nat → CallSite} {u : Unwinding}
    (hs : SourceStack mem x n sf ds) (h : unwindStack mem x = .ok u) : u.dest.numActs = n := by
  have h2 := hs.two
  obtain ⟨f, hf, h⟩ := unwindStack_ok_iff.mp h
  cases hs.first.symm.trans hf
  obtain ⟨v, hloop, -, rfl⟩ := unwindAndSize_ok_iff.mp h
  obtain ⟨-, hr⟩ | ⟨hfalse, -⟩ :=
    Reached.loop_stops hs.visits hs.inner maxFrames 0 _ _ (x.reached_init ds rfl) (by omega) hloop
  · show v.dest.numActs + 1 = n
    rw [hr.destNumActs]
    omega
  · rw [hs.start] at hfalse
    cases hfalse

/-- The rounds of a rewrite of at most 64 activations. -/
theorem DestRun.roundSafe {x : RewriteArgs} {n m : Nat} {ds : Nat → CallSite} {c : Ctx} (hr : DestRun x n ds m c)
    (hm : m + 1 < n) (hn : n ≤ 64) : RoundSafe c := by
  constructor
  · rw [hr.act]
    show m + 1 < 512
    omega
  · intro k hk
    rw [hr.act] at hk
    unfold Bitmap.index
    rw [bitmapSize_numRegs, hr.bits k hk]
    show 8 * (k * 16) / 16 < 512
    omega

/-- On a call chain of any depth, `st_rewrite_stack` stays in the storage of its two contexts
    if the chain has 2 to 64 frames and `first_frame` knows its start function; on a deeper
    one it never does. -/
theorem storage_safe_iff (mem : Mem) (x : RewriteArgs) (n : Nat) (fr : Nat → Frame)
    (hc : Chain x.handleSrc x.handleDest mem n fr) (hh : Holds x.handleSrc.arch x.regsetSrc (fr 0)) :
    (2 ≤ n → firstFrame (fr (n - 1)).site.id = true → (StorageSafe mem x ↔ n ≤ 64)) ∧ (64 < n → ¬ StorageSafe mem x) := by
  have hdeep : 64 < n → ¬ StorageSafe mem x := by
    intro hn h
    exact h.pass (unwindStack_outOfBounds hc hh hn)
  refine ⟨?_, hdeep⟩
  intro h2 hlast
  refine ⟨fun h => Nat.le_of_not_lt fun hn => hdeep hn h, ?_⟩
  intro hn
  have hmax : n ≤ maxFrames := Nat.le_trans hn (by decide)
  obtain ⟨sf, ds, hs⟩ := hc.sourceStack hh h2 hlast
  obtain ⟨v, hv, -⟩ := unwindStack_recovers hc hh h2 hn hlast
  constructor
  · rw [hv]
    intro h
    cases h
  · intro u hu
    rw [(unwindStack_unwound hs hu).numActs]
    exact hmax
  · intro u hu
    rw [unwindStack_destNumActs hs hu]
    exact hmax
  · intro u m st hu hm hst
    have hun := unwindStack_unwound hs hu
    rw [hun.numActs] at hm
    exact (destAt_destRun hun h2 m st (by omega) hst).roundSafe hm hn

theorem storage_safe_iff_rec : StorageSafe (recMem 3) (recArgs .start) :=
  ((storage_safe_iff (recMem 3) (recArgs .start) 3 (recFrame .start 3) (recChain .start 3 (by decide) (by decide))
    (recHolds .start 3 (by decide))).1 (by decide) rfl).mpr (by decide)

/-- A recursion 513 frames deep is not rejected: the pass runs out of its storage. -/
theorem storage_overrun_513 : Chain (recHandle .start) (recHandle .start) (recMem 513) 513 (recFrame .start 513) ∧
    Holds .x86_64 recRegs (recFrame .start 513 0) ∧ ¬ StorageSafe (recMem 513) (recArgs .start) := by
  have hc := recChain .start 513 (by decide) (by decide)
  have hh := recHolds .start 513 (by decide)
  refine ⟨hc, hh, ?_⟩
  intro h
  exact h.pass (unwindStack_outOfBounds (x := recArgs .start) hc hh (by decide))

end Popcorn.Runtime
