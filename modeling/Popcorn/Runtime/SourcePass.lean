/-
  Popcorn.Runtime.SourcePass — the source pass takes the steps of virtual unwinding.

  `unwindStep_ok_iff` says what a round of the loop of `unwind_and_size` does: it needs a
  frame that can be popped and a call site on both sides, and its new activation is the
  virtual caller of the old one. `Reached` is the loop's invariant: the activations found
  are the frames that virtual unwinding visits.

  Proved:
  - `unwindStep_ok_iff`, `Reached.step`: one round.
  - `Reached.loop_stops`: a loop that ends has stopped at the start function or passed it.
  - `unwindStack_unwound`: both contexts at the end of `unwind_and_size`.
-/

import Popcorn.Runtime.Virtual

namespace Popcorn.Runtime

open Popcorn.Lib Popcorn.Metadata

/-! ## One round -/

/-- The frame an activation describes. -/
def Activation.view (x : Activation) : VFrame := ⟨x.site, x.regs, x.cfa⟩

/-- The state after a round that finds the frame `f` and its call site on the other side. -/
def stepped (mem : Mem) (u : Unwinding) (f : VFrame) (siteDest : CallSite) : Unwinding where
  src := { popped mem u.src false with numActs := u.src.numActs + 1 }.modAct (u.src.act + 1)
    fun x => { x with site := f.site, cfa := f.cfa }
  dest := { u.dest with numActs := u.dest.numActs + 1, act := u.dest.act + 1 }.modAct (u.dest.act + 1)
    fun x => { x with site := siteDest }
  stackSize := u.stackSize + siteDest.frameSize.toNat
  lookups := u.lookups ++ [u.src.act + 1]

theorem popped_vcaller (mem : Mem) (c : Ctx) : (popped mem c false).cur.regs = vcaller mem c.handle c.cur.view := by
  unfold Ctx.cur
  rw [popped_act]
  exact popped_regs mem c

theorem foundSites_eq (mem : Mem) (u : Unwinding) (site siteDest : CallSite) :
    foundSites u (popped mem u.src false) site siteDest =
      stepped mem u ⟨site, vcaller mem u.src.handle u.src.cur.view,
        padd ((getRegops u.src.handle.arch).sp (vcaller mem u.src.handle u.src.cur.view)) site.frameSize.toNat⟩ siteDest := by
  have hcfa : ∀ c : Ctx, calculateCfa (c.modAct c.act fun x => { x with site := site }) c.act =
      padd (c.regops.sp c.cur.regs) site.frameSize.toNat := by
    intro c
    simp [calculateCfa, Ctx.cur]
  unfold foundSites stepped
  simp only [Ctx.modAct_act, hcfa, Ctx.modAct_modAct, popped_act, popped_numActs, ← popped_vcaller]
  simp only [Ctx.regops, Ctx.cur, popped_handle, popped_act]

theorem unwindStep_ok_iff {mem : Mem} {u u' : Unwinding} :
    unwindStep mem u = .ok u' ↔ CanPop u.src ∧ ∃ f siteDest, vnext mem u.src.handle u.src.cur.view = some f ∧
      getSiteById u.dest.handle f.site.id = some siteDest ∧ u' = stepped mem u f siteDest := by
  show (popFrame mem u.src false >>= _) = _ ↔ _
  simp only [bind_ok, popFrame_ok_iff, and_assoc, exists_and_left, exists_eq_left]
  apply and_congr_right
  intro _
  simp only [foundSites_eq, Ctx.regops, popped_handle, popped_vcaller, vnext, vframe]
  cases getSiteByAddr u.src.handle (UInt64.ofNat ((getRegops u.src.handle.arch).pc (vcaller mem u.src.handle u.src.cur.view))) with
  | none => simp
  | some site =>
    cases hd : getSiteById u.dest.handle site.id with
    | none => simp [hd]
    | some siteDest =>
      simp only [Option.map_some, Option.some.injEq, exists_eq_left', hd]
      exact ⟨fun h => (Except.ok.inj h).symm, fun h => congrArg Except.ok h.symm⟩

section Stepped
variable (mem : Mem) (u : Unwinding) (f : VFrame) (siteDest : CallSite)

@[simp] theorem stepped_srcHandle : (stepped mem u f siteDest).src.handle = u.src.handle := popped_handle mem u.src false
@[simp] theorem stepped_destHandle : (stepped mem u f siteDest).dest.handle = u.dest.handle := rfl
@[simp] theorem stepped_act : (stepped mem u f siteDest).src.act = u.src.act + 1 := popped_act mem u.src false
@[simp] theorem stepped_numActs : (stepped mem u f siteDest).src.numActs = u.src.numActs + 1 := rfl
@[simp] theorem stepped_stackBase : (stepped mem u f siteDest).src.stackBase = u.src.stackBase := popped_stackBase mem u.src false
@[simp] theorem stepped_stack : (stepped mem u f siteDest).src.stack = u.src.stack := popped_stack mem u.src false

theorem stepped_acts_ne {j : Nat} (h : j ≠ u.src.act + 1) : (stepped mem u f siteDest).src.acts j = u.src.acts j := by
  unfold stepped
  rw [Ctx.modAct_ne _ _ _ h]
  exact popped_acts_ne mem u.src false h

theorem stepped_bits : ((stepped mem u f siteDest).src.acts (u.src.act + 1)).calleeSaved.bits = (u.src.act + 1) * 16 := by
  unfold stepped
  rw [Ctx.modAct_same]
  exact popped_bits mem u.src false

/-- The new activation is the virtual frame found. -/
theorem stepped_view (hf : vnext mem u.src.handle u.src.cur.view = some f) :
    ((stepped mem u f siteDest).src.acts (u.src.act + 1)).view = f := by
  have hr : f.regs = vcaller mem u.src.handle u.src.cur.view := by
    unfold vnext vframe at hf
    obtain ⟨site, -, rfl⟩ := Option.map_eq_some_iff.mp hf
    rfl
  unfold stepped Activation.view
  rw [Ctx.modAct_same]
  show (⟨f.site, ((popped mem u.src false).acts (u.src.act + 1)).regs, f.cfa⟩ : VFrame) = f
  rw [(popped_regs mem u.src).trans hr.symm]

end Stepped

/-! ## The first activation -/

/-- The source context of a register set in the frame `f`. -/
def srcStart (h : Handle) (spBase : Nat) (fresh : Fresh) (f : VFrame) : Ctx where
  handle := h
  stackBase := spBase
  stack := (getRegops h.arch).sp f.regs
  numActs := 0
  act := 0
  acts := Function.update fresh.acts 0 ⟨f.site, f.cfa, f.regs, ⟨(getRegops h.arch).numRegs, 0⟩⟩
  stackPointers := []
  pool := fresh.pool

theorem srcStart_eq (h : Handle) (regset : RegSet) (spBase : Nat) (fresh : Fresh) (site : CallSite) :
    bootstrapFirstFrame (((⟨h, spBase, (getRegops h.arch).sp regset, 0, 0, fresh.acts, [], fresh.pool⟩ : Ctx).modAct 0
      fun x => { x with regs := regset }).modAct 0 fun x => { x with site := site }) =
      srcStart h spBase fresh ⟨site, regset, padd ((getRegops h.arch).sp regset) site.frameSize.toNat⟩ := by
  unfold bootstrapFirstFrame setupCalleeSavedBits srcStart calculateCfa
  simp [Ctx.modAct, Ctx.regops]

theorem initSrcContext_ok_iff {h : Handle} {regset : RegSet} {spBase : Nat} {fresh : Fresh} {c : Ctx} :
    initSrcContext h regset spBase fresh = .ok c ↔ ∃ f, vframe h regset = some f ∧ c = srcStart h spBase fresh f := by
  unfold initSrcContext vframe
  simp only [srcStart_eq, Ctx.regops, Ctx.modAct_handle]
  cases getSiteByAddr h (UInt64.ofNat ((getRegops h.arch).pc regset)) with
  | none => simp
  | some site =>
    simp only [Option.map_some, Option.some.injEq, exists_eq_left', Except.ok.injEq]
    exact eq_comm

/-! ## The loop -/

/-- The space the frames `1..k` of the destination take. -/
def frameSpan (ds : Nat → CallSite) : Nat → Nat
  | 0 => 0
  | k + 1 => frameSpan ds k + (ds (k + 1)).frameSize.toNat

theorem frameSpan_mono (ds : Nat → CallSite) {j k : Nat} (h : j ≤ k) : frameSpan ds j ≤ frameSpan ds k := by
  induction k with
  | zero => rw [Nat.le_zero.mp h]
  | succ k ih =>
    obtain rfl | h := Nat.eq_or_lt_of_le h
    · exact Nat.le_refl _
    · exact Nat.le_trans (ih (by omega)) (Nat.le_add_right _ _)

/-- The loop started in `u0` and has found the frames up to activation `k`. -/
structure Reached (sf : Nat → VFrame) (ds : Nat → CallSite) (u0 : Unwinding) (k : Nat) (u : Unwinding) : Prop where
  srcHandle : u.src.handle = u0.src.handle
  srcStackBase : u.src.stackBase = u0.src.stackBase
  srcStack : u.src.stack = u0.src.stack
  act : u.src.act = k
  numActs : u.src.numActs = k
  frames : ∀ j ≤ k, (u.src.acts j).view = sf j
  bits : ∀ j ≤ k, (u.src.acts j).calleeSaved.bits = j * 16
  destHandle : u.dest.handle = u0.dest.handle
  destStackBase : u.dest.stackBase = u0.dest.stackBase
  destPool : u.dest.pool = u0.dest.pool
  destFixups : u.dest.stackPointers = u0.dest.stackPointers
  destAct : u.dest.act = k
  destNumActs : u.dest.numActs = k
  destFirst : u.dest.acts 0 = u0.dest.acts 0
  destSites : ∀ j, 0 < j → j ≤ k → (u.dest.acts j).site = ds j
  stackSize : u.stackSize = frameSpan ds k
  lookups : u.lookups = List.range' 1 k

section
variable {mem : Mem} {n : Nat} {sf : Nat → VFrame} {ds : Nat → CallSite} {u0 : Unwinding} {k : Nat} {u u' : Unwinding}

theorem Reached.cur_view (hr : Reached sf ds u0 k u) : u.src.cur.view = sf k := by
  unfold Ctx.cur
  rw [hr.act]
  exact hr.frames k (Nat.le_refl k)

theorem Reached.cur_site (hr : Reached sf ds u0 k u) : u.src.cur.site = (sf k).site := congrArg VFrame.site hr.cur_view

/-- A round reaches the next frame. -/
theorem Reached.step (hv : Visits mem u0.src.handle u0.dest.handle n sf ds) (hr : Reached sf ds u0 k u) (hk : k + 1 < n)
    (h : unwindStep mem u = .ok u') : Reached sf ds u0 (k + 1) u' := by
  obtain ⟨-, f, siteDest, hf, hd, rfl⟩ := unwindStep_ok_iff.mp h
  have hnew := stepped_view mem u f siteDest hf
  have hbits := stepped_bits mem u f siteDest
  rw [hr.srcHandle, hr.cur_view, hv.next k hk] at hf
  cases hf
  rw [hr.destHandle, hv.dest (k + 1) (by omega) hk] at hd
  cases hd
  rw [hr.act] at hnew hbits
  have hdest : (stepped mem u (sf (k + 1)) (ds (k + 1))).dest.acts =
      Function.update u.dest.acts (k + 1) { u.dest.acts (k + 1) with site := ds (k + 1) } := by
    show ((_ : Ctx).modAct (u.dest.act + 1) _).acts = _
    rw [hr.destAct]
    rfl
  constructor
  case srcHandle => rw [stepped_srcHandle, hr.srcHandle]
  case srcStackBase => rw [stepped_stackBase, hr.srcStackBase]
  case srcStack => rw [stepped_stack, hr.srcStack]
  case act => rw [stepped_act, hr.act]
  case numActs => rw [stepped_numActs, hr.numActs]
  case frames =>
    intro j hj
    obtain rfl | hj := Nat.eq_or_lt_of_le hj
    · exact hnew
    · rw [stepped_acts_ne _ _ _ _ (by rw [hr.act]; omega)]
      exact hr.frames j (by omega)
  case bits =>
    intro j hj
    obtain rfl | hj := Nat.eq_or_lt_of_le hj
    · exact hbits
    · rw [stepped_acts_ne _ _ _ _ (by rw [hr.act]; omega)]
      exact hr.bits j (by omega)
  case destHandle => exact hr.destHandle
  case destStackBase => exact hr.destStackBase
  case destPool => exact hr.destPool
  case destFixups => exact hr.destFixups
  case destAct => exact congrArg (· + 1) hr.destAct
  case destNumActs => exact congrArg (· + 1) hr.destNumActs
  case destFirst =>
    rw [hdest, Function.update_of_ne (by omega)]
    exact hr.destFirst
  case destSites =>
    intro j h0 hj
    rw [hdest]
    obtain rfl | hj := Nat.eq_or_lt_of_le hj
    · rw [Function.update_self]
    · rw [Function.update_of_ne (by omega)]
      exact hr.destSites j h0 (by omega)
  case stackSize => exact congrArg (· + (ds (k + 1)).frameSize.toNat) hr.stackSize
  case lookups =>
    show u.lookups ++ [u.src.act + 1] = List.range' 1 (k + 1)
    rw [hr.lookups, hr.act, List.range'_concat, Nat.add_comm 1]
    simp

theorem Reached.step_ok (hv : Visits mem u0.src.handle u0.dest.handle n sf ds) (hr : Reached sf ds u0 k u) (hk : k + 1 < n)
    (hp : CanPop u.src) : ∃ u', unwindStep mem u = .ok u' := by
  refine ⟨_, unwindStep_ok_iff.mpr ⟨hp, sf (k + 1), ds (k + 1), ?_, ?_, rfl⟩⟩
  · rw [hr.srcHandle, hr.cur_view]
    exact hv.next k hk
  · rw [hr.destHandle]
    exact hv.dest (k + 1) (by omega) hk

/-- Where every frame can be popped, the loop stops at the start function. -/
theorem Reached.loop_ok (hv : Visits mem u0.src.handle u0.dest.handle n sf ds)
    (hpop : ∀ k u, k < n → Reached sf ds u0 k u → CanPop u.src)
    (hlast : firstFrame (sf (n - 1)).site.id = true) (hinner : ∀ k, 0 < k → k + 1 < n → firstFrame (sf k).site.id = false)
    (fuel : Nat) : ∀ (k : Nat) (u : Unwinding), Reached sf ds u0 k u → k + 1 < n → n ≤ k + 1 + fuel →
      ∃ u', unwindLoop mem fuel u = .ok u' ∧ Reached sf ds u0 (n - 1) u' := by
  induction fuel with
  | zero => intro k u _ _ _; omega
  | succ fuel ih =>
    intro k u hr hk hf
    obtain ⟨u1, h1⟩ := hr.step_ok hv hk (hpop k u (by omega) hr)
    have hr1 := hr.step hv hk h1
    unfold unwindLoop
    rw [h1]
    show ∃ u', (if firstFrame u1.src.cur.site.id = true then _ else _) = _ ∧ _
    rw [hr1.cur_site]
    by_cases he : k + 1 = n - 1
    · rw [he, if_pos hlast]
      exact ⟨u1, rfl, he ▸ hr1⟩
    · rw [if_neg (by rw [hinner (k + 1) (by omega) (by omega)]; decide)]
      exact ih (k + 1) u1 hr1 (by omega) (by omega)

theorem unwindLoop_numActs (fuel : Nat) : ∀ (u u' : Unwinding), unwindLoop mem fuel u = .ok u' →
    u.src.numActs + 1 ≤ u'.src.numActs := by
  induction fuel with
  | zero => intro u u' h; cases h
  | succ fuel ih =>
    intro u u' h
    unfold unwindLoop at h
    obtain ⟨u1, h1, h2⟩ := bind_ok.mp h
    obtain ⟨-, f, siteDest, -, -, rfl⟩ := unwindStep_ok_iff.mp h1
    split at h2
    · cases h2
      exact Nat.le_refl _
    · have := ih _ _ h2
      rw [stepped_numActs] at this
      omega

/-- A loop that ends has stopped at the start function or gone past it. -/
theorem Reached.loop_stops (hv : Visits mem u0.src.handle u0.dest.handle n sf ds)
    (hinner : ∀ k, 0 < k → k + 1 < n → firstFrame (sf k).site.id = false) (fuel : Nat) : ∀ (k : Nat) (u u' : Unwinding),
    Reached sf ds u0 k u → k + 1 < n → unwindLoop mem fuel u = .ok u' →
      (firstFrame (sf (n - 1)).site.id = true ∧ Reached sf ds u0 (n - 1) u') ∨
        (firstFrame (sf (n - 1)).site.id = false ∧ n ≤ u'.src.numActs) := by
  induction fuel with
  | zero => intro k u u' _ _ h; cases h
  | succ fuel ih =>
    intro k u u' hr hk h
    unfold unwindLoop at h
    obtain ⟨u1, h1, h2⟩ := bind_ok.mp h
    have hr1 := hr.step hv hk h1
    rw [hr1.cur_site] at h2
    by_cases he : k + 1 = n - 1
    · rw [he] at h2 hr1
      split at h2
      · cases h2
        exact .inl ⟨by assumption, hr1⟩
      · rename_i hfalse
        have := unwindLoop_numActs fuel _ _ h2
        rw [hr1.numActs] at this
        exact .inr ⟨Bool.eq_false_iff.mpr hfalse, by omega⟩
    · rw [if_neg (by rw [hinner (k + 1) (by omega) (by omega)]; decide)] at h2
      exact ih (k + 1) u1 u' hr1 (by omega) h2

end

/-! ## The end of the pass -/

/-- The destination's SP for frames of `span` bytes below `spBase`. -/
def destTop (a : Arch) (spBase span : Nat) : Nat :=
  let stack := padd spBase (-span)
  match a with
  | .x86_64 => if padd stack 8 % 0x10 ≠ 0 then padd stack (-8) else stack
  | .aarch64 => stack

theorem destTop_lt (a : Arch) (spBase span : Nat) : destTop a spBase span < 18446744073709551616 := by
  unfold destTop
  cases a
  · show (if _ then _ else _) < _
    split <;> exact padd_lt _ _
  · exact padd_lt _ _

/-- The destination context with its SP set and its bitmaps cleared. -/
def laidOut (dest : Ctx) (stackSize : Nat) : Ctx :=
  let stack := destTop dest.handle.arch dest.stackBase stackSize
  bootstrapFirstFrameFuncentry (clearBitmaps ({ dest with stack := stack }.modAct dest.act
    fun x => { x with regs := dest.regops.setSp x.regs stack }))

theorem layoutDest_ok (dest : Ctx) (stackSize : Nat) : layoutDest dest stackSize = .ok (laidOut dest stackSize) := by
  unfold layoutDest laidOut destTop Ctx.props
  cases dest.handle.arch <;> rfl

section LaidOut
variable (dest : Ctx) (stackSize : Nat)

@[simp] theorem laidOut_handle : (laidOut dest stackSize).handle = dest.handle := rfl
@[simp] theorem laidOut_act : (laidOut dest stackSize).act = dest.act := rfl
@[simp] theorem laidOut_numActs : (laidOut dest stackSize).numActs = dest.numActs := rfl
@[simp] theorem laidOut_stackPointers : (laidOut dest stackSize).stackPointers = dest.stackPointers := rfl
@[simp] theorem laidOut_stack : (laidOut dest stackSize).stack = destTop dest.handle.arch dest.stackBase stackSize := rfl

theorem laidOut_acts_ne {j : Nat} (h : j ≠ dest.act) : (laidOut dest stackSize).acts j = dest.acts j := by
  unfold laidOut bootstrapFirstFrameFuncentry setupCalleeSavedBits clearBitmaps
  simp [h]

theorem laidOut_pool : (laidOut dest stackSize).pool = fun w => if w < 2 * dest.numActs then 0 else dest.pool w := by
  have h : bitmapSize dest.regops.numRegs = 16 := bitmapSize_numRegs dest.handle.arch
  unfold laidOut bootstrapFirstFrameFuncentry setupCalleeSavedBits clearBitmaps
  simp only [Ctx.modAct_pool, Ctx.modAct_regops]
  funext w
  show (if 8 * w < bitmapSize dest.regops.numRegs * dest.numActs then 0 else dest.pool w) = _
  rw [h]
  by_cases hw : w < 2 * dest.numActs
  · rw [if_pos hw, if_pos (by omega)]
  · rw [if_neg hw, if_neg (by omega)]

/-- The function being entered has no call site and saves nothing; its SP is the new one. -/
theorem laidOut_first (hact : dest.act = 0) :
    let top := destTop dest.handle.arch dest.stackBase stackSize
    let first := (laidOut dest stackSize).acts 0
    first.site = (dest.acts 0).site ∧ first.calleeSaved.bits = 0 ∧ dest.regops.sp first.regs = top ∧
      first.cfa = padd top dest.props.cfaOffsetFuncentry := by
  intro top first
  have hf : first = ⟨(dest.acts 0).site, padd (dest.regops.sp (dest.regops.setSp (dest.acts 0).regs top)) dest.props.cfaOffsetFuncentry,
      dest.regops.setSp (dest.acts 0).regs top, ⟨dest.regops.numRegs, 0⟩⟩ := by
    show (bootstrapFirstFrameFuncentry _).acts 0 = _
    unfold bootstrapFirstFrameFuncentry setupCalleeSavedBits clearBitmaps
    simp [Ctx.modAct, Ctx.regops, Ctx.props, hact, top]
  have hsp : dest.regops.sp (dest.regops.setSp (dest.acts 0).regs top) = top := sp_setSp _ _ (destTop_lt _ _ _)
  rw [hf]
  exact ⟨rfl, rfl, hsp, by rw [hsp]⟩

theorem laidOut_regs (hact : dest.act = 0) : ((laidOut dest stackSize).acts 0).regs =
    dest.regops.setSp (dest.acts 0).regs (destTop dest.handle.arch dest.stackBase stackSize) := by
  show ((bootstrapFirstFrameFuncentry _).acts 0).regs = _
  unfold bootstrapFirstFrameFuncentry setupCalleeSavedBits clearBitmaps
  simp [Ctx.modAct, hact]

end LaidOut

theorem unwindAndSize_ok_iff {mem : Mem} {src dest : Ctx} {u : Unwinding} :
    unwindAndSize mem src dest = .ok u ↔ ∃ v, unwindLoop mem maxFrames ⟨src, dest, 0, []⟩ = .ok v ∧ CanPop v.src ∧
      u = ⟨{ popped mem v.src false with numActs := v.src.numActs + 1, act := 0 },
        laidOut { v.dest with numActs := v.dest.numActs + 1, act := 0 } v.stackSize, v.stackSize, v.lookups⟩ := by
  unfold unwindAndSize
  simp only [bind_ok, popFrame_ok_iff, layoutDest_ok]
  constructor
  · intro ⟨v, hv, p, ⟨hcp, hp⟩, d, hd, h⟩
    refine ⟨v, hv, hcp, ?_⟩
    rw [← Except.ok.inj h, hp, popped_numActs, Except.ok.inj hd]
  · intro ⟨v, hv, hcp, h⟩
    refine ⟨v, hv, _, ⟨hcp, rfl⟩, _, rfl, ?_⟩
    rw [h, popped_numActs]
    rfl

/-- The state `unwind_and_size` starts its loop in, from the frame `f` of the register set. -/
def RewriteArgs.init (x : RewriteArgs) (f : VFrame) : Unwinding where
  src := srcStart x.handleSrc x.spBaseSrc x.freshSrc f
  dest := initDestContext x.handleDest x.spBaseDest
    (getFunctionAddress x.handleSrc (UInt64.ofNat ((getRegops x.handleSrc.arch).pc f.regs))).toNat x.freshDest
  stackSize := 0
  lookups := []

theorem initDestContext_regs (h : Handle) (spBase pc : Nat) (fresh : Fresh) :
    ((initDestContext h spBase pc fresh).acts 0).regs = (getRegops h.arch).setPc (fresh.acts 0).regs pc := by
  unfold initDestContext
  rw [Ctx.modAct_same]
  rfl

theorem unwindStack_ok_iff {mem : Mem} {x : RewriteArgs} {u : Unwinding} :
    unwindStack mem x = .ok u ↔ ∃ f, vframe x.handleSrc x.regsetSrc = some f ∧
      unwindAndSize mem (x.init f).src (x.init f).dest = .ok u := by
  unfold unwindStack
  simp only [bind_ok, initSrcContext_ok_iff]
  constructor
  · intro ⟨c, ⟨f, hf, hc⟩, h⟩
    rw [hc] at h
    exact ⟨f, hf, h⟩
  · intro ⟨f, hf, h⟩
    exact ⟨_, ⟨f, hf, rfl⟩, h⟩

theorem RewriteArgs.reached_init (x : RewriteArgs) {f : VFrame} {sf : Nat → VFrame} (ds : Nat → CallSite) (hf : sf 0 = f) :
    Reached sf ds (x.init f) 0 (x.init f) := by
  constructor
  case frames =>
    intro j hj
    obtain rfl := Nat.le_zero.mp hj
    exact hf.symm
  case bits =>
    intro j hj
    obtain rfl := Nat.le_zero.mp hj
    rfl
  case destSites => intro j h0 hj; omega
  all_goals rfl

/-! ## A stack of `n` frames -/

/-- The source stack has `n` frames up to its start function, by virtual unwinding from the
    register set: `sf` are its frames and `ds` their call sites in the destination. -/
structure SourceStack (mem : Mem) (x : RewriteArgs) (n : Nat) (sf : Nat → VFrame) (ds : Nat → CallSite) : Prop where
  two : 2 ≤ n
  first : vframe x.handleSrc x.regsetSrc = some (sf 0)
  visits : Visits mem x.handleSrc x.handleDest n sf ds
  start : firstFrame (sf (n - 1)).site.id = true
  inner : ∀ k, 0 < k → k + 1 < n → firstFrame (sf k).site.id = false

/-- The contexts after `unwind_and_size`. -/
structure Unwound (x : RewriteArgs) (n : Nat) (sf : Nat → VFrame) (ds : Nat → CallSite) (u : Unwinding) : Prop where
  srcHandle : u.src.handle = x.handleSrc
  srcStackBase : u.src.stackBase = x.spBaseSrc
  srcStack : u.src.stack = (getRegops x.handleSrc.arch).sp (sf 0).regs
  numActs : u.src.numActs = n
  frames : ∀ k < n, (u.src.acts k).view = sf k
  destHandle : u.dest.handle = x.handleDest
  destAct : u.dest.act = 0
  destFixups : u.dest.stackPointers = []
  destSites : ∀ k, 0 < k → k < n → (u.dest.acts k).site = ds k
  destSite0 : (u.dest.acts 0).site = emptyCallSite
  destBits0 : (u.dest.acts 0).calleeSaved.bits = 0
  destSp : (getRegops x.handleDest.arch).sp (u.dest.acts 0).regs = destTop x.handleDest.arch x.spBaseDest (frameSpan ds (n - 1))
  destCfa : (u.dest.acts 0).cfa = padd (destTop x.handleDest.arch x.spBaseDest (frameSpan ds (n - 1)))
    (getProperties x.handleDest.arch).cfaOffsetFuncentry
  /-- Of the first register set, only the PC and the SP are set yet. -/
  destRegs : ∃ pc sp, (u.dest.acts 0).regs =
    (getRegops x.handleDest.arch).setSp ((getRegops x.handleDest.arch).setPc (x.freshDest.acts 0).regs pc) sp
  destPool : u.dest.pool = fun w => if w < 2 * n then 0 else x.freshDest.pool w

theorem unwindStack_unwound {mem : Mem} {x : RewriteArgs} {n : Nat} {sf : Nat → VFrame} {ds : Nat → CallSite}
    (hs : SourceStack mem x n sf ds) {u : Unwinding} (h : unwindStack mem x = .ok u) : Unwound x n sf ds u := by
  obtain ⟨f, hf, h⟩ := unwindStack_ok_iff.mp h
  cases hs.first.symm.trans hf
  obtain ⟨v, hloop, -, rfl⟩ := unwindAndSize_ok_iff.mp h
  have h2 := hs.two
  obtain ⟨-, hr⟩ | ⟨hfalse, -⟩ :=
    Reached.loop_stops hs.visits hs.inner maxFrames 0 _ _ (x.reached_init ds rfl) (by omega) hloop
  · have hd : v.dest.handle = x.handleDest := hr.destHandle
    have hdb : v.dest.stackBase = x.spBaseDest := hr.destStackBase
    have hd0 : v.dest.acts 0 = (x.init (sf 0)).dest.acts 0 := hr.destFirst
    have hn : v.dest.numActs + 1 = n := by rw [hr.destNumActs]; omega
    obtain ⟨hsite, hbits, hsp, hcfa⟩ := laidOut_first { v.dest with numActs := v.dest.numActs + 1, act := 0 } v.stackSize rfl
    constructor
    case srcHandle => exact (popped_handle _ _ _).trans hr.srcHandle
    case srcStackBase => exact (popped_stackBase _ _ _).trans hr.srcStackBase
    case srcStack => exact (popped_stack _ _ _).trans hr.srcStack
    case numActs =>
      show v.src.numActs + 1 = n
      rw [hr.numActs]
      omega
    case frames =>
      intro k hk
      show ((popped mem v.src false).acts k).view = _
      rw [popped_acts_ne _ _ _ (by rw [hr.act]; omega)]
      exact hr.frames k (by omega)
    case destHandle => exact hd
    case destAct => rfl
    case destFixups => exact hr.destFixups
    case destSites =>
      intro k h0 hk
      show (((laidOut _ _).acts k).site) = _
      rw [laidOut_acts_ne _ _ (show k ≠ 0 by omega)]
      exact hr.destSites k h0 (by omega)
    case destSite0 =>
      refine hsite.trans ?_
      show (v.dest.acts 0).site = _
      rw [hd0]
      rfl
    case destBits0 => exact hbits
    case destSp =>
      rw [← hd, ← hdb, ← hr.stackSize]
      exact hsp
    case destCfa =>
      rw [← hd, ← hdb, ← hr.stackSize]
      exact hcfa
    case destRegs =>
      have hregs := laidOut_regs { v.dest with numActs := v.dest.numActs + 1, act := 0 } v.stackSize rfl
      refine ⟨(getFunctionAddress x.handleSrc (UInt64.ofNat ((getRegops x.handleSrc.arch).pc (sf 0).regs))).toNat,
        destTop v.dest.handle.arch v.dest.stackBase v.stackSize, hregs.trans ?_⟩
      show (getRegops v.dest.handle.arch).setSp (v.dest.acts 0).regs _ = _
      rw [hd0, hd]
      exact congrArg (fun r => (getRegops x.handleDest.arch).setSp r _) (initDestContext_regs _ _ _ _)
    case destPool =>
      show (laidOut _ _).pool = _
      rw [laidOut_pool]
      show (fun w => if w < 2 * (v.dest.numActs + 1) then 0 else v.dest.pool w) = _
      rw [hn, hr.destPool]
      rfl
  · rw [hs.start] at hfalse
    cases hfalse

end Popcorn.Runtime
