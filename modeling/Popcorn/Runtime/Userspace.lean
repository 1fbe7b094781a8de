/-
  Popcorn.Runtime.Userspace — rewriting the stack of a running thread
  (lib/stack_transformation/src/userspace.c).

  A thread's stack is divided in two at a fixed distance from its low end. A call of
  `userspace_rewrite_internal` finds the half the stack pointer is in and rewrites to the
  other one: from the base of the half in use to the base of the other half. The bounds of
  the main thread are set at startup from procfs, the stack's resource limit and musl's
  `__popcorn_stack_base`; those of other threads come from the pthread library. How much
  of the other half a rewrite needs is known only to `unwind_and_size`, which does not
  check it (`ASSERT` is compiled out). On x86-64 the last of the frames may end past the
  base it is given, by up to 8 bytes: the return address into the start function is there.

  Proved:
  - `destAt_stack`: a rewrite keeps the region it has laid out.
  - `rewrite_no_clobber_iff`: a rewrite that returns 0 stays in the thread's stack and off
    the part in use, in what it lays out and in what it writes, exactly when the frames fit
    between the two bases, or between the lower base and the low end, and what is past the
    base does no harm.
  - `rewrite_clobbers`: a frame of 5 MiB reaches into the half in use.

  `get_stack_bounds` tells a thread's callers which half is in use, from the same bounds.
  For the lower half it moves both ends to the split:
  - `stack_bounds_agree_iff`: what it returns holds the stack pointer, and ends at the base
    a rewrite would start from, exactly when the upper half is in use.
-/

import Popcorn.Runtime.Footprint
import Popcorn.Runtime.Preserve

namespace Popcorn.Runtime

open Popcorn.Lib Popcorn.Metadata

/-! ## Stack bounds -/

structure StackBounds where
  high : Nat
  low : Nat
  deriving DecidableEq, Repr

/-- `MAX_STACK_SIZE` and `B_STACK_OFFSET`. -/
def maxStackSize : Nat := 8388608
def bStackOffset : Nat := 4194304

/-- `prep_stack`: `mainStack` is what procfs says of the main thread's stack, `rlimit` the
    limit of its size; none are failed calls. -/
def prepStack (mainStack : Option StackBounds) (rlimit : Option UInt64) (popcornStackBase : UInt64) : Option StackBounds := do
  let bounds ← mainStack
  let rlim ← rlimit
  let low := padd bounds.high (-rlim.toNat)
  let offset := padd bounds.high (-popcornStackBase.toNat)
  let offset := padd offset (if offset % 0x10 ≠ 0 then (0x10 : Int) - (offset % 0x10 : Nat) else 0)
  pure ⟨padd bounds.high (-offset), low⟩

/-- `get_thread_stack`: `attr` is the stack of the thread's attributes, or a failed call. -/
def getThreadStack (attr : Option (UInt64 × UInt64)) : Option StackBounds := do
  let (low, stackSize) ← attr
  let high := padd low.toNat stackSize.toNat
  pure ⟨high, if stackSize.toNat ≠ maxStackSize then padd high (-maxStackSize) else low.toNat⟩

/-- The bounds a thread can have. -/
def Produced (b : StackBounds) : Prop :=
  (∃ mainStack rlimit base, prepStack mainStack rlimit base = some b) ∨ ∃ attr, getThreadStack attr = some b

theorem Produced.lt {b : StackBounds} (h : Produced b) : b.high < 18446744073709551616 ∧ b.low < 18446744073709551616 := by
  obtain ⟨mainStack, rlimit, base, h⟩ | ⟨attr, h⟩ := h
  · simp only [prepStack, Option.bind_eq_bind, Option.bind_eq_some_iff, Option.pure_def, Option.some.injEq] at h
    obtain ⟨m, -, rlim, -, rfl⟩ := h
    exact ⟨padd_lt _ _, padd_lt _ _⟩
  · simp only [getThreadStack, Option.bind_eq_bind, Option.bind_eq_some_iff, Option.pure_def, Option.some.injEq] at h
    obtain ⟨⟨low, size⟩, -, rfl⟩ := h
    dsimp only
    refine ⟨padd_lt _ _, ?_⟩
    split
    · exact padd_lt _ _
    · exact low.toNat_lt

/-! ## The rewrite -/

/-- A call of `userspace_rewrite_internal` in a thread; `tls` are the bounds the thread has
    stored, `attr` what the pthread library says of its stack. -/
structure UserspaceCall where
  mem : Mem
  sp : Nat
  regs : RegSet
  handleA : Handle
  handleB : Handle
  tls : Option StackBounds
  attr : Option (UInt64 × UInt64)
  freshA : Fresh
  freshB : Fresh
  foundFixup : Nat → Bool

def UserspaceCall.bounds (c : UserspaceCall) : Option StackBounds :=
  match c.tls with
  | some b => some b
  | none => getThreadStack c.attr

/-- The bases of the halves, `stack_b` being the lower one. -/
def stackB (b : StackBounds) : Nat := padd b.low bStackOffset
def curStack (b : StackBounds) (sp : Nat) : Nat := if stackB b ≤ sp then b.high else stackB b
def newStack (b : StackBounds) (sp : Nat) : Nat := if stackB b ≤ sp then stackB b else b.high

/-- The arguments for `st_rewrite_stack`. -/
def UserspaceCall.args (c : UserspaceCall) (b : StackBounds) : RewriteArgs where
  handleSrc := c.handleA
  regsetSrc := c.regs
  spBaseSrc := curStack b c.sp
  freshSrc := c.freshA
  handleDest := c.handleB
  spBaseDest := newStack b c.sp
  freshDest := c.freshB
  foundFixup := c.foundFixup

/-- `userspace_rewrite_internal`; `none` is a return of 1. -/
def userspaceRewriteInternal (c : UserspaceCall) : Except Fault (Option Rewritten) :=
  if c.sp = 0 then .ok none
  else
    match c.bounds with
    | none => .ok none
    | some b => if c.sp < b.low ∨ b.high ≤ c.sp then .ok none else stRewriteStack c.mem (c.args b)

/-! ## The region of a rewrite -/

/-- The addresses from `dest->stack` up to the base, around the end of the address space if
    need be. -/
def InRegion (dest : Ctx) (a : Nat) : Prop :=
  a < 18446744073709551616 ∧ padd a (-dest.stack) < padd dest.stackBase (-dest.stack)

/-- The address is in the thread's stack and off the part in use. -/
def Spare (b : StackBounds) (sp a : Nat) : Prop := (b.low ≤ a ∧ a < b.high) ∧ ¬ (sp ≤ a ∧ a < curStack b sp)

/-- The rewrite stays in the thread's stack and off the part in use: the region it has laid out
    does, and every byte it has changed. -/
def NoClobber (b : StackBounds) (c : UserspaceCall) (out : Rewritten) : Prop :=
  ∀ a, InRegion out.dest a ∨ out.mem a ≠ c.mem a → Spare b c.sp a

/-- How many bytes of the return address into the start function are past the base, where its
    frame has `last` bytes: an x86-64 frame ends 8 bytes further up unless the SP is moved down. -/
def overhang (a : Arch) (base span last : Nat) : Nat :=
  match a with
  | .x86_64 => if padd (padd base (-span)) 8 % 0x10 ≠ 0 then 0 else 8 - last
  | .aarch64 => 0

/-- Nothing is lost past the base: the bytes there are spare, or hold the return address already. -/
def OverhangSafe (b : StackBounds) (c : UserspaceCall) (n : Nat) (ds : Nat → CallSite) : Prop :=
  ∀ i < overhang c.handleB.arch (newStack b c.sp) (frameSpan ds (n - 1)) (ds (n - 1)).frameSize.toNat,
    Spare b c.sp (newStack b c.sp + i) ∨
      c.mem (newStack b c.sp + i) = (leBytes 8 (ds (n - 1)).addr.toNat).getD ((ds (n - 1)).frameSize.toNat + i) 0

/-- What there is below the base rewritten to. -/
def available (b : StackBounds) (sp : Nat) : Nat := if stackB b ≤ sp then stackB b - b.low else b.high - stackB b

section
variable {mem : Mem} {x : RewriteArgs} {n : Nat} {sf : Nat → VFrame} {ds : Nat → CallSite} {u : Unwinding}

theorem entered_stack (mem : Mem) (c : Ctx) : (entered mem c).stack = c.stack ∧ (entered mem c).stackBase = c.stackBase := by
  simp [entered, enterCaller, nextAct, setupCalleeSavedBits, setupFrameBounds]

/-- A rewrite keeps the region it has laid out. -/
theorem destAt_stack (m : Nat) : ∀ st, destAt mem x u m = .ok st →
    st.ctx.stack = u.dest.stack ∧ st.ctx.stackBase = u.dest.stackBase := by
  induction m with
  | zero =>
    intro st h
    cases h
    exact ⟨rfl, rfl⟩
  | succ m ih =>
    intro st h
    cases m with
    | zero =>
      unfold destAt rewriteOutermost at h
      obtain ⟨c, h1, h⟩ := bind_ok.mp h
      obtain ⟨-, rfl⟩ := popFrameFuncentry_ok_iff.mp h1
      cases h
      have hsame := setReturnAddressFuncentry_same ⟨u.dest, mem⟩ (u.dest.acts (u.dest.act + 1)).site.addr.toNat
      obtain ⟨he, heb⟩ := entered_stack (setReturnAddressFuncentry ⟨u.dest, mem⟩ (u.dest.acts (u.dest.act + 1)).site.addr.toNat).mem
        (setReturnAddressFuncentry ⟨u.dest, mem⟩ (u.dest.acts (u.dest.act + 1)).site.addr.toNat).ctx
      exact ⟨he.trans hsame.stack, heb.trans hsame.stackBase⟩
    | succ m =>
      obtain ⟨st1, h1, h2⟩ := bind_ok.mp h
      obtain ⟨hst, hbase⟩ := ih st1 h1
      unfold rewriteStep at h2
      obtain ⟨st2, h3, h2⟩ := bind_ok.mp h2
      obtain ⟨c, h4, h2⟩ := bind_ok.mp h2
      have hsame := (writeLoc_same st1 _ _).trans (rewriteFrame_same h3)
      obtain ⟨-, rfl⟩ := popFrame_ok_iff.mp h4
      cases h2
      constructor
      · show (popped st2.mem st2.ctx true).stack = _
        rw [popped_stack, hsame.stack, hst]
      · show (popped st2.mem st2.ctx true).stackBase = _
        rw [popped_stackBase, hsame.stackBase, hbase]

theorem unwindStack_stackBase (h : unwindStack mem x = .ok u) : u.dest.stackBase = x.spBaseDest := by
  obtain ⟨f, -, h⟩ := unwindStack_ok_iff.mp h
  obtain ⟨v, hloop, -, rfl⟩ := unwindAndSize_ok_iff.mp h
  show v.dest.stackBase = _
  have hkeep : ∀ (fuel : Nat) (w w' : Unwinding), unwindLoop mem fuel w = .ok w' → w'.dest.stackBase = w.dest.stackBase := by
    intro fuel
    induction fuel with
    | zero => intro w w' h; cases h
    | succ fuel ih =>
      intro w w' h
      unfold unwindLoop at h
      obtain ⟨w1, h1, h2⟩ := bind_ok.mp h
      obtain ⟨-, f, siteDest, -, -, rfl⟩ := unwindStep_ok_iff.mp h1
      split at h2
      · cases h2
        rfl
      · have := ih _ _ h2
        exact this
  exact hkeep maxFrames _ _ hloop

/-- The region of a rewrite that returns. -/
theorem stRewriteStack_region (hsrc : SourceStack mem x n sf ds) {out : Rewritten} (h : stRewriteStack mem x = .ok (some out)) :
    out.dest.stack = padd x.spBaseDest (-needed x.handleDest.arch x.spBaseDest (frameSpan ds (n - 1))) ∧
      out.dest.stackBase = x.spBaseDest ∧ frameSpan ds (n - 1) < 4398046511104 := by
  have h2 := hsrc.two
  obtain ⟨u, st0, st, hu, h0, hst, rfl⟩ := stRewriteStack_ok h
  have hun := unwindStack_unwound hsrc hu
  rw [hun.numActs, destAt_foldlM h0, show n - 2 + 1 = n - 1 by omega] at hst
  obtain ⟨hs, hb⟩ := destAt_stack (n - 1) st hst
  refine ⟨?_, hb.trans (unwindStack_stackBase hu), frameSpan_small hun hu⟩
  rw [hs, unwindStack_stack hu hun, destTop_needed]

end

/-- The region is the `size` bytes below the base. -/
theorem inRegion_iff {dest : Ctx} {size : Nat} (hlt : dest.stackBase < 18446744073709551616) (hsize : size < 18446744073709551616)
    (hs : dest.stack = padd dest.stackBase (-size)) (a : Nat) :
    InRegion dest a ↔ ∃ j : Nat, 0 < j ∧ j ≤ size ∧ a = padd dest.stackBase (-j) := by
  have hlen : padd dest.stackBase (-dest.stack) = size := by
    rw [hs]
    unfold padd
    omega
  unfold InRegion
  rw [hlen, hs]
  constructor
  · intro ⟨ha, hin⟩
    refine ⟨size - padd a (-(padd dest.stackBase (-size) : Nat)), by omega, by omega, ?_⟩
    unfold padd at hin ⊢
    omega
  · intro ⟨j, h0, hj, ha⟩
    subst ha
    refine ⟨padd_lt _ _, ?_⟩
    unfold padd
    omega

theorem newStack_lt {b : StackBounds} (h : Produced b) (sp : Nat) : newStack b sp < 18446744073709551616 := by
  unfold newStack
  split
  · exact padd_lt _ _
  · exact h.lt.1

theorem available_le (b : StackBounds) (sp : Nat) : available b sp ≤ newStack b sp := by
  unfold available newStack
  split <;> exact Nat.sub_le _ _

/-- The region is harmless just when it is no longer than the space below its base. -/
theorem region_spare_iff {b : StackBounds} {sp size : Nat} {dest : Ctx} (hlow : b.low ≤ sp) (hhigh : sp < b.high)
    (hlt : b.high < 18446744073709551616) (hsize : size < 18446744073709551616)
    (hbase : dest.stackBase = newStack b sp) (hs : dest.stack = padd (newStack b sp) (-size)) :
    (∀ a, InRegion dest a → Spare b sp a) ↔ size ≤ available b sp := by
  have hB := padd_lt b.low bStackOffset
  have hblt : dest.stackBase < 18446744073709551616 := by
    rw [hbase]
    unfold newStack
    split
    · exact hB
    · exact hlt
  rw [← hbase] at hs
  have hiff := inRegion_iff hblt hsize hs
  unfold Spare
  simp only [hiff]
  unfold available curStack
  unfold newStack at hbase
  have hdef : padd b.low bStackOffset = stackB b := rfl
  rw [hdef] at hB
  generalize stackB b = B at *
  constructor
  · -- the first byte past the space below the base
    intro h
    by_contra hgt
    split at hbase
    · rename_i hle
      simp only [if_pos hle] at h hgt
      have hj := h _ ⟨B - b.low + 1, by omega, by omega, rfl⟩
      rw [hbase] at hj
      unfold padd at hj
      omega
    · rename_i hle
      simp only [if_neg hle] at h hgt
      have hj := h _ ⟨b.high - B + 1, by omega, by omega, rfl⟩
      rw [hbase] at hj
      unfold padd at hj
      omega
  · intro h a ⟨j, h0, hj, ha⟩
    split at hbase
    · rename_i hle
      simp only [if_pos hle] at h ⊢
      rw [hbase, padd_eq (b := B - j) (by omega) (by omega)] at ha
      omega
    · rename_i hle
      simp only [if_neg hle] at h ⊢
      rw [hbase, padd_eq (b := b.high - j) (by omega) (by omega)] at ha
      omega

/-- Where the last of the rewritten frames ends. -/
theorem frameEnd_last {x : RewriteArgs} {n : Nat} {ds : Nat → CallSite} (hn : 2 ≤ n)
    (hroom : needed x.handleDest.arch x.spBaseDest (frameSpan ds (n - 1)) ≤ x.spBaseDest) (hlt : x.spBaseDest < 18446744073709551616) :
    frameEnd x ds n (n - 2) + (ds (n - 1)).frameSize.toNat + needed x.handleDest.arch x.spBaseDest (frameSpan ds (n - 1)) =
      x.spBaseDest + (getProperties x.handleDest.arch).cfaOffsetFuncentry.toNat + frameSpan ds (n - 1) := by
  have htop := destTop_add hroom hlt
  have hspan : frameSpan ds (n - 1) = frameSpan ds (n - 2) + (ds (n - 1)).frameSize.toNat := by
    obtain ⟨k, rfl⟩ : ∃ k, n = k + 2 := ⟨n - 2, by omega⟩
    rfl
  unfold frameEnd
  omega

/-- Nothing is past the base, or the end of the return address into the start function is. -/
theorem overhang_cases {x : RewriteArgs} {n : Nat} {ds : Nat → CallSite} (hn : 2 ≤ n)
    (hroom : needed x.handleDest.arch x.spBaseDest (frameSpan ds (n - 1)) ≤ x.spBaseDest) (hlt : x.spBaseDest < 18446744073709551616) :
    (overhang x.handleDest.arch x.spBaseDest (frameSpan ds (n - 1)) (ds (n - 1)).frameSize.toNat = 0 ∧
        frameEnd x ds n (n - 2) ≤ x.spBaseDest) ∨
      ((getRegops x.handleDest.arch).raOff = none ∧
        overhang x.handleDest.arch x.spBaseDest (frameSpan ds (n - 1)) (ds (n - 1)).frameSize.toNat = 8 - (ds (n - 1)).frameSize.toNat ∧
        frameEnd x ds n (n - 2) + (ds (n - 1)).frameSize.toNat = x.spBaseDest + 8) := by
  have hlast := frameEnd_last hn hroom hlt
  unfold needed at hlast
  unfold overhang
  generalize x.handleDest.arch = a at hlast ⊢
  cases a with
  | x86_64 =>
    have hoff : (getProperties .x86_64).cfaOffsetFuncentry.toNat = 8 := rfl
    dsimp only at hlast ⊢
    split at hlast
    · rename_i hmoved
      exact .inl ⟨if_pos hmoved, by omega⟩
    · rename_i hmoved
      exact .inr ⟨rfl, if_neg hmoved, by omega⟩
  | aarch64 =>
    have hoff : (getProperties .aarch64).cfaOffsetFuncentry.toNat = 0 := rfl
    dsimp only at hlast
    exact .inl ⟨rfl, by omega⟩

section Writes
variable {mem : Mem} {x : RewriteArgs} {n : Nat} {sf : Nat → VFrame} {ds : Nat → CallSite} {gs : Nat → List (Group × Group)}
  {out : Rewritten} (hs : SourceStack mem x n sf ds) (hframes : ∀ k, 0 < k → k + 1 < n → FrameBody x ds n k)
  (hlist : Listed x n sf ds gs) (hroom : needed x.handleDest.arch x.spBaseDest (frameSpan ds (n - 1)) ≤ x.spBaseDest)
  (hlt : x.spBaseDest < 18446744073709551616) (h : stRewriteStack mem x = .ok (some out))

include hs hframes hlist hroom hlt h in
/-- What a rewrite has changed is in the region, or past the base. -/
theorem changed_cases {a : Nat} (ha : out.mem a ≠ mem a) :
    (∃ j : Nat, 0 < j ∧ j ≤ needed x.handleDest.arch x.spBaseDest (frameSpan ds (n - 1)) ∧ a = padd x.spBaseDest (-j)) ∨
      ∃ i < overhang x.handleDest.arch x.spBaseDest (frameSpan ds (n - 1)) (ds (n - 1)).frameSize.toNat, a = x.spBaseDest + i := by
  obtain ⟨st, hr, hmem⟩ := stRewriteStack_rewrote hframes hlist hroom hlt hs h
  have htop := destTop_add hroom hlt
  have hover := overhang_cases hs.two hroom hlt
  have hin : destTop x.handleDest.arch x.spBaseDest (frameSpan ds (n - 1)) ≤ a ∧ a < frameEnd x ds n (n - 2) := by
    by_contra hout
    rw [hmem] at ha
    exact ha (hr.outside a (by rw [show n - 1 - 1 = n - 2 by omega]; omega))
  by_cases hbase : a < x.spBaseDest
  · exact .inl ⟨x.spBaseDest - a, by omega, by omega, (padd_eq (by omega) (by omega)).symm⟩
  · exact .inr ⟨a - x.spBaseDest, by omega, by omega⟩

include hs hframes hlist hroom hlt h in
/-- Past the base is the end of the return address into the start function. -/
theorem overhang_byte {i : Nat}
    (hi : i < overhang x.handleDest.arch x.spBaseDest (frameSpan ds (n - 1)) (ds (n - 1)).frameSize.toNat) :
    out.mem (x.spBaseDest + i) = (leBytes 8 (ds (n - 1)).addr.toNat).getD ((ds (n - 1)).frameSize.toNat + i) 0 := by
  obtain ⟨st, hr, hmem⟩ := stRewriteStack_rewrote hframes hlist hroom hlt hs h
  obtain ⟨h0, -⟩ | ⟨hra, hlen, hend⟩ := overhang_cases hs.two hroom hlt
  · omega
  · have hslot := hr.slot hra ((ds (n - 1)).frameSize.toNat + i) (by omega)
    have hpos : 8 ≤ frameEnd x ds n (n - 2) := by
      unfold frameEnd
      rw [cfaOffset_of_raOff hra]
      omega
    rw [show n - 1 - 1 = n - 2 by omega,
      show frameEnd x ds n (n - 2) - 8 + ((ds (n - 1)).frameSize.toNat + i) = x.spBaseDest + i by omega] at hslot
    rw [hmem, hslot]

end Writes

/-- The bytes a rewrite of a thread's stack has changed, where the frames fit. -/
theorem rewrite_bytes {c : UserspaceCall} {b : StackBounds} {n : Nat} {sf : Nat → VFrame} {ds : Nat → CallSite}
    {gs : Nat → List (Group × Group)} {out : Rewritten} (hprod : Produced b) (hsrc : SourceStack c.mem (c.args b) n sf ds)
    (hframes : ∀ k, 0 < k → k + 1 < n → FrameBody (c.args b) ds n k) (hlist : Listed (c.args b) n sf ds gs)
    (h : stRewriteStack c.mem (c.args b) = .ok (some out))
    (hle : needed c.handleB.arch (newStack b c.sp) (frameSpan ds (n - 1)) ≤ available b c.sp) :
    (∀ a, out.mem a ≠ c.mem a →
      (∃ j : Nat, 0 < j ∧ j ≤ needed c.handleB.arch (newStack b c.sp) (frameSpan ds (n - 1)) ∧ a = padd (newStack b c.sp) (-j)) ∨
        ∃ i < overhang c.handleB.arch (newStack b c.sp) (frameSpan ds (n - 1)) (ds (n - 1)).frameSize.toNat,
          a = newStack b c.sp + i) ∧
      ∀ i < overhang c.handleB.arch (newStack b c.sp) (frameSpan ds (n - 1)) (ds (n - 1)).frameSize.toNat,
        out.mem (newStack b c.sp + i) = (leBytes 8 (ds (n - 1)).addr.toNat).getD ((ds (n - 1)).frameSize.toNat + i) 0 := by
  have hdest : (c.args b).spBaseDest = newStack b c.sp := by
    unfold UserspaceCall.args
    dsimp only
  have harch : (c.args b).handleDest.arch = c.handleB.arch := by
    unfold UserspaceCall.args
    dsimp only
  have hroom := Nat.le_trans hle (available_le b c.sp)
  have hlt := newStack_lt hprod c.sp
  rw [← harch, ← hdest] at hroom
  rw [← hdest] at hlt
  constructor
  · intro a ha
    have hcases := changed_cases hsrc hframes hlist hroom hlt h ha
    rwa [hdest, harch] at hcases
  · intro i hi
    rw [← harch, ← hdest] at hi
    have hbyte := overhang_byte hsrc hframes hlist hroom hlt h hi
    rwa [hdest] at hbyte

/-- A rewrite of a thread's stack that returns 0 stays in the stack and off the part in use
    exactly when the destination frames fit in the space below the base rewritten to, and the end
    of the last return address does no harm where it is past that base. -/
theorem rewrite_no_clobber_iff (c : UserspaceCall) (b : StackBounds) (n : Nat) (sf : Nat → VFrame) (ds : Nat → CallSite)
    (gs : Nat → List (Group × Group)) (out : Rewritten) (hb : c.bounds = some b) (hprod : Produced b)
    (hsrc : SourceStack c.mem (c.args b) n sf ds) (hframes : ∀ k, 0 < k → k + 1 < n → FrameBody (c.args b) ds n k)
    (hlist : Listed (c.args b) n sf ds gs) (h : userspaceRewriteInternal c = .ok (some out)) :
    NoClobber b c out ↔
      needed c.handleB.arch (newStack b c.sp) (frameSpan ds (n - 1)) ≤ available b c.sp ∧ OverhangSafe b c n ds := by
  unfold userspaceRewriteInternal at h
  rw [hb] at h
  dsimp only at h
  split at h
  · cases h
  split at h
  · cases h
  rename_i hsp
  obtain ⟨hs, hbase, hsmall⟩ := stRewriteStack_region hsrc h
  dsimp only [UserspaceCall.args] at hs hbase
  have hneeded := needed_bounds c.handleB.arch (newStack b c.sp) (frameSpan ds (n - 1))
  rw [not_or, Nat.not_lt, Nat.not_le] at hsp
  have hregion := region_spare_iff hsp.1 hsp.2 hprod.lt.1 (by omega) hbase hs
  have hbytes := rewrite_bytes hprod hsrc hframes hlist h
  constructor
  · intro hno
    have hle := hregion.mp fun a ha => hno a (.inl ha)
    refine ⟨hle, ?_⟩
    intro i hi
    by_cases hsame : c.mem (newStack b c.sp + i) = (leBytes 8 (ds (n - 1)).addr.toNat).getD ((ds (n - 1)).frameSize.toNat + i) 0
    · exact .inr hsame
    · refine .inl (hno _ (.inr ?_))
      rw [(hbytes hle).2 i hi]
      exact Ne.symm hsame
  · intro ⟨hle, hover⟩ a ha
    obtain ha | ha := ha
    · exact hregion.mpr hle a ha
    · obtain ⟨j, h0, hj, rfl⟩ | ⟨i, hi, rfl⟩ := (hbytes hle).1 a ha
      · apply hregion.mpr hle
        refine (inRegion_iff ?_ ?_ ?_ _).mpr ⟨j, h0, hj, by rw [hbase]⟩
        · rw [hbase]
          exact newStack_lt hprod c.sp
        · omega
        · rw [hbase]
          exact hs
      · -- a byte past the base has changed, so it did not hold the return address
        refine (hover i hi).resolve_right ?_
        intro hsame
        rw [(hbytes hle).2 i hi] at ha
        exact ha hsame.symm

/-- A thread with an 8 MiB stack at 0x8000, in its lower half, at the call site of a function
    whose caller, the start function, has a frame of `size` bytes in the destination. -/
def threadCall (size : UInt32) : UserspaceCall where
  mem := recMem 2
  sp := 0x10000
  regs := recRegs
  handleA := recHandle .start
  handleB := sizedHandle size
  tls := none
  attr := some (0x8000, 8388608)
  freshA := (recArgs .start).freshSrc
  freshB := (recArgs .start).freshDest
  foundFixup _ := false

def threadBounds : StackBounds := ⟨0x808000, 0x8000⟩

theorem threadBounds_produced : Produced threadBounds := .inr ⟨some (0x8000, 8388608), rfl⟩

theorem threadCall_args (size : UInt32) : (threadCall size).args threadBounds = sizedArgs size 0x408000 0x808000 := by
  have hcur : curStack threadBounds 0x10000 = 0x408000 := by decide
  have hnew : newStack threadBounds 0x10000 = 0x808000 := by decide
  unfold UserspaceCall.args sizedArgs
  rw [show (threadCall size).sp = 0x10000 from rfl, hcur, hnew]
  rfl

theorem threadCall_mem (size : UInt32) : (threadCall size).mem = recMem 2 := by simp only [threadCall]
theorem threadCall_bounds (size : UInt32) : (threadCall size).bounds = some threadBounds := rfl

theorem threadCall_eq (size : UInt32) :
    userspaceRewriteInternal (threadCall size) = stRewriteStack (recMem 2) (sizedArgs size 0x408000 0x808000) := by
  unfold userspaceRewriteInternal
  rw [threadCall_bounds, show (threadCall size).sp = 0x10000 from rfl, if_neg (by decide)]
  dsimp only
  rw [if_neg (by decide), threadCall_args, threadCall_mem]

/-- The call returns 0, whatever the size of the frame. -/
theorem threadCall_returns (size : UInt32) : ∃ sf ds out, SourceStack (recMem 2) (sizedArgs size 0x408000 0x808000) 2 sf ds ∧
    userspaceRewriteInternal (threadCall size) = .ok (some out) ∧ frameSpan ds (2 - 1) = size.toNat := by
  obtain ⟨sf, ds, u, hsrc, hok, hsize⟩ := sized_stack size 0x408000 0x808000 2 (by decide) (by decide)
  have hun := unwindStack_unwound hsrc hok
  have hst0 : ∃ st, rewriteOutermost (recMem 2) u.dest = .ok st := outermost_ok hun
  obtain ⟨st, hst⟩ := hst0
  have hspan : frameSpan ds (2 - 1) = size.toNat := by
    show 0 + (ds 1).frameSize.toNat = _
    rw [hsize 1 (by decide) (by decide), Nat.zero_add]
  refine ⟨sf, ds, ⟨(st.ctx.acts 0).regs, st.mem, st.ctx⟩, hsrc, ?_, hspan⟩
  have hbases : ¬ ((sizedArgs size 0x408000 0x808000).spBaseSrc = 0 ∨ (sizedArgs size 0x408000 0x808000).spBaseDest = 0) := by
    show ¬ (0x408000 = 0 ∨ 0x808000 = 0)
    decide
  rw [threadCall_eq]
  unfold stRewriteStack
  rw [if_neg hbases, hok]
  show (rewriteOutermost (recMem 2) u.dest >>= fun st => (List.range' 1 (u.src.numActs - 2)).foldlM _ st >>= _) = _
  rw [hst, hun.numActs]
  rfl

/-- The migration from x86-64 to aarch64 in the lower half of such a stack. -/
def demoCall : UserspaceCall where
  mem := demoMem
  sp := 0x10000
  regs := demoRegs
  handleA := demoSrc false
  handleB := demoDest false
  tls := some threadBounds
  attr := none
  freshA := (demoArgs false false).freshSrc
  freshB := (demoArgs false false).freshDest
  foundFixup _ := false

def demoCallArgs : RewriteArgs := { demoArgs false false with spBaseSrc := 0x408000, spBaseDest := 0x808000 }

theorem demoCall_args : demoCall.args threadBounds = demoCallArgs := by
  have hcur : curStack threadBounds 0x10000 = 0x408000 := by decide
  have hnew : newStack threadBounds 0x10000 = 0x808000 := by decide
  unfold UserspaceCall.args demoCallArgs
  rw [show demoCall.sp = 0x10000 from rfl, hcur, hnew]
  rfl

theorem demoCall_returns : ∃ out, userspaceRewriteInternal demoCall = .ok (some out) := by
  have heq : userspaceRewriteInternal demoCall = stRewriteStack demoMem demoCallArgs := by
    unfold userspaceRewriteInternal
    rw [show demoCall.bounds = some threadBounds from rfl, show demoCall.sp = 0x10000 from rfl, if_neg (by decide)]
    dsimp only
    rw [if_neg (by decide), demoCall_args]
    rfl
  rw [heq]
  apply returns_of_isSome
  decide +kernel

theorem demoCallBody (k : Nat) (h0 : 0 < k) (hk : k + 1 < 4) : FrameBody demoCallArgs demoDs 4 k := by
  obtain rfl | rfl : k = 1 ∨ k = 2 := by omega
  all_goals constructor <;> decide

theorem rewrite_no_clobber_iff_demo : ∃ out, userspaceRewriteInternal demoCall = .ok (some out) ∧ NoClobber threadBounds demoCall out := by
  obtain ⟨out, hout⟩ := demoCall_returns
  have hs := demoSourceStack false false
  have hm := demoMatched false false
  have hsrc : SourceStack demoCall.mem (demoCall.args threadBounds) 4 (demoFrame false) demoDs := by
    rw [demoCall_args]
    exact ⟨hs.two, hs.first, hs.visits, hs.start, hs.inner⟩
  have hlist : Listed (demoCall.args threadBounds) 4 (demoFrame false) demoDs (demoGroups false) := by
    rw [demoCall_args]
    exact ⟨hm.src, hm.dest, hm.numLive, hm.isPtr, hm.isAlloca⟩
  refine ⟨out, hout, (rewrite_no_clobber_iff demoCall threadBounds 4 (demoFrame false) demoDs (demoGroups false) out rfl
    threadBounds_produced hsrc (fun k h0 hk => by rw [demoCall_args]; exact demoCallBody k h0 hk) hlist hout).mpr ⟨by decide, ?_⟩⟩
  -- an aarch64 frame does not end past its base
  exact fun i hi => absurd hi (Nat.not_lt_zero i)

/-- A frame of 5 MiB: the rewrite returns 0 and its region reaches into the half in use. -/
theorem rewrite_clobbers : ∃ out, userspaceRewriteInternal (threadCall 0x500000) = .ok (some out) ∧
    Produced threadBounds ∧ (threadCall 0x500000).bounds = some threadBounds ∧ ¬ NoClobber threadBounds (threadCall 0x500000) out := by
  obtain ⟨sf, ds, out, hsrc, hout, hspan⟩ := threadCall_returns 0x500000
  refine ⟨out, hout, threadBounds_produced, threadCall_bounds _, ?_⟩
  rw [threadCall_eq] at hout
  obtain ⟨hs, hbase, -⟩ := stRewriteStack_region hsrc hout
  have hnew : newStack threadBounds 0x10000 = 0x808000 := by decide
  have harch : (sizedArgs 0x500000 0x408000 0x808000).handleDest.arch = .x86_64 := rfl
  have hdest : (sizedArgs 0x500000 0x408000 0x808000).spBaseDest = 0x808000 := rfl
  rw [hspan, harch, hdest, ← hnew] at hs
  rw [hdest, ← hnew] at hbase
  have hregion := region_spare_iff (b := threadBounds) (by decide) (by decide) (by decide) (by decide) hbase hs
  intro hno
  have hle := hregion.mp fun a ha => hno a (.inl ha)
  revert hle
  decide

/-! ## The half in use -/

/-- `get_stack_bounds`, with the stack pointer the inline assembly reads. A thread whose stack
    cannot be found gets `{NULL, NULL}`. -/
def getStackBounds (c : UserspaceCall) (sp : Nat) : StackBounds :=
  match c.bounds with
  | none => ⟨0, 0⟩
  | some b =>
    if stackB b ≤ sp then { b with low := stackB b }
    -- `cur_bounds.high = cur_bounds.low += B_STACK_OFFSET`
    else ⟨stackB b, stackB b⟩

/-- The bounds hold the stack pointer, and end at the base of the stack that a rewrite from this
    stack pointer takes as the current one. -/
def BoundsAgree (c : UserspaceCall) (b : StackBounds) : Prop :=
  ((getStackBounds c c.sp).low ≤ c.sp ∧ c.sp < (getStackBounds c c.sp).high) ∧
    (getStackBounds c c.sp).high = (c.args b).spBaseSrc

theorem stackB_eq {b : StackBounds} (h : b.low + bStackOffset < b.high) (hhigh : b.high < 18446744073709551616) :
    stackB b = b.low + bStackOffset :=
  padd_eq (by omega) (by omega)

theorem stack_bounds_agree_iff (c : UserspaceCall) (b : StackBounds) (hb : c.bounds = some b) (hhigh : b.high < 18446744073709551616)
    (hsplit : b.low + bStackOffset < b.high) (hsp : b.low ≤ c.sp ∧ c.sp < b.high) :
    BoundsAgree c b ↔ b.low + bStackOffset ≤ c.sp := by
  have hs := stackB_eq hsplit hhigh
  have hcur : (c.args b).spBaseSrc = curStack b c.sp := by
    unfold UserspaceCall.args
    dsimp only
  unfold BoundsAgree
  rw [hcur, ← hs]
  by_cases hle : stackB b ≤ c.sp
  · have hget : getStackBounds c c.sp = { b with low := stackB b } := by
      unfold getStackBounds
      rw [hb]
      exact if_pos hle
    have hbase : curStack b c.sp = b.high := if_pos hle
    rw [hget, hbase]
    exact ⟨fun _ => hle, fun _ => ⟨⟨hle, hsp.2⟩, Eq.refl _⟩⟩
  · have hget : getStackBounds c c.sp = ⟨stackB b, stackB b⟩ := by
      unfold getStackBounds
      rw [hb]
      exact if_neg hle
    rw [hget]
    exact ⟨fun h => h.1.1, fun h => absurd h hle⟩

/-- The same thread in the upper half of its stack. -/
theorem stack_bounds_agree_iff_upper : BoundsAgree { threadCall 4096 with sp := 0x500000 } threadBounds :=
  (stack_bounds_agree_iff { threadCall 4096 with sp := 0x500000 } threadBounds rfl (by decide) (by decide) (by decide)).mpr (by decide)

/-- In the lower half both ends are the split. -/
theorem stack_bounds_disagree : (threadCall 4096).bounds = some threadBounds ∧
    threadBounds.low + bStackOffset < threadBounds.high ∧
    (threadBounds.low ≤ (threadCall 4096).sp ∧ (threadCall 4096).sp < threadBounds.high) ∧
    getStackBounds (threadCall 4096) (threadCall 4096).sp = ⟨0x408000, 0x408000⟩ ∧ ¬ BoundsAgree (threadCall 4096) threadBounds := by
  have hget : getStackBounds (threadCall 4096) (threadCall 4096).sp = ⟨0x408000, 0x408000⟩ := by
    have hsplit : stackB threadBounds = 0x408000 := by decide
    unfold getStackBounds
    rw [threadCall_bounds, show (threadCall 4096).sp = 0x10000 from rfl]
    dsimp only
    rw [hsplit, if_neg (by decide)]
  refine ⟨rfl, by decide, by decide, hget, ?_⟩
  unfold BoundsAgree
  rw [hget]
  intro h
  exact absurd h.1 (by decide)

end Popcorn.Runtime
