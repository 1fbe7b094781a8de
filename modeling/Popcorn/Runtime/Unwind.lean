/-
  Popcorn.Runtime.Unwind — unwinding the source stack
  (lib/stack_transformation/src/unwind.c, and the first half of rewrite.c).

  `popFrame` copies an activation's registers to the next one and reloads those the
  frame's unwind records list; `popFrameFuncentry` is the step out of a function that has
  not set up its frame. `unwindAndSize` pops the source frames up to a start function,
  looks up each frame's call site on both sides, and lays out the destination stack.
  The loop has `MAX_FRAMES` rounds at most, as every round moves to the next entry of
  `acts`; `lookups` records the activations whose call site it looks up.
-/

import Popcorn.Runtime.Context

namespace Popcorn.Runtime

open Popcorn.Lib Popcorn.Metadata

/-! ## Frames (unwind.c) -/

/-- The bounds of a site's slice of the unwind section, in 32 bits. -/
def unwindStart (s : CallSite) : Nat := s.unwindOffset % 4294967296
def unwindEnd (s : CallSite) : Nat := (unwindStart s + s.numUnwind.toNat) % 4294967296

/-- `locs[i]`. -/
def unwindLocAt (h : Handle) (i : Nat) : Except Fault UnwindLoc :=
  match h.unwindLocs[i]? with
  | some l => .ok l
  | none => .error .outOfBounds

def setupRegset (c : Ctx) (act : Nat) : Except Fault Ctx :=
  if act < maxFrames then .ok (c.modAct act fun x => { x with regs := (c.acts (act - 1)).regs })
  else .error .outOfBounds

def setupCalleeSavedBits (c : Ctx) (act : Nat) : Ctx :=
  c.modAct act fun x => { x with calleeSaved := ⟨c.regops.numRegs, act * bitmapSize c.regops.numRegs⟩ }

/-- One round of `restore_callee_saved_regs`: reload a register of the caller and mark it
    as saved by the callee. -/
def restoreReg (mem : Mem) (h : Handle) (fbp : Nat) (saved : Bitmap) (s : RegSet × Pool) (i : Nat) :
    Except Fault (RegSet × Pool) := do
  let loc ← unwindLocAt h i
  let off ← (getRegops h.arch).reg loc.reg
  let size ← (getProperties h.arch).calleeRegSize loc.reg
  let pool ← bitmapSet (poolWords h.arch) s.2 saved loc.reg.toNat
  pure (store s.1 off (load mem (padd fbp loc.offset.toInt) size), pool)

/-- `set_pc(ra_reg)` where the return address has a register of its own. -/
def setPcFromRa (o : RegOps) (regs : RegSet) : RegSet :=
  match o.raOff with
  | some ra => o.setPc regs (rget regs ra)
  | none => regs

def restoreCalleeSavedRegs (mem : Mem) (c : Ctx) (act : Nat) : Except Fault Ctx := do
  let prev := c.acts (act - 1)
  let start := unwindStart prev.site
  let (regs, pool) ← (List.range' start (unwindEnd prev.site - start)).foldlM
    (restoreReg mem c.handle (c.regops.fbp prev.regs) prev.calleeSaved) ((c.acts act).regs, c.pool)
  pure ({ c with pool := pool }.modAct act fun x => { x with regs := setPcFromRa c.regops regs })

def calculateCfa (c : Ctx) (act : Nat) : Nat :=
  padd (c.regops.sp (c.acts act).regs) (c.acts act).site.frameSize.toNat

def setupFrameBounds (c : Ctx) (act : Nat) : Ctx :=
  let newSp := (c.acts (act - 1)).cfa
  let c := c.modAct act fun x => { x with regs := c.regops.setSp x.regs newSp }
  let cfa := calculateCfa c act
  c.modAct act fun x => { x with cfa := cfa, regs := c.regops.setupFbp x.regs cfa }

/-- The thread start functions of musl that LibcStackMaps.cpp tags (`funcs`). -/
inductive StartFunction where
  | libcStartMain
  | start
  | startC11
  deriving DecidableEq, Repr

/-- `LibcStackMaps::smids`. -/
def smids : StartFunction → UInt64
  | .libcStartMain => uint64Max
  | .start => uint64Max - 1
  | .startC11 => uint64Max - 2

/-- Whether a call site record is for a starting function. -/
def firstFrame (id : UInt64) : Bool := id == uint64Max || id == uint64Max - 1

def bootstrapFirstFrame (c : Ctx) : Ctx :=
  let c := setupCalleeSavedBits c c.act
  c.modAct c.act fun x => { x with cfa := calculateCfa c c.act }

def bootstrapFirstFrameFuncentry (c : Ctx) : Ctx :=
  let c := setupCalleeSavedBits c c.act
  c.modAct c.act fun x => { x with cfa := padd (c.regops.sp x.regs) c.props.cfaOffsetFuncentry }

def popFrame (mem : Mem) (c : Ctx) (setupBounds : Bool) : Except Fault Ctx := do
  let next := c.act + 1
  let c ← setupRegset c next
  let c := setupCalleeSavedBits c next
  let c ← restoreCalleeSavedRegs mem c next
  let c :=
    if setupBounds then setupFrameBounds c next
    else c.modAct next fun x => { x with regs := c.regops.setSp x.regs c.cur.cfa }
  pure { c with act := c.act + 1 }

/-- The return address of a function that has not set up its frame. -/
def entryRa (mem : Mem) (o : RegOps) (regs : RegSet) : Nat :=
  match o.raOff with
  | some ra => rget regs ra
  | none => readLe 8 mem (o.sp regs)

/-- `pop_frame_funcentry` once the next activation is set up. -/
def enterCaller (mem : Mem) (c : Ctx) (next : Nat) : Ctx :=
  let c := c.modAct next fun x => { x with regs := c.regops.setPc x.regs (entryRa mem c.regops c.cur.regs) }
  let c := setupFrameBounds c next
  -- the caller's FBP is not on the stack yet
  let fbp := c.regops.fbp (c.acts next).regs
  let c := c.modAct c.act fun x => { x with regs := c.regops.setFbp x.regs fbp }
  { c with act := c.act + 1 }

def popFrameFuncentry (mem : Mem) (c : Ctx) : Except Fault Ctx := do
  let next := c.act + 1
  let c ← setupRegset c next
  pure (enterCaller mem (setupCalleeSavedBits c next) next)

/-- The loop of `get_register_save_loc` over the records with these indices. -/
def saveLocLoop (h : Handle) (fbp : Nat) (r : UInt16) : List Nat → Except Fault Nat
  | [] => .ok 0
  | i :: is => do
    let loc ← unwindLocAt h i
    if loc.reg = r then pure (padd fbp loc.offset.toInt) else saveLocLoop h fbp r is

/-- Where the activation's first record for the register stores it; NULL if there is none. -/
def getRegisterSaveLoc (c : Ctx) (act : Activation) (r : UInt16) : Except Fault Nat :=
  let start := unwindStart act.site
  saveLocLoop c.handle (c.regops.fbp act.regs) r (List.range' start (unwindEnd act.site - start))

/-! ## Contexts and the source pass (rewrite.c) -/

/-- What `malloc` leaves in a new context: its activations and its bitmap pool. The first
    register set of the destination is the one of `acts 0`. -/
structure Fresh where
  acts : Nat → Activation
  pool : Pool

def initSrcContext (h : Handle) (regset : RegSet) (spBase : Nat) (fresh : Fresh) : Except Fault Ctx :=
  let c : Ctx := ⟨h, spBase, (getRegops h.arch).sp regset, 0, 0, fresh.acts, [], fresh.pool⟩
  let c := c.modAct 0 fun x => { x with regs := regset }
  let pc := c.regops.pc regset
  match getSiteByAddr h (UInt64.ofNat pc) with
  | none => .error (.stErr 1 "could not get source call site information for outermost frame (address=%p)\n" [pc])
  | some site => .ok (bootstrapFirstFrame (c.modAct 0 fun x => { x with site := site }))

def initDestContext (h : Handle) (spBase pc : Nat) (fresh : Fresh) : Ctx :=
  let c : Ctx := ⟨h, spBase, 0, 0, 0, fresh.acts, [], fresh.pool⟩
  c.modAct 0 fun x => { x with regs := c.regops.setPc x.regs pc, site := emptyCallSite }

structure Unwinding where
  src : Ctx
  dest : Ctx
  stackSize : Nat
  lookups : List Nat

/-- The updates of a round that has popped a frame and found its call site on both sides. -/
def foundSites (u : Unwinding) (src : Ctx) (site siteDest : CallSite) : Unwinding :=
  let src := { src with numActs := src.numActs + 1 }.modAct src.act fun x => { x with site := site }
  let src := src.modAct src.act fun x => { x with cfa := calculateCfa src src.act }
  let act := u.dest.act + 1
  let dest := { u.dest with numActs := u.dest.numActs + 1, act := act }.modAct act fun x => { x with site := siteDest }
  ⟨src, dest, u.stackSize + siteDest.frameSize.toNat, u.lookups ++ [src.act]⟩

/-- One round of the loop of `unwind_and_size`. -/
def unwindStep (mem : Mem) (u : Unwinding) : Except Fault Unwinding := do
  let src ← popFrame mem u.src false
  let pc := src.regops.pc src.cur.regs
  match getSiteByAddr src.handle (UInt64.ofNat pc) with
  | none => .error (.stErr 1 "could not get source call site information (address=%p)\n" [pc])
  | some site =>
    match getSiteById u.dest.handle site.id with
    | none =>
      .error (.stErr 1 "could not get destination call site information (address=%p, ID=%ld)\n" [pc, site.id.toNat])
    | some siteDest => pure (foundSites u src site siteDest)

def unwindLoop (mem : Mem) : Nat → Unwinding → Except Fault Unwinding
  | 0, _ => .error .outOfBounds
  | fuel + 1, u => do
    let u ← unwindStep mem u
    if firstFrame u.src.cur.site.id then pure u else unwindLoop mem fuel u

/-- `memset` of the destination's bitmaps: `bitmap_size(num_regs) * num_acts` bytes. -/
def clearBitmaps (c : Ctx) : Ctx :=
  { c with pool := fun w => if 8 * w < bitmapSize c.regops.numRegs * c.numActs then 0 else c.pool w }

/-- The destination's part of the end of `unwind_and_size`. -/
def layoutDest (dest : Ctx) (stackSize : Nat) : Except Fault Ctx := do
  let stack := padd dest.stackBase (-stackSize)
  let stack ← if dest.props.spNeedsAlign then dest.props.alignSp stack else pure stack
  let dest := { dest with stack := stack }.modAct dest.act fun x => { x with regs := dest.regops.setSp x.regs stack }
  pure (bootstrapFirstFrameFuncentry (clearBitmaps dest))

/-- Unwind the source stack and size the destination stack. -/
def unwindAndSize (mem : Mem) (src dest : Ctx) : Except Fault Unwinding := do
  let u ← unwindLoop mem maxFrames ⟨src, dest, 0, []⟩
  -- one more frame for the starting function
  let src ← popFrame mem u.src false
  let src := { src with numActs := src.numActs + 1, act := 0 }
  let dest ← layoutDest { u.dest with numActs := u.dest.numActs + 1, act := 0 } u.stackSize
  pure { u with src := src, dest := dest }

/-- The arguments of `st_rewrite_stack`, with what `malloc` returns in its two contexts. -/
structure RewriteArgs where
  handleSrc : Handle
  regsetSrc : RegSet
  spBaseSrc : Nat
  freshSrc : Fresh
  handleDest : Handle
  spBaseDest : Nat
  freshDest : Fresh
  /-- What the uninitialised local `found_fixup` holds when frame `k` is fixed up. -/
  foundFixup : Nat → Bool

/-- `st_rewrite_stack` up to the end of `unwind_and_size`. -/
def unwindStack (mem : Mem) (x : RewriteArgs) : Except Fault Unwinding := do
  let src ← initSrcContext x.handleSrc x.regsetSrc x.spBaseSrc x.freshSrc
  -- the destination enters the function of the source's innermost frame
  let fn := getFunctionAddress x.handleSrc (UInt64.ofNat (src.regops.pc src.cur.regs))
  unwindAndSize mem src (initDestContext x.handleDest x.spBaseDest fn.toNat x.freshDest)

end Popcorn.Runtime
