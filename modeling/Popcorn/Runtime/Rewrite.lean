/-
  Popcorn.Runtime.Rewrite — rewriting the stack, frame by frame
  (lib/stack_transformation/src/rewrite.c).

  `rewriteVal` copies one live value or queues a fixup for a pointer into the stack;
  `rewriteFrame` walks the live values of a frame, where the records of one value are a
  first record and the duplicates after it; `fixupLocalPointers` resolves the fixups that
  point into the frame itself; `stRewriteStack` is the whole rewrite. The live values are
  read in place, one record past the slice included; a read further past the end of the
  section is a fault.
-/

import Popcorn.Runtime.Data

namespace Popcorn.Runtime

open Popcorn.Lib Popcorn.Metadata

/-! ## Values -/

/-- `va_list` has another size on each architecture and is skipped. -/
def skipVaList (v w : LiveValue) : Bool :=
  (v.isAlloca && v.valSize == 24 && w.isAlloca && w.valSize == 32) ||
    (v.isAlloca && v.valSize == 32 && w.isAlloca && w.valSize == 24)

def Dst.setFixups (st : Dst) (fs : List Fixup) : Dst := { st with ctx := { st.ctx with stackPointers := fs } }

/-- The first half of `rewrite_val`: queue a fixup for a pointer into this frame or a caller's,
    or copy the value. Returns whether the fixup is within this frame. -/
def fixupOrPut (src : Ctx) (i : Nat) (st : Dst) (w : LiveValue) : Except Fault (Bool × Dst) := do
  let addr ← pointsToStack src st.mem (src.handle.liveVals i)
  if addr ≠ 0 then
    if src.act = 0 ∨ (src.acts (src.act - 1)).cfa ≤ addr then
      pure (decide (addr < src.cur.cfa), st.setFixups (st.ctx.stackPointers ++ [⟨addr, st.ctx.act, w⟩]))
    else pure (false, st)
  else do
    let st ← putVal src i st w
    pure (false, st)

/-- The walk over the fixups at an alloca: those that point to it are written and removed. -/
def resolveFixups (src : Ctx) (v w : LiveValue) : List Fixup → Dst → Except Fault (List Fixup × Dst)
  | [], st => .ok ([], st)
  | f :: fs, st => do
    let addr ← pointsToData src v st.ctx w f.srcAddr
    if addr ≠ 0 then
      let st ← putValData st f.destLoc f.act addr
      resolveFixups src v w fs st
    else
      let (kept, st) ← resolveFixups src v w fs st
      pure (f :: kept, st)

/-- `rewrite_val`: rewrite the source record `i` to the destination record `w`. -/
def rewriteVal (src : Ctx) (i : Nat) (st : Dst) (w : LiveValue) : Except Fault (Bool × Dst) :=
  let v := src.handle.liveVals i
  if skipVaList v w then .ok (false, st)
  else do
    let (needs, st) ← fixupOrPut src i st w
    if v.isAlloca then
      let (kept, st) ← resolveFixups src v w st.ctx.stackPointers st
      pure (needs, st.setFixups kept)
    else pure (needs, st)

/-! ## Records of one value -/

/-- `live_vals[i]`. -/
def liveValAt (h : Handle) (i : Nat) : Except Fault LiveValue :=
  if i ≤ h.liveValsCount then .ok (h.liveVals i) else .error .outOfBounds

/-- `while(live_vals[i + 1].is_duplicate) i++`. -/
def skipDuplicates (h : Handle) : Nat → Nat → Except Fault Nat
  | 0, _ => .error .outOfBounds
  | fuel + 1, i => do
    let v ← liveValAt h (i + 1)
    if v.isDuplicate then skipDuplicates h fuel (i + 1) else pure i

/-- Every round reads the next record of the section. -/
def sectionFuel (h : Handle) : Nat := h.liveValsCount + 2

/-! ## Fixups within a frame -/

/-- The search of `fixup_local_pointers` for the alloca a pointer is into: from source record
    `i` and destination record `j` on. Returns its destination address, or NULL. -/
def localSearch (src dest : Ctx) (ptr : Nat) : Nat → Nat → Nat → Except Fault Nat
  | 0, _, _ => .ok 0
  | fuel + 1, i, j =>
    if j < dest.cur.site.liveOffset + dest.cur.site.numLive.toNat then do
      let v ← liveValAt src.handle i
      let w ← liveValAt dest.handle j
      let i' ← skipDuplicates src.handle (sectionFuel src.handle) i
      let j' ← skipDuplicates dest.handle (sectionFuel dest.handle) j
      if v.isAlloca && w.isAlloca then
        let addr ← pointsToData src v dest w ptr
        if addr ≠ 0 then pure addr else localSearch src dest ptr fuel (i' + 1) (j' + 1)
      else localSearch src dest ptr fuel (i' + 1) (j' + 1)
    else .ok 0

/-- The walk of `fixup_local_pointers` over the fixups. `found` is `found_fixup`, which is
    not reset at a fixup outside the frame: after one that was resolved, the walk stays at it
    for ever. -/
def fixupLoop (src : Ctx) : Bool → List Fixup → List Fixup → Dst → Except Fault Dst
  | _, kept, [], st => .ok (st.setFixups kept)
  | found, kept, f :: fs, st =>
    if f.srcAddr ≤ src.cur.cfa then
      if f.act ≠ src.act then fixupLoop src found (kept ++ [f]) fs st
      else do
        let addr ← localSearch src st.ctx f.srcAddr st.ctx.cur.site.numLive.toNat src.cur.site.liveOffset
          st.ctx.cur.site.liveOffset
        if addr ≠ 0 then
          let st ← putValData st f.destLoc f.act addr
          fixupLoop src true kept fs st
        else fixupLoop src false (kept ++ [f]) fs st
    else if found then .error .hang
    else fixupLoop src found (kept ++ [f]) fs st

def fixupLocalPointers (src : Ctx) (found : Bool) (st : Dst) : Except Fault Dst :=
  fixupLoop src found [] st.ctx.stackPointers st

/-! ## Frames -/

/-- `while(live_vals[j + 1].is_duplicate)`: apply to all duplicate location records. -/
def rewriteDuplicates (src : Ctx) (i : Nat) : Nat → Nat → Bool × Dst → Except Fault (Nat × Bool × Dst)
  | 0, _, _ => .error .outOfBounds
  | fuel + 1, j, (needs, st) => do
    let w ← liveValAt st.ctx.handle (j + 1)
    if w.isDuplicate then
      let (b, st) ← rewriteVal src i st w
      rewriteDuplicates src i fuel (j + 1) (needs || b, st)
    else pure (j, needs, st)

/-- The live values of a frame, from source record `i` and destination record `j` on. -/
def rewriteVals (src : Ctx) : Nat → Nat → Nat → Bool × Dst → Except Fault (Bool × Dst)
  | 0, _, _, s => .ok s
  | fuel + 1, i, j, (needs, st) =>
    if j < st.ctx.cur.site.liveOffset + st.ctx.cur.site.numLive.toNat then do
      let _ ← liveValAt src.handle i
      let w ← liveValAt st.ctx.handle j
      let (b, st) ← rewriteVal src i st w
      let (j', s) ← rewriteDuplicates src i (sectionFuel st.ctx.handle) j (needs || b, st)
      let i' ← skipDuplicates src.handle (sectionFuel src.handle) i
      rewriteVals src fuel (i' + 1) (j' + 1) s
    else .ok (needs, st)

def rewriteArchVal (st : Dst) (i : Nat) : Except Fault Dst :=
  match st.ctx.handle.archLiveVals[i]? with
  | some v => putValArch st v
  | none => .error .outOfBounds

def rewriteFrame (src : Ctx) (found : Bool) (st : Dst) : Except Fault Dst := do
  let site := st.ctx.cur.site
  let (needs, st) ← rewriteVals src site.numLive.toNat src.cur.site.liveOffset site.liveOffset (false, st)
  let st ← (List.range' site.archLiveOffset site.numArchLive.toNat).foldlM rewriteArchVal st
  if needs then fixupLocalPointers src found st else pure st

/-- One round of the loop of `st_rewrite_stack`, for the current frame of `src`. -/
def rewriteStep (src : Ctx) (found : Bool) (st : Dst) : Except Fault Dst := do
  let st := setReturnAddress st (st.ctx.acts (st.ctx.act + 1)).site.addr.toNat
  let st ← rewriteFrame src found st
  let savedFbp := getSavedfbpLoc st.ctx
  let ctx ← popFrame st.mem st.ctx true
  pure (writeLoc ⟨ctx, st.mem⟩ (.mem savedFbp) (leBytes 8 (ctx.regops.fbp ctx.cur.regs)))

/-! ## The stack -/

/-- The result of a rewrite: the register set copied out, the memory, and the destination
    context at the end. -/
structure Rewritten where
  regs : RegSet
  mem : Mem
  dest : Ctx

/-- The outermost frame, which the destination has not set up. -/
def rewriteOutermost (mem : Mem) (dest : Ctx) : Except Fault Dst := do
  let st := setReturnAddressFuncentry ⟨dest, mem⟩ (dest.acts (dest.act + 1)).site.addr.toNat
  let ctx ← popFrameFuncentry st.mem st.ctx
  pure ⟨ctx, st.mem⟩

/-- `st_rewrite_stack`; `none` is a return of 1 for invalid arguments. -/
def stRewriteStack (mem : Mem) (x : RewriteArgs) : Except Fault (Option Rewritten) :=
  if x.spBaseSrc = 0 ∨ x.spBaseDest = 0 then .ok none
  else do
    let u ← unwindStack mem x
    let st ← rewriteOutermost mem u.dest
    -- no need to rewrite the start function
    let st ← (List.range' 1 (u.src.numActs - 2)).foldlM
      (fun st k => rewriteStep { u.src with act := k } (x.foundFixup k) st) st
    pure (some ⟨(st.ctx.acts 0).regs, st.mem, st.ctx⟩)

end Popcorn.Runtime
