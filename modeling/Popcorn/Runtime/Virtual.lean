/-
  Popcorn.Runtime.Virtual — virtual unwinding, and the call chains it inverts.

  A virtual frame is a call site, the registers at its call and its CFA. `vnext` is the
  step to the caller by the metadata alone: every register the site's unwind records list
  is read from its slot, the SP is the CFA, and the call site is the one of the new PC.
  `Chain` is a stack as the metadata describes it, frame by frame, with the values the
  registers held at each call. `Popcorn.Runtime.SourcePass` shows that the runtime's source
  pass takes these steps.

  Proved: `Chain.visits`: virtual unwinding visits the frames of a chain, in their order.
-/

import Popcorn.Runtime.Frames

namespace Popcorn.Runtime

open Popcorn.Lib Popcorn.Metadata

/-! ## Virtual frames -/

structure VFrame where
  site : CallSite
  regs : RegSet
  cfa : Nat

/-- The registers of a frame's caller at its call. -/
def vcaller (mem : Mem) (h : Handle) (f : VFrame) : RegSet :=
  (getRegops h.arch).setSp (callerRegs mem h f.site f.regs) f.cfa

/-- The frame a register set is in, by its PC. -/
def vframe (h : Handle) (regs : RegSet) : Option VFrame :=
  (getSiteByAddr h (UInt64.ofNat ((getRegops h.arch).pc regs))).map fun site =>
    ⟨site, regs, padd ((getRegops h.arch).sp regs) site.frameSize.toNat⟩

def vnext (mem : Mem) (h : Handle) (f : VFrame) : Option VFrame := vframe h (vcaller mem h f)

/-- The `k`th frame up the stack from `f`. -/
def vchain (mem : Mem) (h : Handle) (f : VFrame) : Nat → Option VFrame
  | 0 => some f
  | k + 1 => (vchain mem h f k).bind (vnext mem h)

/-- The frames `sf` of a stack by virtual unwinding from `sf 0`, and their call sites `ds` in
    another binary. -/
structure Visits (mem : Mem) (hs hd : Handle) (n : Nat) (sf : Nat → VFrame) (ds : Nat → CallSite) : Prop where
  next : ∀ k, k + 1 < n → vnext mem hs (sf k) = some (sf (k + 1))
  dest : ∀ k, 0 < k → k < n → getSiteById hd (sf k).site.id = some (ds k)

/-! ## Call chains -/

/-- A frame of a running program: its call site, its bounds, and the PC and callee-saved
    registers at the moment of its call. -/
structure Frame where
  site : CallSite
  sp : Nat
  cfa : Nat
  pc : Nat
  val : UInt16 → Nat

/-- The register set `regs` is that of the frame at its call. -/
structure Holds (a : Arch) (regs : RegSet) (g : Frame) : Prop where
  sp : (getRegops a).sp regs = g.sp
  pc : (getRegops a).pc regs = g.pc
  val : ∀ r, isCalleeSaved a r = true → rget regs (regOff a r) = g.val r

/-- A stack of `n` frames laid out as the source metadata `hs` describes, innermost first,
    up to a start function. -/
structure Chain (hs hd : Handle) (mem : Mem) (n : Nat) (fr : Nat → Frame) : Prop where
  pos : 0 < n
  site : ∀ k < n, getSiteByAddr hs (UInt64.ofNat (fr k).pc) = some (fr k).site
  dest : ∀ k, 0 < k → k < n → ∃ s, getSiteById hd (fr k).site.id = some s
  /-- Each frame spans its site's `frame_size`, and starts where its callee's ends. -/
  span : ∀ k < n, (fr k).cfa = (fr k).sp + (fr k).site.frameSize.toNat ∧ (fr k).cfa < 18446744073709551616
  next : ∀ k, k + 1 < n → (fr (k + 1)).sp = (fr k).cfa
  fbp : ∀ k < n, (fr k).val (fbpReg hs.arch) = padd (fr k).cfa (-0x10)
  ra : ∀ k, 0 < k → k < n → (fr k).val (raReg hs.arch) = (fr k).pc
  /-- The slices of the unwind section, whose offsets have 32 bits. -/
  slice : ∀ k < n, (fr k).site.unwindOffset + (fr k).site.numUnwind.toNat ≤ hs.unwindLocs.length
  offsets : hs.unwindLocs.length < 4294967296
  calleeSaved : ∀ k < n, ∀ l ∈ unwindRecords hs (fr k).site, isCalleeSaved hs.arch l.reg = true
  listsFbp : ∀ k < n, ∃ l ∈ unwindRecords hs (fr k).site, l.reg = fbpReg hs.arch
  listsRa : ∀ k < n, ∃ l ∈ unwindRecords hs (fr k).site, l.reg = raReg hs.arch
  /-- A listed register is stored at the FBP plus the record's offset... -/
  saved : ∀ k, k + 1 < n → ∀ l ∈ unwindRecords hs (fr k).site,
    readLe 8 mem (padd ((fr k).val (fbpReg hs.arch)) l.offset.toInt) = (fr (k + 1)).val l.reg
  /-- ... and the function leaves the others unchanged. -/
  kept : ∀ k, k + 1 < n → ∀ r, isCalleeSaved hs.arch r = true → (∀ l ∈ unwindRecords hs (fr k).site, l.reg ≠ r) →
    (fr (k + 1)).val r = (fr k).val r
  /-- Only the last frame is a start function's. -/
  start : reservedId (fr (n - 1)).site.id = true
  inner : ∀ k, k + 1 < n → reservedId (fr k).site.id = false

/-- The virtual frame is the chain's. -/
structure Matches (a : Arch) (f : VFrame) (g : Frame) : Prop where
  site : f.site = g.site
  cfa : f.cfa = g.cfa
  holds : Holds a f.regs g

section
variable {hs hd : Handle} {mem : Mem} {n : Nat} {fr : Nat → Frame}

theorem fbp_eq_rget (a : Arch) (regs : RegSet) : (getRegops a).fbp regs = rget regs (regOff a (fbpReg a)) := by
  rw [regOff_eq (reg_fbp a)]
  rfl

/-- The caller's registers, by the metadata, are the next frame's of the chain. -/
theorem Chain.vcaller_holds (hc : Chain hs hd mem n fr) {k : Nat} (hk : k + 1 < n) {f : VFrame}
    (hf : Matches hs.arch f (fr k)) : Holds hs.arch (vcaller mem hs f) (fr (k + 1)) := by
  have hrecs := hc.calleeSaved k (by omega)
  have hfbp : (getRegops hs.arch).fbp f.regs = (fr k).val (fbpReg hs.arch) := by
    rw [fbp_eq_rget]
    exact hf.holds.val _ (fbpReg_calleeSaved _)
  have hval : ∀ r, isCalleeSaved hs.arch r = true →
      rget (reload mem hs.arch ((getRegops hs.arch).fbp f.regs) (unwindRecords hs f.site) f.regs) (regOff hs.arch r) =
        (fr (k + 1)).val r := by
    intro r hr
    rw [hf.site, hfbp]
    apply rget_reload hrecs hr
    · intro l hl hlr
      rw [hc.saved k hk l hl, hlr]
    · intro hne
      rw [hf.holds.val r hr]
      exact (hc.kept k hk r hr hne).symm
  refine ⟨?_, ?_, ?_⟩
  · unfold vcaller
    rw [sp_setSp _ _ (by rw [hf.cfa]; exact (hc.span k (by omega)).2), hf.cfa]
    exact (hc.next k hk).symm
  · unfold vcaller callerRegs
    rw [pc_setSp, pc_setPcFromRa, hval _ (raReg_calleeSaved _)]
    exact hc.ra (k + 1) (by omega) hk
  · intro r hr
    have ho := (calleeSaved_cases hr).1
    have hsp : r ≠ spReg hs.arch := by
      intro e
      rw [e, spReg_not_calleeSaved] at hr
      cases hr
    unfold vcaller callerRegs
    rw [rget_setSp ho hsp, rget_setPcFromRa ho]
    exact hval r hr

theorem Chain.vframe_matches (hc : Chain hs hd mem n fr) {k : Nat} (hk : k < n) {regs : RegSet}
    (hr : Holds hs.arch regs (fr k)) : vframe hs regs = some ⟨(fr k).site, regs, (fr k).cfa⟩ := by
  have hp := hc.span k hk
  unfold vframe
  rw [hr.pc, hc.site k hk, hr.sp]
  simp only [Option.map_some, Option.some.injEq, VFrame.mk.injEq, true_and]
  apply padd_eq hp.2
  omega

/-- The step from a frame of the chain is to the next one. -/
theorem Chain.vnext_matches (hc : Chain hs hd mem n fr) {k : Nat} (hk : k + 1 < n) {f : VFrame}
    (hf : Matches hs.arch f (fr k)) : ∃ f', vnext mem hs f = some f' ∧ f'.regs = vcaller mem hs f ∧ Matches hs.arch f' (fr (k + 1)) := by
  have hh := hc.vcaller_holds hk hf
  exact ⟨_, hc.vframe_matches hk hh, rfl, rfl, rfl, hh⟩

theorem Chain.vchain_matches (hc : Chain hs hd mem n fr) {f : VFrame} (hf : Matches hs.arch f (fr 0)) (k : Nat) (hk : k < n) :
    ∃ f', vchain mem hs f k = some f' ∧ Matches hs.arch f' (fr k) := by
  induction k with
  | zero => exact ⟨f, rfl, hf⟩
  | succ k ih =>
    obtain ⟨g, hg, hm⟩ := ih (by omega)
    obtain ⟨g', hg', -, hm'⟩ := hc.vnext_matches hk hm
    refine ⟨g', ?_, hm'⟩
    unfold vchain
    rw [hg]
    exact hg'

/-- Virtual unwinding visits the frames of a chain. -/
theorem Chain.visits (hc : Chain hs hd mem n fr) {f : VFrame} (hf : Matches hs.arch f (fr 0)) :
    ∃ sf ds, sf 0 = f ∧ Visits mem hs hd n sf ds ∧ ∀ k < n, Matches hs.arch (sf k) (fr k) := by
  have hv := hc.vchain_matches hf
  have hsf : ∀ k < n, vchain mem hs f k = some ((vchain mem hs f k).getD f) := by
    intro k hk
    obtain ⟨g, hg, -⟩ := hv k hk
    rw [hg]
    rfl
  have hm : ∀ k < n, Matches hs.arch ((vchain mem hs f k).getD f) (fr k) := by
    intro k hk
    obtain ⟨g, hg, hm⟩ := hv k hk
    rw [hg]
    exact hm
  refine ⟨fun k => (vchain mem hs f k).getD f, fun k => (getSiteById hd ((vchain mem hs f k).getD f).site.id).getD emptyCallSite,
    rfl, ⟨?_, ?_⟩, hm⟩
  · intro k hk
    rw [← hsf (k + 1) hk]
    show vnext mem hs ((vchain mem hs f k).getD f) = (vchain mem hs f k).bind (vnext mem hs)
    rw [hsf k (by omega)]
    rfl
  · intro k h0 hk
    obtain ⟨s, hs'⟩ := hc.dest k h0 hk
    rw [(hm k hk).site, hs']
    rfl

end

end Popcorn.Runtime
