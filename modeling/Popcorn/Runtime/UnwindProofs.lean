/-
  Popcorn.Runtime.UnwindProofs — the source pass inverts call chains.

  A call chain (`Chain`) can be unwound by the metadata alone; the source pass follows as
  long as each frame can be popped, which needs its callee-saved bitmap to lie in the pool.

  Proved:
  - `unwind_inverts_chain_iff`: on a call chain of any depth, the source pass recovers
    every frame and stops at the start function exactly when there are 2 to 64 frames and
    `first_frame` knows the start function's ID.
  - `unwind_stops_at_start_iff`: the same for the activations it looks up.
-/

import Popcorn.Runtime.SourcePass

namespace Popcorn.Runtime

open Popcorn.Lib Popcorn.Metadata

/-! ## Call chains -/

/-- The pass ends at the last frame of the chain, with every frame as it was at its call. -/
structure Recovers (a : Arch) (n : Nat) (fr : Nat → Frame) (u : Unwinding) : Prop where
  numActs : u.src.numActs = n
  frames : ∀ k < n, Matches a (u.src.acts k).view (fr k)

theorem firstFrame_reserved {id : UInt64} (h : reservedId id = false) : firstFrame id = false := by
  unfold reservedId at h
  unfold firstFrame
  simp only [Bool.or_eq_false_iff] at h ⊢
  exact h.1

section
variable {mem : Mem} {x : RewriteArgs} {n : Nat} {fr : Nat → Frame}

/-- A chain's frame can be popped exactly when its bitmap lies in the pool, which has room
    for 64 bitmaps. -/
theorem Chain.canPop_iff (hc : Chain x.handleSrc x.handleDest mem n fr) {sf : Nat → VFrame} {ds : Nat → CallSite} {f : VFrame}
    (hm : ∀ k < n, Matches x.handleSrc.arch (sf k) (fr k)) {k : Nat} {u : Unwinding} (hr : Reached sf ds (x.init f) k u)
    (hk : k < n) : CanPop u.src ↔ k < 64 := by
  have hsite : u.src.cur.site = (fr k).site := hr.cur_site.trans (hm k hk).site
  have hhandle : u.src.handle = x.handleSrc := hr.srcHandle
  have hbits : u.src.cur.calleeSaved.bits = k * 16 := by
    unfold Ctx.cur
    rw [hr.act]
    exact hr.bits k (Nat.le_refl k)
  constructor
  · intro hp
    obtain ⟨l, hl, -⟩ := hc.listsFbp k hk
    have hm := hp.markable l (by rw [hhandle, hsite]; exact hl)
    rw [hbits, poolWords_eq] at hm
    omega
  · intro hlt
    refine ⟨?_, ?_, ?_⟩
    · rw [hr.act]
      show k + 1 < 512
      omega
    · have h1 := hc.slice k hk
      have h2 := hc.offsets
      rw [hhandle, hsite]
      unfold unwindEnd unwindStart
      omega
    · intro l hl
      rw [hhandle, hsite] at hl
      have hcs := hc.calleeSaved k hk l hl
      have := (calleeSaved_cases hcs).2.2.2
      rw [hhandle, hbits, poolWords_eq]
      exact ⟨hcs, by omega⟩

/-- What virtual unwinding from the source's register set finds on a chain. -/
theorem Chain.start_visits (hc : Chain x.handleSrc x.handleDest mem n fr) (hh : Holds x.handleSrc.arch x.regsetSrc (fr 0)) :
    ∃ f sf ds, vframe x.handleSrc x.regsetSrc = some f ∧ sf 0 = f ∧ Visits mem x.handleSrc x.handleDest n sf ds ∧
      (∀ k < n, Matches x.handleSrc.arch (sf k) (fr k)) ∧ ∀ k, 0 < k → k + 1 < n → firstFrame (sf k).site.id = false := by
  have hf := hc.vframe_matches hc.pos hh
  have hm0 : Matches x.handleSrc.arch ⟨(fr 0).site, x.regsetSrc, (fr 0).cfa⟩ (fr 0) := ⟨rfl, rfl, hh⟩
  obtain ⟨sf, ds, h0, hv, hm⟩ := hc.visits hm0
  refine ⟨_, sf, ds, hf, h0, hv, hm, ?_⟩
  intro k _ hk
  rw [(hm k (by omega)).site]
  exact firstFrame_reserved (hc.inner k hk)

/-- A chain that ends in a start function `first_frame` knows is a source stack of the rewrite. -/
theorem Chain.sourceStack (hc : Chain x.handleSrc x.handleDest mem n fr) (hh : Holds x.handleSrc.arch x.regsetSrc (fr 0))
    (h2 : 2 ≤ n) (hlast : firstFrame (fr (n - 1)).site.id = true) : ∃ sf ds, SourceStack mem x n sf ds := by
  obtain ⟨f, sf, ds, hf, h0, hv, hm, hinner⟩ := hc.start_visits hh
  refine ⟨sf, ds, h2, ?_, hv, ?_, hinner⟩
  · rw [h0]
    exact hf
  · rw [(hm (n - 1) (by omega)).site]
    exact hlast

theorem unwindStack_recovers (hc : Chain x.handleSrc x.handleDest mem n fr) (hh : Holds x.handleSrc.arch x.regsetSrc (fr 0))
    (h2 : 2 ≤ n) (hn : n ≤ 64) (hlast : firstFrame (fr (n - 1)).site.id = true) :
    ∃ u, unwindStack mem x = .ok u ∧ Recovers x.handleSrc.arch n fr u ∧ u.lookups = List.range' 1 (n - 1) := by
  obtain ⟨f, sf, ds, hf, h0, hv, hm, hinner⟩ := hc.start_visits hh
  have hpop : ∀ k u, k < n → Reached sf ds (x.init f) k u → CanPop u.src := by
    intro k u hk hr
    exact (hc.canPop_iff hm hr hk).mpr (by omega)
  have hmax : n ≤ 0 + 1 + maxFrames := by
    show n ≤ 513
    omega
  rw [← (hm (n - 1) (by omega)).site] at hlast
  obtain ⟨v, hloop, hr⟩ :=
    Reached.loop_ok hv hpop hlast hinner maxFrames 0 _ (x.reached_init ds h0) (by omega) hmax
  refine ⟨_, unwindStack_ok_iff.mpr ⟨f, hf, unwindAndSize_ok_iff.mpr ⟨v, hloop, hpop _ v (by omega) hr, rfl⟩⟩, ⟨?_, ?_⟩,
    hr.lookups⟩
  · show v.src.numActs + 1 = n
    rw [hr.numActs]
    omega
  · intro k hk
    show Matches _ ((popped mem v.src false).acts k).view _
    rw [popped_acts_ne _ _ _ (by rw [hr.act]; omega), hr.frames k (by omega)]
    exact hm k hk

theorem unwindStack_bounds (hc : Chain x.handleSrc x.handleDest mem n fr) (hh : Holds x.handleSrc.arch x.regsetSrc (fr 0))
    {u : Unwinding} (h : unwindStack mem x = .ok u) (hnum : u.src.numActs = n) :
    2 ≤ n ∧ n ≤ 64 ∧ firstFrame (fr (n - 1)).site.id = true := by
  obtain ⟨f, sf, ds, hf, h0, hv, hm, hinner⟩ := hc.start_visits hh
  obtain ⟨f', hf', h⟩ := unwindStack_ok_iff.mp h
  cases hf.symm.trans hf'
  obtain ⟨v, hloop, hcp, rfl⟩ := unwindAndSize_ok_iff.mp h
  have hge := unwindLoop_numActs maxFrames _ _ hloop
  simp only at hnum hge
  have h2 : 2 ≤ n := by omega
  obtain ⟨hlast, hr⟩ | ⟨-, hpast⟩ :=
    Reached.loop_stops hv hinner maxFrames 0 _ _ (x.reached_init ds h0) (by omega) hloop
  · have := (hc.canPop_iff hm hr (by omega)).mp hcp
    rw [(hm (n - 1) (by omega)).site] at hlast
    exact ⟨h2, by omega, hlast⟩
  · omega

/-- On a call chain of any depth and any register values, the source pass recovers every
    frame from the innermost to the start function exactly when the chain has 2 to 64
    frames (the pool of callee-saved bitmaps has room for 64) and `first_frame` knows the
    start function. -/
theorem unwind_inverts_chain_iff (mem : Mem) (x : RewriteArgs) (n : Nat) (fr : Nat → Frame)
    (hc : Chain x.handleSrc x.handleDest mem n fr) (hh : Holds x.handleSrc.arch x.regsetSrc (fr 0)) :
    (∃ u, unwindStack mem x = .ok u ∧ Recovers x.handleSrc.arch n fr u) ↔
      2 ≤ n ∧ n ≤ 64 ∧ firstFrame (fr (n - 1)).site.id = true := by
  constructor
  · intro ⟨u, hu, hrec⟩
    exact unwindStack_bounds hc hh hu hrec.numActs
  · intro ⟨h2, hn, hlast⟩
    obtain ⟨u, hu, hrec, -⟩ := unwindStack_recovers hc hh h2 hn hlast
    exact ⟨u, hu, hrec⟩

/-- gen-stackinfo keeps every start function's ID. -/
theorem smids_reserved (f : StartFunction) : reservedId (smids f) = true := by cases f <;> decide

/-- `first_frame` knows all but one of them. -/
theorem firstFrame_smids (f : StartFunction) : firstFrame (smids f) = true ↔ f ≠ .startC11 := by cases f <;> decide

/-- On a call chain that ends in a call site of the start function `f`, the source pass looks
    up every frame (the innermost is looked up before it) and none past `f`, with as many
    activations as frames, exactly when the chain has 2 to 64 frames and `f` is not
    `start_c11`. -/
theorem unwind_stops_at_start_iff (mem : Mem) (x : RewriteArgs) (n : Nat) (fr : Nat → Frame) (f : StartFunction)
    (hc : Chain x.handleSrc x.handleDest mem n fr) (hh : Holds x.handleSrc.arch x.regsetSrc (fr 0))
    (hid : (fr (n - 1)).site.id = smids f) :
    (∃ u, unwindStack mem x = .ok u ∧ u.lookups = List.range' 1 (n - 1) ∧ u.src.numActs = n) ↔
      2 ≤ n ∧ n ≤ 64 ∧ f ≠ .startC11 := by
  rw [← firstFrame_smids, ← hid]
  constructor
  · intro ⟨u, hu, _, hnum⟩
    exact unwindStack_bounds hc hh hu hnum
  · intro ⟨h2, hn, hlast⟩
    obtain ⟨u, hu, hrec, hl⟩ := unwindStack_recovers hc hh h2 hn hlast
    exact ⟨u, hu, hl, hrec.numActs⟩

end

/-! ## A recursive function under a start function -/

/-- The call site of the recursive function, and the one of the start function. -/
def recSite : CallSite := ⟨1, 0x1000, 16, 2, 0, 0, 0, 0, 0⟩
def startSite (f : StartFunction) : CallSite := ⟨smids f, 0x2000, 16, 2, 0, 0, 0, 0, 0⟩

def recHandle (f : StartFunction) : Handle where
  arch := .x86_64
  unwindAddrs := [⟨0xF00, 2, 0⟩]
  unwindLocs := [⟨6, 0⟩, ⟨16, 8⟩]
  sitesId := [recSite, startSite f]
  sitesAddr := [recSite, startSite f]
  liveVals _ := ⟨false, false, false, false, 0, 0, 0, 0, 0⟩
  liveValsCount := 0
  archLiveVals := []
  sites_len := rfl

/-- The return address into frame `k` of `n`. -/
def recPc (n k : Nat) : Nat := if k + 1 = n then 0x2000 else 0x1000

/-- Frames of 16 bytes from 0x10000 on: the caller's FBP and the return address. -/
def recMem (n : Nat) : Mem := fun a =>
  let k := (a - 0x10000) / 16
  let i := (a - 0x10000) % 16
  if i < 8 then (leBytes 8 (0x10000 + 16 * (k + 1))).getD i 0 else (leBytes 8 (recPc n (k + 1))).getD (i - 8) 0

def recFrame (f : StartFunction) (n k : Nat) : Frame where
  site := if k + 1 = n then startSite f else recSite
  sp := 0x10000 + 16 * k
  cfa := 0x10000 + 16 * (k + 1)
  pc := recPc n k
  val r := if r = 6 then 0x10000 + 16 * k else if r = 16 then recPc n k else 0

def recRegs : RegSet := rset (rset (rset (fun _ => 0) 0 0x1000) 64 0x10000) 56 0x10000

def recArgs (f : StartFunction) : RewriteArgs where
  handleSrc := recHandle f
  regsetSrc := recRegs
  spBaseSrc := 0x20000
  freshSrc := ⟨fun _ => ⟨emptyCallSite, 0, fun _ => 0, ⟨0, 0⟩⟩, fun _ => 0⟩
  handleDest := recHandle f
  spBaseDest := 0x40000
  freshDest := ⟨fun _ => ⟨emptyCallSite, 0, fun _ => 0, ⟨0, 0⟩⟩, fun _ => 0⟩
  foundFixup _ := false

theorem load_bytes {m : Mem} {a : Nat} {bs : List UInt8} (h : ∀ i < bs.length, m (a + i) = bs.getD i 0) :
    load m a bs.length = bs := by
  apply List.ext_getElem?
  intro i
  by_cases hi : i < bs.length
  · rw [load_getElem? _ _ _ _ hi, h i hi, List.getD_eq_getElem?_getD, List.getElem?_eq_getElem hi, Option.getD_some]
  · simp [hi]

theorem recMem_fbp (n k : Nat) : readLe 8 (recMem n) (0x10000 + 16 * k) = (0x10000 + 16 * (k + 1)) % 18446744073709551616 := by
  have h : load (recMem n) (0x10000 + 16 * k) (leBytes 8 (0x10000 + 16 * (k + 1))).length = leBytes 8 (0x10000 + 16 * (k + 1)) := by
    apply load_bytes
    intro i hi
    rw [leBytes_length] at hi
    have h1 : (0x10000 + 16 * k + i - 0x10000) / 16 = k := by omega
    have h2 : (0x10000 + 16 * k + i - 0x10000) % 16 = i := by omega
    unfold recMem
    simp only [h1, h2, if_pos hi]
  exact readLe_of_at h

theorem recMem_ra (n k : Nat) : readLe 8 (recMem n) (0x10000 + 16 * k + 8) = recPc n (k + 1) % 18446744073709551616 := by
  have h : load (recMem n) (0x10000 + 16 * k + 8) (leBytes 8 (recPc n (k + 1))).length = leBytes 8 (recPc n (k + 1)) := by
    apply load_bytes
    intro i hi
    rw [leBytes_length] at hi
    have h1 : (0x10000 + 16 * k + 8 + i - 0x10000) / 16 = k := by omega
    have h2 : (0x10000 + 16 * k + 8 + i - 0x10000) % 16 = i + 8 := by omega
    unfold recMem
    simp only [h1, h2]
    rw [if_neg (by omega), Nat.add_sub_cancel]
  exact readLe_of_at h

theorem recRecords (f : StartFunction) (n k : Nat) : unwindRecords (recHandle f) (recFrame f n k).site = [⟨6, 0⟩, ⟨16, 8⟩] := by
  show unwindRecords (recHandle f) (if k + 1 = n then startSite f else recSite) = _
  split <;> rfl

theorem recPc_lt (n k : Nat) : recPc n k < 18446744073709551616 := by
  unfold recPc
  split <;> decide

theorem recChain (f : StartFunction) (n : Nat) (hn : 0 < n) (hmax : n < 1000) :
    Chain (recHandle f) (recHandle f) (recMem n) n (recFrame f n) where
  pos := hn
  site k _ := by
    show getSiteByAddr (recHandle f) (UInt64.ofNat (recPc n k)) = some (if k + 1 = n then startSite f else recSite)
    unfold recPc
    split <;> cases f <;> rfl
  dest k _ _ := by
    show ∃ s, getSiteById (recHandle f) (if k + 1 = n then startSite f else recSite).id = some s
    split
    · exact ⟨startSite f, by cases f <;> rfl⟩
    · exact ⟨recSite, by cases f <;> rfl⟩
  span k hk := by
    have hf : (recFrame f n k).site.frameSize.toNat = 16 := by
      show (if k + 1 = n then startSite f else recSite).frameSize.toNat = 16
      split <;> rfl
    rw [hf]
    simp only [recFrame]
    omega
  next k _ := rfl
  fbp k hk := by
    refine (padd_eq ?_ ?_).symm
    · show 0x10000 + 16 * k < _
      omega
    · show ((0x10000 + 16 * k : Nat) : Int) = (0x10000 + 16 * (k + 1) : Nat) + (-0x10)
      omega
  ra k _ _ := rfl
  slice k _ := by
    show (if k + 1 = n then startSite f else recSite).unwindOffset + (if k + 1 = n then startSite f else recSite).numUnwind.toNat ≤ 2
    split <;> exact Nat.le_refl 2
  offsets := by
    show 2 < 4294967296
    decide
  calleeSaved k _ l hl := by
    rw [recRecords] at hl
    simp only [List.mem_cons, List.not_mem_nil, or_false] at hl
    obtain rfl | rfl := hl <;> rfl
  listsFbp k _ := ⟨⟨6, 0⟩, by rw [recRecords]; simp, rfl⟩
  listsRa k _ := ⟨⟨16, 8⟩, by rw [recRecords]; simp, rfl⟩
  saved k hk l hl := by
    rw [recRecords] at hl
    simp only [List.mem_cons, List.not_mem_nil, or_false] at hl
    have hfbp : (recFrame f n k).val (fbpReg (recHandle f).arch) = 0x10000 + 16 * k := rfl
    obtain rfl | rfl := hl
    · rw [hfbp, padd_eq (b := 0x10000 + 16 * k) (by omega) (by simp), recMem_fbp, Nat.mod_eq_of_lt (by omega)]
      rfl
    · rw [hfbp, padd_eq (b := 0x10000 + 16 * k + 8) (by omega) (by simp [Int16.toInt]), recMem_ra, Nat.mod_eq_of_lt (recPc_lt _ _)]
      rfl
  kept k _ r _ hne := by
    have h6 := hne ⟨6, 0⟩ (by rw [recRecords]; simp)
    have h16 := hne ⟨16, 8⟩ (by rw [recRecords]; simp)
    simp only [recFrame]
    rw [if_neg (Ne.symm h6), if_neg (Ne.symm h16), if_neg (Ne.symm h6), if_neg (Ne.symm h16)]
  start := by
    show reservedId (if n - 1 + 1 = n then startSite f else recSite).id = true
    rw [if_pos (by omega)]
    exact smids_reserved f
  inner k hk := by
    show reservedId (if k + 1 = n then startSite f else recSite).id = false
    rw [if_neg (by omega)]
    rfl

theorem recHolds (f : StartFunction) (n : Nat) (hn : 2 ≤ n) : Holds .x86_64 recRegs (recFrame f n 0) where
  sp := by
    show _ = 0x10000
    decide
  pc := by
    show _ = if 0 + 1 = n then 0x2000 else 0x1000
    rw [if_neg (by omega)]
    decide
  val r hr := by
    simp only [isCalleeSaved, getProperties, propertiesX86_64, Props.isCalleeSaved, List.contains_eq_mem,
      List.mem_cons, List.not_mem_nil, or_false, decide_eq_true_eq] at hr
    have hpc : recPc n 0 = 0x1000 := if_neg (by omega)
    simp only [recFrame, hpc]
    obtain rfl | rfl | rfl | rfl | rfl | rfl | rfl := hr <;> decide

theorem unwind_inverts_chain_iff_rec :
    ∃ u, unwindStack (recMem 3) (recArgs .start) = .ok u ∧ Recovers .x86_64 3 (recFrame .start 3) u :=
  (unwind_inverts_chain_iff (recMem 3) (recArgs .start) 3 (recFrame .start 3) (recChain .start 3 (by decide) (by decide))
    (recHolds .start 3 (by decide))).mpr ⟨by decide, by decide, by decide⟩

/-- A chain of 65 frames is not recovered: the bitmap of the last one lies past the pool. -/
theorem unwind_chain_lost_65 :
    Chain (recHandle .start) (recHandle .start) (recMem 65) 65 (recFrame .start 65) ∧ Holds .x86_64 recRegs (recFrame .start 65 0) ∧
      ¬ ∃ u, unwindStack (recMem 65) (recArgs .start) = .ok u ∧ Recovers .x86_64 65 (recFrame .start 65) u := by
  have hc := recChain .start 65 (by decide) (by decide)
  have hh := recHolds .start 65 (by decide)
  refine ⟨hc, hh, ?_⟩
  intro ⟨u, hu, hrec⟩
  have := unwindStack_bounds (x := recArgs .start) hc hh hu hrec.numActs
  omega

theorem unwind_stops_at_start_iff_rec :
    ∃ u, unwindStack (recMem 3) (recArgs .start) = .ok u ∧ u.lookups = [1, 2] ∧ u.src.numActs = 3 :=
  (unwind_stops_at_start_iff (recMem 3) (recArgs .start) 3 (recFrame .start 3) .start (recChain .start 3 (by decide) (by decide))
    (recHolds .start 3 (by decide)) rfl).mpr ⟨by decide, by decide, by decide⟩

/-- Under `start_c11` the pass does not stop at the start function. -/
theorem unwind_passes_start_c11 :
    Chain (recHandle .startC11) (recHandle .startC11) (recMem 3) 3 (recFrame .startC11 3) ∧
      Holds .x86_64 recRegs (recFrame .startC11 3 0) ∧ (recFrame .startC11 3 2).site.id = smids .startC11 ∧
      ¬ ∃ u, unwindStack (recMem 3) (recArgs .startC11) = .ok u ∧ u.lookups = [1, 2] ∧ u.src.numActs = 3 := by
  have hc := recChain .startC11 3 (by decide) (by decide)
  have hh := recHolds .startC11 3 (by decide)
  refine ⟨hc, hh, rfl, ?_⟩
  intro ⟨u, hu, _, hnum⟩
  have := (unwindStack_bounds (x := recArgs .startC11) hc hh hu hnum).2.2
  exact absurd this (by decide)

end Popcorn.Runtime
