/-
  Popcorn.Metadata.UnwindSlices — the unwind records a call site refers to
  (tool/stack_metadata/src/write.c, `create_call_site_metadata`).

  A site's `num_unwind` is its function record's, its `unwind_offset` that of the function
  `get_func_unwind_data` finds at the return address. A call that is the last instruction of
  its function returns to the end of the function, where the next one may start: then the
  offset is the next function's. The count is cut to 16 bits and the frame size to 32.

  Proved: `site_slices_exact_iff`: sites have their own functions' slices, and all values
  unchanged, exactly when no return address is the start of a function with another offset
  and the counts and frame sizes fit.
-/

import Popcorn.Metadata.UnwindSearch

namespace Popcorn.Metadata

open Popcorn.Lib

/-! ## Functions and their calls -/

/-- A function: its entry in the address table, and its size. -/
structure FuncRange where
  entry : UnwindAddr
  size : Nat
  deriving Repr

def FuncRange.start (f : FuncRange) : Nat := f.entry.addr.toNat
def FuncRange.stop (f : FuncRange) : Nat := f.start + f.size

/-- Functions with disjoint address ranges, in the order of the table. -/
structure Functions (fs : List FuncRange) : Prop where
  nonempty : ∀ f ∈ fs, 0 < f.size
  addressable : ∀ f ∈ fs, f.stop < 18446744073709551616
  disjoint : fs.Pairwise fun f g => f.stop ≤ g.start

/-- The call of the record `p` is in `f`: its return address is past the start of `f` and not
    past its end. The function record is that of `f`. -/
structure CallIn (fs : List FuncRange) (p : StackMapSection × CallSiteRecord) (fr : FunctionRecord) (f : FuncRange) : Prop where
  record : p.1.functionRecords[p.2.funcIdx.toNat]? = some fr
  mem : f ∈ fs
  funcAddr : fr.funcAddr = f.entry.addr
  numUnwind : fr.numUnwind = f.entry.numUnwind
  inside : 0 < p.2.offset.toNat ∧ p.2.offset.toNat ≤ f.size

/-- The frame's bytes from the CFA on, with no bound. -/
def frameBytes (arch : Arch) (fr : FunctionRecord) : Nat :=
  match arch with
  | .x86_64 => fr.stackSize.toNat + 8
  | .aarch64 => fr.stackSize.toNat

/-- The site of record `k` refers to the unwind records of `f`, and nothing in it was cut. -/
structure OwnSlice (arch : Arch) (rs : List (StackMapSection × CallSiteRecord)) (k : Nat) (p : StackMapSection × CallSiteRecord)
    (fr : FunctionRecord) (f : FuncRange) (site : CallSite) : Prop where
  unwindOffset : site.unwindOffset = f.entry.unwindOffset.toNat
  numUnwind : site.numUnwind.toNat = f.entry.numUnwind.toNat
  frameSize : site.frameSize.toNat = frameBytes arch fr
  numLive : site.numLive.toNat = p.2.locations.length
  liveOffset : site.liveOffset = sliceStart (·.2.locations) rs k
  numArchLive : site.numArchLive.toNat = p.2.archLive.length
  archLiveOffset : site.archLiveOffset = sliceStart (·.2.archLive) rs k

/-- The call's return address leads to its own function, and the site's fields hold its values. -/
structure Representable (arch : Arch) (fs : List FuncRange) (p : StackMapSection × CallSiteRecord) (fr : FunctionRecord)
    (f : FuncRange) : Prop where
  notNext : ∀ g ∈ fs, g.start = f.start + p.2.offset.toNat → g.entry.unwindOffset = f.entry.unwindOffset
  numUnwind : fr.numUnwind.toNat < 65536
  frameSize : frameBytes arch fr < 4294967296

/-! ## The function at a return address -/

section
variable {fs : List FuncRange} {p : StackMapSection × CallSiteRecord} {fr : FunctionRecord} {f g : FuncRange}

theorem Functions.apart (h : Functions fs) (hf : f ∈ fs) (hg : g ∈ fs) : f = g ∨ f.stop ≤ g.start ∨ g.stop ≤ f.start := by
  obtain ⟨i, hi, rfl⟩ := List.getElem_of_mem hf
  obtain ⟨j, hj, rfl⟩ := List.getElem_of_mem hg
  have hpw := List.pairwise_iff_getElem.mp h.disjoint
  rcases Nat.lt_trichotomy i j with hij | rfl | hij
  · exact .inr (.inl (hpw i j hi hj hij))
  · exact .inl rfl
  · exact .inr (.inr (hpw j i hj hi hij))

theorem Functions.ascending (h : Functions fs) : (fs.map FuncRange.entry).Pairwise fun a b => a.addr < b.addr := by
  rw [List.pairwise_map]
  refine h.disjoint.imp_of_mem ?_
  intro f g hf _ hle
  have := h.nonempty f hf
  exact UInt64.lt_iff_toNat_lt.mpr (show f.start < g.start by unfold FuncRange.stop at hle; omega)

theorem CallIn.returnAddr_toNat (h : Functions fs) (hc : CallIn fs p fr f) {a : UInt64} (ha : some a = returnAddr p) :
    a.toNat = f.start + p.2.offset.toNat := by
  unfold returnAddr at ha
  rw [hc.record] at ha
  obtain rfl := Option.some.inj ha
  have hlt := h.addressable f hc.mem
  have hin := hc.inside.2
  dsimp only
  rw [hc.funcAddr, UInt64.toNat_add, UInt32.toNat_toUInt64, Nat.mod_eq_of_lt]
  · rfl
  · show f.start + _ < _
    unfold FuncRange.stop at hlt
    omega

/-- The search finds the function that starts at the return address, if there is one, and else
    the one of the call. -/
theorem CallIn.found (h : Functions fs) (hc : CallIn fs p fr f) {a : UInt64} (ha : some a = returnAddr p) :
    (∃ g ∈ fs, g.start = f.start + p.2.offset.toNat ∧ getFuncUnwindData a (fs.map FuncRange.entry) = some g.entry) ∨
      ((∀ g ∈ fs, g.start ≠ f.start + p.2.offset.toNat) ∧ getFuncUnwindData a (fs.map FuncRange.entry) = some f.entry) := by
  have hnat := hc.returnAddr_toNat h ha
  have hfloor := getFuncUnwindData_floor h.ascending a
  by_cases hg : ∃ g ∈ fs, g.start = f.start + p.2.offset.toNat
  · obtain ⟨g, hg, hstart⟩ := hg
    refine .inl ⟨g, hg, hstart, FloorOf.unique h.ascending hfloor ⟨List.mem_map_of_mem hg, ?_, ?_⟩⟩
    · exact UInt64.le_iff_toNat_le.mpr (Nat.le_of_eq (hstart.trans hnat.symm))
    · intro ub _ hle
      exact UInt64.le_trans hle (UInt64.le_iff_toNat_le.mpr (Nat.le_of_eq (hnat.trans hstart.symm)))
  · have hno : ∀ g ∈ fs, g.start ≠ f.start + p.2.offset.toNat := fun g hg' he => hg ⟨g, hg', he⟩
    refine .inr ⟨hno, FloorOf.unique h.ascending hfloor ⟨List.mem_map_of_mem hc.mem, ?_, ?_⟩⟩
    · exact UInt64.le_iff_toNat_le.mpr (show f.start ≤ a.toNat by omega)
    · intro ub hub hle
      obtain ⟨g, hg', rfl⟩ := List.mem_map.mp hub
      have hle' : g.start ≤ a.toNat := UInt64.le_iff_toNat_le.mp hle
      have hin := hc.inside.2
      have hne := hno g hg'
      have hpos := h.nonempty g hg'
      apply UInt64.le_iff_toNat_le.mpr
      show g.start ≤ f.start
      obtain rfl | hfg | hgf := h.apart hc.mem hg'
      · exact Nat.le_refl _
      · unfold FuncRange.stop at hfg
        omega
      · unfold FuncRange.stop at hgf
        omega

/-! ## The sites -/

theorem toUInt16_exact_iff (x : UInt32) : x.toUInt16.toNat = x.toNat ↔ x.toNat < 65536 := by
  rw [UInt32.toNat_toUInt16]
  omega

theorem frameSize_exact_iff (arch : Arch) (fr : FunctionRecord) :
    (cfaCorrection arch fr.stackSize).toUInt32.toNat = frameBytes arch fr ↔ frameBytes arch fr < 4294967296 := by
  have hlt := fr.stackSize.toNat_lt
  unfold cfaCorrection frameBytes
  cases arch with
  | x86_64 =>
    show (fr.stackSize + 8).toUInt32.toNat = fr.stackSize.toNat + 8 ↔ fr.stackSize.toNat + 8 < _
    rw [UInt64.toNat_toUInt32, UInt64.toNat_add, show (8 : UInt64).toNat = 8 from rfl]
    omega
  | aarch64 =>
    show fr.stackSize.toUInt32.toNat = fr.stackSize.toNat ↔ fr.stackSize.toNat < _
    rw [UInt64.toNat_toUInt32]
    omega

theorem ownSlice_iff {arch : Arch} {startId : UInt64} {rs : List (StackMapSection × CallSiteRecord)} {k : Nat} {site : CallSite}
    (h : Functions fs) (hc : CallIn fs p fr f) (hs : SiteOf arch startId (fs.map FuncRange.entry) rs k p site) :
    OwnSlice arch rs k p fr f site ↔ Representable arch fs p fr f := by
  obtain ⟨hframe, hnum⟩ := hs.frame fr hc.record
  have hunwind := hs.unwind
  constructor
  · intro ho
    refine ⟨?_, ?_, ?_⟩
    · intro g hg hstart
      obtain ⟨g', hg', hstart', hfound⟩ | ⟨hno, -⟩ := hc.found h hs.addr
      · -- two functions that start at one address are the same
        have hpos := h.nonempty g hg
        have hpos' := h.nonempty g' hg'
        obtain rfl : g = g' := by
          obtain he | hle | hle := h.apart hg hg'
          · exact he
          · unfold FuncRange.stop at hle
            omega
          · unfold FuncRange.stop at hle
            omega
        rw [hfound] at hunwind
        exact UInt32.toNat_inj.mp ((Option.some.inj hunwind).trans ho.unwindOffset)
      · exact absurd hstart (hno g hg)
    · rw [← toUInt16_exact_iff, ← hnum, ho.numUnwind, hc.numUnwind]
    · rw [← frameSize_exact_iff, ← hframe, ho.frameSize]
  · intro hr
    refine ⟨?_, ?_, ?_, hs.numLive, hs.liveOffset, hs.numArchLive, hs.archLiveOffset⟩
    · obtain ⟨g, hg, hstart, hfound⟩ | ⟨-, hfound⟩ := hc.found h hs.addr
      · rw [hfound] at hunwind
        rw [← hr.notNext g hg hstart]
        exact (Option.some.inj hunwind).symm
      · rw [hfound] at hunwind
        exact (Option.some.inj hunwind).symm
    · rw [hnum, (toUInt16_exact_iff _).mpr hr.numUnwind, hc.numUnwind]
    · rw [hframe, (frameSize_exact_iff _ _).mpr hr.frameSize]

end

/-- Every site refers to the unwind records of the function its call is in, and nothing stored
    was cut. -/
def SlicesExact (arch : Arch) (sm : List StackMapSection) (fs : List FuncRange) (md : CallSiteMetadata) : Prop :=
  ∀ k p site fr f, (records sm)[k]? = some p → md.sites[k]? = some site → CallIn fs p fr f →
    OwnSlice arch (records sm) k p fr f site

theorem site_slices_exact_iff (arch : Arch) (startId : UInt64) (sm : List StackMapSection) (fs : List FuncRange)
    (h : Functions fs) (hc : ∀ p ∈ records sm, ∃ fr f, CallIn fs p fr f) :
    ∃ md, createCallSiteMetadata arch startId sm (fs.map FuncRange.entry) = .ok md ∧
      (SlicesExact arch sm fs md ↔ ∀ p ∈ records sm, ∀ fr f, CallIn fs p fr f → Representable arch fs p fr f) := by
  have hok : ∀ p ∈ records sm, ∃ a ua, returnAddr p = some a ∧ getFuncUnwindData a (fs.map FuncRange.entry) = some ua := by
    intro p hp
    obtain ⟨fr, f, hcall⟩ := hc p hp
    have ha : returnAddr p = some (fr.funcAddr + p.2.offset.toUInt64) := by
      unfold returnAddr
      rw [hcall.record]
      rfl
    obtain ⟨g, -, -, hg⟩ | ⟨-, hf⟩ := hcall.found h ha.symm
    · exact ⟨_, g.entry, ha, hg⟩
    · exact ⟨_, f.entry, ha, hf⟩
  obtain ⟨md, hmd⟩ : ∃ md, createCallSiteMetadata arch startId sm (fs.map FuncRange.entry) = .ok md := createCallSiteMetadata_ok hok
  refine ⟨md, hmd, ?_⟩
  obtain ⟨st, hb, rfl⟩ := create_built hmd
  constructor
  · intro hs p hp fr f hcall
    obtain ⟨k, hk⟩ := List.mem_iff_getElem?.mp hp
    obtain ⟨site, hsite, hof⟩ := hb.get hk
    exact (ownSlice_iff h hcall hof).mp (hs k p site fr f hk hsite hcall)
  · intro hr k p site fr f hp hsite hcall
    exact (ownSlice_iff h hcall (hb.site k p site hp hsite)).mpr (hr p (List.mem_of_getElem? hp) fr f hcall)

/-! ## Two adjacent functions -/

def adjacentFuncs : List FuncRange := [⟨⟨0x1000, 2, 0⟩, 0x20⟩, ⟨⟨0x1020, 1, 2⟩, 0x20⟩]

theorem nil_short {α : Type} : ([] : List α).length < 65536 := Nat.zero_lt_succ 65535

/-- A call in the first of them that returns to `offset`. -/
def adjacentSection (offset : UInt32) : StackMapSection where
  version := 1
  reserved := 0
  reserved2 := 0
  functionRecords := [⟨0x1000, 40, 2, 0⟩, ⟨0x1020, 24, 1, 0⟩]
  constants := []
  callSites := [⟨7, 0, offset, 0, [], [], [], nil_short, nil_short, nil_short⟩]

theorem adjacentFuncs_functions : Functions adjacentFuncs := ⟨by decide, by decide, by decide⟩

theorem adjacentSection_callIn {offset : UInt32} (h0 : 0 < offset.toNat) (h1 : offset.toNat ≤ 0x20) :
    ∀ p ∈ records [adjacentSection offset], ∃ fr f, CallIn adjacentFuncs p fr f := by
  intro p hp
  obtain rfl := List.mem_singleton.mp hp
  exact ⟨⟨0x1000, 40, 2, 0⟩, ⟨⟨0x1000, 2, 0⟩, 0x20⟩, rfl, List.mem_cons_self, rfl, rfl, h0, h1⟩

theorem site_slices_exact_iff_adjacent : ∃ md,
    createCallSiteMetadata .x86_64 1 [adjacentSection 0x10] (adjacentFuncs.map FuncRange.entry) = .ok md ∧
      SlicesExact .x86_64 [adjacentSection 0x10] adjacentFuncs md := by
  obtain ⟨md, hmd, hiff⟩ := site_slices_exact_iff .x86_64 1 [adjacentSection 0x10] adjacentFuncs adjacentFuncs_functions
    (adjacentSection_callIn (by decide) (by decide))
  refine ⟨md, hmd, hiff.mpr ?_⟩
  intro p hp fr f hc
  obtain rfl := List.mem_singleton.mp hp
  obtain rfl := Option.some.inj hc.record
  have haddr := hc.funcAddr
  obtain rfl | hf := List.mem_cons.mp hc.mem
  · exact ⟨by decide, by decide, by decide⟩
  · obtain rfl := List.mem_singleton.mp hf
    exact absurd haddr (by decide)

/-- The call is the function's last instruction: its site gets the offset of the next function. -/
theorem site_slices_not_exact : ∃ md, Functions adjacentFuncs ∧
    (∀ p ∈ records [adjacentSection 0x20], ∃ fr f, CallIn adjacentFuncs p fr f) ∧
    createCallSiteMetadata .x86_64 1 [adjacentSection 0x20] (adjacentFuncs.map FuncRange.entry) = .ok md ∧
    ¬ SlicesExact .x86_64 [adjacentSection 0x20] adjacentFuncs md := by
  refine ⟨_, adjacentFuncs_functions, adjacentSection_callIn (by decide) (by decide), rfl, ?_⟩
  intro h
  have := (h 0 _ _ ⟨0x1000, 40, 2, 0⟩ ⟨⟨0x1000, 2, 0⟩, 0x20⟩ rfl rfl ⟨rfl, List.mem_cons_self, rfl, rfl, by decide, by decide⟩).unwindOffset
  exact absurd this (by decide)

end Popcorn.Metadata
