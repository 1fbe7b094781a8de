/-
  Popcorn.Runtime.Pairing — two binaries of one program, and the stacks a rewrite takes.

  A binary is described by its metadata when its call sites can be found by ID and by address and
  describe their frames. Two binaries are paired when their call sites with one ID list the
  same values, in the same order; a `va_list` has another size. Nothing is asked of call sites
  that only one binary has. Pairing goes both ways, so what is proved of it serves every
  migration of a thread, in either direction.

  Proved: a stack of a paired binary meets what the rewrite is proved under (`Migrates.source`,
  `Migrates.layout`, `Migrates.matched`, `Migrates.sourceLayout`, `Migrates.addrs`).
-/

import Popcorn.Runtime.Pointers
import Popcorn.Runtime.SiteLayout

namespace Popcorn.Runtime

open Popcorn.Lib Popcorn.Metadata

/-! ## Paired binaries -/

structure Described (h : Handle) : Prop where
  sites : ∀ a s, getSiteByAddr h a = some s → firstFrame s.id = false → SiteLayout h s
  byId : ∀ a s, getSiteByAddr h a = some s → getSiteById h s.id = some s
  byAddr : ∀ i s, getSiteById h i = some s → getSiteByAddr h s.addr = some s

/-- Two records of one value. -/
structure SameValue (a b : Arch) (v w : LiveValue) : Prop where
  size : w.valSize = v.valSize ∨ skipVaList v w = true
  isPtr : w.isPtr = v.isPtr
  isAlloca : w.isAlloca = v.isAlloca
  located : Located (getRegops a) v.type v.regnum ↔ Located (getRegops b) w.type w.regnum

/-- The value has one record, which is in memory. -/
def InOnePlace (g : Group) : Prop :=
  g.dups = [] ∧ (LocationType.ofCode g.first.type = some .direct ∨ LocationType.ofCode g.first.type = some .indirect)

/-- One call site in two binaries; `g` are the records of its values. -/
structure PairedSite (a b : Handle) (s s' : CallSite) (g : List (Group × Group)) : Prop where
  left : GroupsAt a s.liveOffset (g.map Prod.fst)
  right : GroupsAt b s'.liveOffset (g.map Prod.snd)
  numLeft : s.numLive.toNat = ((g.map Prod.fst).flatMap Group.records).length
  numRight : s'.numLive.toNat = ((g.map Prod.snd).flatMap Group.records).length
  same : ∀ p ∈ g, ∀ v ∈ p.1.records, ∀ w ∈ p.2.records, SameValue a.arch b.arch v w
  alloca : ∀ p ∈ g, p.1.first.isAlloca = true → InOnePlace p.1 ∧ InOnePlace p.2

structure Pairing (a b : Handle) where
  groups : UInt64 → List (Group × Group)
  left : Described a
  right : Described b
  pair : ∀ i s s', getSiteById a i = some s → getSiteById b i = some s' → firstFrame i = false → PairedSite a b s s' (groups i)

theorem skipVaList_comm (v w : LiveValue) : skipVaList w v = skipVaList v w := by
  unfold skipVaList
  cases v.isAlloca <;> cases w.isAlloca <;> simp [Bool.or_comm, Bool.and_comm]

section
variable {a b : Handle}

theorem SameValue.symm {a b : Arch} {v w : LiveValue} (h : SameValue a b v w) : SameValue b a w v :=
  ⟨h.size.imp Eq.symm fun e => (skipVaList_comm v w).trans e, h.isPtr.symm, h.isAlloca.symm, h.located.symm⟩

theorem PairedSite.symm {s s' : CallSite} {g : List (Group × Group)} (h : PairedSite a b s s' g) : PairedSite b a s' s (g.map Prod.swap) := by
  have hfst : (g.map Prod.swap).map Prod.fst = g.map Prod.snd := by
    rw [List.map_map]
    rfl
  have hsnd : (g.map Prod.swap).map Prod.snd = g.map Prod.fst := by
    rw [List.map_map]
    rfl
  refine ⟨?_, ?_, ?_, ?_, ?_, ?_⟩
  · rw [hfst]
    exact h.right
  · rw [hsnd]
    exact h.left
  · rw [hfst]
    exact h.numRight
  · rw [hsnd]
    exact h.numLeft
  · intro p hp v hv w hw
    obtain ⟨q, hq, rfl⟩ := List.mem_map.mp hp
    exact (h.same q hq w hw v hv).symm
  · intro p hp ha
    obtain ⟨q, hq, rfl⟩ := List.mem_map.mp hp
    have hsame := (h.same q hq q.1.first List.mem_cons_self q.2.first List.mem_cons_self).isAlloca
    exact (h.alloca q hq (hsame.symm.trans ha)).symm

def Pairing.symm (p : Pairing a b) : Pairing b a where
  groups i := (p.groups i).map Prod.swap
  left := p.right
  right := p.left
  pair i s s' hs hs' hi := (p.pair i s' s hs' hs hi).symm

end

/-! ## Records of a call site -/

section
variable {h : Handle} {s : CallSite} {f : VFrame} {v : LiveValue}

/-- A record of a call site's values is one of its live records. -/
theorem GroupsAt.live {gs : List Group} (hg : GroupsAt h s.liveOffset gs) (hn : s.numLive.toNat = (gs.flatMap Group.records).length)
    (hv : v ∈ gs.flatMap Group.records) : ∃ t < s.numLive.toNat, siteLive h s t = v := by
  obtain ⟨t, ht⟩ := List.mem_iff_getElem?.mp hv
  refine ⟨t, ?_, hg.records t v ht⟩
  rw [hn]
  exact (List.getElem?_eq_some_iff.mp ht).1

/-- The index of the first record of group `i`. -/
def groupStart (gs : List Group) (i : Nat) : Nat := ((gs.take i).flatMap Group.records).length

theorem groupStart_succ (g : Group) (gs : List Group) (i : Nat) :
    groupStart (g :: gs) (i + 1) = g.records.length + groupStart gs i := by
  unfold groupStart
  rw [List.take_succ_cons, List.flatMap_cons, List.length_append]

theorem groupStart_first {gs : List Group} : ∀ {i : Nat} {g : Group}, gs[i]? = some g →
    (gs.flatMap Group.records)[groupStart gs i]? = some g.first := by
  induction gs with
  | nil =>
    intro i g hg
    cases hg
  | cons g0 gs ih =>
    intro i g hg
    rw [List.flatMap_cons]
    cases i with
    | zero =>
      cases hg
      rfl
    | succ i =>
      rw [groupStart_succ, List.getElem?_append_right (Nat.le_add_right _ _), Nat.add_sub_cancel_left]
      exact ih hg

theorem groupStart_lt {gs : List Group} : ∀ {i i' : Nat}, i < i' → i' ≤ gs.length → groupStart gs i < groupStart gs i' := by
  induction gs with
  | nil =>
    intro i i' h hi'
    exact absurd (Nat.lt_of_lt_of_le h hi') (Nat.not_lt_zero i)
  | cons g gs ih =>
    intro i i' h hi'
    have hpos : 0 < g.records.length := Nat.succ_pos _
    cases i' with
    | zero => omega
    | succ i' =>
      rw [groupStart_succ]
      cases i with
      | zero =>
        have hzero : groupStart (g :: gs) 0 = 0 := rfl
        omega
      | succ i =>
        rw [groupStart_succ]
        have := ih (Nat.lt_of_succ_lt_succ h) (Nat.le_of_succ_le_succ hi')
        omega

theorem valSlot_mem_len {o : Int} {len : Nat} (hs : valSlot h s v = some (.mem o len)) : len = v.valSize := by
  unfold valSlot recordSlot at hs
  split at hs
  · cases hs
  · cases hs
    rfl
  · cases hs
    rfl
  · cases hs

/-- A record in memory is in the frame's body. -/
theorem Framed.bounds (hf : Framed h f) (haddr : SlotAddressable h.arch v.type v.regnum v.valSize)
    (hfine : ∀ sl ∈ valSlot h f.site v, SlotFine h f.site sl) {a : Nat} (ha : vaddr h f v = some a) :
    (getRegops h.arch).sp f.regs ≤ a ∧ a + v.valSize + 16 ≤ f.cfa := by
  rw [hf.vaddr_eq haddr hfine] at ha
  obtain ⟨sl, hsl, ha⟩ := Option.bind_eq_some_iff.mp ha
  cases sl with
  | reg r => cases ha
  | mem o len =>
    cases ha
    have hlen := valSlot_mem_len hsl
    have hb := (hfine _ hsl).1
    have hat := hb.at hf.low
    have h1 := hf.fbp
    have h2 := hf.cfa
    have h3 := hb.1
    have h4 := hb.2
    omega

theorem located_mem (hm : LocationType.ofCode v.type = some .direct ∨ LocationType.ofCode v.type = some .indirect) :
    ∃ o, valSlot h s v = some (.mem o v.valSize) := by
  unfold valSlot recordSlot
  obtain hm | hm := hm
  · rw [hm]
    exact ⟨_, rfl⟩
  · rw [hm]
    exact ⟨_, rfl⟩

end

section
variable {a b : Handle} {s s' : CallSite} {gs : List (Group × Group)} (hp : PairedSite a b s s' gs) (hl : SiteLayout a s)

include hp hl in
/-- A record of a paired call site is laid out. -/
theorem PairedSite.record {g : Group × Group} (hg : g ∈ gs) {v : LiveValue} (hv : v ∈ g.1.records) :
    SlotAddressable a.arch v.type v.regnum v.valSize ∧ (∀ sl ∈ valSlot a s v, SlotFine a s sl) ∧
      (v.isPtr = true → v.isAlloca = false → v.valSize = 8) := by
  have hmem : v ∈ (gs.map Prod.fst).flatMap Group.records := List.mem_flatMap.mpr ⟨g.1, List.mem_map_of_mem hg, hv⟩
  obtain ⟨t, ht, rfl⟩ := hp.left.live hp.numLeft hmem
  exact ⟨(hl.live t ht).1, (hl.live t ht).2, hl.pointer t ht⟩

include hp hl in
/-- Two values of a call site are apart. -/
theorem PairedSite.apart {g g' : Group × Group} {i i' : Nat} (hi : gs[i]? = some g) (hi' : gs[i']? = some g') (hne : i ≠ i') {sl sl' : Slot}
    (hsl : valSlot a s g.1.first = some sl) (hsl' : valSlot a s g'.1.first = some sl') : sl.Disj sl' := by
  have hfirst : ∀ {g : Group × Group} {i : Nat}, gs[i]? = some g → groupStart (gs.map Prod.fst) i < s.numLive.toNat ∧
      siteLive a s (groupStart (gs.map Prod.fst) i) = g.1.first := by
    intro g i hi
    have hget : (gs.map Prod.fst)[i]? = some g.1 := by
      rw [List.getElem?_map, hi]
      rfl
    have hrec := groupStart_first hget
    refine ⟨?_, hp.left.records _ _ hrec⟩
    rw [hp.numLeft]
    exact (List.getElem?_eq_some_iff.mp hrec).1
  have hlt : ∀ {i i' : Nat} {g' : Group × Group}, i < i' → gs[i']? = some g' →
      groupStart (gs.map Prod.fst) i < groupStart (gs.map Prod.fst) i' := by
    intro i i' g' h hi'
    apply groupStart_lt h
    rw [List.length_map]
    exact Nat.le_of_lt (List.getElem?_eq_some_iff.mp hi').1
  obtain ⟨h1, h2⟩ := hfirst hi
  obtain ⟨h1', h2'⟩ := hfirst hi'
  obtain h | h := Nat.lt_or_gt_of_ne hne
  · exact hl.apart _ h1' _ (hlt h hi') sl (by rw [h2]; exact hsl) sl' (by rw [h2']; exact hsl')
  · exact (hl.apart _ h1 _ (hlt h hi) sl' (by rw [h2']; exact hsl') sl (by rw [h2]; exact hsl)).symm

include hp hl in
/-- So are their bytes in a frame. -/
theorem PairedSite.bytes_apart {f : VFrame} (hf : Framed a f) (hs : f.site = s) {g g' : Group × Group} {i i' x x' : Nat}
    (hi : gs[i]? = some g) (hi' : gs[i']? = some g') (hne : i ≠ i') (hx : vaddr a f g.1.first = some x)
    (hx' : vaddr a f g'.1.first = some x') : x + g.1.first.valSize ≤ x' ∨ x' + g'.1.first.valSize ≤ x := by
  subst hs
  obtain ⟨haddr, hfine, -⟩ := hp.record hl (List.mem_of_getElem? hi) List.mem_cons_self
  obtain ⟨haddr', hfine', -⟩ := hp.record hl (List.mem_of_getElem? hi') List.mem_cons_self
  rw [hf.vaddr_eq haddr hfine] at hx
  rw [hf.vaddr_eq haddr' hfine'] at hx'
  obtain ⟨sl, hsl, hx⟩ := Option.bind_eq_some_iff.mp hx
  obtain ⟨sl', hsl', hx'⟩ := Option.bind_eq_some_iff.mp hx'
  have hd := hp.apart hl hi hi' hne hsl hsl'
  cases sl with
  | reg r => cases hx
  | mem o len =>
    cases sl' with
    | reg r => cases hx'
    | mem o' len' =>
      cases hx
      cases hx'
      have h1 := (hfine _ hsl).1.at hf.low
      have h2 := (hfine' _ hsl').1.at hf.low
      have h3 := valSlot_mem_len hsl
      have h4 := valSlot_mem_len hsl'
      simp only [Slot.Disj] at hd
      omega

end

/-! ## Stacks -/

/-- A stack of `n` frames of the binary `h`, innermost first, up to a start function, as virtual
    unwinding finds it; the frames but for the first have call sites in the other binary. -/
structure Stacked (mem : Mem) (h other : Handle) (n : Nat) (F : Nat → VFrame) : Prop where
  next : ∀ k, k + 1 < n → vnext mem h (F k) = some (F (k + 1))
  found : getSiteByAddr h (F 0).site.addr = some (F 0).site
  framed : ∀ k, k + 1 < n → Framed h (F k)
  known : ∀ k, 0 < k → k < n → ∃ s, getSiteById other (F k).site.id = some s
  start : firstFrame (F (n - 1)).site.id = true
  inner : ∀ k, k + 1 < n → firstFrame (F k).site.id = false

/-- The call sites of the frames in another binary. -/
def partner (other : Handle) (F : Nat → VFrame) (k : Nat) : CallSite := (getSiteById other (F k).site.id).getD emptyCallSite

/-- A rewrite of the stack that returns 0: the destination's region has room for the frames and is
    apart from the source's, and no stale bit hides a register. -/
structure Migrates (mem : Mem) (x : RewriteArgs) (n : Nat) (F : Nat → VFrame) (out : Rewritten) : Prop where
  two : 2 ≤ n
  stacked : Stacked mem x.handleSrc x.handleDest n F
  first : vframe x.handleSrc x.regsetSrc = some (F 0)
  sp : 0 < (getRegops x.handleSrc.arch).sp (F 0).regs
  base : ∀ k, k + 1 < n → (F k).cfa ≤ x.spBaseSrc
  fits : Fits x (partner x.handleDest F) n
  apart : (F (n - 2)).cfa ≤ destLow x n (partner x.handleDest F) ∨
    destHigh x n (partner x.handleDest F) ≤ (getRegops x.handleSrc.arch).sp (F 0).regs
  clean : ∀ k r, 0 < k → k + 1 < n → Ordinary x r → NoStaleBit x (partner x.handleDest F) n k r
  returns : stRewriteStack mem x = .ok (some out)

section
variable {mem : Mem} {h other : Handle} {n : Nat} {F : Nat → VFrame} {k : Nat}

theorem vframe_found {regs : RegSet} {f : VFrame} (hf : vframe h regs = some f) : getSiteByAddr h f.site.addr = some f.site := by
  obtain ⟨site, hsite, rfl⟩ := Option.map_eq_some_iff.mp hf
  rw [(getSiteByAddr_mem hsite).2]
  exact hsite

theorem Stacked.sites (hs : Stacked mem h other n F) (hk : k < n) : getSiteByAddr h (F k).site.addr = some (F k).site := by
  cases k with
  | zero => exact hs.found
  | succ k => exact vframe_found (hs.next k hk)

theorem Stacked.dest (hs : Stacked mem h other n F) (h0 : 0 < k) (hk : k < n) :
    getSiteById other (F k).site.id = some (partner other F k) := by
  obtain ⟨s, hs'⟩ := hs.known k h0 hk
  unfold partner
  rw [hs']
  rfl

theorem Stacked.layout (hs : Stacked mem h other n F) (hw : Described h) (hk : k + 1 < n) : SiteLayout h (F k).site :=
  hw.sites _ _ (hs.sites (by omega)) (hs.inner k hk)

theorem Stacked.sp_succ (hs : Stacked mem h other n F) (hk : k + 1 < n) : (getRegops h.arch).sp (F (k + 1)).regs = (F k).cfa :=
  vnext_sp (hs.framed k hk).lt (hs.next k hk)

/-- Frames further out are further up. -/
theorem Stacked.sp_mono (hs : Stacked mem h other n F) {j : Nat} (hjk : j ≤ k) (hk : k < n) :
    (getRegops h.arch).sp (F j).regs ≤ (getRegops h.arch).sp (F k).regs := by
  induction k with
  | zero => rw [Nat.le_zero.mp hjk]
  | succ k ih =>
    obtain rfl | hlt := Nat.eq_or_lt_of_le hjk
    · exact Nat.le_refl _
    · have hle := ih (by omega) (by omega)
      rw [hs.sp_succ hk, (hs.framed k hk).cfa]
      omega

end

/-! ## What the rewrite is proved under -/

section
variable {mem : Mem} {x : RewriteArgs} {n : Nat} {F : Nat → VFrame} {out : Rewritten} {k : Nat}

/-- The records of the values of the frames. -/
abbrev frameGroups (p : Pairing x.handleSrc x.handleDest) (F : Nat → VFrame) (k : Nat) : List (Group × Group) := p.groups (F k).site.id

theorem Migrates.source (hm : Migrates mem x n F out) : SourceStack mem x n F (partner x.handleDest F) where
  two := hm.two
  first := hm.first
  visits := ⟨hm.stacked.next, fun _ h0 hk => hm.stacked.dest h0 hk⟩
  start := hm.stacked.start
  inner k _ hk := hm.stacked.inner k hk

variable (p : Pairing x.handleSrc x.handleDest)

include p in
theorem Migrates.addrs (hm : Migrates mem x n F out) : AddrsFound x n (partner x.handleDest F) :=
  fun _ h0 hk => p.right.byAddr _ _ (hm.stacked.dest h0 hk)

include p in
theorem Migrates.destSite (hm : Migrates mem x n F out) (h0 : 0 < k) (hk : k + 1 < n) :
    SiteLayout x.handleDest (partner x.handleDest F k) := by
  refine p.right.sites _ _ (hm.addrs p k h0 (by omega)) ?_
  rw [(getSiteById_mem (hm.stacked.dest h0 (show k < n by omega))).2]
  exact hm.stacked.inner k hk

include p in
theorem Migrates.layout (hm : Migrates mem x n F out) : StackLayout x (partner x.handleDest F) n where
  fits := hm.fits
  frames k h0 hk := by
    have hs := hm.destSite p h0 hk
    exact (hs.bounds hm.fits h0 (by omega)).layout hs h0

theorem Migrates.pair (hm : Migrates mem x n F out) (h0 : 0 < k) (hk : k + 1 < n) :
    PairedSite x.handleSrc x.handleDest (F k).site (partner x.handleDest F k) (frameGroups p F k) :=
  p.pair _ _ _ (p.left.byId _ _ (hm.stacked.sites (by omega))) (hm.stacked.dest h0 (by omega)) (hm.stacked.inner k hk)

/-- A source record of a frame is laid out. -/
theorem Migrates.record (hm : Migrates mem x n F out) (h0 : 0 < k) (hk : k + 1 < n) {g : Group × Group} (hg : g ∈ frameGroups p F k)
    {v : LiveValue} (hv : v ∈ g.1.records) : SlotAddressable x.handleSrc.arch v.type v.regnum v.valSize ∧
      ∀ sl ∈ valSlot x.handleSrc (F k).site v, SlotFine x.handleSrc (F k).site sl := by
  obtain ⟨haddr, hfine, -⟩ := (hm.pair p h0 hk).record (hm.stacked.layout p.left hk) hg hv
  exact ⟨haddr, hfine⟩

/-- Its address is in the frame. -/
theorem Migrates.bounds (hm : Migrates mem x n F out) (h0 : 0 < k) (hk : k + 1 < n) {g : Group × Group} (hg : g ∈ frameGroups p F k)
    {v : LiveValue} (hv : v ∈ g.1.records) {a : Nat} (ha : vaddr x.handleSrc (F k) v = some a) :
    (getRegops x.handleSrc.arch).sp (F k).regs ≤ a ∧ a + v.valSize + 16 ≤ (F k).cfa := by
  obtain ⟨haddr, hfine⟩ := hm.record p h0 hk hg hv
  exact (hm.stacked.framed k hk).bounds haddr hfine ha

theorem Migrates.matched (hm : Migrates mem x n F out) : Matched x n F (partner x.handleDest F) (frameGroups p F) := by
  have hcell : ∀ {k c}, 0 < k → k + 1 < n → c ∈ cellsOf (frameGroups p F k) → SameValue x.handleSrc.arch x.handleDest.arch c.1 c.2 := by
    intro k c h0 hk hc
    obtain ⟨g, hg, h1, h2⟩ := mem_cellsOf.mp hc
    rw [h1]
    exact (hm.pair p h0 hk).same g hg _ List.mem_cons_self _ h2
  constructor
  case toListed =>
    constructor
    case src => exact fun k h0 hk => (hm.pair p h0 hk).left
    case dest => exact fun k h0 hk => (hm.pair p h0 hk).right
    case numLive => exact fun k h0 hk => (hm.pair p h0 hk).numRight
    case isPtr => exact fun k h0 hk c hc => (hcell h0 hk hc).isPtr
    case isAlloca => exact fun k h0 hk c hc => (hcell h0 hk hc).isAlloca
  case size => exact fun k h0 hk c hc => (hcell h0 hk hc).size
  case alloca =>
    intro k h0 hk g hg ha
    obtain ⟨⟨-, hsrc⟩, hdups, hdest⟩ := (hm.pair p h0 hk).alloca g hg ha
    obtain ⟨haddr, hfine⟩ := hm.record p h0 hk hg List.mem_cons_self
    obtain ⟨o, ho⟩ := located_mem (h := x.handleSrc) (s := (F k).site) hsrc
    have hb : vaddr x.handleSrc (F k) g.1.first = some ((getRegops x.handleSrc.arch).fbp (F k).regs + o).toNat := by
      rw [(hm.stacked.framed k hk).vaddr_eq haddr hfine, ho]
      rfl
    have hbounds := hm.bounds p h0 hk hg List.mem_cons_self hb
    have htg : ∃ b', destAddr x n (partner x.handleDest F) k g.2.first = some b' := by
      unfold destAddr valTarget target
      obtain hdest | hdest := hdest
      · rw [hdest]
        exact ⟨_, rfl⟩
      · rw [hdest]
        exact ⟨_, rfl⟩
    obtain ⟨b', hb'⟩ := htg
    exact ⟨hdups, _, b', hb, hbounds.1, by omega, hb'⟩
  case apart =>
    intro k h0 hk c hc a ha
    obtain ⟨g, hg, h1, -⟩ := mem_cellsOf.mp hc
    rw [h1] at ha ⊢
    have hb := hm.bounds p h0 hk hg List.mem_cons_self ha
    have hlow := hm.stacked.sp_mono (Nat.zero_le k) (by omega)
    have hhigh : (F k).cfa ≤ (F (n - 2)).cfa := by
      rw [← hm.stacked.sp_succ hk, ← hm.stacked.sp_succ (show n - 2 + 1 < n by omega)]
      exact hm.stacked.sp_mono (by omega) (by omega)
    have := hm.apart
    omega

theorem Migrates.sourceLayout (hm : Migrates mem x n F out) : SourceLayout x n F (frameGroups p F) where
  pos := hm.sp
  span k hk := by
    rw [(hm.stacked.framed k hk).cfa]
    exact Nat.le_add_right _ _
  base := hm.base
  allocas := by
    -- two values of the frame share no byte
    intro k h0 hk c hc c' hc' addr hin hin'
    obtain ⟨g, hg, h1, h2⟩ := mem_cellsOf.mp hc
    obtain ⟨g', hg', h1', h2'⟩ := mem_cellsOf.mp hc'
    have hp := hm.pair p h0 hk
    obtain ⟨ha, b, hb, hle, hlt⟩ := hin
    obtain ⟨ha', b', hb', hle', hlt'⟩ := hin'
    rw [h1] at ha hb hlt
    rw [h1'] at ha' hb' hlt'
    have hone : ∀ {g : Group × Group} {c : LiveValue × LiveValue}, g ∈ frameGroups p F k → g.1.first.isAlloca = true → c.1 = g.1.first →
        c.2 ∈ g.2.records → c = (g.1.first, g.2.first) := by
      intro g c hg ha h1 h2
      have hdups := (hp.alloca g hg ha).2.1
      unfold Group.records at h2
      rw [hdups, List.mem_singleton] at h2
      exact Prod.ext h1 h2
    rw [hone hg ha h1 h2, hone hg' ha' h1' h2']
    obtain ⟨i, hi⟩ := List.mem_iff_getElem?.mp hg
    obtain ⟨i', hi'⟩ := List.mem_iff_getElem?.mp hg'
    by_cases hii : i = i'
    · subst hii
      cases hi.symm.trans hi'
      rfl
    · have := hp.bytes_apart (hm.stacked.layout p.left hk) (hm.stacked.framed k hk) rfl hi hi' hii hb hb'
      omega

end

end Popcorn.Runtime
