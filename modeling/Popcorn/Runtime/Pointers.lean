/-
  Popcorn.Runtime.Pointers — pointers into the stack are re-pointed.

  A live pointer into an alloca of its own frame or of a caller's has, after the rewrite, the
  address of the destination's alloca plus the same offset, at each of its locations: every
  cell is done, and no fixup waits for an alloca that was searched (`Rewriting`). An address is
  in one alloca at most (`SourceLayout`), so the alloca a fixup was resolved with is the one
  pointed into. `rewrite_val` skips a `va_list`, as it has another size on each architecture,
  so the pointers of the frames it calls are left waiting; `fixup_local_pointers` does not skip
  it, so those of its own frame are re-pointed. The start function is not rewritten.

  Proved:
  - `pointers_repointed`: every other pointer of a rewritten frame is re-pointed.
  - `pointers_not_repointed`: one into a caller's `va_list` or into the start function's is not.
-/

import Popcorn.Runtime.Preserve

namespace Popcorn.Runtime

open Popcorn.Lib Popcorn.Metadata

section
variable {mem : Mem} {x : RewriteArgs} {n : Nat} {sf : Nat → VFrame} {ds : Nat → CallSite} {gs : Nat → List (Group × Group)}
  {st : Dst} {k : Nat} {f : VFrame}

/-! ## The source's allocas -/

/-- The source stack: its frames end below its base, and its allocas are apart. -/
structure SourceLayout (x : RewriteArgs) (n : Nat) (sf : Nat → VFrame) (gs : Nat → List (Group × Group)) : Prop where
  pos : 0 < (getRegops x.handleSrc.arch).sp (sf 0).regs
  span : ∀ k, k + 1 < n → (getRegops x.handleSrc.arch).sp (sf k).regs ≤ (sf k).cfa
  base : ∀ k, k + 1 < n → (sf k).cfa ≤ x.spBaseSrc
  allocas : ∀ k, 0 < k → k + 1 < n → ∀ c ∈ cellsOf (gs k), ∀ c' ∈ cellsOf (gs k), ∀ addr,
    VContains x.handleSrc (sf k) c.1 addr → VContains x.handleSrc (sf k) c'.1 addr → c = c'

theorem vnext_sp {m0 : Mem} {h : Handle} {f f' : VFrame} (hlt : f.cfa < 18446744073709551616) (hn : vnext m0 h f = some f') :
    (getRegops h.arch).sp f'.regs = f.cfa := by
  obtain ⟨site, -, rfl⟩ := Option.map_eq_some_iff.mp hn
  exact sp_setSp _ _ hlt

/-- Frames further out are further up. -/
theorem SourceLayout.cfa_le (hsl : SourceLayout x n sf gs) (hs : SourceStack mem x n sf ds) {j k : Nat} (hjk : j < k) (hk : k < n) :
    (sf j).cfa ≤ (getRegops x.handleSrc.arch).sp (sf k).regs := by
  induction k with
  | zero => omega
  | succ k ih =>
    rw [vnext_sp (hs.cfa_lt (show k < n by omega)) (hs.visits.next k hk)]
    obtain h | rfl := Nat.lt_or_eq_of_le (Nat.le_of_lt_succ hjk)
    · exact Nat.le_trans (ih h (by omega)) (hsl.span k hk)
    · exact Nat.le_refl _

/-- An address of the stack is in one alloca at most. -/
theorem SourceLayout.alloca_unique (hsl : SourceLayout x n sf gs) (hs : SourceStack mem x n sf ds) (hl : StackLayout x ds n)
    (hm : Matched x n sf ds gs) {j j' addr : Nat} {a a' : LiveValue × LiveValue} (h0 : 0 < j) (hj : j + 1 < n) (h0' : 0 < j')
    (hj' : j' + 1 < n) (ha : a ∈ cellsOf (gs j)) (ha' : a' ∈ cellsOf (gs j')) (hin : VContains x.handleSrc (sf j) a.1 addr)
    (hin' : VContains x.handleSrc (sf j') a'.1 addr) : j = j' ∧ a = a' := by
  have hframe : ∀ {j : Nat} {a : LiveValue × LiveValue}, 0 < j → j + 1 < n → a ∈ cellsOf (gs j) →
      VContains x.handleSrc (sf j) a.1 addr → (getRegops x.handleSrc.arch).sp (sf j).regs ≤ addr ∧ addr < (sf j).cfa := by
    intro j a h0 hj ha hin
    obtain ⟨i, hi⟩ := List.mem_iff_getElem?.mp ha
    obtain ⟨halloca, b, hb, hle, hlt⟩ := hin
    obtain ⟨b1, -, hb1, hsp, hcfa, -⟩ := hm.alloca_bounds hl h0 hj hi halloca
    cases hb.symm.trans hb1
    omega
  have h1 := hframe h0 hj ha hin
  have h2 := hframe h0' hj' ha' hin'
  have hjj : j = j' := by
    apply Classical.byContradiction
    intro hne
    obtain hlt | hlt := Nat.lt_or_gt_of_ne hne
    · have := hsl.cfa_le hs hlt (by omega)
      omega
    · have := hsl.cfa_le hs hlt (by omega)
      omega
  subst hjj
  exact ⟨rfl, hsl.allocas j h0 hj a ha a' ha' addr hin hin'⟩

/-- A pointer into an alloca of frame `j` is into the stack, above the frames its owner `k` has
    called. -/
theorem SourceLayout.into_alloca (hsl : SourceLayout x n sf gs) (hs : SourceStack mem x n sf ds) (hl : StackLayout x ds n)
    (hm : Matched x n sf ds gs) {j k addr : Nat} {a : LiveValue × LiveValue} (h0 : 0 < k) (hkj : k ≤ j) (hj : j + 1 < n)
    (ha : a ∈ cellsOf (gs j)) (hin : VContains x.handleSrc (sf j) a.1 addr) : IntoStack x sf addr ∧ (sf (k - 1)).cfa ≤ addr := by
  obtain ⟨t, ht⟩ := List.mem_iff_getElem?.mp ha
  obtain ⟨halloca, b, hb, hle, hlt⟩ := hin
  obtain ⟨b1, -, hb1, hsp, hcfa, -⟩ := hm.alloca_bounds hl (by omega) hj ht halloca
  cases hb1.symm.trans hb
  have hsp0 : (getRegops x.handleSrc.arch).sp (sf 0).regs ≤ (sf 0).cfa := hsl.span 0 (by omega)
  have hcallee := hsl.cfa_le hs (show k - 1 < j by omega) (by omega)
  have hfirst := hsl.cfa_le hs (show 0 < j by omega) (by omega)
  have hbase := hsl.base j hj
  have hpos := hsl.pos
  exact ⟨⟨by omega, by omega, by omega⟩, by omega⟩

/-! ## Pointers -/

/-- The address of a destination record is the same in its virtual frame. -/
theorem DestAt.vaddr (hf : DestAt x n ds st k f) {w : LiveValue} (haddr : Addressable x w.type w.regnum w.valSize) {a : Nat}
    (ha : destAddr x n ds k w = some a) : vaddr x.handleDest f w = some a := by
  unfold destAddr valTarget target at ha
  unfold Addressable at haddr
  unfold Popcorn.Runtime.vaddr
  cases ht : LocationType.ofCode w.type with
  | none =>
    rw [ht] at ha
    cases ha
  | some t =>
    rw [ht] at ha haddr
    cases t with
    | register => cases ha
    | direct =>
      obtain ⟨off, hoff, hbase⟩ := hf.base haddr
      rw [hoff]
      dsimp only
      rw [hbase]
      exact ha
    | indirect =>
      obtain ⟨off, hoff, hbase⟩ := hf.base haddr
      rw [hoff]
      dsimp only
      rw [hbase]
      exact ha
    | constant => cases ha
    | constIdx => cases ha

/-- The pointers of the cell `c` of frame `k` into the alloca `a` of frame `j` have its address in
    the destination, with the same offset. -/
def Repoints (mem : Mem) (x : RewriteArgs) (sf : Nat → VFrame) (out : Rewritten) (df : Nat → VFrame) (k : Nat)
    (c : LiveValue × LiveValue) (j : Nat) (a : LiveValue × LiveValue) : Prop :=
  ∀ addr, VPoints mem x.handleSrc (sf k) c.1 addr → VContains x.handleSrc (sf j) a.1 addr →
    ∃ b b', vaddr x.handleSrc (sf j) a.1 = some b ∧ vaddr x.handleDest (df j) a.2 = some b' ∧
      vread out.mem x.handleDest (df k) c.2 8 = some (leBytes 8 (b' + (addr - b)))

/-- Every pointer of a frame `k` with `P` into an alloca of a frame `j` with `Q`, the same one or
    a caller's, is re-pointed at each of its locations. -/
def PointersRepointed (mem : Mem) (x : RewriteArgs) (n : Nat) (sf : Nat → VFrame) (gs : Nat → List (Group × Group)) (out : Rewritten)
    (P : Nat → LiveValue × LiveValue → Prop) (Q : Nat → Nat → LiveValue × LiveValue → Prop) : Prop :=
  ∃ df, Unwinds out.mem x.handleDest out.regs n df ∧ ∀ k j, 0 < k → k ≤ j → j < n → ∀ c ∈ cellsOf (gs k), ∀ a ∈ cellsOf (gs j),
    Located (getRegops x.handleDest.arch) c.2.type c.2.regnum → P k c → Q k j a → Repoints mem x sf out df k c j a

/-- The alloca is not a `va_list` of a caller. -/
def NoCallersVaList (k j : Nat) (a : LiveValue × LiveValue) : Prop := k < j → skipVaList a.1 a.2 = false

/-- A rewrite that returns 0 re-points every pointer into an alloca of a rewritten frame, but for
    a `va_list` of a caller, where no stale bit hides the pointer's place. -/
theorem pointers_repointed (mem : Mem) (x : RewriteArgs) (n : Nat) (sf : Nat → VFrame) (ds : Nat → CallSite)
    (gs : Nat → List (Group × Group)) (hs : SourceStack mem x n sf ds) (hl : StackLayout x ds n) (hm : Matched x n sf ds gs)
    (hsl : SourceLayout x n sf gs) (haddr : AddrsFound x n ds) (out : Rewritten) (h : stRewriteStack mem x = .ok (some out)) :
    PointersRepointed mem x n sf gs out (fun k c => LocationType.ofCode c.2.type = some .register → NoStaleBit x ds n k c.2.regnum)
      (fun k j a => j + 1 < n ∧ NoCallersVaList k j a) := by
  obtain ⟨st, hr, rfl⟩ := stRewriteStack_rewriting hl hm hs h
  obtain ⟨df, hdf, hat⟩ := hr.unwinds hl hs.two haddr
  refine ⟨df, hdf, ?_⟩
  intro k j h0 hkj _ c hc a ha hloc hns ⟨hj, hskip⟩ addr hp hin
  have hk : k + 1 < n := by omega
  obtain ⟨i, hi⟩ := List.mem_iff_getElem?.mp hc
  obtain ⟨t, ht⟩ := List.mem_iff_getElem?.mp ha
  obtain ⟨hcaddr, hcfine⟩ := hm.cell_fine hl.bodies h0 hk hi
  obtain ⟨tg, htg⟩ := Located.valTarget x ds n k hloc
  obtain ⟨b, b', hb, hsp, hcfa, hb', -⟩ := hm.alloca_bounds hl (by omega) hj ht hin.1
  have hsize := hm.pointer_size hl h0 hk hi hp.1 hp.2.1
  refine ⟨b, b', hb, (hat j (by omega) (by omega)).vaddr (hm.cell_fine hl.bodies (by omega) hj ht).1 hb', ?_⟩
  obtain ⟨hinto, hbelow⟩ := hsl.into_alloca hs hl hm h0 hkj hj ha hin
  have hblocked : ¬ Blocked x ds n k tg := by
    cases tg with
    | mem a len => exact id
    | reg r =>
      obtain ⟨hreg, rfl⟩ := valTarget_reg htg
      exact fun h => h (hns hreg)
  obtain hq | ⟨d, ⟨j', hkj', hj', a', ha', hin', b2, b2', hb2, hb2', rfl⟩, hhas⟩ := (hr.cell h0 hk hi).pointer addr hp hinto hbelow
  · -- no fixup waits for an alloca that was searched
    have hsearch : Searched (n - 1) 0 k j t a.1 a.2 := by
      obtain rfl | hlt := Nat.eq_or_lt_of_le hkj
      · exact .inl rfl
      · exact .inr ⟨hkj, ⟨by omega, .inl (by omega)⟩, hskip hlt⟩
    obtain ⟨-, -, hfalse⟩ := hr.settled _ hq j t a.1 a.2 ht hsearch hin
    cases hfalse
  · obtain ⟨rfl, rfl⟩ := hsl.alloca_unique hs hl hm (by omega) hj (by omega) hj' ha ha' hin hin'
    cases hb.symm.trans hb2
    cases hb'.symm.trans hb2'
    have hlen : 8 ≤ tg.len := hsize.1 ▸ hcaddr.len_le htg
    rw [(hat k h0 (by omega)).vread hcaddr htg (hcfine tg htg) hlen]
    have := (hhas tg htg hblocked).2
    rw [leBytes_length] at this
    exact congrArg some this

end

/-! ## Pointers of the migration -/

theorem demoSourceLayout (va dirty : Bool) : SourceLayout (demoArgs va dirty) 4 (demoFrame va) (demoGroups va) where
  pos := by revert va dirty; decide
  span k hk := by
    obtain rfl | rfl | rfl : k = 0 ∨ k = 1 ∨ k = 2 := by omega
    all_goals clear hk; revert va dirty; decide
  base k hk := by
    obtain rfl | rfl | rfl : k = 0 ∨ k = 1 ∨ k = 2 := by omega
    all_goals clear hk; revert va dirty; decide
  allocas k h0 hk c hc c' hc' addr hin hin' := by
    -- a frame has one alloca at most
    have hkey : ∀ c ∈ cellsOf (demoGroups va k), ∀ c' ∈ cellsOf (demoGroups va k), c.1.isAlloca = true → c'.1.isAlloca = true →
        c = c' := by
      clear hc hc' hin hin'
      obtain rfl | rfl : k = 1 ∨ k = 2 := by omega
      all_goals clear h0 hk; revert va; decide
    exact hkey c hc c' hc' hin.1 hin'.1

theorem pointers_repointed_demo : ∃ out, stRewriteStack demoMem (demoArgs false false) = .ok (some out) ∧
    PointersRepointed demoMem (demoArgs false false) 4 (demoFrame false) (demoGroups false) out
      (fun k c => LocationType.ofCode c.2.type = some .register → NoStaleBit (demoArgs false false) demoDs 4 k c.2.regnum)
      (fun k j a => j + 1 < 4 ∧ NoCallersVaList k j a) := by
  obtain ⟨out, hout⟩ := demo_returns false false
  exact ⟨out, hout, pointers_repointed demoMem (demoArgs false false) 4 (demoFrame false) demoDs (demoGroups false)
    (demoSourceStack false false) (demoStackLayout false false) (demoMatched false false) (demoSourceLayout false false)
    (demoAddrsFound false false) out hout⟩

/-- What a record of the frame `k` frames up the result of a migration holds. -/
def demoRead {α : Type} (x : RewriteArgs) (k : Nat) (g : Mem → VFrame → Option α) : Option α :=
  match stRewriteStack demoMem x with
  | .ok (some out) => ((ventry out.mem x.handleDest out.regs).bind fun f => vchain out.mem x.handleDest f k).bind (g out.mem)
  | _ => none

theorem demoRead_eq {α : Type} {x : RewriteArgs} {out : Rewritten} {n : Nat} {df : Nat → VFrame}
    (h : stRewriteStack demoMem x = .ok (some out)) (hdf : Unwinds out.mem x.handleDest out.regs n df) (g : Mem → VFrame → Option α)
    {k : Nat} (h0 : 0 < k) (hk : k < n) : demoRead x (k - 1) g = g out.mem (df k) := by
  have hchain : vchain out.mem x.handleDest (df 1) (k - 1) = some (df k) := by
    induction k with
    | zero => omega
    | succ k ih =>
      obtain rfl | h0 := Nat.eq_zero_or_pos k
      · rfl
      · have hprev := ih h0 (by omega)
        have hnext := hdf.next k h0 hk
        rw [show k + 1 - 1 = k - 1 + 1 by omega]
        unfold vchain
        rw [hprev]
        exact hnext
  unfold demoRead
  rw [h]
  dsimp only
  rw [hdf.entry, Option.bind_some, hchain]
  rfl

/-- A place that holds another address than the alloca's is not re-pointed. -/
theorem demo_not_repoints {x : RewriteArgs} {out : Rewritten} {n : Nat} {sf df : Nat → VFrame}
    (h : stRewriteStack demoMem x = .ok (some out)) (hdf : Unwinds out.mem x.handleDest out.regs n df) {k j addr base dest got : Nat}
    {c a : LiveValue × LiveValue} (h0 : 0 < k) (hkj : k ≤ j) (hj : j < n) (hp : VPoints demoMem x.handleSrc (sf k) c.1 addr)
    (hin : VContains x.handleSrc (sf j) a.1 addr) (hbase : vaddr x.handleSrc (sf j) a.1 = some base)
    (hdest : demoRead x (j - 1) (fun _ f => vaddr x.handleDest f a.2) = some dest)
    (hgot : demoRead x (k - 1) (fun m f => vread m x.handleDest f c.2 8) = some (leBytes 8 got))
    (hne : (dest + (addr - base)) % 2 ^ (8 * 8) ≠ got % 2 ^ (8 * 8)) : ¬ Repoints demoMem x sf out df k c j a := by
  intro hrep
  obtain ⟨b, b', hb, hb', hread⟩ := hrep addr hp hin
  rw [demoRead_eq h hdf _ h0 (by omega)] at hgot
  rw [demoRead_eq h hdf _ (by omega) hj] at hdest
  cases hb.symm.trans hbase
  cases hb'.symm.trans hdest
  have := congrArg leVal (Option.some.inj (hread.symm.trans hgot))
  rw [leVal_leBytes, leVal_leBytes] at this
  exact hne this

/-- A pointer into a `va_list` of a caller is not re-pointed: the rewrite skips the `va_list`. -/
theorem va_list_not_repointed : ∃ out, SourceStack demoMem (demoArgs true false) 4 (demoFrame true) demoDs ∧
    StackLayout (demoArgs true false) demoDs 4 ∧ Matched (demoArgs true false) 4 (demoFrame true) demoDs (demoGroups true) ∧
    SourceLayout (demoArgs true false) 4 (demoFrame true) (demoGroups true) ∧ AddrsFound (demoArgs true false) 4 demoDs ∧
    stRewriteStack demoMem (demoArgs true false) = .ok (some out) ∧
    ¬ PointersRepointed demoMem (demoArgs true false) 4 (demoFrame true) (demoGroups true) out (fun _ _ => True) fun _ j _ => j + 1 < 4 := by
  obtain ⟨out, hout⟩ := demo_returns true false
  refine ⟨out, demoSourceStack true false, demoStackLayout true false, demoMatched true false, demoSourceLayout true false,
    demoAddrsFound true false, hout, ?_⟩
  rintro ⟨df, hdf, h⟩
  have hptr : (demoPtr 6, demoPtr 29) ∈ cellsOf (demoGroups true 1) := by decide
  have hva : (demoAlloca 6 (-40) 24, demoAlloca 29 (-48) 32) ∈ cellsOf (demoGroups true 2) := by decide
  have hp : VPoints demoMem (demoSrc true) (demoFrame true 1) (demoPtr 6) 0x1003C := ⟨rfl, rfl, by decide⟩
  have hbase : vaddr (demoSrc true) (demoFrame true 2) (demoAlloca 6 (-40) 24) = some 0x10038 := by decide
  have hrep := h 1 2 (by decide) (by decide) (by decide) _ hptr _ hva ⟨.inr (.inr rfl), 248, rfl⟩ trivial (by decide)
  -- the place still holds what was there before
  have hgot : demoRead (demoArgs true false) 0 (fun m f => vread m (demoDest true) f (demoPtr 29) 8) = some (leBytes 8 0) := by
    decide +kernel
  have hdest : demoRead (demoArgs true false) 1 (fun _ f => vaddr (demoDest true) f (demoAlloca 29 (-48) 32)) = some 0x3FFA0 := by
    decide +kernel
  exact demo_not_repoints (c := (demoPtr 6, demoPtr 29)) (a := (demoAlloca 6 (-40) 24, demoAlloca 29 (-48) 32)) hout hdf (by decide)
    (by decide) (by decide) hp ⟨rfl, _, hbase, by decide, by decide⟩ hbase hdest hgot (by decide) hrep

/-! ## Pointers into the start function -/

/-- The call site of one function and of the start function it runs under, which has the alloca. -/
def startSites (base : UInt64) (size1 size2 : UInt32) : List CallSite :=
  [⟨1, base + 0x100, size1, 2, 0, 1, 0, 0, 0⟩, ⟨uint64Max, base + 0x200, size2, 3, 0, 2, 1, 0, 0⟩]

def startSrc : Handle :=
  { demoSrc false with
    sitesId := [⟨1, 0x1100, 32, 2, 0, 1, 0, 0, 0⟩, demoStop, ⟨uint64Max, 0x1200, 64, 3, 0, 2, 1, 0, 0⟩]
    sitesAddr := demoStop :: startSites 0x1000 32 64
    sites_len := rfl }

def startDest : Handle :=
  { demoDest false with sitesId := startSites 0x5000 48 80, sitesAddr := startSites 0x5000 48 80, sites_len := rfl }

def startArgs : RewriteArgs := { demoArgs false false with handleSrc := startSrc, handleDest := startDest }

def startFrame : Nat → VFrame
  | 0 => ⟨demoStop, demoRegs, 0x10010⟩
  | k + 1 => (vnext demoMem startSrc (startFrame k)).getD ⟨emptyCallSite, demoRegs, 0⟩

def startDs (k : Nat) : CallSite := (emptyCallSite :: startSites 0x5000 48 80).getD k emptyCallSite

theorem startSourceStack : SourceStack demoMem startArgs 3 startFrame startDs where
  two := by decide
  first := by
    have hsite : getSiteByAddr startSrc (UInt64.ofNat ((getRegops startSrc.arch).pc demoRegs)) = some demoStop := by decide
    have hsp : padd ((getRegops startSrc.arch).sp demoRegs) demoStop.frameSize.toNat = 0x10010 := by decide
    show vframe startSrc demoRegs = _
    unfold vframe
    rw [hsite]
    simp only [Option.map_some, hsp]
    rfl
  visits := by
    constructor
    · intro k hk
      have hsome : (vnext demoMem startSrc (startFrame k)).isSome = true := by
        obtain rfl | rfl : k = 0 ∨ k = 1 := by omega
        all_goals decide
      obtain ⟨f, hf⟩ := Option.isSome_iff_exists.mp hsome
      show vnext demoMem startSrc (startFrame k) = some ((vnext demoMem startSrc (startFrame k)).getD _)
      rw [hf]
      rfl
    · intro k h0 hk
      show getSiteById startDest (startFrame k).site.id = some (startDs k)
      obtain rfl | rfl : k = 1 ∨ k = 2 := by omega
      all_goals decide
  start := by decide
  inner := by
    intro k h0 hk
    obtain rfl : k = 1 := by omega
    decide

theorem startStackLayout : StackLayout startArgs startDs 3 where
  fits := by constructor <;> decide
  frames k h0 hk := by
    obtain rfl : k = 1 := by omega
    refine ⟨⟨?_, ?_, ?_, ?_, ?_⟩, ?_, ?_, ?_, ?_, ?apart, ?_⟩
    case apart =>
      -- the frame has one value
      intro t t' hlt ht'
      have : (startDs 1).numLive.toNat = 1 := rfl
      omega
    all_goals decide

theorem startMatched : Matched startArgs 3 startFrame startDs (demoGroups false) where
  src k h0 hk := by
    obtain rfl : k = 1 := by omega
    apply GroupsAt.single <;> decide
  dest k h0 hk := by
    obtain rfl : k = 1 := by omega
    apply GroupsAt.single <;> decide
  numLive k h0 hk := by
    obtain rfl : k = 1 := by omega
    rfl
  size k h0 hk := by
    obtain rfl : k = 1 := by omega
    decide
  isPtr k h0 hk := by
    obtain rfl : k = 1 := by omega
    decide
  isAlloca k h0 hk := by
    obtain rfl : k = 1 := by omega
    decide
  alloca k h0 hk g hg ha := by
    obtain rfl : k = 1 := by omega
    obtain rfl := List.mem_singleton.mp hg
    cases ha
  apart k h0 hk := by
    obtain rfl : k = 1 := by omega
    have hkey : ∀ c ∈ cellsOf (demoGroups false 1), ∀ a ∈ vaddr startSrc (startFrame 1) c.1,
        a + c.1.valSize ≤ destLow startArgs 3 startDs ∨ destHigh startArgs 3 startDs ≤ a := by decide
    exact fun c hc a ha => hkey c hc a ha

theorem startSourceLayout : SourceLayout startArgs 3 startFrame (demoGroups false) where
  pos := by decide
  span k hk := by
    obtain rfl | rfl : k = 0 ∨ k = 1 := by omega
    all_goals decide
  base k hk := by
    obtain rfl | rfl : k = 0 ∨ k = 1 := by omega
    all_goals decide
  allocas k h0 hk c hc c' hc' addr hin hin' := by
    obtain rfl : k = 1 := by omega
    obtain rfl : c = (demoPtr 6, demoPtr 29) := List.mem_singleton.mp hc
    cases hin.1

theorem startAddrsFound : AddrsFound startArgs 3 startDs := by
  intro k h0 hk
  obtain rfl | rfl : k = 1 ∨ k = 2 := by omega
  all_goals decide

/-- The start function's values are listed as those of the other frames are. -/
theorem startGroups : GroupsAt startSrc (startFrame 2).site.liveOffset ((demoGroups false 2).map Prod.fst) ∧
    GroupsAt startDest (startDs 2).liveOffset ((demoGroups false 2).map Prod.snd) := by
  constructor
  all_goals apply GroupsAt.single <;> decide

theorem start_returns : ∃ out, stRewriteStack demoMem startArgs = .ok (some out) := by
  apply returns_of_isSome
  decide +kernel

/-- A pointer into an alloca of the start function is not re-pointed: the start function is not
    rewritten. -/
theorem start_not_repointed : ∃ out, SourceStack demoMem startArgs 3 startFrame startDs ∧ StackLayout startArgs startDs 3 ∧
    Matched startArgs 3 startFrame startDs (demoGroups false) ∧ SourceLayout startArgs 3 startFrame (demoGroups false) ∧
    AddrsFound startArgs 3 startDs ∧ stRewriteStack demoMem startArgs = .ok (some out) ∧
    ¬ PointersRepointed demoMem startArgs 3 startFrame (demoGroups false) out (fun _ _ => True) NoCallersVaList := by
  obtain ⟨out, hout⟩ := start_returns
  refine ⟨out, startSourceStack, startStackLayout, startMatched, startSourceLayout, startAddrsFound, hout, ?_⟩
  rintro ⟨df, hdf, h⟩
  have hptr : (demoPtr 6, demoPtr 29) ∈ cellsOf (demoGroups false 1) := by decide
  have halloca : (demoAlloca 6 (-40) 16, demoAlloca 29 (-48) 16) ∈ cellsOf (demoGroups false 2) := by decide
  have hp : VPoints demoMem startSrc (startFrame 1) (demoPtr 6) 0x1003C := ⟨rfl, rfl, by decide⟩
  have hbase : vaddr startSrc (startFrame 2) (demoAlloca 6 (-40) 16) = some 0x10038 := by decide
  have hrep := h 1 2 (by decide) (by decide) (by decide) _ hptr _ halloca ⟨.inr (.inr rfl), 248, rfl⟩ trivial (fun _ => rfl)
  -- the place still holds what was there before
  have hgot : demoRead startArgs 0 (fun m f => vread m startDest f (demoPtr 29) 8) = some (leBytes 8 0) := by decide +kernel
  have hdest : demoRead startArgs 1 (fun _ f => vaddr startDest f (demoAlloca 29 (-48) 16)) = some 0x3FFC0 := by decide +kernel
  exact demo_not_repoints (c := (demoPtr 6, demoPtr 29)) (a := (demoAlloca 6 (-40) 16, demoAlloca 29 (-48) 16)) hout hdf (by decide)
    (by decide) (by decide) hp ⟨rfl, _, hbase, by decide, by decide⟩ hbase hdest hgot (by decide) hrep

/-- The two pointers that are left: one into a caller's `va_list`, although its frame is rewritten,
    and one into the start function's alloca, although it is no `va_list`. -/
theorem pointers_not_repointed :
    (∃ out, SourceStack demoMem (demoArgs true false) 4 (demoFrame true) demoDs ∧
      StackLayout (demoArgs true false) demoDs 4 ∧ Matched (demoArgs true false) 4 (demoFrame true) demoDs (demoGroups true) ∧
      SourceLayout (demoArgs true false) 4 (demoFrame true) (demoGroups true) ∧ AddrsFound (demoArgs true false) 4 demoDs ∧
      stRewriteStack demoMem (demoArgs true false) = .ok (some out) ∧
      ¬ PointersRepointed demoMem (demoArgs true false) 4 (demoFrame true) (demoGroups true) out (fun _ _ => True)
        fun _ j _ => j + 1 < 4) ∧
    ∃ out, SourceStack demoMem startArgs 3 startFrame startDs ∧ StackLayout startArgs startDs 3 ∧
      Matched startArgs 3 startFrame startDs (demoGroups false) ∧ SourceLayout startArgs 3 startFrame (demoGroups false) ∧
      AddrsFound startArgs 3 startDs ∧ stRewriteStack demoMem startArgs = .ok (some out) ∧
      GroupsAt startSrc (startFrame 2).site.liveOffset ((demoGroups false 2).map Prod.fst) ∧
      GroupsAt startDest (startDs 2).liveOffset ((demoGroups false 2).map Prod.snd) ∧
      ¬ PointersRepointed demoMem startArgs 3 startFrame (demoGroups false) out (fun _ _ => True) NoCallersVaList := by
  refine ⟨va_list_not_repointed, ?_⟩
  obtain ⟨out, hs, hl, hm, hsl, haddr, hout, hnot⟩ := start_not_repointed
  exact ⟨out, hs, hl, hm, hsl, haddr, hout, startGroups.1, startGroups.2, hnot⟩

end Popcorn.Runtime
