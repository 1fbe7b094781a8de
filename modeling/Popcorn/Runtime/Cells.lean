/-
  Popcorn.Runtime.Cells — the live values of a stack as cells.

  A cell is one location record of a destination frame with the source record whose value
  belongs there. `Kept` is what holds of the cells a rewrite has done: a cell holds its
  value, or, if the value points into the source stack, the re-pointed address or a fixup
  that waits in the queue. Puts go to places, and the places of different cells are apart,
  so a put only changes its own cell.

  Proved:
  - `rewriteGroups_rounds`, `cellsOf_rounds`: the rounds of `rewrite_frame` are the cells.
  - `Wrote.sameCell`, `CellKept.same`: a put to another place keeps a cell.
  - `Around.wrote`: what lies outside the rewritten frames stays.
-/

import Popcorn.Runtime.Groups
import Popcorn.Runtime.Places

namespace Popcorn.Runtime

open Popcorn.Lib Popcorn.Metadata

/-! ## Values of a virtual frame -/

/-- The address of a record that stands in memory. -/
def vaddr (h : Handle) (f : VFrame) (v : LiveValue) : Option Nat :=
  match LocationType.ofCode v.type, (getRegops h.arch).reg v.regnum with
  | some .direct, .ok off | some .indirect, .ok off => some (padd (rget f.regs off) v.offsetOrConstant.toInt)
  | _, _ => none

/-- The first `len` bytes at a record's register or address. -/
def vread (mem : Mem) (h : Handle) (f : VFrame) (v : LiveValue) (len : Nat) : Option (List UInt8) :=
  match LocationType.ofCode v.type, (getRegops h.arch).reg v.regnum with
  | some .register, .ok off => some (load f.regs off len)
  | some .direct, .ok off | some .indirect, .ok off => some (load mem (padd (rget f.regs off) v.offsetOrConstant.toInt) len)
  | _, _ => none

/-- The record is a pointer, not an alloca, to `addr`. -/
def VPoints (mem : Mem) (h : Handle) (f : VFrame) (v : LiveValue) (addr : Nat) : Prop :=
  v.isPtr = true ∧ v.isAlloca = false ∧ (vread mem h f v 8).map leVal = some addr

/-- The address lies in the bytes of an alloca. -/
def VContains (h : Handle) (f : VFrame) (v : LiveValue) (addr : Nat) : Prop :=
  v.isAlloca = true ∧ ∃ base, vaddr h f v = some base ∧ base ≤ addr ∧ addr < base + v.valSize

/-! ## Cells -/

/-- The cells of a frame: each destination record with the source record of its value. -/
def cellsOf (gs : List (Group × Group)) : List (LiveValue × LiveValue) :=
  gs.flatMap fun g => g.2.records.map fun w => (g.1.first, w)

/-- The rounds of `rewrite_frame`: each destination record with the index of the source's. -/
def roundsOf : Nat → List (Group × Group) → List (Nat × LiveValue)
  | _, [] => []
  | i, g :: gs => g.2.records.map (fun w => (i, w)) ++ roundsOf (i + g.1.records.length) gs

theorem rewriteGroups_rounds {src : Ctx} (gs : List (Group × Group)) : ∀ (i : Nat) (s : Bool × Dst),
    rewriteGroups src i gs s = (roundsOf i gs).foldlM (fun s p => rewriteOne src p.1 s p.2) s := by
  induction gs with
  | nil => intro i s; rfl
  | cons g gs ih =>
    intro i s
    unfold rewriteGroups roundsOf
    rw [List.foldlM_append, List.foldlM_map]
    exact congrArg _ (funext fun s => ih _ s)

theorem cellsOf_rounds {h : Handle} (gs : List (Group × Group)) : ∀ {i : Nat}, GroupsAt h i (gs.map Prod.fst) →
    cellsOf gs = (roundsOf i gs).map fun p => (h.liveVals p.1, p.2) := by
  induction gs with
  | nil => intro i _; rfl
  | cons g gs ih =>
    intro i hat
    rw [List.map_cons] at hat
    have hrest := ih hat.next
    unfold cellsOf at hrest ⊢
    unfold roundsOf
    rw [List.flatMap_cons, List.map_append, List.map_map, hrest]
    refine congrArg (· ++ _) ?_
    apply List.map_congr_left
    intro w _
    show _ = (h.liveVals i, w)
    rw [hat.first.1]

/-! ## The setting -/

section Def
variable (mem : Mem) (x : RewriteArgs) (n : Nat) (sf : Nat → VFrame) (ds : Nat → CallSite) (gs : Nat → List (Group × Group))

/-- The part of the destination stack that a rewrite writes. -/
def destLow : Nat := destCfa x ds n 0 - 8
def destHigh : Nat := destCfa x ds n (n - 2)

/-- The address is one of the source stack. -/
def IntoStack (addr : Nat) : Prop := (getRegops x.handleSrc.arch).sp (sf 0).regs ≤ addr ∧ addr < x.spBaseSrc ∧ addr ≠ 0

/-- The address of a destination record in memory. -/
def destAddr (k : Nat) (w : LiveValue) : Option Nat :=
  match valTarget x ds n k w with
  | some (.mem a _) => some a
  | _ => none

/-- The frames list the same values on both sides: `gs k` are those of frame `k`. -/
structure Listed : Prop where
  src : ∀ k, 0 < k → k + 1 < n → GroupsAt x.handleSrc (sf k).site.liveOffset ((gs k).map Prod.fst)
  dest : ∀ k, 0 < k → k + 1 < n → GroupsAt x.handleDest (ds k).liveOffset ((gs k).map Prod.snd)
  numLive : ∀ k, 0 < k → k + 1 < n → (ds k).numLive.toNat = (((gs k).map Prod.snd).flatMap Group.records).length
  isPtr : ∀ k, 0 < k → k + 1 < n → ∀ c ∈ cellsOf (gs k), c.2.isPtr = c.1.isPtr
  isAlloca : ∀ k, 0 < k → k + 1 < n → ∀ c ∈ cellsOf (gs k), c.2.isAlloca = c.1.isAlloca

/-- The values of the two sides match, and those of the source are not overwritten. -/
structure Matched : Prop extends Listed x n sf ds gs where
  /-- Only a `va_list` has another size. -/
  size : ∀ k, 0 < k → k + 1 < n → ∀ c ∈ cellsOf (gs k), c.2.valSize = c.1.valSize ∨ skipVaList c.1 c.2 = true
  /-- An alloca is one record, of bytes of its frame. -/
  alloca : ∀ k, 0 < k → k + 1 < n → ∀ g ∈ gs k, g.1.first.isAlloca = true → g.2.dups = [] ∧
    ∃ b b', vaddr x.handleSrc (sf k) g.1.first = some b ∧ (getRegops x.handleSrc.arch).sp (sf k).regs ≤ b ∧
      b + g.1.first.valSize ≤ (sf k).cfa ∧ destAddr x n ds k g.2.first = some b'
  /-- The values of the source are not where the destination is written. -/
  apart : ∀ k, 0 < k → k + 1 < n → ∀ c ∈ cellsOf (gs k), ∀ a, vaddr x.handleSrc (sf k) c.1 = some a →
    a + c.1.valSize ≤ destLow x n ds ∨ destHigh x n ds ≤ a

/-- `d` is the destination's address for a pointer of frame `k` into an alloca of its frame or
    of a caller's. -/
def Repointed (k addr d : Nat) : Prop :=
  ∃ j, k ≤ j ∧ j + 1 < n ∧ ∃ c ∈ cellsOf (gs j), VContains x.handleSrc (sf j) c.1 addr ∧
    ∃ b b', vaddr x.handleSrc (sf j) c.1 = some b ∧ destAddr x n ds j c.2 = some b' ∧ d = b' + (addr - b)

/-- What was at a place before the rewrite. -/
def before : Loc → Nat → List UInt8
  | .mem a, len => load mem a len
  | .reg _ off, len => load (x.freshDest.acts 0).regs off len

/-- The place of the record `w` of frame `k` holds the bytes, if `callee_saved_loc` finds it. -/
def CellHas (st : Dst) (k : Nat) (w : LiveValue) (bs : List UInt8) : Prop :=
  ∀ tg, valTarget x ds n k w = some tg → ¬ Blocked x ds n k tg → bs.length ≤ tg.len ∧ st.read (place x ds n k tg) bs.length = bs

/-- A place that `callee_saved_loc` does not find is never written. -/
def CellLost (st : Dst) (k : Nat) (w : LiveValue) : Prop :=
  ∀ tg, valTarget x ds n k w = some tg → Blocked x ds n k tg → st.read (place x ds n k tg) tg.len = before mem x (place x ds n k tg) tg.len

/-- What a rewrite has done for a cell of frame `k`, with the fixups `q` still to be resolved. -/
structure CellKept (q : List Fixup) (st : Dst) (k : Nat) (v w : LiveValue) : Prop where
  value : skipVaList v w = false → ∀ bs, vread mem x.handleSrc (sf k) v w.valSize = some bs →
    (∀ addr, VPoints mem x.handleSrc (sf k) v addr → ¬ IntoStack x sf addr) → CellHas x n ds st k w bs
  pointer : ∀ addr, VPoints mem x.handleSrc (sf k) v addr → IntoStack x sf addr → (sf (k - 1)).cfa ≤ addr →
    ⟨addr, k, w⟩ ∈ q ∨ ∃ d, Repointed x n sf ds gs k addr d ∧ CellHas x n ds st k w (leBytes 8 d)

/-- The cells done when record `t` of frame `m` is next. -/
def Done (m t k i : Nat) : Prop := 0 < k ∧ (k < m ∨ (k = m ∧ i < t))

/-- A state in which only bodies of frames were written since `st0`. -/
structure Around (st0 : Dst) (m : Nat) (st : Dst) : Prop where
  frames : DestFrames x n ds m st.ctx
  /-- Nothing outside the destination stack is written. -/
  outside : ∀ a len, a + len ≤ destLow x n ds ∨ destHigh x n ds ≤ a → load st.mem a len = load mem a len
  rest : ∀ l len, l.Final → (∀ i p len', i + 1 < n → Spot x ds n i p len' → l.Disj len p len') → st.read l len = st0.read l len

/-- The state of a rewrite at record `t` of frame `m`, which it has entered in state `st0`. -/
structure Kept (st0 : Dst) (m t : Nat) (q : List Fixup) (st : Dst) : Prop extends Around mem x n ds st0 m st where
  cells : ∀ k i v w, Done m t k i → (cellsOf (gs k))[i]? = some (v, w) → CellKept mem x n sf ds gs q st k v w
  lost : ∀ (k i : Nat) (v w : LiveValue), 0 < k → k + 1 < n → (cellsOf (gs k))[i]? = some (v, w) → CellLost mem x n ds st k w
  queue : ∀ f ∈ q, ∃ i v, Done m t f.act i ∧ (cellsOf (gs f.act))[i]? = some (v, f.destLoc) ∧
    VPoints mem x.handleSrc (sf f.act) v f.srcAddr ∧ IntoStack x sf f.srcAddr

/-- The rewrite looks for the pointers of frame `k` in the alloca of cell `i` of frame `j`:
    `rewrite_val` when the cell is done, but for a `va_list`, and `fixup_local_pointers` in every
    alloca of the frame itself. -/
def Searched (m t k j i : Nat) (v w : LiveValue) : Prop := j = k ∨ (k ≤ j ∧ Done m t j i ∧ skipVaList v w = false)

/-- No fixup waits for an alloca that was searched, unless it is one of the current frame that
    `fixup_local_pointers` will see to. -/
def Settled (m t : Nat) (q : List Fixup) (needs : Bool) : Prop :=
  ∀ f ∈ q, ∀ j i v w, (cellsOf (gs j))[i]? = some (v, w) → Searched m t f.act j i v w →
    VContains x.handleSrc (sf j) v f.srcAddr → j = m ∧ f.act = m ∧ needs = true

end Def

section
variable {mem : Mem} {x : RewriteArgs} {n : Nat} {sf : Nat → VFrame} {ds : Nat → CallSite} {gs : Nat → List (Group × Group)}

/-! ## Cells and their places -/

theorem cellsOf_snd (l : List (Group × Group)) : (cellsOf l).map Prod.snd = (l.map Prod.snd).flatMap Group.records := by
  unfold cellsOf
  rw [List.map_flatMap, List.flatMap_map]
  apply List.flatMap_congr
  intro g _
  rw [List.map_map]
  exact List.map_id _

/-- A cell's record is the destination's with its index. -/
theorem Listed.cell (hm : Listed x n sf ds gs) {k i : Nat} {v w : LiveValue} (h0 : 0 < k) (hk : k + 1 < n)
    (hc : (cellsOf (gs k))[i]? = some (v, w)) : i < (ds k).numLive.toNat ∧ destLive x ds k i = w := by
  have hw : (((gs k).map Prod.snd).flatMap Group.records)[i]? = some w := by
    rw [← cellsOf_snd, List.getElem?_map, hc]
    rfl
  refine ⟨?_, (hm.dest k h0 hk).records i w hw⟩
  rw [hm.numLive k h0 hk]
  exact (List.getElem?_eq_some_iff.mp hw).1

theorem Listed.cell_fine (hm : Listed x n sf ds gs) (hframes : ∀ k, 0 < k → k + 1 < n → FrameBody x ds n k) {k i : Nat}
    {v w : LiveValue} (h0 : 0 < k) (hk : k + 1 < n) (hc : (cellsOf (gs k))[i]? = some (v, w)) :
    Addressable x w.type w.regnum w.valSize ∧ ∀ tg ∈ valTarget x ds n k w, Fine x ds n k tg := by
  obtain ⟨hi, rfl⟩ := hm.cell h0 hk hc
  exact (hframes k h0 hk).live i hi

/-- A pointer has 8 bytes in the destination. -/
theorem Listed.pointer_size (hm : Listed x n sf ds gs) (hframes : ∀ k, 0 < k → k + 1 < n → FrameBody x ds n k) {k i : Nat}
    {v w : LiveValue} (h0 : 0 < k) (hk : k + 1 < n) (hc : (cellsOf (gs k))[i]? = some (v, w)) (hp : v.isPtr = true)
    (ha : v.isAlloca = false) : w.valSize = 8 := by
  have hmem := List.mem_of_getElem? hc
  have hp' := hm.isPtr k h0 hk _ hmem
  have ha' := hm.isAlloca k h0 hk _ hmem
  obtain ⟨hi, rfl⟩ := hm.cell h0 hk hc
  exact (hframes k h0 hk).pointer i hi (hp'.trans hp) (ha'.trans ha)

/-- Two cells have different targets. -/
theorem Matched.cell_apart (hm : Matched x n sf ds gs) (hl : StackLayout x ds n) {k i i' : Nat} {v w v' w' : LiveValue} (h0 : 0 < k)
    (hk : k + 1 < n) (hc : (cellsOf (gs k))[i]? = some (v, w)) (hc' : (cellsOf (gs k))[i']? = some (v', w')) (hne : i ≠ i')
    {tg tg' : Target} (ht : valTarget x ds n k w = some tg) (ht' : valTarget x ds n k w' = some tg') : tg.Disj tg' := by
  obtain ⟨hi, rfl⟩ := hm.cell h0 hk hc
  obtain ⟨hi', rfl⟩ := hm.cell h0 hk hc'
  obtain hlt | hlt := Nat.lt_or_gt_of_ne hne
  · exact (hl.frames k h0 hk).apart i i' hlt hi' tg ht tg' ht'
  · exact ((hl.frames k h0 hk).apart i' i hlt hi tg' ht' tg ht).symm

theorem Loc.Disj.mono_left {l p : Loc} {n n' len : Nat} (h : l.Disj n p len) (hle : n' ≤ n) : l.Disj n' p len :=
  (h.symm.mono hle).symm

theorem Spot.final {i len : Nat} {l : Loc} (h : Spot x ds n i l len) : l.Final := by
  cases h with
  | reg r ho => rfl
  | mem i a len h0 ha => trivial

/-! ## Writes and cells -/

/-- The place of the record `w` of frame `k` reads as before. -/
def SameCell (x : RewriteArgs) (n : Nat) (ds : Nat → CallSite) (st st' : Dst) (k : Nat) (w : LiveValue) : Prop :=
  ∀ tg, valTarget x ds n k w = some tg → ∀ len ≤ tg.len, st'.read (place x ds n k tg) len = st.read (place x ds n k tg) len

section
variable {st st' : Dst} {k : Nat} {v w : LiveValue}

theorem CellHas.same {bs : List UInt8} (h : CellHas x n ds st k w bs) (hs : SameCell x n ds st st' k w) :
    CellHas x n ds st' k w bs := by
  intro tg htg hb
  obtain ⟨hlen, hread⟩ := h tg htg hb
  exact ⟨hlen, (hs tg htg _ hlen).trans hread⟩

theorem CellLost.same (h : CellLost mem x n ds st k w) (hs : SameCell x n ds st st' k w) : CellLost mem x n ds st' k w := by
  intro tg htg hb
  exact (hs tg htg _ (Nat.le_refl _)).trans (h tg htg hb)

/-- A cell that is not written stays done, as its fixup does in the queue. -/
theorem CellKept.same {q q' : List Fixup} (h : CellKept mem x n sf ds gs q st k v w) (hs : SameCell x n ds st st' k w)
    (hq : ∀ addr, ⟨addr, k, w⟩ ∈ q → ⟨addr, k, w⟩ ∈ q' ∨ ∃ d, Repointed x n sf ds gs k addr d ∧ CellHas x n ds st' k w (leBytes 8 d)) :
    CellKept mem x n sf ds gs q' st' k v w := by
  refine ⟨?_, ?_⟩
  · intro hskip bs hbs hout
    exact (h.value hskip bs hbs hout).same hs
  · intro addr hp hin hle
    obtain hmem | ⟨d, hd, hhas⟩ := h.pointer addr hp hin hle
    · exact hq addr hmem
    · exact .inr ⟨d, hd, hhas.same hs⟩

/-- A put to another target is not seen at a cell's place. -/
theorem Wrote.sameCell (hl : StackLayout x ds n) {j : Nat} {tg : Target} (hw : Wrote st st' (place x ds n j tg) tg.len) (h0 : 0 < j)
    (hj : j + 1 < n) (h0' : 0 < k) (hk : k + 1 < n) (hfine : Fine x ds n j tg)
    (hfine' : ∀ tg' ∈ valTarget x ds n k w, Fine x ds n k tg')
    (hne : ∀ tg', valTarget x ds n k w = some tg' → k ≠ j ∨ tg'.Disj tg) : SameCell x n ds st st' k w := by
  intro tg' htg' len hlen
  obtain ⟨i, -, hspot⟩ := place_spot hl.bodies h0' hk (hfine' tg' htg')
  have hdisj := place_disj hl h0' hk h0 hj (hfine' tg' htg') hfine (hne tg' htg')
  exact hw.other _ _ hspot.final (hdisj.mono_left hlen)

theorem Spot.bounds {i a len : Nat} (h : Spot x ds n i (.mem a) len) : InFrame x ds n i a len ∧ 0 < i := by
  cases h with
  | mem _ _ _ h0 ha => exact ⟨ha, h0⟩

/-- The bodies of the rewritten frames are in the destination stack. -/
theorem Spot.inside (hf : Fits x ds n) {i a len : Nat} (hi : i + 1 < n) (h : Spot x ds n i (.mem a) len) :
    destLow x n ds ≤ a ∧ a + len ≤ destHigh x n ds := by
  obtain ⟨⟨h1, h2⟩, h0⟩ := h.bounds
  have hlow := destCfa_mono hf (Nat.zero_le (i - 1)) (by omega)
  have hhigh := destCfa_mono hf (show i ≤ n - 2 by omega) (by omega)
  unfold destLow destHigh
  omega

/-- A put writes in the body of a frame. -/
theorem Around.wrote (hl : StackLayout x ds n) {st0 : Dst} {m : Nat} {tg : Target} (h : Around mem x n ds st0 m st) (h0 : 0 < k)
    (hk : k + 1 < n) (hfine : Fine x ds n k tg) (hw : Wrote st st' (place x ds n k tg) tg.len) : Around mem x n ds st0 m st' := by
  obtain ⟨i, hik, hspot⟩ := place_spot hl.bodies h0 hk hfine
  refine ⟨h.frames.wrote hw, ?_, ?_⟩
  · intro a len hout
    have hread : st'.read (.mem a) len = st.read (.mem a) len := by
      apply hw.other (.mem a) len trivial
      generalize place x ds n k tg = p at hspot
      cases p with
      | mem b =>
        have := hspot.inside hl.fits (by omega)
        show a + len ≤ b ∨ b + tg.len ≤ a
        omega
      | reg j off => trivial
    exact hread.trans (h.outside a len hout)
  · intro l len hf hdisj
    rw [hw.other l len hf (hdisj i _ _ (by omega) hspot)]
    exact h.rest l len hf hdisj

end

end

end Popcorn.Runtime
