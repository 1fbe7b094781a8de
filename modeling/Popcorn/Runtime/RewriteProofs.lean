/-
  Popcorn.Runtime.RewriteProofs — rewriting a frame, and the whole stack.

  The loops of `rewrite_frame` take one record after the other (`rewriteVal_kept`); the
  values of the destination's own are put to places apart from all cells, and
  `fixup_local_pointers` resolves what points into the frame itself. `Rewriting` is the
  state between two frames: every cell of the frames before is done, no fixup waits for one
  of their allocas, and their return addresses and saved FBPs are in their slots.

  Proved:
  - `rewriteFrame_kept`: one frame.
  - `rewriteStep_rewriting`, `stRewriteStack_rule`, `stRewriteStack_rewriting`: a round, and the
    whole rewrite.
-/

import Popcorn.Runtime.Aborts
import Popcorn.Runtime.Values

namespace Popcorn.Runtime

open Popcorn.Lib Popcorn.Metadata

section
variable {mem : Mem} {x : RewriteArgs} {n : Nat} {sf : Nat → VFrame} {ds : Nat → CallSite} {gs : Nat → List (Group × Group)}
  (hl : StackLayout x ds n) (hm : Matched x n sf ds gs) {st0 st st' : Dst} {m t : Nat} {q : List Fixup}

/-! ## The destination's own values -/

include hl hm in
theorem putValArch_kept (h0 : 0 < m) (hmn : m + 1 < n) {i : Nat} {v : ArchLiveValue} (hi : i < (ds m).numArchLive.toNat)
    (hv : destArch x ds m i = some v) (hk : Kept mem x n sf ds gs st0 m t q st) (h : putValArch st v = .ok st') :
    Kept mem x n sf ds gs st0 m t q st' ∧ st'.ctx.stackPointers = st.ctx.stackPointers := by
  have hlay := hl.frames m h0 hmn
  obtain ⟨haddr, hfine⟩ := hlay.arch i hi v hv
  obtain ⟨tg, htg, hw⟩ := putValArch_wrote hl hk.frames h0 (Nat.le_refl m) hmn hk.frames.act haddr hfine h
  have hsame : ∀ (k i' : Nat) (v' w' : LiveValue), 0 < k → k + 1 < n → (cellsOf (gs k))[i']? = some (v', w') →
      SameCell x n ds st st' k w' := by
    intro k i' v' w' hk0 hkn hc
    apply hw.sameCell hl h0 hmn hk0 hkn (hfine tg htg) (hm.cell_fine hl.bodies hk0 hkn hc).2
    intro tg' htg'
    by_cases hkm : k = m
    · subst hkm
      obtain ⟨hi', rfl⟩ := hm.cell h0 hmn hc
      exact .inr (hlay.apartArch i' hi' i hi tg' htg' v hv tg htg)
    · exact .inl hkm
  refine ⟨⟨hk.toAround.wrote hl h0 hmn (hfine tg htg) hw, ?_, ?_, hk.queue⟩, hw.fixups⟩
  · intro k i' v' w' hdone hc
    have hkn : k + 1 < n := by
      unfold Done at hdone
      omega
    exact (hk.cells k i' v' w' hdone hc).same (hsame k i' v' w' hdone.1 hkn hc) fun _ => .inl
  · intro k i' v' w' hk0 hkn hc
    exact (hk.lost k i' v' w' hk0 hkn hc).same (hsame k i' v' w' hk0 hkn hc)

include hl hm in
theorem rewriteArchVals_kept (h0 : 0 < m) (hmn : m + 1 < n) (hk : Kept mem x n sf ds gs st0 m t q st)
    (h : (List.range' (ds m).archLiveOffset (ds m).numArchLive.toNat).foldlM rewriteArchVal st = .ok st') :
    Kept mem x n sf ds gs st0 m t q st' ∧ st'.ctx.stackPointers = st.ctx.stackPointers := by
  refine foldlM_range (P := fun _ s => Kept mem x n sf ds gs st0 m t q s ∧ s.ctx.stackPointers = st.ctx.stackPointers)
    _ _ ?_ h ⟨hk, rfl⟩
  intro i s s' hle hlt ⟨hs, hfix⟩ hstep
  unfold rewriteArchVal at hstep
  split at hstep
  · rename_i v hv
    rw [hs.frames.handle] at hv
    have hv' : destArch x ds m (i - (ds m).archLiveOffset) = some v := by
      unfold destArch
      rw [Nat.add_sub_cancel' hle]
      exact hv
    obtain ⟨hs', hfix'⟩ := putValArch_kept hl hm h0 hmn (by omega) hv' hs hstep
    exact ⟨hs', hfix'.trans hfix⟩
  · cases hstep

/-! ## The frame's values -/

section Frame
variable (hs : SourceStack mem x n sf ds) {src : Ctx} (hsrc : SrcFrame x sf m src) (h0 : 0 < m) (hmn : m + 1 < n)

include hl hm hs hsrc h0 hmn in
/-- The invariant rule of the walk over the values of a frame. -/
theorem rewriteGroups_rule {P : Nat → Bool → Dst → Prop} {b : Bool}
    (hstep : ∀ {t i : Nat} {v w : LiveValue} {b b' : Bool} {s s' : Dst}, x.handleSrc.liveVals i = v →
      (cellsOf (gs m))[t]? = some (v, w) → Kept mem x n sf ds gs st0 m t s.ctx.stackPointers s →
      Settled x sf gs m t s.ctx.stackPointers b → P t b s → rewriteVal src i s w = .ok (b', s') → P (t + 1) (b || b') s')
    (hk : Kept mem x n sf ds gs st0 m 0 st.ctx.stackPointers st) (hset : Settled x sf gs m 0 st.ctx.stackPointers false)
    (hp : P 0 false st) (h : rewriteGroups src (sf m).site.liveOffset (gs m) (false, st) = .ok (b, st')) :
    Kept mem x n sf ds gs st0 m (cellsOf (gs m)).length st'.ctx.stackPointers st' ∧
      Settled x sf gs m (cellsOf (gs m)).length st'.ctx.stackPointers b ∧ P (cellsOf (gs m)).length b st' := by
  have hcells := cellsOf_rounds (gs m) (hm.src m h0 hmn)
  rw [rewriteGroups_rounds] at h
  have hlen : (cellsOf (gs m)).length = (roundsOf (sf m).site.liveOffset (gs m)).length := by rw [hcells, List.length_map]
  rw [hlen]
  refine foldlM_index (P := fun t s => Kept mem x n sf ds gs st0 m t s.2.ctx.stackPointers s.2 ∧
    Settled x sf gs m t s.2.ctx.stackPointers s.1 ∧ P t s.1 s.2) ?_ ⟨hk, hset, hp⟩ h
  intro t p s s' hpt ⟨hk, hset, hp⟩ hround
  obtain ⟨⟨b1, st1⟩, h1, hround⟩ := bind_ok.mp hround
  cases hround
  have hc : (cellsOf (gs m))[t]? = some (x.handleSrc.liveVals p.1, p.2) := by
    rw [hcells, List.getElem?_map, hpt]
    rfl
  obtain ⟨hk1, hset1⟩ := rewriteVal_kept hl hm hs hsrc h0 hmn rfl hc hk hset h1
  exact ⟨hk1, hset1, hstep rfl hc hk hset hp h1⟩

include hl hm hs hsrc h0 hmn in
theorem rewriteGroups_kept {b : Bool} (hk : Kept mem x n sf ds gs st0 m 0 st.ctx.stackPointers st)
    (hset : Settled x sf gs m 0 st.ctx.stackPointers false)
    (h : rewriteGroups src (sf m).site.liveOffset (gs m) (false, st) = .ok (b, st')) :
    Kept mem x n sf ds gs st0 m (cellsOf (gs m)).length st'.ctx.stackPointers st' ∧
      Settled x sf gs m (cellsOf (gs m)).length st'.ctx.stackPointers b := by
  obtain ⟨hk1, hset1, -⟩ := rewriteGroups_rule hl hm hs hsrc h0 hmn (P := fun _ _ _ => True) (fun _ _ _ _ _ _ => trivial)
    hk hset trivial h
  exact ⟨hk1, hset1⟩

include hl hm hs hsrc h0 hmn in
/-- The search of `fixup_local_pointers` finds the alloca a pointer is into. -/
theorem searchGroups_moves (hd : DestFrames x n ds m st.ctx) {ptr : Nat} (l : List (Group × Group)) (hsub : ∀ g ∈ l, g ∈ gs m) :
    ∀ {d : Nat}, searchGroups src st.ctx ptr l = .ok d →
    (d ≠ 0 ∧ ∃ c ∈ cellsOf (gs m), Moves x n sf ds m c ptr d) ∨
      (d = 0 ∧ ∀ c ∈ cellsOf l, ¬ VContains x.handleSrc (sf m) c.1 ptr) := by
  induction l with
  | nil =>
    intro d h
    cases h
    exact .inr ⟨rfl, fun c hc => absurd hc List.not_mem_nil⟩
  | cons g l ih =>
    intro d h
    have hg := hsub g List.mem_cons_self
    have hcons : ∀ c ∈ cellsOf (g :: l), c.1 = g.1.first ∨ c ∈ cellsOf l := by
      intro c hc
      obtain ⟨g', hg', h1, h2⟩ := mem_cellsOf.mp hc
      obtain rfl | hg' := List.mem_cons.mp hg'
      · exact .inl h1
      · exact .inr (mem_cellsOf.mpr ⟨g', hg', h1, h2⟩)
    have hmem : (g.1.first, g.2.first) ∈ cellsOf (gs m) := mem_cellsOf.mpr ⟨g, hg, rfl, List.mem_cons_self⟩
    have hrest : ∀ {d}, ¬ VContains x.handleSrc (sf m) g.1.first ptr → searchGroups src st.ctx ptr l = .ok d →
        (d ≠ 0 ∧ ∃ c ∈ cellsOf (gs m), Moves x n sf ds m c ptr d) ∨
          (d = 0 ∧ ∀ c ∈ cellsOf (g :: l), ¬ VContains x.handleSrc (sf m) c.1 ptr) := by
      intro d hout h
      obtain hd | ⟨hz, hnone⟩ := ih (fun g' hg' => hsub g' (List.mem_cons_of_mem g hg')) h
      · exact .inl hd
      · refine .inr ⟨hz, ?_⟩
        intro c hc
        obtain he | hc := hcons c hc
        · rwa [he]
        · exact hnone c hc
    unfold searchGroups at h
    split at h
    · rename_i ha
      rw [Bool.and_eq_true] at ha
      obtain ⟨i, hi⟩ := List.mem_iff_getElem?.mp hmem
      obtain ⟨d1, h1, h⟩ := bind_ok.mp h
      obtain ⟨hne, hmove⟩ | ⟨hz, hout⟩ := pointsToData_moves hl hm hs hsrc h0 hmn hi ha.1 hd h1
      · rw [if_pos hne] at h
        cases h
        exact .inl ⟨hne, _, hmem, hmove⟩
      · rw [if_neg (fun e => e hz)] at h
        exact hrest hout h
    · rename_i ha
      apply hrest _ h
      intro hin
      have he : g.2.first.isAlloca = g.1.first.isAlloca := hm.isAlloca m h0 hmn _ hmem
      rw [he, hin.1] at ha
      exact ha rfl

include hm hsrc h0 hmn in
theorem localSearch_eq (hd : DestFrames x n ds m st.ctx) (ptr : Nat) :
    localSearch src st.ctx ptr st.ctx.cur.site.numLive.toNat src.cur.site.liveOffset st.ctx.cur.site.liveOffset =
      searchGroups src st.ctx ptr (gs m) := by
  have hsite : st.ctx.cur.site = ds m := (hd.cur_site (by omega)).trans (if_neg (by omega))
  have hsite' : src.cur.site = (sf m).site := congrArg VFrame.site hsrc.cur
  have hfuel := groups_le_records ((gs m).map Prod.snd)
  rw [List.length_map, ← hm.numLive m h0 hmn] at hfuel
  apply localSearch_groups (gs m)
  · rw [hsrc.handle, hsite']
    exact hm.src m h0 hmn
  · rw [hd.handle, hsite]
    exact hm.dest m h0 hmn
  · rw [hsite, hm.numLive m h0 hmn]
  · rw [hsite]
    exact hfuel

include hl hm h0 hmn in
/-- A pointer above the frame is into none of its allocas. -/
theorem not_contains_above {ptr : Nat} (h : (sf m).cfa < ptr) : ∀ c ∈ cellsOf (gs m), ¬ VContains x.handleSrc (sf m) c.1 ptr := by
  intro c hc hin
  obtain ⟨ha, b, hb, -, hlt⟩ := hin
  obtain ⟨i, hi⟩ := List.mem_iff_getElem?.mp hc
  obtain ⟨b', -, hb', -, hcfa, -⟩ := hm.alloca_bounds hl h0 hmn hi ha
  cases hb.symm.trans hb'
  omega

include hl hm hs hsrc h0 hmn in
/-- `fixup_local_pointers` leaves no pointer of the frame into one of its own allocas. -/
theorem fixupLoop_kept (fs : List Fixup) : ∀ {found : Bool} {kept : List Fixup} {st st' : Dst},
    Kept mem x n sf ds gs st0 m t (kept ++ fs) st → fixupLoop src found kept fs st = .ok st' →
    Kept mem x n sf ds gs st0 m t st'.ctx.stackPointers st' ∧ ∀ f ∈ st'.ctx.stackPointers, f ∈ kept ∨
      (f ∈ fs ∧ (f.act = m → ∀ c ∈ cellsOf (gs m), ¬ VContains x.handleSrc (sf m) c.1 f.srcAddr)) := by
  induction fs with
  | nil =>
    intro found kept st st' hk h
    cases h
    rw [List.append_nil] at hk
    exact ⟨hk.setFixups kept, fun f hf => .inl hf⟩
  | cons f fs ih =>
    intro found kept st st' hk h
    have hcfa : src.cur.cfa = (sf m).cfa := congrArg VFrame.cfa hsrc.cur
    -- the walk goes on with `f` in the list, or without it
    have hkeep : ∀ {found}, (f.act = m → ∀ c ∈ cellsOf (gs m), ¬ VContains x.handleSrc (sf m) c.1 f.srcAddr) →
        fixupLoop src found (kept ++ [f]) fs st = .ok st' →
        Kept mem x n sf ds gs st0 m t st'.ctx.stackPointers st' ∧ ∀ g ∈ st'.ctx.stackPointers, g ∈ kept ∨
          (g ∈ f :: fs ∧ (g.act = m → ∀ c ∈ cellsOf (gs m), ¬ VContains x.handleSrc (sf m) c.1 g.srcAddr)) := by
      intro found hout h
      rw [List.append_cons] at hk
      obtain ⟨hk', hrest⟩ := ih hk h
      refine ⟨hk', ?_⟩
      intro g hg
      obtain hg | ⟨hg, hgout⟩ := hrest g hg
      · obtain hg | hg := List.mem_append.mp hg
        · exact .inl hg
        · obtain rfl := List.mem_singleton.mp hg
          exact .inr ⟨List.mem_cons_self, hout⟩
      · exact .inr ⟨List.mem_cons_of_mem f hg, hgout⟩
    unfold fixupLoop at h
    split at h
    · split at h
      · rename_i hact
        rw [hsrc.act] at hact
        exact hkeep (fun e => absurd e hact) h
      · rename_i hact
        rw [hsrc.act, ne_eq, Classical.not_not] at hact
        obtain ⟨d, hd, h⟩ := bind_ok.mp h
        rw [localSearch_eq hm hsrc h0 hmn hk.frames] at hd
        obtain ⟨hne, c, hc, hmove⟩ | ⟨hz, hout⟩ := searchGroups_moves hl hm hs hsrc h0 hmn hk.frames (gs m) (fun g hg => hg) hd
        · rw [if_pos hne] at h
          obtain ⟨st1, h1, h⟩ := bind_ok.mp h
          obtain ⟨hk1, -⟩ := hk.resolve hl hm hmn (hmove.repointed (Nat.le_of_eq hact) hmn hc) h1
          obtain ⟨hk', hrest⟩ := ih hk1 h
          refine ⟨hk', ?_⟩
          intro g hg
          obtain hg | ⟨hg, hgout⟩ := hrest g hg
          · exact .inl hg
          · exact .inr ⟨List.mem_cons_of_mem f hg, hgout⟩
        · rw [if_neg (fun e => e hz)] at h
          exact hkeep (fun _ => hout) h
    · rename_i habove
      rw [hcfa] at habove
      split at h
      · cases h
      · exact hkeep (fun _ => not_contains_above hl hm h0 hmn (by omega)) h

/-- The states of `rewrite_frame` after its values (`st1`) and its arch-specific values (`st2`);
    `b` is `needs_local_fixup`. -/
structure FrameRun (mem : Mem) (x : RewriteArgs) (n : Nat) (sf : Nat → VFrame) (ds : Nat → CallSite)
    (gs : Nat → List (Group × Group)) (m : Nat) (src : Ctx) (found : Bool) (st : Dst) (b : Bool) (st1 st2 st' : Dst) : Prop where
  vals : rewriteVals src (ds m).numLive.toNat (sf m).site.liveOffset (ds m).liveOffset (false, st) = .ok (b, st1)
  groups : rewriteGroups src (sf m).site.liveOffset (gs m) (false, st) = .ok (b, st1)
  archs : (List.range' (ds m).archLiveOffset (ds m).numArchLive.toNat).foldlM rewriteArchVal st1 = .ok st2
  kept : ∀ {st0 : Dst}, Kept mem x n sf ds gs st0 m 0 st.ctx.stackPointers st →
    Kept mem x n sf ds gs st0 m (cellsOf (gs m)).length st1.ctx.stackPointers st1 ∧
      Kept mem x n sf ds gs st0 m (cellsOf (gs m)).length st2.ctx.stackPointers st2
  settled : Settled x sf gs m (cellsOf (gs m)).length st1.ctx.stackPointers b
  fixups : st2.ctx.stackPointers = st1.ctx.stackPointers
  last : (b = true ∧ fixupLoop src found [] st2.ctx.stackPointers st2 = .ok st') ∨ (b = false ∧ st' = st2)

include hl hm hs hsrc h0 hmn in
theorem rewriteFrame_run {found : Bool} (hk : Kept mem x n sf ds gs st0 m 0 st.ctx.stackPointers st)
    (hset : Settled x sf gs m 0 st.ctx.stackPointers false) (h : rewriteFrame src found st = .ok st') :
    ∃ b st1 st2, FrameRun mem x n sf ds gs m src found st b st1 st2 st' := by
  have hsite : st.ctx.cur.site = ds m := (hk.frames.cur_site (by omega)).trans (if_neg (by omega))
  have hsite' : src.cur.site = (sf m).site := congrArg VFrame.site hsrc.cur
  have hfuel := groups_le_records ((gs m).map Prod.snd)
  rw [List.length_map, ← hm.numLive m h0 hmn] at hfuel
  unfold rewriteFrame at h
  rw [hsite, hsite'] at h
  obtain ⟨⟨b, st1⟩, h1, h⟩ := bind_ok.mp h
  obtain ⟨st2, h2, h⟩ := bind_ok.mp h
  have hgroups := rewriteVals_groups (s := (false, st)) (gs m) hk.frames.handle hsite (hsrc.handle ▸ hm.src m h0 hmn) (hm.dest m h0 hmn)
    (by rw [hm.numLive m h0 hmn]) hfuel
  have h1' := h1
  rw [hgroups] at h1'
  refine ⟨b, st1, st2, ?_⟩
  constructor
  case vals => exact h1
  case groups => exact h1'
  case archs => exact h2
  case kept =>
    intro st0 hk
    have hk1 := (rewriteGroups_kept hl hm hs hsrc h0 hmn hk hset h1').1
    obtain ⟨hk2, hfix⟩ := rewriteArchVals_kept hl hm h0 hmn hk1 h2
    exact ⟨hk1, by rw [hfix]; exact hk2⟩
  case settled => exact (rewriteGroups_kept hl hm hs hsrc h0 hmn hk hset h1').2
  case fixups => exact (rewriteArchVals_kept hl hm h0 hmn (rewriteGroups_kept hl hm hs hsrc h0 hmn hk hset h1').1 h2).2
  case last =>
    cases b with
    | true => exact .inl ⟨rfl, h⟩
    | false => exact .inr ⟨rfl, (Except.ok.inj h).symm⟩

include hl hm hs hsrc h0 hmn in
/-- A frame is rewritten: all its cells are done, and no fixup waits for one of its allocas. -/
theorem rewriteFrame_kept {found : Bool} (hk : Kept mem x n sf ds gs st0 m 0 st.ctx.stackPointers st)
    (hset : Settled x sf gs m 0 st.ctx.stackPointers false) (h : rewriteFrame src found st = .ok st') :
    Kept mem x n sf ds gs st0 m (cellsOf (gs m)).length st'.ctx.stackPointers st' ∧
      Settled x sf gs m (cellsOf (gs m)).length st'.ctx.stackPointers false := by
  obtain ⟨b, st1, st2, hrun⟩ := rewriteFrame_run hl hm hs hsrc h0 hmn hk hset h
  have hk2 := (hrun.kept hk).2
  have hset2 := hrun.settled
  rw [← hrun.fixups] at hset2
  obtain ⟨rfl, h⟩ | ⟨rfl, rfl⟩ := hrun.last
  · obtain ⟨hk3, hrest⟩ := fixupLoop_kept hl hm hs hsrc h0 hmn _ (by exact hk2) h
    refine ⟨hk3, ?_⟩
    intro f hf j i v w hc hsearch hin
    obtain hf | ⟨hf, hout⟩ := hrest f hf
    · cases hf
    · obtain ⟨rfl, hact, -⟩ := hset2 f hf j i v w hc hsearch hin
      exact absurd hin (hout hact _ (List.mem_of_getElem? hc))
  · exact ⟨hk2, hset2⟩

end Frame

/-! ## Slots at the top of a frame -/

/-- The saved FBP and the return address of a frame are in no frame's body. -/
theorem slot_disj (hf : Fits x ds n) {k i a len len' : Nat} {p : Loc} (hk : k < n) (hi : i < n) (h1 : destCfa x ds n k ≤ a + 16)
    (h2 : a + len ≤ destCfa x ds n k) (hs : Spot x ds n i p len') : (Loc.mem a).Disj len p len' := by
  cases hs with
  | reg r ho => trivial
  | mem i b len' h0 hb =>
    obtain ⟨hb1, hb2⟩ := hb
    show a + len ≤ b ∨ b + len' ≤ a
    obtain hik | hik := Nat.lt_or_ge k i |>.symm
    · have := destCfa_mono hf hik hk
      omega
    · have := destCfa_mono hf (show k ≤ i - 1 by omega) (by omega)
      omega

/-- A register that keeps no values is in no frame's body. -/
theorem special_disj {r : UInt16} {o i len : Nat} {p : Loc} (hr : (getRegops x.handleDest.arch).reg r = .ok o) (hno : ¬ Ordinary x r)
    (hs : Spot x ds n i p len) : (Loc.reg 0 o).Disj 8 p len := by
  cases hs with
  | reg r' ho =>
    refine .inr (reg_disj hr (calleeSaved_cases ho.calleeSaved).1 ?_)
    intro e
    exact hno (e ▸ ho)
  | mem i b len' h0 hb => trivial

include hl in
/-- A write to the slots of frame `k` keeps all cells. -/
theorem Kept.slot (hk : Kept mem x n sf ds gs st0 m 0 q st) (hm : Matched x n sf ds gs) (hmn : m < n) {k a : Nat} {bs : List UInt8}
    (h0 : 0 < k) (hkn : k + 1 < n) (h1 : destCfa x ds n k ≤ a + 16) (h2 : a + bs.length ≤ destCfa x ds n k) :
    Kept mem x n sf ds gs (writeLoc st (.mem a) bs) m 0 q (writeLoc st (.mem a) bs) := by
  have hw := wrote_mem st a bs
  have hsame : ∀ (j i : Nat) (v w : LiveValue), 0 < j → j + 1 < n → (cellsOf (gs j))[i]? = some (v, w) →
      SameCell x n ds st (writeLoc st (.mem a) bs) j w := by
    intro j i v w hj0 hj hc tg htg len hlen
    obtain ⟨i', hi', hspot⟩ := place_spot hl.bodies hj0 hj ((hm.cell_fine hl.bodies hj0 hj hc).2 tg htg)
    apply hw.other _ _ hspot.final
    exact ((slot_disj hl.fits (by omega) (by omega) h1 h2 hspot).mono hlen).symm
  refine ⟨⟨hk.frames.wrote hw, ?_, fun _ _ _ _ => rfl⟩, ?_, ?_, hk.queue⟩
  · intro b len hout
    have hlow := destCfa_room hl.fits h0 (by omega) (hl.frames k h0 hkn)
    have hlow' := destCfa_mono hl.fits (Nat.zero_le (k - 1)) (by omega)
    have hhigh := destCfa_mono hl.fits (show k ≤ n - 2 by omega) (by omega)
    have hdisj : b + len ≤ a ∨ a + bs.length ≤ b := by
      unfold destLow destHigh at hout
      omega
    exact (load_store_disj st.mem hdisj).trans (hk.outside b len hout)
  · intro j i v w hdone hc
    have hj : j + 1 < n := by
      unfold Done at hdone
      omega
    exact (hk.cells j i v w hdone hc).same (hsame j i v w hdone.1 hj hc) fun _ => .inl
  · intro j i v w hj0 hj hc
    exact (hk.lost j i v w hj0 hj hc).same (hsame j i v w hj0 hj hc)

/-! ## The next frame -/

theorem DestFrames.popped {c : Ctx} (hd : DestFrames x n ds m c) (mem : Mem) (hmn : m + 1 < n) (hp : CanPop c) :
    DestFrames x n ds (m + 1) (popped mem c true) := by
  have hcfa := hd.cur_cfa
  have hb := popped_bounds mem c (by rw [hcfa]; exact destCfa_lt x ds n m)
  have hnext : (c.acts (m + 1)).site = ds (m + 1) := (hd.site (m + 1) hmn).trans (if_neg (by omega))
  rw [hd.act, hcfa, hnext, hd.handle] at hb
  refine ⟨hd.toDestRun.popped mem hmn hp, ?_, ?_⟩
  · intro k h0 hk
    obtain rfl | hk := Nat.eq_or_lt_of_le hk
    · exact hb.sp
    · rw [popped_acts_ne _ _ _ (by rw [hd.act]; omega)]
      exact hd.sp k h0 (by omega)
  · intro k h0 hk
    obtain rfl | hk := Nat.eq_or_lt_of_le hk
    · exact hb.fbp
    · rw [popped_acts_ne _ _ _ (by rw [hd.act]; omega)]
      exact hd.fbp k h0 (by omega)

/-- What is left of the state does not change when a frame is popped. -/
theorem read_popped {c : Ctx} (m' : Mem) (l : Loc) (len : Nat) (hf : l.Final) :
    (⟨popped m' c true, m'⟩ : Dst).read l len = (⟨c, m'⟩ : Dst).read l len := by
  cases l with
  | mem a => rfl
  | reg k off =>
    show load ((popped m' c true).acts k).regs off len = load (c.acts k).regs off len
    rw [popped_acts_ne _ _ _ (by rw [show k = 0 from hf]; omega)]

theorem Done.prev {j i : Nat} {c : LiveValue × LiveValue} (h : Done (m + 1) 0 j i) (hc : (cellsOf (gs j))[i]? = some c) :
    Done m (cellsOf (gs m)).length j i := by
  obtain ⟨h0, hj⟩ := h
  refine ⟨h0, ?_⟩
  obtain hjm | rfl := Nat.lt_or_eq_of_le (show j ≤ m by omega)
  · exact .inl hjm
  · exact .inr ⟨rfl, (List.getElem?_eq_some_iff.mp hc).1⟩

include hl hm in
/-- With all its records done, the rewrite moves to the next frame. -/
theorem Kept.popped (hk : Kept mem x n sf ds gs st0 m (cellsOf (gs m)).length q st) (hmn : m + 1 < n) (hp : CanPop st.ctx) :
    Kept mem x n sf ds gs ⟨popped st.mem st.ctx true, st.mem⟩ (m + 1) 0 q ⟨popped st.mem st.ctx true, st.mem⟩ := by
  have hread := read_popped (c := st.ctx) st.mem
  have hsame : ∀ (j i : Nat) (v w : LiveValue), 0 < j → j + 1 < n → (cellsOf (gs j))[i]? = some (v, w) →
      SameCell x n ds st ⟨Popcorn.Runtime.popped st.mem st.ctx true, st.mem⟩ j w := by
    intro j i v w hj0 hj hc tg htg len _
    obtain ⟨_, -, hspot⟩ := place_spot hl.bodies hj0 hj ((hm.cell_fine hl.bodies hj0 hj hc).2 tg htg)
    exact hread _ _ hspot.final
  refine ⟨⟨hk.frames.popped st.mem hmn hp, hk.outside, fun _ _ _ _ => rfl⟩, ?_, ?_, ?_⟩
  · intro j i v w hdone hc
    have hdone' := hdone.prev hc
    have hj : j + 1 < n := by
      unfold Done at hdone
      omega
    exact (hk.cells j i v w hdone' hc).same (hsame j i v w hdone.1 hj hc) fun _ => .inl
  · intro j i v w hj0 hj hc
    exact (hk.lost j i v w hj0 hj hc).same (hsame j i v w hj0 hj hc)
  · intro f hf
    obtain ⟨i, v, hdone, hrest⟩ := hk.queue f hf
    refine ⟨i, v, ?_, hrest⟩
    unfold Done at hdone ⊢
    omega

theorem Settled.next (h : Settled x sf gs m (cellsOf (gs m)).length q false) : Settled x sf gs (m + 1) 0 q false := by
  intro f hf j i v w hc hsearch hin
  obtain ⟨-, -, hfalse⟩ := h f hf j i v w hc (hsearch.imp id fun ⟨hle, hdone, hskip⟩ => ⟨hle, hdone.prev hc, hskip⟩) hin
  cases hfalse

/-! ## The slots over a rewrite -/

/-- The bounds and the return address of the function being entered, and the return addresses
    and saved FBPs of the frames before `m`. -/
structure Slots (x : RewriteArgs) (n : Nat) (ds : Nat → CallSite) (m : Nat) (st : Dst) : Prop where
  entrySp : (getRegops x.handleDest.arch).sp (st.ctx.acts 0).regs = destTop x.handleDest.arch x.spBaseDest (frameSpan ds (n - 1))
  entryFbp : (getRegops x.handleDest.arch).fbp (st.ctx.acts 0).regs = destFbp x ds n 1
  entryRa : Popcorn.Runtime.entryRa st.mem (getRegops x.handleDest.arch) (st.ctx.acts 0).regs = (ds 1).addr.toNat
  ra : ∀ k, 0 < k → k < m → readLe 8 st.mem (destCfa x ds n k - 8) = (ds (k + 1)).addr.toNat
  fbp : ∀ k, 0 < k → k < m → readLe 8 st.mem (destCfa x ds n k - 16) = destFbp x ds n (k + 1)

/-- The slots of the frames before `m` read as before. -/
structure SameSlots (x : RewriteArgs) (n : Nat) (ds : Nat → CallSite) (m : Nat) (st st' : Dst) : Prop where
  regs : ∀ r o, (getRegops x.handleDest.arch).reg r = .ok o → ¬ Ordinary x r → st'.read (.reg 0 o) 8 = st.read (.reg 0 o) 8
  slots : ∀ k a, k < m → destCfa x ds n k ≤ a + 16 → a + 8 ≤ destCfa x ds n k → st'.read (.mem a) 8 = st.read (.mem a) 8

theorem not_ordinary_sp : ¬ Ordinary x (spReg x.handleDest.arch) := fun ho => ho.ne_spReg rfl

theorem cfaOffset_of_raOff {a : Arch} (h : (getRegops a).raOff = none) : (getProperties a).cfaOffsetFuncentry.toNat = 8 := by
  cases a with
  | x86_64 => rfl
  | aarch64 => cases h

include hl in
theorem Slots.same (h0 : 0 < m) (hmn : m < n) (h : Slots x n ds m st) (hs : SameSlots x n ds m st st') : Slots x n ds m st' := by
  have hsp : (getRegops x.handleDest.arch).sp (st'.ctx.acts 0).regs = (getRegops x.handleDest.arch).sp (st.ctx.acts 0).regs :=
    congrArg leVal (hs.regs _ _ (reg_sp _) not_ordinary_sp)
  have hfbp : (getRegops x.handleDest.arch).fbp (st'.ctx.acts 0).regs = (getRegops x.handleDest.arch).fbp (st.ctx.acts 0).regs :=
    congrArg leVal (hs.regs _ _ (reg_fbp _) fun ho => ho.notFbp rfl)
  refine ⟨hsp.trans h.entrySp, hfbp.trans h.entryFbp, ?_, ?_, ?_⟩
  · refine Eq.trans ?_ h.entryRa
    unfold Popcorn.Runtime.entryRa
    obtain ⟨hnone, -⟩ | hsome := pc_of_raOff x.handleDest.arch
    · have hcfa := destCfa_zero hl.fits
      rw [cfaOffset_of_raOff hnone] at hcfa
      rw [hnone]
      dsimp only
      rw [hsp, h.entrySp]
      exact congrArg leVal (hs.slots 0 _ h0 (by omega) (by omega))
    · rw [hsome]
      exact congrArg leVal (hs.regs _ _ (calleeSaved_cases (raReg_calleeSaved _)).1 fun ho => ho.notRa rfl)
  · intro k hk0 hk
    have := destCfa_pos hl.fits (show k < n by omega)
    refine Eq.trans ?_ (h.ra k hk0 hk)
    exact congrArg leVal (hs.slots k _ hk (by omega) (by omega))
  · intro k hk0 hk
    have := destCfa_room hl.fits hk0 (by omega) (hl.frames k hk0 (by omega))
    refine Eq.trans ?_ (h.fbp k hk0 hk)
    exact congrArg leVal (hs.slots k _ hk (by omega) (by omega))

/-- Writes in the bodies of frames leave the slots alone. -/
theorem Around.sameSlots (hf : Fits x ds n) (hmn : m < n) {k : Nat} (h : Around mem x n ds st0 k st) : SameSlots x n ds m st0 st where
  regs r o hr hno := h.rest _ _ rfl fun _ _ _ _ hs => special_disj hr hno hs
  slots k a hk h1 h2 := h.rest _ _ trivial fun _ _ _ hi hs => slot_disj hf (by omega) (by omega) h1 h2 hs

include hl in
/-- So does a write to the slots of a frame further out. -/
theorem slot_sameSlots (st : Dst) (bs : List UInt8) {k a : Nat} (h0 : 0 < k) (hkn : k + 1 < n) (hmk : m ≤ k)
    (h1 : destCfa x ds n k ≤ a + 16) : SameSlots x n ds m st (writeLoc st (.mem a) bs) where
  regs r o _ _ := rfl
  slots j b hj _ hb := by
    have hroom := destCfa_room hl.fits h0 (by omega) (hl.frames k h0 hkn)
    have hle := destCfa_mono hl.fits (show j ≤ k - 1 by omega) (by omega)
    exact load_store_disj st.mem (by omega)

theorem popped_sameSlots {c : Ctx} (m' : Mem) : SameSlots x n ds m ⟨c, m'⟩ ⟨popped m' c true, m'⟩ where
  regs _ _ _ _ := read_popped m' _ _ rfl
  slots _ _ _ _ _ := read_popped m' _ _ trivial

/-! ## A round -/

section
variable {c : Ctx} (hd : DestRun x n ds m c)

include hl hd in
theorem DestRun.ra_slot (hmn : m < n) : padd c.cur.cfa c.props.raOffset = destCfa x ds n m - 8 := by
  have h8 := destCfa_pos hl.fits hmn
  have hlt := destCfa_lt x ds n m
  rw [hd.cur_cfa]
  unfold Ctx.props
  rw [hd.handle]
  apply padd_eq (by omega)
  cases x.handleDest.arch <;> simp only [getProperties, propertiesX86_64, propertiesAarch64] <;> omega

include hd in
theorem DestRun.fbp_slot (h16 : 16 ≤ destCfa x ds n m) : getSavedfbpLoc c = destCfa x ds n m - 16 := by
  have hlt := destCfa_lt x ds n m
  unfold getSavedfbpLoc
  rw [hd.cur_cfa]
  unfold Ctx.props
  rw [hd.handle]
  apply padd_eq (by omega)
  cases x.handleDest.arch <;> simp only [getProperties, propertiesX86_64, propertiesAarch64] <;> omega

end

/-- The state between two frames: `m` is the next one to be rewritten. -/
structure Rewriting (mem : Mem) (x : RewriteArgs) (n : Nat) (sf : Nat → VFrame) (ds : Nat → CallSite)
    (gs : Nat → List (Group × Group)) (m : Nat) (st : Dst) : Prop where
  kept : Kept mem x n sf ds gs st m 0 st.ctx.stackPointers st
  settled : Settled x sf gs m 0 st.ctx.stackPointers false
  slots : Slots x n ds m st
  saved : ∀ k, 0 < k → k < m → ∀ l ∈ destRecs x ds k, isCalleeSaved x.handleDest.arch l.reg = true

/-- The states of a round of `st_rewrite_stack`: with the return address set (`st1`), and with the
    frame rewritten (`st2`). -/
structure StepRun (mem : Mem) (x : RewriteArgs) (n : Nat) (sf : Nat → VFrame) (ds : Nat → CallSite)
    (gs : Nat → List (Group × Group)) (m : Nat) (src : Ctx) (found : Bool) (st st1 st2 st' : Dst) : Prop where
  returnAddress : st1 = setReturnAddress st (st.ctx.acts (st.ctx.act + 1)).site.addr.toNat
  slot : st1 = writeLoc st (.mem (destCfa x ds n m - 8)) (leBytes 8 (ds (m + 1)).addr.toNat)
  entered : Kept mem x n sf ds gs st1 m 0 st1.ctx.stackPointers st1
  settled : Settled x sf gs m 0 st1.ctx.stackPointers false
  frame : rewriteFrame src found st1 = .ok st2
  kept : Kept mem x n sf ds gs st1 m (cellsOf (gs m)).length st2.ctx.stackPointers st2
  settled' : Settled x sf gs m (cellsOf (gs m)).length st2.ctx.stackPointers false
  pop : CanPop st2.ctx
  last : st' = writeLoc ⟨popped st2.mem st2.ctx true, st2.mem⟩ (.mem (destCfa x ds n m - 16)) (leBytes 8 (destFbp x ds n (m + 1)))

include hl hm in
theorem rewriteStep_run (hs : SourceStack mem x n sf ds) {src : Ctx} (hsrc : SrcFrame x sf m src) (h0 : 0 < m) (hmn : m + 1 < n)
    {found : Bool} (hr : Rewriting mem x n sf ds gs m st) (h : rewriteStep src found st = .ok st') :
    ∃ st1 st2, StepRun mem x n sf ds gs m src found st st1 st2 st' := by
  have hd := hr.kept.frames
  have hroom := destCfa_room hl.fits h0 (by omega) (hl.frames m h0 hmn)
  have hlt := destCfa_lt x ds n m
  unfold rewriteStep at h
  obtain ⟨st2, h2, h⟩ := bind_ok.mp h
  obtain ⟨c, h3, h⟩ := bind_ok.mp h
  obtain ⟨st1, hst1⟩ : ∃ s, s = setReturnAddress st (st.ctx.acts (st.ctx.act + 1)).site.addr.toNat := ⟨_, rfl⟩
  have hslot : st1 = writeLoc st (.mem (destCfa x ds n m - 8)) (leBytes 8 (ds (m + 1)).addr.toNat) := by
    have hsite : (st.ctx.acts (st.ctx.act + 1)).site = ds (m + 1) := by
      rw [hd.act]
      exact (hd.site (m + 1) hmn).trans (if_neg (by omega))
    rw [hst1, hsite]
    unfold setReturnAddress
    rw [hd.ra_slot hl (by omega)]
  have hfix1 : st1.ctx.stackPointers = st.ctx.stackPointers := by rw [hslot]; rfl
  have hra1 : destCfa x ds n m ≤ destCfa x ds n m - 8 + 16 := by omega
  have hra2 : destCfa x ds n m - 8 + (leBytes 8 (ds (m + 1)).addr.toNat).length ≤ destCfa x ds n m := by
    rw [leBytes_length]
    omega
  have hk1 := hr.kept.slot hl hm (by omega) h0 hmn hra1 hra2
  rw [← hslot, ← hfix1] at hk1
  have hset1 : Settled x sf gs m 0 st1.ctx.stackPointers false := by
    rw [hfix1]
    exact hr.settled
  rw [← hst1] at h2
  obtain ⟨hk2, hset2⟩ := rewriteFrame_kept hl hm hs hsrc h0 hmn hk1 hset1 h2
  obtain ⟨hp, rfl⟩ := popFrame_ok_iff.mp h3
  refine ⟨st1, st2, hst1, hslot, hk1, hset1, h2, hk2, hset2, hp, ?_⟩
  have hd3 := hk2.frames.popped st2.mem hmn hp
  have hfbp : (popped st2.mem st2.ctx true).regops.fbp (popped st2.mem st2.ctx true).cur.regs = destFbp x ds n (m + 1) := by
    unfold Ctx.regops Ctx.cur
    rw [hd3.handle, hd3.act]
    exact hd3.fbp (m + 1) (by omega) (Nat.le_refl _)
  rw [hk2.frames.fbp_slot (by omega), hfbp] at h
  exact (Except.ok.inj h).symm

include hl hm in
theorem rewriteStep_rewriting (hs : SourceStack mem x n sf ds) {src : Ctx} (hsrc : SrcFrame x sf m src) (h0 : 0 < m) (hmn : m + 1 < n)
    {found : Bool} (hr : Rewriting mem x n sf ds gs m st) (h : rewriteStep src found st = .ok st') :
    Rewriting mem x n sf ds gs (m + 1) st' := by
  have hroom := destCfa_room hl.fits h0 (by omega) (hl.frames m h0 hmn)
  obtain ⟨st1, st2, hrun⟩ := rewriteStep_run hl hm hs hsrc h0 hmn hr h
  have hst1 := hrun.slot
  have hk2 := hrun.kept
  have hset2 := hrun.settled'
  have hra1 : destCfa x ds n m ≤ destCfa x ds n m - 8 + 16 := by omega
  have hs1 := hr.slots.same hl h0 (by omega) (slot_sameSlots hl st (leBytes 8 (ds (m + 1)).addr.toNat) h0 hmn (Nat.le_refl m) hra1)
  rw [← hst1] at hs1
  have hs2 := hs1.same hl h0 (by omega) (hk2.toAround.sameSlots hl.fits (by omega))
  have hk3 := hk2.popped hl hm hmn hrun.pop
  have hs3 := hs2.same hl h0 (by omega) (popped_sameSlots st2.mem)
  have hfbp1 : destCfa x ds n m ≤ destCfa x ds n m - 16 + 16 := by omega
  have hfbp2 : destCfa x ds n m - 16 + (leBytes 8 (destFbp x ds n (m + 1))).length ≤ destCfa x ds n m := by
    rw [leBytes_length]
    omega
  have hk4 := hk3.slot hl hm hmn h0 hmn hfbp1 hfbp2
  have hs4 := hs3.same hl h0 (by omega) (slot_sameSlots hl _ (leBytes 8 (destFbp x ds n (m + 1))) h0 hmn (Nat.le_refl m) hfbp1)
  rw [hrun.last]
  have hfix : (popped st2.mem st2.ctx true).stackPointers = st2.ctx.stackPointers := popped_stackPointers _ _ _
  refine ⟨?_, ?_, ⟨hs4.entrySp, hs4.entryFbp, hs4.entryRa, ?_, ?_⟩, ?_⟩
  · show Kept mem x n sf ds gs _ (m + 1) 0 (popped st2.mem st2.ctx true).stackPointers _
    rw [hfix]
    exact hk4
  · show Settled x sf gs (m + 1) 0 (popped st2.mem st2.ctx true).stackPointers false
    rw [hfix]
    exact hset2.next
  · intro k hk0 hk
    obtain hk | rfl := Nat.lt_or_eq_of_le (Nat.le_of_lt_succ hk)
    · exact hs4.ra k hk0 hk
    · have hread : st2.read (.mem (destCfa x ds n k - 8)) 8 = _ :=
        hk2.rest (.mem (destCfa x ds n k - 8)) 8 trivial fun _ _ _ hi hspot =>
          slot_disj hl.fits (by omega) (by omega) hra1 (by omega) hspot
      have hkeep : readLe 8 (store st2.mem (destCfa x ds n k - 16) (leBytes 8 (destFbp x ds n (k + 1)))) (destCfa x ds n k - 8) =
          readLe 8 st2.mem (destCfa x ds n k - 8) := readLe_store_disj _ (by rw [leBytes_length]; omega)
      rw [hst1] at hread
      refine hkeep.trans ((congrArg leVal hread).trans ?_)
      refine (readLe_store_same st.mem _ 8 _).trans ?_
      exact Nat.mod_eq_of_lt (ds (k + 1)).addr.toNat_lt
  · intro k hk0 hk
    obtain hk | rfl := Nat.lt_or_eq_of_le (Nat.le_of_lt_succ hk)
    · exact hs4.fbp k hk0 hk
    · refine (readLe_store_same st2.mem _ 8 _).trans ?_
      exact Nat.mod_eq_of_lt (padd_lt _ _)
  · intro k hk0 hk l hrec
    obtain hk | rfl := Nat.lt_or_eq_of_le (Nat.le_of_lt_succ hk)
    · exact hr.saved k hk0 hk l hrec
    · have hmark := hrun.pop.markable
      rw [hk2.frames.handle, hk2.frames.cur_site (by omega)] at hmark
      exact (hmark l hrec).1

/-! ## The function being entered -/

section Entry
variable {c : Ctx} (hd : DestRun x n ds 0 c) (m0 : Mem) (a : Nat)

include hd in
theorem entry_regs {r : UInt16} {o : Nat} (hr : (getRegops x.handleDest.arch).reg r = .ok o) (hne : r ≠ raReg x.handleDest.arch) :
    load ((setReturnAddressFuncentry ⟨c, m0⟩ a).ctx.acts 0).regs o 8 = load (c.acts 0).regs o 8 := by
  have hops : c.regops = getRegops x.handleDest.arch := congrArg (fun h : Handle => getRegops h.arch) hd.handle
  unfold setReturnAddressFuncentry
  dsimp only
  rw [hops, hd.act]
  obtain ⟨hnone, -⟩ | hsome := pc_of_raOff x.handleDest.arch
  · rw [hnone]
    rfl
  · rw [hsome]
    unfold writeLoc
    dsimp only
    rw [Ctx.modAct_same]
    apply load_store_disj
    rw [leBytes_length]
    exact reg_disj hr (calleeSaved_cases (raReg_calleeSaved _)).1 hne

include hl hd in
theorem entry_mem (hn : 0 < n) {b len : Nat} (hb : b + len ≤ destCfa x ds n 0 - 8 ∨ destCfa x ds n 0 ≤ b) :
    load (setReturnAddressFuncentry ⟨c, m0⟩ a).mem b len = load m0 b len := by
  have hops : c.regops = getRegops x.handleDest.arch := congrArg (fun h : Handle => getRegops h.arch) hd.handle
  have h8 := destCfa_pos hl.fits hn
  unfold setReturnAddressFuncentry
  dsimp only
  rw [hops]
  obtain ⟨hnone, -⟩ | hsome := pc_of_raOff x.handleDest.arch
  · rw [hnone]
    unfold setReturnAddress
    dsimp only
    rw [hd.ra_slot hl hn]
    apply load_store_disj
    rw [leBytes_length]
    omega
  · rw [hsome]
    rfl

include hl hd in
/-- The return address is where the function being entered expects it. -/
theorem entry_ra (hn : 0 < n) (ha : a < 18446744073709551616) {regs : RegSet}
    (hsp : (getRegops x.handleDest.arch).sp regs = destTop x.handleDest.arch x.spBaseDest (frameSpan ds (n - 1)))
    (hregs : load regs (regOff x.handleDest.arch (raReg x.handleDest.arch)) 8 =
      load ((setReturnAddressFuncentry ⟨c, m0⟩ a).ctx.acts 0).regs (regOff x.handleDest.arch (raReg x.handleDest.arch)) 8) :
    entryRa (setReturnAddressFuncentry ⟨c, m0⟩ a).mem (getRegops x.handleDest.arch) regs = a := by
  have hops : c.regops = getRegops x.handleDest.arch := congrArg (fun h : Handle => getRegops h.arch) hd.handle
  unfold entryRa
  unfold setReturnAddressFuncentry at hregs ⊢
  dsimp only at hregs ⊢
  rw [hops] at hregs ⊢
  obtain ⟨hnone, -⟩ | hsome := pc_of_raOff x.handleDest.arch
  · have hcfa := destCfa_zero hl.fits
    rw [cfaOffset_of_raOff hnone] at hcfa
    rw [hnone]
    unfold setReturnAddress
    dsimp only
    rw [hd.ra_slot hl hn, hsp, hcfa, Nat.add_sub_cancel]
    refine (readLe_store_same m0 _ 8 a).trans ?_
    exact Nat.mod_eq_of_lt ha
  · rw [hsome, hd.act] at hregs
    rw [hsome]
    unfold writeLoc at hregs
    dsimp only at hregs
    rw [Ctx.modAct_same] at hregs
    refine (congrArg leVal hregs).trans ?_
    refine (readLe_store_same _ _ 8 a).trans ?_
    exact Nat.mod_eq_of_lt ha

end Entry

/-- The register set the rewrite returns keeps what `malloc` left, but for the PC, the SP, the
    FBP and the return address. -/
theorem load_setSpecial {regs : RegSet} {r : UInt16} {o : Nat} (hr : (getRegops x.handleDest.arch).reg r = .ok o)
    (hra : r ≠ raReg x.handleDest.arch) (hsp : r ≠ spReg x.handleDest.arch) (pc sp : Nat) :
    load ((getRegops x.handleDest.arch).setSp ((getRegops x.handleDest.arch).setPc regs pc) sp) o 8 = load regs o 8 := by
  have h1 := reg_disj hr (reg_sp _) hsp
  have h2 := pc_disj hr hra
  unfold RegOps.setSp RegOps.setPc rset
  rw [load_store_disj _ (by rwa [leBytes_length]), load_store_disj _ (by rwa [leBytes_length])]

theorem entered_destFrames {c : Ctx} (hd : DestRun x n ds 0 c) (m0 : Mem) (hn : 2 ≤ n) : DestFrames x n ds 1 (entered m0 c) := by
  have hcfa := hd.cur_cfa
  have hb := entered_next m0 c (by rw [hcfa]; exact destCfa_lt x ds n 0)
  have hnext : (c.acts 1).site = ds 1 := (hd.site 1 (by omega)).trans (if_neg (by omega))
  rw [hd.act, Nat.zero_add, hnext, hcfa, hd.handle] at hb
  refine ⟨hd.entered hn, ?_, ?_⟩
  · intro k h0 hk
    obtain rfl : k = 1 := by omega
    exact hb.sp
  · intro k h0 hk
    obtain rfl : k = 1 := by omega
    exact hb.fbp

/-- The registers of the function being entered: its caller's FBP is set. -/
theorem entered_regs {c : Ctx} (hd : DestRun x n ds 0 c) (m0 : Mem) (hn : 2 ≤ n) :
    ((entered m0 c).acts 0).regs = (getRegops x.handleDest.arch).setFbp (c.acts 0).regs (destFbp x ds n 1) := by
  have hcfa := hd.cur_cfa
  have hcur := entered_cur m0 c (by rw [hcfa]; exact destCfa_lt x ds n 0)
  have hnext : (c.acts 1).site = ds 1 := (hd.site 1 (by omega)).trans (if_neg (by omega))
  have hops : c.regops = getRegops x.handleDest.arch := congrArg (fun h : Handle => getRegops h.arch) hd.handle
  rw [hd.act, Nat.zero_add, hnext, hcfa, hops] at hcur
  rw [hcur]
  unfold Ctx.cur
  rw [hd.act]
  rfl

theorem load_setFbp {regs : RegSet} {r : UInt16} {o : Nat} (hr : (getRegops x.handleDest.arch).reg r = .ok o)
    (hfbp : r ≠ fbpReg x.handleDest.arch) (v : Nat) :
    load ((getRegops x.handleDest.arch).setFbp regs v) o 8 = load regs o 8 := by
  have h := reg_disj hr (reg_fbp _) hfbp
  unfold RegOps.setFbp rset
  exact load_store_disj _ (by rwa [leBytes_length])

/-- The state in which the rewrite comes to its first frame. -/
structure AtEntry (mem : Mem) (x : RewriteArgs) (n : Nat) (ds : Nat → CallSite) (st : Dst) : Prop where
  frames : DestFrames x n ds 1 st.ctx
  fixups : st.ctx.stackPointers = []
  slots : Slots x n ds 1 st
  regs : ∀ r, Ordinary x r → st.read (.reg 0 (regOff x.handleDest.arch r)) 8 =
    load (x.freshDest.acts 0).regs (regOff x.handleDest.arch r) 8
  mem : ∀ b len, b + len ≤ destCfa x ds n 0 - 8 ∨ destCfa x ds n 0 ≤ b → load st.mem b len = load mem b len

include hl in
theorem rewriteOutermost_atEntry {u : Unwinding} (hu : Unwound x n sf ds u) (hn : 2 ≤ n) (h : rewriteOutermost mem u.dest = .ok st) :
    AtEntry mem x n ds st := by
  have hd := hu.destRun
  have hsite : (u.dest.acts (u.dest.act + 1)).site = ds 1 := by
    rw [hu.destAct]
    exact hu.destSites 1 (by omega) (by omega)
  unfold rewriteOutermost at h
  rw [hsite] at h
  obtain ⟨c, h1, h⟩ := bind_ok.mp h
  obtain ⟨-, rfl⟩ := popFrameFuncentry_ok_iff.mp h1
  obtain rfl := Except.ok.inj h
  have hd1 := hd.same (setReturnAddressFuncentry_same ⟨u.dest, mem⟩ (ds 1).addr.toNat)
  have hfix1 : (setReturnAddressFuncentry ⟨u.dest, mem⟩ (ds 1).addr.toNat).ctx.stackPointers = u.dest.stackPointers := by
    unfold setReturnAddressFuncentry
    split <;> rfl
  have hregs := entered_regs hd1 (setReturnAddressFuncentry ⟨u.dest, mem⟩ (ds 1).addr.toNat).mem hn
  have hsp : (getRegops x.handleDest.arch).sp ((entered (setReturnAddressFuncentry ⟨u.dest, mem⟩ (ds 1).addr.toNat).mem
      (setReturnAddressFuncentry ⟨u.dest, mem⟩ (ds 1).addr.toNat).ctx).acts 0).regs =
      destTop x.handleDest.arch x.spBaseDest (frameSpan ds (n - 1)) := by
    rw [hregs]
    refine (congrArg leVal ((load_setFbp (reg_sp _) ?_ _).trans (entry_regs hd mem _ (reg_sp _) ?_))).trans hu.destSp
    all_goals cases x.handleDest.arch <;> decide
  constructor
  case frames => exact entered_destFrames hd1 _ hn
  case fixups => exact (entered_stackPointers _ _).trans (hfix1.trans hu.destFixups)
  case slots =>
    refine ⟨hsp, ?_, ?_, fun k h0 hk => by omega, fun k h0 hk => by omega⟩
    · dsimp only
      rw [hregs]
      exact rget_rset_same _ _ (padd_lt _ _)
    · apply entry_ra hl hd mem _ (by omega) (ds 1).addr.toNat_lt hsp
      rw [hregs]
      exact load_setFbp (calleeSaved_cases (raReg_calleeSaved _)).1 (fbpReg_ne_raReg _).symm _
  case regs =>
    intro r ho
    have hr := (calleeSaved_cases ho.calleeSaved).1
    obtain ⟨pc, sp, hfresh⟩ := hu.destRegs
    show load ((entered _ _).acts 0).regs _ 8 = _
    rw [hregs, load_setFbp hr ho.notFbp, entry_regs hd mem _ hr ho.notRa, hfresh, load_setSpecial hr ho.notRa ho.ne_spReg]
  case mem =>
    intro b len hb
    exact entry_mem hl hd mem (ds 1).addr.toNat (by omega) hb

include hl hm in
/-- The first frame to be rewritten is the caller of the function being entered. -/
theorem AtEntry.rewriting (hn : 2 ≤ n) (h : AtEntry mem x n ds st) : Rewriting mem x n sf ds gs 1 st := by
  have hout : ∀ a len, a + len ≤ destLow x n ds ∨ destHigh x n ds ≤ a → load st.mem a len = load mem a len := by
    intro a len ha
    apply h.mem
    have := destCfa_mono hl.fits (Nat.zero_le (n - 2)) (by omega)
    unfold destLow destHigh at ha
    omega
  refine ⟨⟨⟨h.frames, hout, fun _ _ _ _ => rfl⟩, ?_, ?_, ?_⟩, ?_, h.slots, fun k h0 hk => by omega⟩
  · intro k i v w hdone
    unfold Done at hdone
    omega
  · intro k i v w h0 hk hc tg htg _
    obtain ⟨j, hj, hspot⟩ := place_spot hl.bodies h0 hk ((hm.cell_fine hl.bodies h0 hk hc).2 tg htg)
    generalize place x ds n k tg = p at hspot ⊢
    generalize tg.len = len at hspot ⊢
    cases hspot with
    | reg r ho => exact h.regs r ho
    | mem _ a _ _ ha =>
      have hlow := destCfa_mono hl.fits (Nat.zero_le (j - 1)) (by omega)
      exact h.mem a len (.inr (Nat.le_trans hlow ha.1))
  · rw [h.fixups]
    intro f hf
    cases hf
  · rw [h.fixups]
    intro f hf
    cases hf

include hl hm in
/-- The invariant rule of the walk over the frames. -/
theorem stRewriteStack_rule (hs : SourceStack mem x n sf ds) {Q : Nat → Dst → Prop}
    (hentry : ∀ {u st}, Unwound x n sf ds u → rewriteOutermost mem u.dest = .ok st → Q 1 st)
    (hstep : ∀ {m src found st st1 st2 st'}, 0 < m → m + 1 < n → SrcFrame x sf m src →
      StepRun mem x n sf ds gs m src found st st1 st2 st' → Rewriting mem x n sf ds gs m st → Q m st → Q (m + 1) st')
    {out : Rewritten} (h : stRewriteStack mem x = .ok (some out)) :
    ∃ st, Rewriting mem x n sf ds gs (n - 1) st ∧ Q (n - 1) st ∧ out = ⟨(st.ctx.acts 0).regs, st.mem, st.ctx⟩ := by
  have h2 := hs.two
  obtain ⟨u, st1, st, hu, h1, hst, rfl⟩ := stRewriteStack_ok h
  have hun := unwindStack_unwound hs hu
  rw [hun.numActs] at hst
  have hend : Rewriting mem x n sf ds gs (1 + (n - 2)) st ∧ Q (1 + (n - 2)) st := by
    refine foldlM_range (P := fun m st => Rewriting mem x n sf ds gs m st ∧ Q m st) (n - 2) 1 ?_ hst
      ⟨(rewriteOutermost_atEntry hl hun h2 h1).rewriting hl hm h2, hentry hun h1⟩
    intro k s s' hk0 hk ⟨hr, hq⟩ hround
    have hsrc := hun.srcFrame (show k < n by omega)
    obtain ⟨s1, s2, hrun⟩ := rewriteStep_run hl hm hs hsrc hk0 (by omega) hr hround
    exact ⟨rewriteStep_rewriting hl hm hs hsrc hk0 (by omega) hr hround, hstep hk0 (by omega) hsrc hrun hr hq⟩
  rw [show 1 + (n - 2) = n - 1 by omega] at hend
  exact ⟨st, hend.1, hend.2, rfl⟩

include hl hm in
/-- The state at the end of a rewrite. -/
theorem stRewriteStack_rewriting (hs : SourceStack mem x n sf ds) {out : Rewritten} (h : stRewriteStack mem x = .ok (some out)) :
    ∃ st, Rewriting mem x n sf ds gs (n - 1) st ∧ out = ⟨(st.ctx.acts 0).regs, st.mem, st.ctx⟩ := by
  obtain ⟨st, hr, -, hout⟩ := stRewriteStack_rule hl hm hs (Q := fun _ _ => True) (fun _ _ => trivial) (fun _ _ _ _ _ _ => trivial) h
  exact ⟨st, hr, hout⟩

end

end Popcorn.Runtime
