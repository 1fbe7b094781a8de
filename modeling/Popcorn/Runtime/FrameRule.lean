/-
  Popcorn.Runtime.FrameRule — an invariant rule for the rewrite of a frame.

  `rewrite_frame` is a sequence of four kinds of steps on the destination and the queue of
  fixups: a value is put to its cell, a pointer's fixup is queued, a fixup is resolved at an
  alloca of the frame, and an arch-specific record is carried out. A relation between queues
  and states that is reflexive and transitive and holds of each such step holds of the whole
  frame.

  Proved:
  - `FrameRule.val`, `FrameRule.archVals`, `FixupRule.loop`: its phases.
  - `FrameRule.frame`: the whole frame.
-/

import Popcorn.Runtime.RewriteProofs

namespace Popcorn.Runtime

open Popcorn.Lib Popcorn.Metadata

section
variable {mem : Mem} {x : RewriteArgs} {n : Nat} {sf : Nat → VFrame} {ds : Nat → CallSite} {gs : Nat → List (Group × Group)}
  {st0 st st' : Dst} {m t : Nat} {q : List Fixup}

/-- The pointer `addr` of a value of frame `act` is one into an alloca of frame `m`, which stands at
    `d`; for a frame before `m` the alloca is not a skipped one. -/
def IntoFrame (x : RewriteArgs) (n : Nat) (sf : Nat → VFrame) (ds : Nat → CallSite) (gs : Nat → List (Group × Group))
    (m act addr d : Nat) : Prop :=
  ∃ c ∈ cellsOf (gs m), Moves x n sf ds m c addr d ∧ (act < m → skipVaList c.1 c.2 = false)

/-- A relation that holds of every resolution of a fixup in frame `m`. -/
structure FixupRule (mem : Mem) (x : RewriteArgs) (n : Nat) (sf : Nat → VFrame) (ds : Nat → CallSite)
    (gs : Nat → List (Group × Group)) (st0 : Dst) (m : Nat) (R : List Fixup → Dst → List Fixup → Dst → Prop) : Prop where
  refl : ∀ q st, R q st q st
  trans : ∀ {q q' q'' st st' st''}, R q st q' st' → R q' st' q'' st'' → R q st q'' st''
  setFixups : ∀ q st fs, R q st q (st.setFixups fs)
  resolve : ∀ {t pre fs f d st st'}, Kept mem x n sf ds gs st0 m t (pre ++ f :: fs) st →
    IntoFrame x n sf ds gs m f.act f.srcAddr d → putValData st f.destLoc f.act d = .ok st' → R (pre ++ f :: fs) st (pre ++ fs) st'

/-- A relation that holds of every step of the rewrite of frame `m`. -/
structure FrameRule (mem : Mem) (x : RewriteArgs) (n : Nat) (sf : Nat → VFrame) (ds : Nat → CallSite)
    (gs : Nat → List (Group × Group)) (st0 : Dst) (m : Nat) (src : Ctx) (R : List Fixup → Dst → List Fixup → Dst → Prop) : Prop
    extends FixupRule mem x n sf ds gs st0 m R where
  value : ∀ {t i : Nat} {v w : LiveValue} {q st st'}, (cellsOf (gs m))[t]? = some (v, w) → Kept mem x n sf ds gs st0 m t q st →
    putVal src i st w = .ok st' → R q st q st'
  queued : ∀ {t : Nat} {v w : LiveValue} {q st addr}, (cellsOf (gs m))[t]? = some (v, w) → VPoints mem x.handleSrc (sf m) v addr →
    R q st (q ++ [⟨addr, m, w⟩]) st
  arch : ∀ {t i v q st st'}, i < (ds m).numArchLive.toNat → destArch x ds m i = some v →
    Kept mem x n sf ds gs st0 m t q st → putValArch st v = .ok st' → R q st q st'

/-- The invariant rule of a stretch of arch-specific records. -/
theorem rewriteArchVals_rule {P : Dst → Prop} (hl : StackLayout x ds n) (hm : Matched x n sf ds gs) (h0 : 0 < m) (hmn : m + 1 < n)
    {a len : Nat} (hlen : a + len ≤ (ds m).numArchLive.toNat)
    (hstep : ∀ {i v s s'}, a ≤ i → i < a + len → destArch x ds m i = some v → Kept mem x n sf ds gs st0 m t q s → P s →
      putValArch s v = .ok s' → P s') (hk : Kept mem x n sf ds gs st0 m t q st) (hp : P st)
    (h : (List.range' ((ds m).archLiveOffset + a) len).foldlM rewriteArchVal st = .ok st') :
    Kept mem x n sf ds gs st0 m t q st' ∧ P st' := by
  refine foldlM_range (P := fun _ s => Kept mem x n sf ds gs st0 m t q s ∧ P s) _ _ ?_ h ⟨hk, hp⟩
  intro i s s' hle hlt ⟨hs, hps⟩ hround
  unfold rewriteArchVal at hround
  split at hround
  · rename_i v hv
    rw [hs.frames.handle] at hv
    have hv' : destArch x ds m (i - (ds m).archLiveOffset) = some v := by
      unfold destArch
      rw [Nat.add_sub_cancel' (by omega)]
      exact hv
    exact ⟨(putValArch_kept hl hm h0 hmn (by omega) hv' hs hround).1, hstep (by omega) (by omega) hv' hs hps hround⟩
  · cases hround

section Rule
variable {R : List Fixup → Dst → List Fixup → Dst → Prop} {src : Ctx} (hl : StackLayout x ds n) (hm : Matched x n sf ds gs)
  (hs : SourceStack mem x n sf ds) (hsrc : SrcFrame x sf m src) (h0 : 0 < m) (hmn : m + 1 < n) {v w : LiveValue}

section
variable (hr : FixupRule mem x n sf ds gs st0 m R)

include hl hm hs hsrc h0 hmn hr in
theorem FixupRule.alloca {i : Nat} (hc : (cellsOf (gs m))[i]? = some (v, w)) (ha : v.isAlloca = true)
    (hskip : skipVaList v w = false) (fs : List Fixup) : ∀ {pre kept : List Fixup} {st st' : Dst},
    Kept mem x n sf ds gs st0 m t (pre ++ fs) st → resolveFixups src v w fs st = .ok (kept, st') →
    R (pre ++ fs) st (pre ++ kept) st' := by
  induction fs with
  | nil =>
    intro pre kept st st' _ h
    cases h
    exact hr.refl _ _
  | cons f fs ih =>
    intro pre kept st st' hk h
    unfold resolveFixups at h
    obtain ⟨d, hd, h⟩ := bind_ok.mp h
    have hmem := List.mem_of_getElem? hc
    have hact : f.act ≤ m := by
      obtain ⟨_, _, hdone, -⟩ := hk.queue f (List.mem_append_right pre List.mem_cons_self)
      unfold Done at hdone
      omega
    rcases pointsToData_moves hl hm hs hsrc h0 hmn hc ha hk.frames hd with ⟨hne, hmove⟩ | ⟨hz, -⟩
    · rw [if_pos hne] at h
      obtain ⟨st1, h1, h⟩ := bind_ok.mp h
      obtain ⟨hk1, -⟩ := hk.resolve hl hm hmn (hmove.repointed hact hmn hmem) h1
      exact hr.trans (hr.resolve hk ⟨_, hmem, hmove, fun _ => hskip⟩ h1) (ih hk1 h)
    · rw [if_neg (fun e => e hz)] at h
      obtain ⟨⟨kept', st1⟩, h1, h⟩ := bind_ok.mp h
      cases h
      rw [List.append_cons] at hk
      have hrest := ih hk h1
      rwa [List.append_assoc, List.append_assoc] at hrest

include hl hm hs hsrc h0 hmn hr in
/-- `fixup_local_pointers`. -/
theorem FixupRule.loop (fs : List Fixup) : ∀ {found : Bool} {kept : List Fixup} {st st' : Dst},
    Kept mem x n sf ds gs st0 m t (kept ++ fs) st → fixupLoop src found kept fs st = .ok st' →
    R (kept ++ fs) st st'.ctx.stackPointers st' := by
  induction fs with
  | nil =>
    intro found kept st st' hk h
    cases h
    rw [List.append_nil]
    exact hr.setFixups kept st kept
  | cons f fs ih =>
    intro found kept st st' hk h
    have hstay : ∀ {found}, fixupLoop src found (kept ++ [f]) fs st = .ok st' → R (kept ++ f :: fs) st st'.ctx.stackPointers st' := by
      intro found h
      rw [List.append_cons] at hk ⊢
      exact ih hk h
    unfold fixupLoop at h
    split at h
    · split at h
      · exact hstay h
      · rename_i hact
        rw [hsrc.act, ne_eq, Classical.not_not] at hact
        obtain ⟨d, hd, h⟩ := bind_ok.mp h
        rw [localSearch_eq hm hsrc h0 hmn hk.frames] at hd
        rcases searchGroups_moves hl hm hs hsrc h0 hmn hk.frames (gs m) (fun g hg => hg) hd with ⟨hne, c, hc, hmove⟩ | ⟨hz, -⟩
        · rw [if_pos hne] at h
          obtain ⟨st1, h1, h⟩ := bind_ok.mp h
          obtain ⟨hk1, -⟩ := hk.resolve hl hm hmn (hmove.repointed (Nat.le_of_eq hact) hmn hc) h1
          exact hr.trans (hr.resolve hk ⟨c, hc, hmove, fun _ => by omega⟩ h1) (ih hk1 h)
        · rw [if_neg (fun e => e hz)] at h
          exact hstay h
    · split at h
      · cases h
      · exact hstay h

include hl hm hs hsrc h0 hmn hr in
/-- The rest of a frame once its arch-specific values are set. -/
theorem FixupRule.last {found b : Bool} {st1 st2 : Dst}
    (hrun : FrameRun mem x n sf ds gs m src found st b st1 st2 st')
    (hk : Kept mem x n sf ds gs st0 m 0 st.ctx.stackPointers st) : R st2.ctx.stackPointers st2 st'.ctx.stackPointers st' := by
  rcases hrun.last with ⟨-, h⟩ | ⟨-, rfl⟩
  · exact hr.loop hl hm hs hsrc h0 hmn _ (hrun.kept hk).2 h
  · exact hr.refl _ _

end

variable (hr : FrameRule mem x n sf ds gs st0 m src R)

include hl hm h0 hmn hr in
theorem FrameRule.archVals (hk : Kept mem x n sf ds gs st0 m t q st)
    (h : (List.range' (ds m).archLiveOffset (ds m).numArchLive.toNat).foldlM rewriteArchVal st = .ok st') : R q st q st' := by
  refine (rewriteArchVals_rule (P := fun s => R q st q s) (a := 0) hl hm h0 hmn (by omega) ?_ hk (hr.refl q st) h).2
  intro i v s s' _ hi hv hks hrs hput
  exact hr.trans hrs (hr.arch (by omega) hv hks hput)

include hl hm hs hsrc h0 hmn hr in
theorem FrameRule.val {i : Nat} {b b' : Bool} (hi : x.handleSrc.liveVals i = v) (hc : (cellsOf (gs m))[t]? = some (v, w))
    (hk : Kept mem x n sf ds gs st0 m t st.ctx.stackPointers st) (hset : Settled x sf gs m t st.ctx.stackPointers b)
    (h : rewriteVal src i st w = .ok (b', st')) : R st.ctx.stackPointers st st'.ctx.stackPointers st' := by
  unfold rewriteVal at h
  rw [hsrc.handle, hi] at h
  dsimp only at h
  split at h
  · obtain ⟨-, rfl⟩ := Prod.mk.inj (Except.ok.inj h)
    exact hr.refl _ _
  · rename_i hskip
    rw [Bool.not_eq_true] at hskip
    obtain ⟨⟨b1, st1⟩, h1, h⟩ := bind_ok.mp h
    have hk1 := (fixupOrPut_kept hl hm hsrc h0 hmn hi hc hskip hk hset h1).1
    have hfirst : R st.ctx.stackPointers st st1.ctx.stackPointers st1 := by
      rcases fixupOrPut_cases hl hm hsrc h0 hmn hi hc hk h1 with ⟨addr, hp, -, -, -, rfl⟩ | ⟨-, -, rfl⟩ | ⟨-, hout, hput⟩
      · exact hr.trans (hr.queued hc hp) (hr.setFixups _ _ _)
      · exact hr.refl _ _
      · rw [(putVal_kept hl hm hsrc h0 hmn hi hc hskip hout hk hput).2]
        exact hr.value hc hk hput
    split at h
    · rename_i ha
      obtain ⟨⟨kept, st2⟩, h2, h⟩ := bind_ok.mp h
      obtain ⟨-, rfl⟩ := Prod.mk.inj (Except.ok.inj h)
      have hk1' : Kept mem x n sf ds gs st0 m (t + 1) ([] ++ st1.ctx.stackPointers) st1 := hk1
      have hrest := hr.alloca hl hm hs hsrc h0 hmn hc ha hskip _ hk1' h2
      exact hr.trans hfirst (hr.trans hrest (hr.setFixups _ _ kept))
    · obtain ⟨-, rfl⟩ := Prod.mk.inj (Except.ok.inj h)
      exact hfirst

include hl hm hs hsrc h0 hmn hr in
/-- The rewrite of a frame. -/
theorem FrameRule.frame {found b : Bool} {st1 st2 : Dst} (hrun : FrameRun mem x n sf ds gs m src found st b st1 st2 st')
    (hk : Kept mem x n sf ds gs st0 m 0 st.ctx.stackPointers st) (hset : Settled x sf gs m 0 st.ctx.stackPointers false) :
    R st.ctx.stackPointers st st1.ctx.stackPointers st1 ∧ R st1.ctx.stackPointers st1 st2.ctx.stackPointers st2 ∧
      R st2.ctx.stackPointers st2 st'.ctx.stackPointers st' := by
  refine ⟨?_, ?_, hr.last hl hm hs hsrc h0 hmn hrun hk⟩
  · refine (rewriteGroups_rule hl hm hs hsrc h0 hmn (P := fun _ _ s => R st.ctx.stackPointers st s.ctx.stackPointers s) ?_ hk hset
      (hr.refl _ _) hrun.groups).2.2
    intro t i v w b b' s s' hi hc hks hsets hsr h
    exact hr.trans hsr (hr.val hl hm hs hsrc h0 hmn hi hc hks hsets h)
  · rw [hrun.fixups]
    exact hr.archVals hl hm h0 hmn (hrun.kept hk).1 hrun.archs

end Rule

end

end Popcorn.Runtime
