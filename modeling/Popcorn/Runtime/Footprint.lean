/-
  Popcorn.Runtime.Footprint — the memory a rewrite writes.

  Whatever the values are, and wherever the bitmaps lead, a put writes the place of its value,
  which is in the body of a rewritten frame. Beside the bodies a rewrite writes the two slots
  at the top of each frame, and the return address of the function being entered where that is
  in memory.

  Proved:
  - `rewriteFrame_writes`: a frame's rewriting writes bodies of frames up to it.
  - `rewriteStep_writes`: a round, with its two slots.
-/

import Popcorn.Runtime.Placement
import Popcorn.Runtime.RewriteProofs

namespace Popcorn.Runtime

open Popcorn.Lib Popcorn.Metadata

/-- The fixup is that of a pointer of a frame up to `m`. -/
def Queued (gs : Nat → List (Group × Group)) (m : Nat) (f : Fixup) : Prop :=
  0 < f.act ∧ f.act ≤ m ∧ ∃ v, (v, f.destLoc) ∈ cellsOf (gs f.act) ∧ v.isPtr = true ∧ v.isAlloca = false

/-- A state in the rewrite of frame `m` in which no address but those of `W` has changed since the
    memory was `m0`. -/
structure WritesIn (x : RewriteArgs) (n : Nat) (ds : Nat → CallSite) (gs : Nat → List (Group × Group)) (W : Nat → Prop) (m0 : Mem)
    (m : Nat) (q : List Fixup) (st : Dst) : Prop where
  frames : DestFrames x n ds m st.ctx
  mem : ∀ a, ¬ W a → st.mem a = m0 a
  queue : ∀ f ∈ q, Queued gs m f

/-- The bodies of the frames up to `m` are in `W`. -/
def Bodies (x : RewriteArgs) (n : Nat) (ds : Nat → CallSite) (m : Nat) (W : Nat → Prop) : Prop :=
  ∀ k a len, k ≤ m → k + 1 < n → Spot x ds n k (.mem a) len → ∀ j < len, W (a + j)

section
variable {mem : Mem} {x : RewriteArgs} {n : Nat} {sf : Nat → VFrame} {ds : Nat → CallSite} {gs : Nat → List (Group × Group)}
  {W : Nat → Prop} {m0 : Mem} {m t : Nat} {q q' : List Fixup} {st st' : Dst}

theorem WritesIn.setFixups (h : WritesIn x n ds gs W m0 m q st) (fs : List Fixup) (hq : ∀ f ∈ q', Queued gs m f) :
    WritesIn x n ds gs W m0 m q' (st.setFixups fs) where
  frames := h.frames.bases (setFixups_same st fs) (fun _ => rfl) (fun _ => rfl)
  mem := h.mem
  queue := hq

section Frame
variable (hframes : ∀ k, 0 < k → k + 1 < n → FrameBody x ds n k) (hlist : Listed x n sf ds gs) (hW : Bodies x n ds m W)
  (h0 : 0 < m) (hmn : m + 1 < n)

/-! ## Puts -/

include hframes hW in
/-- A put writes the body of a frame. -/
theorem WritesIn.put (h : WritesIn x n ds gs W m0 m q st) {k : Nat} (hk0 : 0 < k) (hkm : k ≤ m) (hkn : k + 1 < n) {tg : Target}
    (hfine : Fine x ds n k tg) {dest : Loc} {callee : Option Loc} (hfinds : Finds x st.ctx k tg dest callee) {bs : List UInt8}
    (hbs : bs.length ≤ tg.len) : WritesIn x n ds gs W m0 m q (writeBoth st dest callee bs) := by
  have hw := hfinds.wrote h.frames hk0 hkm hkn hbs
  refine ⟨h.frames.wrote hw, ?_, h.queue⟩
  intro a ha
  obtain ⟨i, hi, hspot⟩ := place_spot hframes hk0 hkn hfine
  have hdisj : (Loc.mem a).Disj 1 (place x ds n k tg) tg.len := by
    generalize place x ds n k tg = p at hspot
    cases p with
    | reg j off => trivial
    | mem b =>
      show a + 1 ≤ b ∨ b + tg.len ≤ a
      by_contra hin
      have := hW i b tg.len (by omega) (by omega) hspot (a - b) (by omega)
      rw [Nat.add_sub_cancel' (by omega)] at this
      exact ha this
  have hread := hw.other (.mem a) 1 trivial hdisj
  exact (List.head_eq_of_cons_eq hread).trans (h.mem a ha)

include hframes hlist hW h0 hmn in
theorem putVal_writes {src : Ctx} (hact : src.act = m) {i : Nat} {v w : LiveValue} (hc : (cellsOf (gs m))[t]? = some (v, w))
    (hk : WritesIn x n ds gs W m0 m q st) (h : putVal src i st w = .ok st') :
    WritesIn x n ds gs W m0 m q st' ∧ st'.ctx.stackPointers = st.ctx.stackPointers := by
  obtain ⟨haddr, hfine⟩ := hlist.cell_fine hframes h0 hmn hc
  obtain ⟨-, rfl⟩ | ⟨tg, bs, dest, callee, htg, -, hle, hfinds, rfl⟩ :=
    putVal_finds hk.frames h0 (Nat.le_refl m) hact hk.frames.act haddr hfine h
  · exact ⟨hk, rfl⟩
  · exact ⟨hk.put hframes hW h0 (Nat.le_refl m) hmn (hfine tg htg) hfinds hle, writeBoth_stackPointers st dest callee bs⟩

include hframes hlist hW hmn in
/-- A resolved fixup writes the place of its pointer. -/
theorem putValData_writes {f : Fixup} {d : Nat} (hf : Queued gs m f) (hk : WritesIn x n ds gs W m0 m q st)
    (h : putValData st f.destLoc f.act d = .ok st') : WritesIn x n ds gs W m0 m q st' := by
  obtain ⟨hf0, hfm, v, hmem, hp, ha⟩ := hf
  obtain ⟨i, hc⟩ := List.mem_iff_getElem?.mp hmem
  have hfn : f.act + 1 < n := by omega
  obtain ⟨haddr, hfine⟩ := hlist.cell_fine hframes hf0 hfn hc
  have hsize := hlist.pointer_size hframes hf0 hfn hc hp ha
  obtain ⟨-, rfl⟩ | ⟨tg, dest, callee, htg, hle, hfinds, rfl⟩ := putValData_finds hk.frames hf0 hfm hsize haddr hfine h
  · exact hk
  · exact hk.put hframes hW hf0 hfm hfn (hfine tg htg) hfinds hle

include hframes hW h0 hmn in
theorem putValArch_writes {i : Nat} (hi : i < (ds m).numArchLive.toNat) {v : ArchLiveValue} (hv : destArch x ds m i = some v)
    (hk : WritesIn x n ds gs W m0 m q st) (h : putValArch st v = .ok st') :
    WritesIn x n ds gs W m0 m q st' ∧ st'.ctx.stackPointers = st.ctx.stackPointers := by
  obtain ⟨haddr, hfine⟩ := (hframes m h0 hmn).arch i hi v hv
  obtain ⟨tg, bs, dest, callee, htg, hle, hfinds, rfl⟩ := putValArch_finds hk.frames h0 (Nat.le_refl m) hk.frames.act haddr hfine h
  exact ⟨hk.put hframes hW h0 (Nat.le_refl m) hmn (hfine tg htg) hfinds hle, writeBoth_stackPointers st dest callee bs⟩

/-! ## A frame -/

/-- `points_to_stack` finds pointers only. -/
theorem pointsToStack_ptr {src : Ctx} {mem : Mem} {v : LiveValue} {addr : Nat} (h : pointsToStack src mem v = .ok addr)
    (hne : addr ≠ 0) : v.isPtr = true ∧ v.isAlloca = false := by
  unfold pointsToStack at h
  split at h
  · rename_i hkind
    rw [Bool.and_eq_true, Bool.not_eq_true'] at hkind
    exact hkind
  · cases h
    exact absurd rfl hne

include hframes hlist hW h0 hmn in
theorem fixupOrPut_writes {src : Ctx} (hact : src.act = m) {i : Nat} {b : Bool} {v w : LiveValue} (hi : src.handle.liveVals i = v)
    (hc : (cellsOf (gs m))[t]? = some (v, w)) (hk : WritesIn x n ds gs W m0 m st.ctx.stackPointers st)
    (h : fixupOrPut src i st w = .ok (b, st')) : WritesIn x n ds gs W m0 m st'.ctx.stackPointers st' := by
  unfold fixupOrPut at h
  rw [hi] at h
  obtain ⟨addr, haddr, h⟩ := bind_ok.mp h
  split at h
  · rename_i hne
    split at h
    · cases h
      obtain ⟨hp, ha⟩ := pointsToStack_ptr haddr hne
      apply hk.setFixups
      intro f hf
      obtain hf | hf := List.mem_append.mp hf
      · exact hk.queue f hf
      · obtain rfl := List.mem_singleton.mp hf
        have hown : st.ctx.act = m := hk.frames.act
        refine ⟨by dsimp only; omega, by dsimp only; omega, v, ?_, hp, ha⟩
        dsimp only
        rw [hown]
        exact List.mem_of_getElem? hc
    · cases h
      exact hk
  · obtain ⟨st1, h1, h⟩ := bind_ok.mp h
    cases h
    obtain ⟨hk1, hfix⟩ := putVal_writes hframes hlist hW h0 hmn hact hc hk h1
    rw [hfix]
    exact hk1

include hframes hlist hW hmn in
theorem resolveFixups_writes {src : Ctx} {v w : LiveValue} (fs : List Fixup) : ∀ {kept : List Fixup} {st st' : Dst},
    WritesIn x n ds gs W m0 m fs st → resolveFixups src v w fs st = .ok (kept, st') → WritesIn x n ds gs W m0 m kept st' := by
  induction fs with
  | nil =>
    intro kept st st' hk h
    cases h
    exact hk
  | cons f fs ih =>
    intro kept st st' hk h
    have hf := hk.queue f List.mem_cons_self
    have hrest : WritesIn x n ds gs W m0 m fs st := ⟨hk.frames, hk.mem, fun g hg => hk.queue g (List.mem_cons_of_mem f hg)⟩
    unfold resolveFixups at h
    obtain ⟨d, -, h⟩ := bind_ok.mp h
    split at h
    · obtain ⟨st1, h1, h⟩ := bind_ok.mp h
      exact ih (putValData_writes hframes hlist hW hmn hf hrest h1) h
    · obtain ⟨⟨kept', st1⟩, h1, h⟩ := bind_ok.mp h
      cases h
      have hk1 := ih hrest h1
      refine ⟨hk1.frames, hk1.mem, ?_⟩
      intro g hg
      obtain rfl | hg := List.mem_cons.mp hg
      · exact hf
      · exact hk1.queue g hg

include hframes hlist hW h0 hmn in
theorem rewriteVal_writes {src : Ctx} (hact : src.act = m) {i : Nat} {b : Bool} {v w : LiveValue} (hi : src.handle.liveVals i = v)
    (hc : (cellsOf (gs m))[t]? = some (v, w)) (hk : WritesIn x n ds gs W m0 m st.ctx.stackPointers st)
    (h : rewriteVal src i st w = .ok (b, st')) : WritesIn x n ds gs W m0 m st'.ctx.stackPointers st' := by
  unfold rewriteVal at h
  dsimp only at h
  split at h
  · cases h
    exact hk
  · obtain ⟨⟨b1, st1⟩, h1, h⟩ := bind_ok.mp h
    have hk1 := fixupOrPut_writes hframes hlist hW h0 hmn hact hi hc hk h1
    split at h
    · obtain ⟨⟨kept, st2⟩, h2, h⟩ := bind_ok.mp h
      cases h
      have hk2 := resolveFixups_writes hframes hlist hW hmn _ hk1 h2
      exact hk2.setFixups kept hk2.queue
    · cases h
      exact hk1

include hframes hlist hW h0 hmn in
theorem rewriteGroups_writes {src : Ctx} (hact : src.act = m) (hhandle : src.handle = x.handleSrc) {s s' : Bool × Dst}
    (hk : WritesIn x n ds gs W m0 m s.2.ctx.stackPointers s.2)
    (h : rewriteGroups src (sf m).site.liveOffset (gs m) s = .ok s') : WritesIn x n ds gs W m0 m s'.2.ctx.stackPointers s'.2 := by
  have hcells := cellsOf_rounds (gs m) (hlist.src m h0 hmn)
  rw [rewriteGroups_rounds] at h
  refine foldlM_index (P := fun _ s => WritesIn x n ds gs W m0 m s.2.ctx.stackPointers s.2) ?_ hk h
  intro t p s s' hpt hk hround
  obtain ⟨⟨b1, st1⟩, h1, hround⟩ := bind_ok.mp hround
  cases hround
  have hc : (cellsOf (gs m))[t]? = some (x.handleSrc.liveVals p.1, p.2) := by
    rw [hcells, List.getElem?_map, hpt]
    rfl
  exact rewriteVal_writes hframes hlist hW h0 hmn hact (by rw [hhandle]) hc hk h1

include hframes hW h0 hmn in
theorem rewriteArchVals_writes (hk : WritesIn x n ds gs W m0 m st.ctx.stackPointers st)
    (h : (List.range' (ds m).archLiveOffset (ds m).numArchLive.toNat).foldlM rewriteArchVal st = .ok st') :
    WritesIn x n ds gs W m0 m st'.ctx.stackPointers st' := by
  refine foldlM_range (P := fun _ s => WritesIn x n ds gs W m0 m s.ctx.stackPointers s) _ _ ?_ h hk
  intro i s s' hle hlt hs hround
  unfold rewriteArchVal at hround
  split at hround
  · rename_i v hv
    rw [hs.frames.handle] at hv
    have hv' : destArch x ds m (i - (ds m).archLiveOffset) = some v := by
      unfold destArch
      rw [Nat.add_sub_cancel' hle]
      exact hv
    obtain ⟨hs', hfix⟩ := putValArch_writes hframes hW h0 hmn (by omega) hv' hs hround
    rw [hfix]
    exact hs'
  · cases hround

include hframes hlist hW hmn in
theorem fixupLoop_writes {src : Ctx} (fs : List Fixup) : ∀ {found : Bool} {kept : List Fixup} {st st' : Dst},
    WritesIn x n ds gs W m0 m (kept ++ fs) st → fixupLoop src found kept fs st = .ok st' →
    WritesIn x n ds gs W m0 m st'.ctx.stackPointers st' := by
  induction fs with
  | nil =>
    intro found kept st st' hk h
    cases h
    rw [List.append_nil] at hk
    exact hk.setFixups kept hk.queue
  | cons f fs ih =>
    intro found kept st st' hk h
    have hkeep : ∀ {found}, fixupLoop src found (kept ++ [f]) fs st = .ok st' → WritesIn x n ds gs W m0 m st'.ctx.stackPointers st' := by
      intro found h
      rw [List.append_cons] at hk
      exact ih hk h
    unfold fixupLoop at h
    split at h
    · split at h
      · exact hkeep h
      · obtain ⟨d, -, h⟩ := bind_ok.mp h
        split at h
        · obtain ⟨st1, h1, h⟩ := bind_ok.mp h
          have hf := hk.queue f (List.mem_append_right kept List.mem_cons_self)
          have hk1 := putValData_writes hframes hlist hW hmn hf hk h1
          refine ih ⟨hk1.frames, hk1.mem, ?_⟩ h
          intro g hg
          obtain hg | hg := List.mem_append.mp hg
          · exact hk.queue g (List.mem_append_left _ hg)
          · exact hk.queue g (List.mem_append_right kept (List.mem_cons_of_mem f hg))
        · exact hkeep h
    · split at h
      · cases h
      · exact hkeep h

include hframes hlist hW h0 hmn in
/-- A frame's rewriting writes bodies of frames up to it. -/
theorem rewriteFrame_writes {src : Ctx} (hsrc : SrcFrame x sf m src) {found : Bool}
    (hk : WritesIn x n ds gs W m0 m st.ctx.stackPointers st) (h : rewriteFrame src found st = .ok st') :
    WritesIn x n ds gs W m0 m st'.ctx.stackPointers st' := by
  have hsite : st.ctx.cur.site = ds m := (hk.frames.cur_site (by omega)).trans (if_neg (by omega))
  have hsite' : src.cur.site = (sf m).site := congrArg VFrame.site hsrc.cur
  have hfuel := groups_le_records ((gs m).map Prod.snd)
  rw [List.length_map, ← hlist.numLive m h0 hmn] at hfuel
  unfold rewriteFrame at h
  rw [hsite, hsite'] at h
  obtain ⟨⟨b, st1⟩, h1, h⟩ := bind_ok.mp h
  obtain ⟨st2, h2, h⟩ := bind_ok.mp h
  rw [rewriteVals_groups (s := (false, st)) (gs m) hk.frames.handle hsite (hsrc.handle ▸ hlist.src m h0 hmn) (hlist.dest m h0 hmn)
    (by rw [hlist.numLive m h0 hmn]) hfuel] at h1
  have hk1 := rewriteGroups_writes hframes hlist hW h0 hmn hsrc.act hsrc.handle (s := (false, st)) hk h1
  have hk2 := rewriteArchVals_writes hframes hW h0 hmn hk1 h2
  split at h
  · exact fixupLoop_writes hframes hlist hW hmn _ (by exact hk2) h
  · cases h
    exact hk2

/-! ## A round -/

include hframes hlist hW h0 hmn in
/-- A round writes the bodies and the two slots of its frame. -/
theorem rewriteStep_writes {src : Ctx} (hsrc : SrcFrame x sf m src) {found : Bool} (hd : DestFrames x n ds m st.ctx)
    (hq : ∀ f ∈ st.ctx.stackPointers, Queued gs m f) (h : rewriteStep src found st = .ok st') :
    ∃ fbp, WritesIn x n ds gs W (store (store st.mem (padd (destCfa x ds n m) (-8)) (leBytes 8 (ds (m + 1)).addr.toNat))
      (padd (destCfa x ds n m) (-16)) (leBytes 8 fbp)) (m + 1) st'.ctx.stackPointers st' := by
  have hsite : (st.ctx.acts (st.ctx.act + 1)).site = ds (m + 1) := by
    rw [hd.act]
    exact (hd.site (m + 1) hmn).trans (if_neg (by omega))
  have hra : setReturnAddress st (ds (m + 1)).addr.toNat =
      writeLoc st (.mem (padd (destCfa x ds n m) (-8))) (leBytes 8 (ds (m + 1)).addr.toNat) := by
    unfold setReturnAddress
    rw [hd.cur_cfa, ctx_raOffset]
  unfold rewriteStep at h
  rw [hsite, hra] at h
  obtain ⟨st2, h2, h⟩ := bind_ok.mp h
  obtain ⟨c, h3, h⟩ := bind_ok.mp h
  obtain ⟨hp, rfl⟩ := popFrame_ok_iff.mp h3
  obtain rfl := Except.ok.inj h
  have hk : WritesIn x n ds gs W (store st.mem (padd (destCfa x ds n m) (-8)) (leBytes 8 (ds (m + 1)).addr.toNat)) m
      st.ctx.stackPointers (writeLoc st (.mem (padd (destCfa x ds n m) (-8))) (leBytes 8 (ds (m + 1)).addr.toNat)) :=
    ⟨hd.wrote (wrote_mem st _ _), fun _ _ => rfl, hq⟩
  have hk2 := rewriteFrame_writes hframes hlist hW h0 hmn hsrc hk h2
  have hfbp : getSavedfbpLoc st2.ctx = padd (destCfa x ds n m) (-16) := by
    unfold getSavedfbpLoc
    rw [hk2.frames.cur_cfa, ctx_savedfbpOffset]
  rw [hfbp]
  refine ⟨(popped st2.mem st2.ctx true).regops.fbp (popped st2.mem st2.ctx true).cur.regs, ?_, ?_, ?_⟩
  · exact (hk2.frames.popped st2.mem hmn hp).wrote (wrote_mem ⟨popped st2.mem st2.ctx true, st2.mem⟩ _ _)
  · intro a ha
    show store st2.mem _ _ a = store (store st.mem _ _) _ _ a
    unfold store
    rw [hk2.mem a ha]
    rfl
  · intro f hf
    have hfix : (popped st2.mem st2.ctx true).stackPointers = st2.ctx.stackPointers := popped_stackPointers _ _ _
    obtain ⟨hf0, hfm, hv⟩ := hk2.queue f (hfix ▸ hf)
    exact ⟨hf0, by omega, hv⟩

end Frame

/-- Where the function being entered has its return address: in memory on x86-64, in a register on
    aarch64. -/
theorem rewriteOutermost_writes {u : Unwinding} (hu : Unwound x n sf ds u) (hn : 2 ≤ n) (h : rewriteOutermost mem u.dest = .ok st) :
    WritesIn x n ds gs (fun _ => False) (if (getRegops x.handleDest.arch).raOff.isSome then mem
      else store mem (padd (destCfa x ds n 0) (-8)) (leBytes 8 (ds 1).addr.toNat)) 1 st.ctx.stackPointers st := by
  have hd := hu.destRun
  have hsite : (u.dest.acts (u.dest.act + 1)).site = ds 1 := by
    rw [hu.destAct]
    exact hu.destSites 1 (by omega) (by omega)
  unfold rewriteOutermost at h
  rw [hsite] at h
  obtain ⟨c, h1, h⟩ := bind_ok.mp h
  obtain ⟨-, rfl⟩ := popFrameFuncentry_ok_iff.mp h1
  obtain rfl := Except.ok.inj h
  have hd1 := hd.same (setReturnAddressFuncentry_same ⟨u.dest, mem⟩ (ds 1).addr.toNat)
  have hops : u.dest.regops = getRegops x.handleDest.arch := congrArg (fun h : Handle => getRegops h.arch) hd.handle
  refine ⟨entered_destFrames hd1 _ hn, ?_, ?_⟩
  · intro a _
    dsimp only
    unfold setReturnAddressFuncentry
    dsimp only
    rw [hops]
    cases hra : (getRegops x.handleDest.arch).raOff with
    | some off => rfl
    | none =>
      unfold setReturnAddress
      dsimp only
      rw [hd.cur_cfa, ctx_raOffset]
      rfl
  · intro f hf
    have hfix : (setReturnAddressFuncentry ⟨u.dest, mem⟩ (ds 1).addr.toNat).ctx.stackPointers = u.dest.stackPointers := by
      unfold setReturnAddressFuncentry
      split <;> rfl
    rw [entered_stackPointers, hfix, hu.destFixups] at hf
    cases hf

/-! ## Where the frames are -/

/-- Where frame `k` ends, without wrapping. -/
def frameEnd (x : RewriteArgs) (ds : Nat → CallSite) (n k : Nat) : Nat :=
  destTop x.handleDest.arch x.spBaseDest (frameSpan ds (n - 1)) + (getProperties x.handleDest.arch).cfaOffsetFuncentry.toNat + frameSpan ds k

section Geometry
variable (hframes : ∀ k, 0 < k → k + 1 < n → FrameBody x ds n k)
  (hroom : needed x.handleDest.arch x.spBaseDest (frameSpan ds (n - 1)) ≤ x.spBaseDest) (hlt : x.spBaseDest < 18446744073709551616)

theorem entryOffset_le (a : Arch) : (getProperties a).cfaOffsetFuncentry.toNat ≤ 8 := by
  cases a <;> decide

include hroom hlt in
theorem destTop_add : destTop x.handleDest.arch x.spBaseDest (frameSpan ds (n - 1)) +
    needed x.handleDest.arch x.spBaseDest (frameSpan ds (n - 1)) = x.spBaseDest := by
  rw [destTop_needed, padd_eq (b := x.spBaseDest - needed x.handleDest.arch x.spBaseDest (frameSpan ds (n - 1)))]
  all_goals omega

theorem destCfa_frameEnd (k : Nat) : destCfa x ds n k = frameEnd x ds n k % 18446744073709551616 := by
  induction k with
  | zero =>
    have hnonneg : 0 ≤ (getProperties x.handleDest.arch).cfaOffsetFuncentry := by cases x.handleDest.arch <;> decide
    unfold destCfa frameEnd padd
    rw [show frameSpan ds 0 = 0 from rfl]
    omega
  | succ k ih =>
    unfold destCfa
    rw [ih]
    unfold frameEnd padd
    rw [show frameSpan ds (k + 1) = frameSpan ds k + (ds (k + 1)).frameSize.toNat from rfl]
    omega

include hroom hlt in
/-- Only the last of the two slots of a frame can be past the base. -/
theorem frameEnd_le {k : Nat} (hk : k + 1 < n) : frameEnd x ds n k ≤ x.spBaseDest + 8 := by
  have htop := destTop_add hroom hlt
  have hspan := (needed_bounds x.handleDest.arch x.spBaseDest (frameSpan ds (n - 1))).1
  have hmono : frameSpan ds k ≤ frameSpan ds (n - 1) := frameSpan_mono ds (by omega)
  have hoff := entryOffset_le x.handleDest.arch
  unfold frameEnd
  omega

include hframes in
theorem frameEnd_succ {k : Nat} (hk : k + 2 < n) : frameEnd x ds n k + 16 ≤ frameEnd x ds n (k + 1) := by
  have hsize := (hframes (k + 1) (by omega) (by omega)).room
  unfold frameEnd
  rw [show frameSpan ds (k + 1) = frameSpan ds k + (ds (k + 1)).frameSize.toNat from rfl]
  omega

theorem frameEnd_mono {j k : Nat} (h : j ≤ k) : frameEnd x ds n j ≤ frameEnd x ds n k := by
  have := frameSpan_mono ds h
  unfold frameEnd
  omega

include hframes hroom hlt in
/-- The bodies of the frames up to `m` are below its slots. -/
theorem bodies_below {m : Nat} : Bodies x n ds m fun a =>
    destTop x.handleDest.arch x.spBaseDest (frameSpan ds (n - 1)) ≤ a ∧ a + 16 < frameEnd x ds n m := by
  intro k a len hkm hkn hspot j hj
  obtain ⟨⟨hlow, hhigh⟩, h0⟩ := hspot.bounds
  have hprev := frameEnd_succ hframes (show k - 1 + 2 < n by omega)
  rw [Nat.sub_add_cancel h0] at hprev
  have hend := frameEnd_le hroom hlt hkn
  have hmono : frameEnd x ds n k ≤ frameEnd x ds n m := frameEnd_mono hkm
  rw [destCfa_frameEnd, Nat.mod_eq_of_lt (by omega)] at hlow
  have hle : destCfa x ds n k ≤ frameEnd x ds n k := by
    rw [destCfa_frameEnd]
    exact Nat.mod_le _ _
  have htop : destTop x.handleDest.arch x.spBaseDest (frameSpan ds (n - 1)) ≤ frameEnd x ds n (k - 1) := by
    unfold frameEnd
    omega
  omega

include hroom hlt in
/-- The slots at the top of a frame. -/
theorem slot_frameEnd {k a : Nat} {d : Int} (hk : k + 1 < n) (ha : (a : Int) = frameEnd x ds n k + d) (h8 : a + 8 ≤ frameEnd x ds n k) :
    padd (destCfa x ds n k) d = a := by
  have hend := frameEnd_le hroom hlt hk
  rw [destCfa_frameEnd]
  unfold padd
  omega

end Geometry

/-! ## The whole rewrite -/

/-- The destination when the rewrite has reached frame `m`: only the part of the stack up to the
    end of the frame before has changed. -/
structure Rewrote (mem : Mem) (x : RewriteArgs) (n : Nat) (ds : Nat → CallSite) (gs : Nat → List (Group × Group)) (m : Nat)
    (st : Dst) : Prop where
  frames : DestFrames x n ds m st.ctx
  queue : ∀ f ∈ st.ctx.stackPointers, Queued gs m f
  outside : ∀ a, a < destTop x.handleDest.arch x.spBaseDest (frameSpan ds (n - 1)) ∨ frameEnd x ds n (m - 1) ≤ a → st.mem a = mem a
  /-- The return address into frame `m`. -/
  slot : (getRegops x.handleDest.arch).raOff = none → ∀ i < 8,
    st.mem (frameEnd x ds n (m - 1) - 8 + i) = (leBytes 8 (ds m).addr.toNat).getD i 0

section Run
variable (hframes : ∀ k, 0 < k → k + 1 < n → FrameBody x ds n k) (hlist : Listed x n sf ds gs)
  (hroom : needed x.handleDest.arch x.spBaseDest (frameSpan ds (n - 1)) ≤ x.spBaseDest) (hlt : x.spBaseDest < 18446744073709551616)

theorem destTop_le_frameEnd (k : Nat) : destTop x.handleDest.arch x.spBaseDest (frameSpan ds (n - 1)) ≤ frameEnd x ds n k := by
  unfold frameEnd
  omega

include hroom hlt in
theorem rewriteOutermost_rewrote {u : Unwinding} (hu : Unwound x n sf ds u) (hn : 2 ≤ n) (h : rewriteOutermost mem u.dest = .ok st) :
    Rewrote mem x n ds gs 1 st := by
  have hw := @rewriteOutermost_writes mem x n sf ds gs st u hu hn h
  have hmem := fun a => hw.mem a id
  have htop : destTop x.handleDest.arch x.spBaseDest (frameSpan ds (n - 1)) ≤ frameEnd x ds n 0 := destTop_le_frameEnd 0
  obtain ⟨harch, hoff, hra⟩ | ⟨-, -, hra⟩ := entryOffset_cases x.handleDest.arch
  · have hend : frameEnd x ds n 0 = destTop x.handleDest.arch x.spBaseDest (frameSpan ds (n - 1)) + 8 := by
      unfold frameEnd
      rw [hoff]
      rfl
    rw [hra, if_neg (by decide), slot_frameEnd hroom hlt (a := frameEnd x ds n 0 - 8) (d := -8) (by omega) (by omega) (by omega)] at hmem
    refine ⟨hw.frames, hw.queue, ?_, ?_⟩
    · intro a (ha : a < _ ∨ frameEnd x ds n 0 ≤ a)
      rw [hmem]
      apply store_apart
      rw [leBytes_length]
      omega
    · intro _ i hi
      rw [hmem]
      apply store_at
      rwa [leBytes_length]
  · rw [hra, if_pos rfl] at hmem
    refine ⟨hw.frames, hw.queue, fun a _ => hmem a, ?_⟩
    intro hnone
    rw [hnone] at hra
    cases hra

include hframes hlist hroom hlt in
/-- A round. -/
theorem Rewrote.step {m : Nat} {st st' : Dst} (hr : Rewrote mem x n ds gs m st) (h0 : 0 < m) (hmn : m + 1 < n) {src : Ctx}
    (hsrc : SrcFrame x sf m src) {found : Bool} (h : rewriteStep src found st = .ok st') : Rewrote mem x n ds gs (m + 1) st' := by
  have hprev := frameEnd_succ hframes (show m - 1 + 2 < n by omega)
  have htop : destTop x.handleDest.arch x.spBaseDest (frameSpan ds (n - 1)) ≤ frameEnd x ds n (m - 1) := destTop_le_frameEnd (m - 1)
  rw [Nat.sub_add_cancel h0] at hprev
  obtain ⟨fbp, hw⟩ := rewriteStep_writes hframes hlist (bodies_below hframes hroom hlt) h0 hmn hsrc hr.frames hr.queue h
  have hmem := hw.mem
  rw [slot_frameEnd hroom hlt (a := frameEnd x ds n m - 8) (d := -8) hmn (by omega) (by omega),
    slot_frameEnd hroom hlt (a := frameEnd x ds n m - 16) (d := -16) hmn (by omega) (by omega)] at hmem
  refine ⟨hw.frames, hw.queue, ?_, ?_⟩
  · intro a ha
    rw [Nat.add_sub_cancel] at ha
    rw [hmem a (by omega), store_apart (by rw [leBytes_length]; omega), store_apart (by rw [leBytes_length]; omega)]
    exact hr.outside a (by omega)
  · intro _ i hi
    rw [Nat.add_sub_cancel, hmem _ (by omega), store_apart (by rw [leBytes_length]; omega)]
    apply store_at
    rwa [leBytes_length]

include hframes hlist hroom hlt in
/-- A rewrite leaves everything alone but the stack up to the end of the last frame it rewrites, and
    the last 8 bytes there are the return address into the start function. -/
theorem stRewriteStack_rewrote (hs : SourceStack mem x n sf ds) {out : Rewritten} (h : stRewriteStack mem x = .ok (some out)) :
    ∃ st, Rewrote mem x n ds gs (n - 1) st ∧ out.mem = st.mem := by
  have h2 := hs.two
  obtain ⟨u, st1, st, hu, h1, hst, rfl⟩ := stRewriteStack_ok h
  have hun := unwindStack_unwound hs hu
  rw [hun.numActs] at hst
  have hend : Rewrote mem x n ds gs (1 + (n - 2)) st := by
    refine foldlM_range (P := fun m st => Rewrote mem x n ds gs m st) (n - 2) 1 ?_ hst (rewriteOutermost_rewrote hroom hlt hun h2 h1)
    intro k s s' hk0 hk hr hround
    exact hr.step hframes hlist hroom hlt hk0 (by omega) (hun.srcFrame (show k < n by omega)) hround
  rw [show 1 + (n - 2) = n - 1 by omega] at hend
  exact ⟨st, hend, rfl⟩

end Run

end

end Popcorn.Runtime
