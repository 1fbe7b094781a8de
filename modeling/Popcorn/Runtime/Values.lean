/-
  Popcorn.Runtime.Values — rewriting one value.

  A record's rewrite reads the source frame and puts the value to its cell, or queues a
  fixup; at an alloca it resolves the fixups that point into it. Each of these steps keeps
  the cells that are done (`Kept`) and leaves no fixup waiting for an alloca that is done
  (`Settled`), whatever the order of pointers and allocas.

  Proved:
  - `SrcFrame.bytes`, `SrcFrame.points`, `SrcFrame.pointsInto`: what the runtime reads of a
    source frame is what its virtual frame holds.
  - `Kept.resolve`, `resolveFixups_kept`: the fixups of an alloca.
  - `rewriteVal_kept`: one record.
-/

import Popcorn.Runtime.Cells

namespace Popcorn.Runtime

open Popcorn.Lib Popcorn.Metadata

/-! ## The source frame -/

/-- The source context at frame `k`. -/
structure SrcFrame (x : RewriteArgs) (sf : Nat → VFrame) (k : Nat) (src : Ctx) : Prop where
  handle : src.handle = x.handleSrc
  act : src.act = k
  view : (src.acts k).view = sf k
  prev : (src.acts (k - 1)).view = sf (k - 1)
  stack : src.stack = (getRegops x.handleSrc.arch).sp (sf 0).regs
  stackBase : src.stackBase = x.spBaseSrc

theorem Unwound.srcFrame {x : RewriteArgs} {n : Nat} {sf : Nat → VFrame} {ds : Nat → CallSite} {u : Unwinding}
    (hu : Unwound x n sf ds u) {k : Nat} (hk : k < n) : SrcFrame x sf k { u.src with act := k } where
  handle := hu.srcHandle
  act := rfl
  view := hu.frames k hk
  prev := hu.frames (k - 1) (by omega)
  stack := hu.srcStack
  stackBase := hu.srcStackBase

section
variable {x : RewriteArgs} {sf : Nat → VFrame} {k : Nat} {src : Ctx} {v : LiveValue}

theorem SrcFrame.regops (h : SrcFrame x sf k src) : src.regops = getRegops x.handleSrc.arch := by
  unfold Ctx.regops
  rw [h.handle]

theorem SrcFrame.regs (h : SrcFrame x sf k src) : (src.acts k).regs = (sf k).regs := congrArg VFrame.regs h.view

theorem SrcFrame.cur (h : SrcFrame x sf k src) : src.cur.view = sf k := by
  unfold Ctx.cur
  rw [h.act]
  exact h.view

/-- The location of a record is the one its virtual frame has. -/
theorem SrcFrame.loc (h : SrcFrame x sf k src) {l : Loc} (hl : getValLoc src v.type v.regnum v.offsetOrConstant.toInt k = .ok l) :
    (∀ m len, vread m x.handleSrc (sf k) v len = some (readLoc src m l len)) ∧
      ∀ a, vaddr x.handleSrc (sf k) v = some a → l = .mem a := by
  unfold getValLoc at hl
  unfold vread vaddr
  cases ht : LocationType.ofCode v.type with
  | none =>
    rw [ht] at hl
    cases hl
  | some t =>
    rw [ht] at hl
    cases t with
    | register =>
      obtain ⟨off, hoff, hl⟩ := bind_ok.mp hl
      cases hl
      rw [h.regops] at hoff
      rw [hoff]
      refine ⟨?_, fun a ha => nomatch ha⟩
      intro m len
      exact congrArg (fun r => some (load r off len)) h.regs.symm
    | direct =>
      obtain ⟨off, hoff, hl⟩ := bind_ok.mp hl
      cases hl
      rw [h.regops] at hoff
      rw [hoff, h.regs]
      exact ⟨fun m len => rfl, fun a ha => congrArg Loc.mem (Option.some.inj ha)⟩
    | indirect =>
      obtain ⟨off, hoff, hl⟩ := bind_ok.mp hl
      cases hl
      rw [h.regops] at hoff
      rw [hoff, h.regs]
      exact ⟨fun m len => rfl, fun a ha => congrArg Loc.mem (Option.some.inj ha)⟩
    | constant => cases hl
    | constIdx => cases hl

/-- What a record reads depends on the memory at its address only. -/
theorem vread_congr {m m' : Mem} {h : Handle} {f : VFrame} {len : Nat}
    (hm : ∀ a, vaddr h f v = some a → load m a len = load m' a len) : vread m h f v len = vread m' h f v len := by
  unfold vaddr at hm
  unfold vread
  cases ht : LocationType.ofCode v.type with
  | none => rfl
  | some t =>
    cases hr : (getRegops h.arch).reg v.regnum with
    | error e => cases t <;> rfl
    | ok off =>
      rw [ht, hr] at hm
      cases t with
      | register => rfl
      | direct => exact congrArg some (hm _ rfl)
      | indirect => exact congrArg some (hm _ rfl)
      | constant => rfl
      | constIdx => rfl

/-- The bytes `put_val` copies. -/
theorem SrcFrame.bytes (h : SrcFrame x sf k src) {m mem : Mem} {i len : Nat} {bs bs' : List UInt8} (hi : x.handleSrc.liveVals i = v)
    (hm : ∀ a, vaddr x.handleSrc (sf k) v = some a → load m a len = load mem a len)
    (hbs : getSrcBytes src m i k len = .ok bs) (hv : vread mem x.handleSrc (sf k) v len = some bs') : bs = bs' := by
  unfold getSrcBytes at hbs
  rw [h.handle, hi] at hbs
  dsimp only at hbs
  have hloc : (getValLoc src v.type v.regnum v.offsetOrConstant.toInt k >>= fun l => pure (readLoc src m l len)) = .ok bs → bs = bs' := by
    intro hbs
    obtain ⟨l, hl, hbs⟩ := bind_ok.mp hbs
    cases hbs
    rw [← vread_congr hm, (h.loc hl).1 m len] at hv
    exact Option.some.inj hv
  cases ht : LocationType.ofCode v.type with
  | none =>
    rw [ht] at hbs
    cases hbs
  | some t =>
    rw [ht] at hbs
    cases t with
    | register => exact hloc hbs
    | direct => exact hloc hbs
    | indirect => exact hloc hbs
    | constant =>
      unfold vread at hv
      rw [ht] at hv
      cases hv
    | constIdx => cases hbs

/-- The address `points_to_stack` finds. -/
theorem SrcFrame.points (h : SrcFrame x sf k src) (mem : Mem) {m : Mem} {addr : Nat}
    (hm : ∀ a, v.isPtr = true → v.isAlloca = false → vaddr x.handleSrc (sf k) v = some a → load m a 8 = load mem a 8)
    (hp : pointsToStack src m v = .ok addr) :
    (addr ≠ 0 ∧ VPoints mem x.handleSrc (sf k) v addr ∧ IntoStack x sf addr) ∨
      (addr = 0 ∧ ∀ a, VPoints mem x.handleSrc (sf k) v a → ¬ IntoStack x sf a) := by
  unfold pointsToStack at hp
  split at hp
  · rename_i hkind
    rw [Bool.and_eq_true, Bool.not_eq_true'] at hkind
    obtain ⟨hptr, halloca⟩ := hkind
    have hregs : src.cur.regs = (sf k).regs := congrArg VFrame.regs h.cur
    have hfound : ∀ a0, (vread m x.handleSrc (sf k) v 8).map leVal = some a0 →
        (pure (if a0 < src.stack ∨ src.stackBase ≤ a0 then 0 else a0) : Except Fault Nat) = .ok addr →
        (addr ≠ 0 ∧ VPoints mem x.handleSrc (sf k) v addr ∧ IntoStack x sf addr) ∨
          (addr = 0 ∧ ∀ a, VPoints mem x.handleSrc (sf k) v a → ¬ IntoStack x sf a) := by
      intro a0 hval hp
      rw [vread_congr fun a ha => hm a hptr halloca ha] at hval
      rw [h.stack, h.stackBase] at hp
      by_cases hout : a0 < (getRegops x.handleSrc.arch).sp (sf 0).regs ∨ x.spBaseSrc ≤ a0
      · rw [if_pos hout] at hp
        cases hp
        refine .inr ⟨rfl, ?_⟩
        intro a ha hin
        cases ha.2.2.symm.trans hval
        obtain ⟨h1, h2, -⟩ := hin
        omega
      · rw [if_neg hout] at hp
        obtain rfl : a0 = addr := Except.ok.inj hp
        by_cases h0 : a0 = 0
        · refine .inr ⟨h0, ?_⟩
          intro a ha hin
          cases ha.2.2.symm.trans hval
          exact hin.2.2 h0
        · exact .inl ⟨h0, ⟨hptr, halloca, hval⟩, by omega, by omega, h0⟩
    unfold vread at hfound
    dsimp only at hp
    cases ht : LocationType.ofCode v.type with
    | none =>
      rw [ht] at hp
      cases hp
    | some t =>
      rw [ht] at hp hfound
      cases t with
      | register =>
        obtain ⟨off, hoff, hp⟩ := bind_ok.mp hp
        rw [h.regops] at hoff
        rw [hoff] at hfound
        apply hfound _ rfl
        rw [← hregs]
        exact hp
      | direct => cases hp
      | indirect =>
        obtain ⟨off, hoff, hp⟩ := bind_ok.mp hp
        rw [h.regops] at hoff
        rw [hoff] at hfound
        apply hfound _ rfl
        rw [← hregs]
        exact hp
      | constant => cases hp
      | constIdx => cases hp
  · rename_i hkind
    cases hp
    refine .inr ⟨rfl, ?_⟩
    intro a ha _
    apply hkind
    rw [ha.1, ha.2.1]
    rfl

/-- The address of a destination record that stands in memory. -/
theorem DestFrames.loc_addr {n m : Nat} {ds : Nat → CallSite} {c : Ctx} (hd : DestFrames x n ds m c) (h0 : 0 < m) {w : LiveValue}
    (haddr : Addressable x w.type w.regnum w.valSize) {l : Loc} (hl : getValLoc c w.type w.regnum w.offsetOrConstant.toInt m = .ok l)
    {a : Nat} (ha : destAddr x n ds m w = some a) : l = .mem a := by
  unfold getValLoc at hl
  unfold destAddr valTarget target at ha
  unfold Addressable at haddr
  cases ht : LocationType.ofCode w.type with
  | none =>
    rw [ht] at hl
    cases hl
  | some t =>
    rw [ht] at hl ha haddr
    cases t with
    | register => cases ha
    | direct =>
      obtain ⟨off, hoff, hl⟩ := bind_ok.mp hl
      rw [hd.base h0 (Nat.le_refl m) haddr hoff] at hl
      cases hl
      exact congrArg Loc.mem (Option.some.inj ha)
    | indirect =>
      obtain ⟨off, hoff, hl⟩ := bind_ok.mp hl
      rw [hd.base h0 (Nat.le_refl m) haddr hoff] at hl
      cases hl
      exact congrArg Loc.mem (Option.some.inj ha)
    | constant => cases ha
    | constIdx => cases ha

/-- `points_to_data` at an alloca of the frame. -/
theorem SrcFrame.pointsInto (h : SrcFrame x sf k src) {n : Nat} {ds : Nat → CallSite} {c : Ctx} (hd : DestFrames x n ds k c)
    (h0 : 0 < k) {w : LiveValue} (haddr : Addressable x w.type w.regnum w.valSize) (halloca : v.isAlloca = true) {b b' : Nat}
    (hb : vaddr x.handleSrc (sf k) v = some b) (hb' : destAddr x n ds k w = some b')
    (hroom : b + v.valSize < 18446744073709551616) (hroom' : b' + v.valSize < 18446744073709551616) (hpos : 0 < b') {ptr d : Nat}
    (hp : pointsToData src v c w ptr = .ok d) :
    (d ≠ 0 ∧ VContains x.handleSrc (sf k) v ptr ∧ d = b' + (ptr - b)) ∨ (d = 0 ∧ ¬ VContains x.handleSrc (sf k) v ptr) := by
  unfold pointsToData at hp
  rw [h.act] at hp
  obtain ⟨l, hl, hp⟩ := bind_ok.mp hp
  obtain rfl := (h.loc hl).2 b hb
  have hend : padd b v.valSize = b + v.valSize := padd_eq hroom (by omega)
  have hin : VContains x.handleSrc (sf k) v ptr ↔ b ≤ ptr ∧ ptr < b + v.valSize := by
    constructor
    · intro ⟨_, b1, hb1, hle, hlt⟩
      cases hb1.symm.trans hb
      exact ⟨hle, hlt⟩
    · intro ⟨hle, hlt⟩
      exact ⟨halloca, b, hb, hle, hlt⟩
  rw [hin]
  rw [show (Loc.mem b).addr = b from rfl, hend] at hp
  split at hp
  · rename_i hc
    rw [hd.act] at hp
    obtain ⟨l', hl', hp⟩ := bind_ok.mp hp
    have hl'' := hd.loc_addr h0 haddr hl' hb'
    rw [hl'', show (Loc.mem b').addr = b' from rfl, padd_eq (b := b' + (ptr - b)) (by omega) (by omega)] at hp
    obtain rfl := Except.ok.inj hp
    exact .inl ⟨by omega, hc, rfl⟩
  · rename_i hc
    obtain rfl := Except.ok.inj hp
    exact .inr ⟨rfl, hc⟩

end

/-! ## What the metadata says of a cell -/

section
variable {mem : Mem} {x : RewriteArgs} {n : Nat} {sf : Nat → VFrame} {ds : Nat → CallSite} {gs : Nat → List (Group × Group)}

theorem mem_cellsOf {l : List (Group × Group)} {c : LiveValue × LiveValue} :
    c ∈ cellsOf l ↔ ∃ g ∈ l, c.1 = g.1.first ∧ c.2 ∈ g.2.records := by
  unfold cellsOf
  rw [List.mem_flatMap]
  constructor
  · rintro ⟨g, hg, hc⟩
    obtain ⟨w, hw, rfl⟩ := List.mem_map.mp hc
    exact ⟨g, hg, rfl, hw⟩
  · rintro ⟨g, hg, h1, h2⟩
    exact ⟨g, hg, List.mem_map.mpr ⟨c.2, h2, by rw [← h1]⟩⟩

theorem vframe_cfa_lt {h : Handle} {regs : RegSet} {f : VFrame} (hf : vframe h regs = some f) : f.cfa < 18446744073709551616 := by
  obtain ⟨site, -, rfl⟩ := Option.map_eq_some_iff.mp hf
  exact padd_lt ((getRegops h.arch).sp regs) site.frameSize.toNat

theorem SourceStack.cfa_lt (hs : SourceStack mem x n sf ds) {k : Nat} (hk : k < n) : (sf k).cfa < 18446744073709551616 := by
  cases k with
  | zero => exact vframe_cfa_lt hs.first
  | succ k => exact vframe_cfa_lt (hs.visits.next k hk)

theorem valTarget_mem_len {k a len : Nat} {w : LiveValue} (h : valTarget x ds n k w = some (.mem a len)) : len = w.valSize := by
  unfold valTarget target at h
  cases ht : LocationType.ofCode w.type with
  | none =>
    rw [ht] at h
    cases h
  | some t =>
    rw [ht] at h
    cases t <;> cases h <;> rfl

section
variable (hl : StackLayout x ds n) (hm : Matched x n sf ds gs) {k i : Nat} {v w : LiveValue} (h0 : 0 < k) (hk : k + 1 < n)
  (hc : (cellsOf (gs k))[i]? = some (v, w))

include hm h0 hk hc in
theorem Matched.valSize_eq (hskip : skipVaList v w = false) : w.valSize = v.valSize := by
  obtain h | h := hm.size k h0 hk _ (List.mem_of_getElem? hc)
  · exact h
  · rw [hskip] at h
    cases h

theorem not_skip_of_not_alloca {v w : LiveValue} (h : v.isAlloca = false) : skipVaList v w = false := by
  unfold skipVaList
  rw [h]
  rfl

include hl hm h0 hk hc in
/-- Pointers have 8 bytes on both sides. -/
theorem Matched.pointer_size (hp : v.isPtr = true) (ha : v.isAlloca = false) : w.valSize = 8 ∧ v.valSize = 8 := by
  have hsize := hm.valSize_eq h0 hk hc (not_skip_of_not_alloca ha)
  have h8 := hm.toListed.pointer_size hl.bodies h0 hk hc hp ha
  exact ⟨h8, hsize ▸ h8⟩

include hm h0 hk hc in
/-- Nothing the rewrite writes is at the value. -/
theorem Matched.load_src {st0 st : Dst} {m len : Nat} (ha : Around mem x n ds st0 m st) (hlen : len = v.valSize) {a : Nat}
    (hv : vaddr x.handleSrc (sf k) v = some a) : load st.mem a len = load mem a len := by
  have := hm.apart k h0 hk _ (List.mem_of_getElem? hc) a hv
  exact ha.outside a len (by rw [hlen]; exact this)

include hl hm h0 hk hc in
/-- An alloca stands in its frame on both sides. -/
theorem Matched.alloca_bounds (ha : v.isAlloca = true) : ∃ b b', vaddr x.handleSrc (sf k) v = some b ∧
    (getRegops x.handleSrc.arch).sp (sf k).regs ≤ b ∧ b + v.valSize ≤ (sf k).cfa ∧ destAddr x n ds k w = some b' ∧ 0 < b' ∧
    b' + v.valSize < 18446744073709551616 := by
  obtain ⟨g, hg, h1, h2⟩ := mem_cellsOf.mp (List.mem_of_getElem? hc)
  dsimp only at h1 h2
  subst h1
  obtain ⟨hdups, b, b', hb, hsp, hcfa, hb'⟩ := hm.alloca k h0 hk g hg ha
  unfold Group.records at h2
  rw [hdups, List.mem_singleton] at h2
  subst h2
  refine ⟨b, b', hb, hsp, hcfa, hb', ?_⟩
  have hsize : g.1.first.valSize ≤ g.2.first.valSize + 8 := by
    obtain h | h := hm.size k h0 hk _ (List.mem_of_getElem? hc)
    · dsimp only at h
      omega
    · simp only [skipVaList, Bool.or_eq_true, Bool.and_eq_true, beq_iff_eq] at h
      omega
  unfold destAddr at hb'
  split at hb'
  · rename_i a len htg
    cases hb'
    obtain ⟨⟨h3, h4⟩, -⟩ := (hm.cell_fine hl.bodies h0 hk hc).2 _ htg
    have hlen := valTarget_mem_len htg
    have h5 := destCfa_pos hl.fits (show k - 1 < n by omega)
    have h6 := destCfa_lt x ds n k
    omega
  · cases hb'

end

/-! ## Cells under puts -/

theorem done_succ {m t k i : Nat} : Done m (t + 1) k i ↔ Done m t k i ∨ (0 < m ∧ k = m ∧ i = t) := by
  unfold Done
  omega

/-- With one more record done, its alloca has been searched, but for a `va_list`. -/
theorem Searched.succ {m t k j i : Nat} {v w : LiveValue} (h : Searched m (t + 1) k j i v w) :
    Searched m t k j i v w ∨ (j = m ∧ i = t ∧ skipVaList v w = false) := by
  obtain hj | ⟨hkj, hdone, hskip⟩ := h
  · exact .inl (.inl hj)
  · obtain hdone | ⟨-, hj, hi⟩ := done_succ.mp hdone
    · exact .inl (.inr ⟨hkj, hdone, hskip⟩)
    · exact .inr ⟨hj, hi, hskip⟩

theorem VPoints.eq {h : Handle} {f : VFrame} {v : LiveValue} {a b : Nat} (ha : VPoints mem h f v a) (hb : VPoints mem h f v b) :
    a = b := Option.some.inj (ha.2.2.symm.trans hb.2.2)

section
variable (hl : StackLayout x ds n) (hm : Matched x n sf ds gs) {st0 st st' : Dst} {m t : Nat} {q q' : List Fixup}

include hl hm in
/-- A put to a cell: what becomes of it and of the others. -/
theorem Kept.putCell (hk : Kept mem x n sf ds gs st0 m t q st) {k i : Nat} {v w : LiveValue} (h0 : 0 < k) (hkn : k + 1 < n)
    (hc : (cellsOf (gs k))[i]? = some (v, w)) {tg : Target} {bs : List UInt8} (htg : valTarget x ds n k w = some tg)
    (hbs : bs.length ≤ tg.len) (hput : Put x ds n k tg bs st st') :
    Around mem x n ds st0 m st' ∧ CellHas x n ds st' k w bs ∧
      (∀ (j i' : Nat) (v' w' : LiveValue), 0 < j → j + 1 < n → (cellsOf (gs j))[i']? = some (v', w') → ¬ (j = k ∧ i' = i) →
        SameCell x n ds st st' j w') ∧
      ∀ (j i' : Nat) (v' w' : LiveValue), 0 < j → j + 1 < n → (cellsOf (gs j))[i']? = some (v', w') → CellLost mem x n ds st' j w' := by
  have hfine := (hm.cell_fine hl.bodies h0 hkn hc).2 tg htg
  have hothers : ∀ (j i' : Nat) (v' w' : LiveValue), 0 < j → j + 1 < n → (cellsOf (gs j))[i']? = some (v', w') →
      ¬ (j = k ∧ i' = i) → SameCell x n ds st st' j w' := by
    intro j i' v' w' hj0 hj hc' hne
    apply hput.wrote.sameCell hl h0 hkn hj0 hj hfine (hm.cell_fine hl.bodies hj0 hj hc').2
    intro tg' htg'
    by_cases hjk : j = k
    · subst hjk
      exact .inr (hm.cell_apart hl h0 hkn hc' hc (fun e => hne ⟨rfl, e⟩) htg' htg)
    · exact .inl hjk
  refine ⟨hk.toAround.wrote hl h0 hkn hfine hput.wrote, ?_, hothers, ?_⟩
  · intro tg' htg' hb
    cases htg.symm.trans htg'
    exact ⟨hbs, hput.there hb⟩
  · intro j i' v' w' hj0 hj hc' tg' htg' hb
    by_cases hown : j = k ∧ i' = i
    · obtain ⟨rfl, rfl⟩ := hown
      cases hc.symm.trans hc'
      cases htg.symm.trans htg'
      obtain ⟨i, -, hspot⟩ := place_spot hl.bodies h0 hkn hfine
      rw [hput.lost hb _ _ hspot.final]
      exact hk.lost j i' _ _ hj0 hj hc' tg htg hb
    · exact (hk.lost j i' v' w' hj0 hj hc').same (hothers j i' v' w' hj0 hj hc' hown) tg' htg' hb

/-- The next record is done. -/
theorem Kept.advance (hk : Kept mem x n sf ds gs st0 m t q st) {v w : LiveValue} (h0 : 0 < m)
    (hc : (cellsOf (gs m))[t]? = some (v, w)) (hsub : ∀ f ∈ q, f ∈ q') (hnew : CellKept mem x n sf ds gs q' st m v w)
    (hqueue : ∀ f ∈ q', f ∈ q ∨ (f.act = m ∧ f.destLoc = w ∧ VPoints mem x.handleSrc (sf m) v f.srcAddr ∧ IntoStack x sf f.srcAddr)) :
    Kept mem x n sf ds gs st0 m (t + 1) q' st := by
  refine ⟨hk.toAround, ?_, hk.lost, ?_⟩
  · intro k i v' w' hdone hc'
    obtain hdone | ⟨-, rfl, rfl⟩ := done_succ.mp hdone
    · apply (hk.cells k i v' w' hdone hc').same
      · intro tg _ len _
        rfl
      · intro addr hf
        exact .inl (hsub _ hf)
    · cases hc.symm.trans hc'
      exact hnew
  · intro f hf
    obtain hf | ⟨hact, hloc, hp, hin⟩ := hqueue f hf
    · obtain ⟨i, v', hdone, hrest⟩ := hk.queue f hf
      exact ⟨i, v', done_succ.mpr (.inl hdone), hrest⟩
    · rw [hact, hloc]
      exact ⟨t, v, done_succ.mpr (.inr ⟨h0, rfl, rfl⟩), hc, hp, hin⟩

theorem Around.setFixups (ha : Around mem x n ds st0 m st) (fs : List Fixup) : Around mem x n ds st0 m (st.setFixups fs) where
  frames := ha.frames.bases (setFixups_same st fs) (fun _ => rfl) (fun _ => rfl)
  outside := ha.outside
  rest l len hf hd := by
    rw [← ha.rest l len hf hd]
    exact setFixups_read st fs l len

/-- The queue that is being worked on is not the one in the context. -/
theorem Kept.setFixups (hk : Kept mem x n sf ds gs st0 m t q st) (fs : List Fixup) :
    Kept mem x n sf ds gs st0 m t q (st.setFixups fs) := by
  have hread := setFixups_read st fs
  refine ⟨hk.toAround.setFixups fs, ?_, ?_, hk.queue⟩
  · intro k i v w hdone hc
    exact (hk.cells k i v w hdone hc).same (fun _ _ _ _ => hread _ _) (fun _ => .inl)
  · intro k i v w h0 hkn hc
    exact (hk.lost k i v w h0 hkn hc).same fun _ _ _ _ => hread _ _

include hl hm in
/-- A resolved fixup: its cell holds the destination's address. -/
theorem Kept.resolve {pre fs : List Fixup} {f : Fixup} (hmn : m + 1 < n)
    (hk : Kept mem x n sf ds gs st0 m t (pre ++ f :: fs) st) {d : Nat} (hd : Repointed x n sf ds gs f.act f.srcAddr d)
    (h : putValData st f.destLoc f.act d = .ok st') :
    Kept mem x n sf ds gs st0 m t (pre ++ fs) st' ∧ st'.ctx.stackPointers = st.ctx.stackPointers := by
  obtain ⟨i, v, hdone, hc, hp, hin⟩ := hk.queue f (List.mem_append_right pre List.mem_cons_self)
  have h0 : 0 < f.act := hdone.1
  have hle : f.act ≤ m := by
    unfold Done at hdone
    omega
  have hfn : f.act + 1 < n := by omega
  have hfine := hm.cell_fine hl.bodies h0 hfn hc
  have hsize := hm.pointer_size hl h0 hfn hc hp.1 hp.2.1
  obtain ⟨haround, hhas, hothers, hlost, hfix⟩ : Around mem x n ds st0 m st' ∧ CellHas x n ds st' f.act f.destLoc (leBytes 8 d) ∧
      (∀ (j i' : Nat) (v' w' : LiveValue), 0 < j → j + 1 < n → (cellsOf (gs j))[i']? = some (v', w') → ¬ (j = f.act ∧ i' = i) →
        SameCell x n ds st st' j w') ∧
      (∀ (j i' : Nat) (v' w' : LiveValue), 0 < j → j + 1 < n → (cellsOf (gs j))[i']? = some (v', w') → CellLost mem x n ds st' j w') ∧
      st'.ctx.stackPointers = st.ctx.stackPointers := by
    obtain ⟨hnone, rfl⟩ | ⟨tg, htg, hput⟩ := putValData_put hl hk.frames h0 hle hfn hsize.1 hfine.1 hfine.2 h
    · refine ⟨hk.toAround, ?_, fun _ _ _ _ _ _ _ _ _ _ _ _ => rfl, hk.lost, rfl⟩
      intro tg htg
      rw [hnone] at htg
      cases htg
    · have hbs : (leBytes 8 d).length ≤ tg.len := by
        rw [leBytes_length, ← hsize.1]
        exact hfine.1.len_le htg
      obtain ⟨h1, h2, h3, h4⟩ := hk.putCell hl hm h0 hfn hc htg hbs hput
      exact ⟨h1, h2, h3, h4, hput.wrote.fixups⟩
  refine ⟨⟨haround, ?_, hlost, ?_⟩, hfix⟩
  · intro k i' v' w' hdone' hc'
    have hk0 : 0 < k := hdone'.1
    have hkn : k + 1 < n := by
      unfold Done at hdone'
      omega
    by_cases hown : k = f.act ∧ i' = i
    · obtain ⟨rfl, rfl⟩ := hown
      cases hc.symm.trans hc'
      refine ⟨?_, ?_⟩
      · intro _ bs _ hout
        exact absurd hin (hout _ hp)
      · intro addr hp' _ _
        rw [hp'.eq hp]
        exact .inr ⟨d, hd, hhas⟩
    · apply (hk.cells k i' v' w' hdone' hc').same (hothers k i' v' w' hk0 hkn hc' hown)
      intro addr hmem
      by_cases he : (⟨addr, k, w'⟩ : Fixup) = f
      · subst he
        exact .inr ⟨d, hd, hhas⟩
      · refine .inl ?_
        simp only [List.mem_append, List.mem_cons] at hmem ⊢
        obtain hmem | hmem | hmem := hmem
        · exact .inl hmem
        · exact absurd hmem he
        · exact .inr hmem
  · intro g hg
    apply hk.queue g
    simp only [List.mem_append, List.mem_cons] at hg ⊢
    obtain hg | hg := hg
    · exact .inl hg
    · exact .inr (.inr hg)

/-! ## One record -/

/-- The cell `c` of frame `j` is an alloca with the byte at `addr`, which is at `d` in the
    destination. -/
def Moves (x : RewriteArgs) (n : Nat) (sf : Nat → VFrame) (ds : Nat → CallSite) (j : Nat) (c : LiveValue × LiveValue)
    (addr d : Nat) : Prop :=
  VContains x.handleSrc (sf j) c.1 addr ∧ ∃ b b', vaddr x.handleSrc (sf j) c.1 = some b ∧ destAddr x n ds j c.2 = some b' ∧
    d = b' + (addr - b)

theorem Moves.repointed {j k addr d : Nat} {c : LiveValue × LiveValue} (h : Moves x n sf ds j c addr d) (hkj : k ≤ j) (hj : j + 1 < n)
    (hc : c ∈ cellsOf (gs j)) : Repointed x n sf ds gs k addr d := ⟨j, hkj, hj, c, hc, h⟩

section Record
variable (hs : SourceStack mem x n sf ds) {src : Ctx} (hsrc : SrcFrame x sf m src) (h0 : 0 < m) (hmn : m + 1 < n) {v w : LiveValue}

include hl hm hs hsrc h0 hmn in
/-- `points_to_data` at an alloca finds where the pointer goes. -/
theorem pointsToData_moves {i : Nat} (hc : (cellsOf (gs m))[i]? = some (v, w)) (ha : v.isAlloca = true)
    (hd : DestFrames x n ds m st.ctx) {ptr d : Nat} (h : pointsToData src v st.ctx w ptr = .ok d) :
    (d ≠ 0 ∧ Moves x n sf ds m (v, w) ptr d) ∨ (d = 0 ∧ ¬ VContains x.handleSrc (sf m) v ptr) := by
  obtain ⟨b, b', hb, -, hcfa, hb', hpos, hroom⟩ := hm.alloca_bounds hl h0 hmn hc ha
  have hlt := hs.cfa_lt (show m < n by omega)
  have haddr := (hm.cell_fine hl.bodies h0 hmn hc).1
  obtain ⟨hne, hin, hd⟩ | hz := hsrc.pointsInto hd h0 haddr ha hb hb' (by omega) hroom hpos h
  · exact .inl ⟨hne, hin, b, b', hb, hb', hd⟩
  · exact .inr hz

include hl hm hs hsrc h0 hmn in
/-- The walk over the fixups at an alloca resolves those that point into it. -/
theorem resolveFixups_kept {i : Nat} (hc : (cellsOf (gs m))[i]? = some (v, w)) (ha : v.isAlloca = true) (fs : List Fixup) :
    ∀ {pre kept : List Fixup} {st st' : Dst}, Kept mem x n sf ds gs st0 m t (pre ++ fs) st →
    resolveFixups src v w fs st = .ok (kept, st') →
    Kept mem x n sf ds gs st0 m t (pre ++ kept) st' ∧ st'.ctx.stackPointers = st.ctx.stackPointers ∧
      ∀ f, f ∈ kept ↔ f ∈ fs ∧ ¬ VContains x.handleSrc (sf m) v f.srcAddr := by
  induction fs with
  | nil =>
    intro pre kept st st' hk h
    cases h
    exact ⟨hk, rfl, fun f => by simp⟩
  | cons f fs ih =>
    intro pre kept st st' hk h
    unfold resolveFixups at h
    obtain ⟨d, hd, h⟩ := bind_ok.mp h
    have hact : f.act ≤ m := by
      obtain ⟨_, _, hdone, -⟩ := hk.queue f (List.mem_append_right pre List.mem_cons_self)
      unfold Done at hdone
      omega
    obtain ⟨hne, hmove⟩ | ⟨hz, hout⟩ := pointsToData_moves hl hm hs hsrc h0 hmn hc ha hk.frames hd
    · rw [if_pos hne] at h
      obtain ⟨st1, h1, h⟩ := bind_ok.mp h
      obtain ⟨hk1, hfix1⟩ := hk.resolve hl hm hmn (hmove.repointed hact hmn (List.mem_of_getElem? hc)) h1
      obtain ⟨hk2, hfix2, hrest⟩ := ih hk1 h
      refine ⟨hk2, hfix2.trans hfix1, ?_⟩
      intro g
      rw [hrest g, List.mem_cons]
      constructor
      · exact fun hg => ⟨.inr hg.1, hg.2⟩
      · intro hg
        rcases hg.1 with rfl | hmem
        · exact absurd hmove.1 hg.2
        · exact ⟨hmem, hg.2⟩
    · rw [if_neg (fun e => e hz)] at h
      obtain ⟨⟨kept', st1⟩, h1, h⟩ := bind_ok.mp h
      cases h
      rw [List.append_cons] at hk
      obtain ⟨hk2, hfix2, hrest⟩ := ih hk h1
      rw [List.append_assoc] at hk2
      refine ⟨hk2, hfix2, ?_⟩
      intro g
      rw [List.mem_cons, List.mem_cons, hrest g]
      constructor
      · intro hg
        obtain rfl | hg := hg
        · exact ⟨.inl rfl, hout⟩
        · exact ⟨.inr hg.1, hg.2⟩
      · exact fun hg => hg.1.imp id fun h => ⟨h, hg.2⟩

include hl hm hsrc h0 hmn in
/-- The value of a record is put to its cell. -/
theorem putVal_kept {i : Nat} (hi : x.handleSrc.liveVals i = v) (hc : (cellsOf (gs m))[t]? = some (v, w))
    (hskip : skipVaList v w = false) (hout : ∀ a, VPoints mem x.handleSrc (sf m) v a → ¬ IntoStack x sf a)
    (hk : Kept mem x n sf ds gs st0 m t q st) (h : putVal src i st w = .ok st') :
    Kept mem x n sf ds gs st0 m (t + 1) q st' ∧ st'.ctx.stackPointers = st.ctx.stackPointers := by
  have hfine := hm.cell_fine hl.bodies h0 hmn hc
  have hsize := hm.valSize_eq h0 hmn hc hskip
  have hnew : ∀ st' : Dst, (∀ bs, vread mem x.handleSrc (sf m) v w.valSize = some bs → CellHas x n ds st' m w bs) →
      CellKept mem x n sf ds gs q st' m v w := by
    intro st' hhas
    refine ⟨fun _ bs hbs _ => hhas bs hbs, ?_⟩
    intro addr hp hin _
    exact absurd hin (hout addr hp)
  obtain ⟨hnone, rfl⟩ | ⟨tg, bs, htg, hbs, hput⟩ := putVal_put hl hk.frames h0 (Nat.le_refl m) hmn hsrc.act hk.frames.act hfine.1 hfine.2 h
  · refine ⟨hk.advance h0 hc (fun _ => id) (hnew _ ?_) (fun _ => .inl), rfl⟩
    intro bs _ tg htg
    rw [hnone] at htg
    cases htg
  · have hlen : bs.length ≤ tg.len := by
      rw [getSrcBytes_length hbs]
      exact hfine.1.len_le htg
    obtain ⟨haround, hhas, hothers, hlost⟩ := hk.putCell hl hm h0 hmn hc htg hlen hput
    have hk' : Kept mem x n sf ds gs st0 m t q st' := by
      refine ⟨haround, ?_, hlost, hk.queue⟩
      intro k i' v' w' hdone hc'
      have hkn : k + 1 < n := by
        unfold Done at hdone
        omega
      apply (hk.cells k i' v' w' hdone hc').same
      · apply hothers k i' v' w' hdone.1 hkn hc'
        unfold Done at hdone
        omega
      · exact fun _ => .inl
    refine ⟨hk'.advance h0 hc (fun _ => id) (hnew _ ?_) (fun _ => .inl), hput.wrote.fixups⟩
    intro bs' hbs'
    have : bs = bs' := hsrc.bytes hi (fun a ha => hm.load_src h0 hmn hc hk.toAround hsize ha) hbs hbs'
    rw [← this]
    exact hhas

include hl hm hsrc h0 hmn in
/-- A fixup is queued for a pointer into this frame or a caller's; one into a callee's is left
    alone, and every other value is put. -/
theorem fixupOrPut_cases {i : Nat} {b' : Bool} (hi : x.handleSrc.liveVals i = v) (hc : (cellsOf (gs m))[t]? = some (v, w))
    (hk : Kept mem x n sf ds gs st0 m t q st) (h : fixupOrPut src i st w = .ok (b', st')) :
    (∃ addr, VPoints mem x.handleSrc (sf m) v addr ∧ IntoStack x sf addr ∧ (sf (m - 1)).cfa ≤ addr ∧
        b' = decide (addr < (sf m).cfa) ∧ st' = st.setFixups (st.ctx.stackPointers ++ [⟨addr, m, w⟩])) ∨
      (b' = false ∧ (∃ addr, VPoints mem x.handleSrc (sf m) v addr ∧ IntoStack x sf addr ∧ addr < (sf (m - 1)).cfa) ∧ st' = st) ∨
      (b' = false ∧ (∀ addr, VPoints mem x.handleSrc (sf m) v addr → ¬ IntoStack x sf addr) ∧ putVal src i st w = .ok st') := by
  unfold fixupOrPut at h
  rw [hsrc.handle, hi] at h
  obtain ⟨addr, haddr, h⟩ := bind_ok.mp h
  have hpoints := hsrc.points mem (fun a hp ha hv =>
    hm.load_src h0 hmn hc hk.toAround (hm.pointer_size hl h0 hmn hc hp ha).2.symm hv) haddr
  have hcur : src.cur.cfa = (sf m).cfa := congrArg VFrame.cfa hsrc.cur
  have hprev : (src.acts (m - 1)).cfa = (sf (m - 1)).cfa := congrArg VFrame.cfa hsrc.prev
  have hact : st.ctx.act = m := hk.frames.act
  obtain ⟨hne, hp, hin⟩ | ⟨hz, hout⟩ := hpoints
  · rw [if_pos hne, hsrc.act, hprev, hcur, hact] at h
    by_cases hle : m = 0 ∨ (sf (m - 1)).cfa ≤ addr
    · rw [if_pos hle] at h
      obtain ⟨rfl, rfl⟩ := Prod.mk.inj (Except.ok.inj h)
      exact .inl ⟨addr, hp, hin, hle.resolve_left (by omega), rfl, rfl⟩
    · rw [if_neg hle] at h
      obtain ⟨rfl, rfl⟩ := Prod.mk.inj (Except.ok.inj h)
      exact .inr (.inl ⟨rfl, ⟨addr, hp, hin, Nat.lt_of_not_le fun e => hle (.inr e)⟩, rfl⟩)
  · rw [if_neg (fun e => e hz)] at h
    obtain ⟨st1, h1, h⟩ := bind_ok.mp h
    obtain ⟨rfl, rfl⟩ := Prod.mk.inj (Except.ok.inj h)
    exact .inr (.inr ⟨rfl, hout, h1⟩)

include hl hm hsrc h0 hmn in
/-- A record is put to its cell, or its fixup is queued. -/
theorem fixupOrPut_kept {i : Nat} {b b' : Bool} (hi : x.handleSrc.liveVals i = v) (hc : (cellsOf (gs m))[t]? = some (v, w))
    (hskip : skipVaList v w = false) (hk : Kept mem x n sf ds gs st0 m t st.ctx.stackPointers st)
    (hset : Settled x sf gs m t st.ctx.stackPointers b) (h : fixupOrPut src i st w = .ok (b', st')) :
    Kept mem x n sf ds gs st0 m (t + 1) st'.ctx.stackPointers st' ∧ Settled x sf gs m t st'.ctx.stackPointers (b || b') := by
  have hweak : ∀ {b'}, Settled x sf gs m t st.ctx.stackPointers (b || b') := by
    intro b' f hf j i v w hc hsearch hin
    obtain ⟨h1, h2, h3⟩ := hset f hf j i v w hc hsearch hin
    exact ⟨h1, h2, by rw [h3]; rfl⟩
  -- the value of a pointer into the stack is not put
  have hvacuous : ∀ {addr}, VPoints mem x.handleSrc (sf m) v addr → IntoStack x sf addr → ∀ st : Dst, ∀ bs,
      (∀ a, VPoints mem x.handleSrc (sf m) v a → ¬ IntoStack x sf a) → CellHas x n ds st m w bs :=
    fun hp hin _ _ hout => absurd hin (hout _ hp)
  obtain ⟨addr, hp, hin, -, hb', rfl⟩ | ⟨-, ⟨addr, hp, hin, hlt⟩, rfl⟩ | ⟨-, hout, hput⟩ := fixupOrPut_cases hl hm hsrc h0 hmn hi hc hk h
  · refine ⟨?_, ?_⟩
    · apply (hk.setFixups _).advance h0 hc
      · intro f hf
        exact List.mem_append_left _ hf
      · refine ⟨fun _ bs _ => hvacuous hp hin _ bs, ?_⟩
        intro a ha _ _
        rw [ha.eq hp]
        exact .inl (List.mem_append_right _ List.mem_cons_self)
      · intro f hf
        obtain hf | hf := List.mem_append.mp hf
        · exact .inl hf
        · obtain rfl := List.mem_singleton.mp hf
          exact .inr ⟨rfl, rfl, hp, hin⟩
    · intro f hf j i' v' w' hc' hsearch hcontains
      obtain hf | hf := List.mem_append.mp hf
      · exact hweak f hf j i' v' w' hc' hsearch hcontains
      · obtain rfl := List.mem_singleton.mp hf
        dsimp only at hsearch hcontains ⊢
        obtain rfl : j = m := by
          obtain hj | ⟨hjle, hdone, -⟩ := hsearch
          · exact hj
          · unfold Done at hdone
            omega
        refine ⟨rfl, rfl, ?_⟩
        -- the alloca is one of this frame, so the pointer is too
        obtain ⟨ha, b1, hb1, -, hlt⟩ := hcontains
        obtain ⟨b2, -, hb2, -, hcfa, -⟩ := hm.alloca_bounds hl h0 hmn hc' ha
        cases hb1.symm.trans hb2
        rw [hb', decide_eq_true (by omega), Bool.or_true]
  · refine ⟨?_, hweak⟩
    apply hk.advance h0 hc (fun _ => id) ?_ (fun _ => .inl)
    refine ⟨fun _ bs _ => hvacuous hp hin _ bs, ?_⟩
    intro a ha _ hge
    rw [ha.eq hp] at hge
    omega
  · obtain ⟨hk1, hfix⟩ := putVal_kept hl hm hsrc h0 hmn hi hc hskip hout hk hput
    rw [hfix]
    exact ⟨hk1, hweak⟩

include hl hm hs hsrc h0 hmn in
/-- One record of the destination is rewritten. -/
theorem rewriteVal_kept {i : Nat} {b b' : Bool} (hi : x.handleSrc.liveVals i = v) (hc : (cellsOf (gs m))[t]? = some (v, w))
    (hk : Kept mem x n sf ds gs st0 m t st.ctx.stackPointers st) (hset : Settled x sf gs m t st.ctx.stackPointers b)
    (h : rewriteVal src i st w = .ok (b', st')) :
    Kept mem x n sf ds gs st0 m (t + 1) st'.ctx.stackPointers st' ∧ Settled x sf gs m (t + 1) st'.ctx.stackPointers (b || b') := by
  unfold rewriteVal at h
  rw [hsrc.handle, hi] at h
  dsimp only at h
  split at h
  · rename_i hskip
    obtain ⟨rfl, rfl⟩ := Prod.mk.inj (Except.ok.inj h)
    have halloca : v.isAlloca = true := by
      apply Classical.byContradiction
      intro hn
      rw [not_skip_of_not_alloca (Bool.eq_false_iff.mpr hn)] at hskip
      cases hskip
    refine ⟨hk.advance h0 hc (fun _ => id) ⟨?_, ?_⟩ (fun _ => .inl), ?_⟩
    · intro hns
      rw [hskip] at hns
      cases hns
    · intro addr hp
      rw [hp.2.1] at halloca
      cases halloca
    · intro f hf j i' v' w' hc' hsearch hin
      rw [Bool.or_false]
      obtain hsearch | ⟨rfl, rfl, hns⟩ := hsearch.succ
      · exact hset f hf j i' v' w' hc' hsearch hin
      · cases hc.symm.trans hc'
        rw [hskip] at hns
        cases hns
  · rename_i hskip
    obtain ⟨⟨b1, st1⟩, h1, h⟩ := bind_ok.mp h
    obtain ⟨hk1, hset1⟩ := fixupOrPut_kept hl hm hsrc h0 hmn hi hc (Bool.eq_false_iff.mpr hskip) hk hset h1
    split at h
    · rename_i ha
      obtain ⟨⟨kept, st2⟩, h2, h⟩ := bind_ok.mp h
      obtain ⟨rfl, rfl⟩ := Prod.mk.inj (Except.ok.inj h)
      have hk1' : Kept mem x n sf ds gs st0 m (t + 1) ([] ++ st1.ctx.stackPointers) st1 := hk1
      obtain ⟨hk2, -, hrest⟩ := resolveFixups_kept hl hm hs hsrc h0 hmn hc ha _ hk1' h2
      refine ⟨hk2.setFixups kept, ?_⟩
      intro f hf j i' v' w' hc' hsearch hin
      obtain hsearch | ⟨rfl, rfl, -⟩ := hsearch.succ
      · exact hset1 f ((hrest f).mp hf).1 j i' v' w' hc' hsearch hin
      · cases hc.symm.trans hc'
        exact absurd hin ((hrest f).mp hf).2
    · rename_i ha
      obtain ⟨rfl, rfl⟩ := Prod.mk.inj (Except.ok.inj h)
      refine ⟨hk1, ?_⟩
      intro f hf j i' v' w' hc' hsearch hin
      obtain hsearch | ⟨rfl, rfl, -⟩ := hsearch.succ
      · exact hset1 f hf j i' v' w' hc' hsearch hin
      · cases hc.symm.trans hc'
        exact absurd hin.1 ha

end Record

end

end

end Popcorn.Runtime
