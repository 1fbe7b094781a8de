/-
  Popcorn.Runtime.Places — a put writes the value's place.

  The runtime finds the second location of a value in a callee-saved register by walking
  the callee-saved bitmaps (`callee_saved_loc`). The walk ends at the value's place
  (`savedPlace`), unless it meets a stale bit: one that `malloc` left set in the bitmap of
  a frame that does not list the register. A put at a stale bit writes nothing that is part
  of the finished stack. `Wrote` is the effect of a put on everything else.

  Proved:
  - `savedLocLoop_cases`: the walk finds the place, or there is a stale bit.
  - `Finds.wrote`: wherever the walk ends, nothing but the place is written.
  - `Locs.put`: a value written to both of its locations is put to its place, or lost at a stale
    bit; so `putVal_put`, `putValData_put`, `putValArch_wrote`.
-/

import Popcorn.Runtime.Layout

namespace Popcorn.Runtime

open Popcorn.Lib Popcorn.Metadata

/-! ## The walk over the bitmaps -/

/-- No frame between `k` and the nearest one below that lists `r` has `r`'s bit set by
    `malloc`. -/
def NoStaleBit (x : RewriteArgs) (ds : Nat → CallSite) (n k : Nat) (r : UInt16) : Prop :=
  ∀ j < k, (∀ i, j < i → i < k → ¬ Lists x.handleDest (destSite ds i) r) → bitAt (clearedPool x n) j r = true →
    Lists x.handleDest (destSite ds j) r

/-- The destination's context when the rewrite has reached activation `m`, with the bounds of
    its frames in their registers. -/
structure DestFrames (x : RewriteArgs) (n : Nat) (ds : Nat → CallSite) (m : Nat) (c : Ctx) : Prop extends DestRun x n ds m c where
  sp : ∀ k, 0 < k → k ≤ m → (getRegops x.handleDest.arch).sp (c.acts k).regs = Popcorn.Runtime.destCfa x ds n (k - 1)
  fbp : ∀ k, 0 < k → k ≤ m → (getRegops x.handleDest.arch).fbp (c.acts k).regs = destFbp x ds n k

section
variable {x : RewriteArgs} {n m : Nat} {ds : Nat → CallSite} {c : Ctx}

/-- The search for a register among the records of a slice. -/
theorem saveLocLoop_eq {h : Handle} {fbp : Nat} {r : UInt16} (len start : Nat) {a : Nat}
    (hok : saveLocLoop h fbp r (List.range' start len) = .ok a) :
    a = match ((h.unwindLocs.drop start).take len).find? (·.reg == r) with
      | some u => padd fbp u.offset.toInt
      | none => 0 := by
  induction len generalizing start with
  | zero =>
    cases hok
    rfl
  | succ len ih =>
    rw [List.range'_succ] at hok
    unfold saveLocLoop unwindLocAt at hok
    by_cases hs : start < h.unwindLocs.length
    · rw [List.getElem?_eq_getElem hs] at hok
      rw [List.drop_eq_getElem_cons hs, List.take_succ_cons]
      obtain ⟨u, hu, hok⟩ := bind_ok.mp hok
      cases hu
      split at hok
      · rename_i hr
        cases hok
        simp [hr]
      · rename_i hr
        simp only [List.find?_cons, beq_eq_false_iff_ne.mpr hr]
        exact ih (start + 1) hok
    · rw [List.getElem?_eq_none (by omega)] at hok
      cases hok

theorem find_none_iff {h : Handle} {s : CallSite} {r : UInt16} :
    (unwindRecords h s).find? (·.reg == r) = none ↔ ¬ Lists h s r := by
  rw [List.find?_eq_none]
  unfold Lists
  simp

/-- A frame that does not list the register and whose bit is clear is no stop of the walk. -/
theorem NoStaleBit.succ_iff {r : UInt16} {k : Nat} (hnot : ¬ Lists x.handleDest (destSite ds k) r)
    (hbit : bitAt (clearedPool x n) k r = false) : NoStaleBit x ds n (k + 1) r ↔ NoStaleBit x ds n k r := by
  constructor
  · intro hns j hj hbetween
    apply hns j (by omega)
    intro i hji hi
    obtain rfl | hi := Nat.eq_or_lt_of_le (Nat.le_of_lt_succ hi)
    · exact hnot
    · exact hbetween i hji hi
  · intro hns j hj hbetween hset
    obtain rfl | hj := Nat.eq_or_lt_of_le (Nat.le_of_lt_succ hj)
    · rw [hbit] at hset
      cases hset
    · exact hns j hj (fun i hji hi => hbetween i hji (by omega)) hset

/-- The slot that the records of a frame give for a register. -/
theorem DestFrames.saveLoc (hd : DestFrames x n ds m c) {r : UInt16} {k a : Nat} (hkm : k ≤ m) (hk : k < n)
    (h : getRegisterSaveLoc c (c.acts k) r = .ok a) :
    a = match (destRecs x ds k).find? (·.reg == r) with
      | some u => saveSlot x ds n k u
      | none => 0 := by
  unfold getRegisterSaveLoc Ctx.regops at h
  rw [hd.handle, hd.site k hk] at h
  have hslot := saveLocLoop_eq _ _ h
  change a = match (destRecs x ds k).find? (·.reg == r) with | some u => _ | none => 0 at hslot
  cases hfind : (destRecs x ds k).find? (·.reg == r) with
  | none =>
    rw [hfind] at hslot
    exact hslot
  | some u =>
    rw [hfind] at hslot
    have h0 : 0 < k := by
      apply Nat.pos_of_ne_zero
      rintro rfl
      rw [destRecs_zero] at hfind
      cases hfind
    rw [hd.fbp k h0 hkm] at hslot
    exact hslot

/-- The walk finds the place of the register's value, or meets a stale bit. -/
theorem savedLocLoop_cases (hl : StackLayout x ds n) (hd : DestFrames x n ds m c) {r : UInt16} (ho : Ordinary x r) {k : Nat}
    (hkm : k ≤ m) (hk : k < n) {res : Option Loc} (h : savedLocLoop c r k = .ok res) :
    (res = some (savedPlace x ds n r k) ∧ NoStaleBit x ds n k r) ∨ (res = none ∧ ¬ NoStaleBit x ds n k r) := by
  have hreg := (calleeSaved_cases ho.calleeSaved).1
  induction k with
  | zero =>
    unfold savedLocLoop Ctx.regops at h
    rw [hd.handle, hreg] at h
    cases h
    exact .inl ⟨rfl, fun j hj => absurd hj (Nat.not_lt_zero j)⟩
  | succ k ih =>
    unfold savedLocLoop at h
    obtain ⟨b, hb, h⟩ := bind_ok.mp h
    have hbit : b = bitAt c.pool k r := by
      unfold bitmapIsSet at hb
      split at hb
      · rw [← testBit_eq_bitAt (hd.bits k (by omega)) r]
        exact (Except.ok.inj hb).symm
      · cases hb
    have hmarked := hd.marked k r ho.calleeSaved
    rw [← hbit] at hmarked
    unfold savedPlace destRecs
    cases hfind : (unwindRecords x.handleDest (destSite ds k)).find? (·.reg == r) with
    | none =>
      have hnot := find_none_iff.mp hfind
      cases b with
      | true =>
        -- the frame does not list the register, so its bit is stale
        obtain ⟨a, ha, h⟩ := bind_ok.mp (show (getRegisterSaveLoc c (c.acts k) r >>= _) = _ from h)
        have ha0 := hd.saveLoc (by omega) (by omega) ha
        unfold destRecs at ha0
        rw [hfind] at ha0
        rw [if_pos ha0] at h
        cases h
        refine .inr ⟨rfl, ?_⟩
        intro hns
        obtain hbit' | ⟨-, hlists⟩ := hmarked.mp rfl
        · exact hnot (hns k (by omega) (fun i _ _ => by omega) hbit')
        · exact hnot hlists
      | false =>
        have hclear : bitAt (clearedPool x n) k r = false := by
          rw [Bool.eq_false_iff]
          intro hset
          exact absurd (hmarked.mpr (.inl hset)) (by decide)
        rw [NoStaleBit.succ_iff hnot hclear]
        exact ih (by omega) (by omega) h
    | some u =>
      have hu := List.mem_of_find?_eq_some hfind
      have hur : u.reg = r := by simpa using List.find?_some hfind
      have hb : b = true := hmarked.mpr (.inr ⟨by omega, u, hu, hur⟩)
      subst hb
      have h0 : 0 < k := by
        apply Nat.pos_of_ne_zero
        intro hk0
        subst hk0
        change u ∈ destRecs x ds 0 at hu
        rw [destRecs_zero] at hu
        cases hu
      obtain ⟨a, ha, h⟩ := bind_ok.mp (show (getRegisterSaveLoc c (c.acts k) r >>= _) = _ from h)
      have ha' := hd.saveLoc (by omega) (by omega) ha
      unfold destRecs at ha'
      rw [hfind] at ha'
      change a = saveSlot x ds n k u at ha'
      have hne : a ≠ 0 := by
        have h1 := ((hl.frames k h0 hk).saves u hu (hur ▸ ho)).1
        have h2 := destCfa_pos hl.fits (show k - 1 < n by omega)
        omega
      rw [if_neg hne, ha'] at h
      cases h
      refine .inl ⟨rfl, ?_⟩
      intro j hj hbetween _
      obtain rfl | hj := Nat.eq_or_lt_of_le (Nat.le_of_lt_succ hj)
      · exact ⟨u, hu, hur⟩
      · exact absurd ⟨u, hu, hur⟩ (hbetween k hj (by omega))

/-- Whatever bits are set, the walk finds no place but that of the register's value. -/
theorem savedLocLoop_place (hd : DestFrames x n ds m c) {r : UInt16} (ho : Ordinary x r) {k : Nat} (hkm : k ≤ m) (hk : k < n)
    {l : Loc} (h : savedLocLoop c r k = .ok (some l)) : l = savedPlace x ds n r k := by
  induction k with
  | zero =>
    unfold savedLocLoop Ctx.regops at h
    rw [hd.handle, (calleeSaved_cases ho.calleeSaved).1] at h
    cases h
    rfl
  | succ k ih =>
    unfold savedLocLoop at h
    obtain ⟨b, hb, h⟩ := bind_ok.mp h
    have hbit : b = bitAt c.pool k r := by
      unfold bitmapIsSet at hb
      split at hb
      · rw [← testBit_eq_bitAt (hd.bits k (by omega)) r]
        exact (Except.ok.inj hb).symm
      · cases hb
    have hmarked := hd.marked k r ho.calleeSaved
    rw [← hbit] at hmarked
    cases b with
    | true =>
      obtain ⟨a, ha, h⟩ := bind_ok.mp (show (getRegisterSaveLoc c (c.acts k) r >>= _) = _ from h)
      have ha' := hd.saveLoc (by omega) (by omega) ha
      split at h
      · cases h
      · rename_i hne
        cases h
        unfold savedPlace
        cases hfind : (destRecs x ds k).find? (·.reg == r) with
        | none =>
          rw [hfind] at ha'
          exact absurd ha' hne
        | some u =>
          rw [hfind] at ha'
          exact congrArg Loc.mem ha'
    | false =>
      have hnot : ¬ Lists x.handleDest (destSite ds k) r := by
        intro hlists
        exact absurd (hmarked.mpr (.inr ⟨by omega, hlists⟩)) (by decide)
      rw [ih (by omega) (by omega) h]
      conv_rhs => unfold savedPlace destRecs
      rw [find_none_iff.mpr hnot]

end

/-! ## The effect of a put -/

/-- Memory and the innermost register set: what is left of the destination's state. -/
def Loc.Final : Loc → Prop
  | .mem _ => True
  | .reg k _ => k = 0

theorem Loc.Disj.mono {l p : Loc} {n len len' : Nat} (h : l.Disj n p len) (hle : len' ≤ len) : l.Disj n p len' := by
  cases l <;> cases p <;> simp only [Loc.Disj] at h ⊢ <;> omega

/-- The step changes what is left of the state at most in the `len` bytes at `p`; the bounds of
    every frame stay in its registers. -/
structure Wrote (st st' : Dst) (p : Loc) (len : Nat) : Prop where
  same : SameFrames st.ctx st'.ctx
  fixups : st'.ctx.stackPointers = st.ctx.stackPointers
  sp : ∀ k, st.ctx.regops.sp (st'.ctx.acts k).regs = st.ctx.regops.sp (st.ctx.acts k).regs
  fbp : ∀ k, st.ctx.regops.fbp (st'.ctx.acts k).regs = st.ctx.regops.fbp (st.ctx.acts k).regs
  other : ∀ l n, l.Final → l.Disj n p len → st'.read l n = st.read l n

/-- What a put to memory writes. -/
theorem wrote_mem (st : Dst) (a : Nat) (bs : List UInt8) : Wrote st (writeLoc st (.mem a) bs) (.mem a) bs.length where
  same := writeLoc_same st _ bs
  fixups := rfl
  sp _ := rfl
  fbp _ := rfl
  other _ _ _ hd := read_writeLoc_disj st hd

/-- A register that is not the SP or the FBP is written without them. -/
theorem writeLoc_reg_bases (st : Dst) (k : Nat) {r : UInt16} {off : Nat} {bs : List UInt8} (hreg : st.ctx.regops.reg r = .ok off)
    (hsp : r ≠ spReg st.ctx.handle.arch) (hfbp : r ≠ fbpReg st.ctx.handle.arch) (hbs : bs.length ≤ 8) (j : Nat) :
    st.ctx.regops.sp ((writeLoc st (.reg k off) bs).ctx.acts j).regs = st.ctx.regops.sp (st.ctx.acts j).regs ∧
      st.ctx.regops.fbp ((writeLoc st (.reg k off) bs).ctx.acts j).regs = st.ctx.regops.fbp (st.ctx.acts j).regs := by
  unfold writeLoc
  by_cases hj : j = k
  · subst hj
    simp only [Ctx.modAct_same]
    have h1 := reg_disj (reg_sp st.ctx.handle.arch) hreg (Ne.symm hsp)
    have h2 := reg_disj (reg_fbp st.ctx.handle.arch) hreg (Ne.symm hfbp)
    unfold RegOps.sp RegOps.fbp rget Ctx.regops
    exact ⟨readLe_store_disj _ (by omega), readLe_store_disj _ (by omega)⟩
  · simp only [Ctx.modAct_ne _ _ _ hj, and_self]

section
variable {x : RewriteArgs} {n m k : Nat} {ds : Nat → CallSite}

/-- `callee_saved_loc` does not find the place of the value: its walk ends at a stale bit. -/
def Blocked (x : RewriteArgs) (ds : Nat → CallSite) (n k : Nat) : Target → Prop
  | .reg r => ¬ NoStaleBit x ds n k r
  | .mem _ _ => False

/-- A put of the bytes to the target of a value of frame `k`. -/
structure Put (x : RewriteArgs) (ds : Nat → CallSite) (n k : Nat) (tg : Target) (bs : List UInt8) (st st' : Dst) : Prop where
  wrote : Wrote st st' (place x ds n k tg) tg.len
  there : ¬ Blocked x ds n k tg → st'.read (place x ds n k tg) bs.length = bs
  lost : Blocked x ds n k tg → ∀ l len, l.Final → st'.read l len = st.read l len

theorem Ordinary.ne_spReg {r : UInt16} (ho : Ordinary x r) : r ≠ spReg x.handleDest.arch := by
  intro h
  have := ho.calleeSaved
  rw [h, spReg_not_calleeSaved] at this
  cases this

/-- Frames whose registers keep the SP and the FBP. -/
theorem DestFrames.bases {c c' : Ctx} (hd : DestFrames x n ds m c) (h : SameFrames c c')
    (hsp : ∀ k, c.regops.sp (c'.acts k).regs = c.regops.sp (c.acts k).regs)
    (hfbp : ∀ k, c.regops.fbp (c'.acts k).regs = c.regops.fbp (c.acts k).regs) : DestFrames x n ds m c' := by
  have hops : c.regops = getRegops x.handleDest.arch := congrArg (fun h : Handle => getRegops h.arch) hd.handle
  rw [hops] at hsp hfbp
  refine ⟨hd.toDestRun.same h, ?_, ?_⟩
  · intro j h0 hj
    rw [hsp j]
    exact hd.sp j h0 hj
  · intro j h0 hj
    rw [hfbp j]
    exact hd.fbp j h0 hj

theorem DestFrames.wrote {st st' : Dst} {p : Loc} {len : Nat} (hd : DestFrames x n ds m st.ctx) (h : Wrote st st' p len) :
    DestFrames x n ds m st'.ctx := hd.bases h.same h.sp h.fbp

/-- The base register of a slot holds the frame's SP or FBP. -/
theorem DestFrames.base {c : Ctx} (hd : DestFrames x n ds m c) (h0 : 0 < k) (hk : k ≤ m) {r : UInt16} {off : Nat}
    (hr : r = spReg x.handleDest.arch ∨ r = fbpReg x.handleDest.arch) (hreg : c.regops.reg r = .ok off) :
    rget (c.acts k).regs off = baseOf x ds n k r := by
  have hops : c.regops = getRegops x.handleDest.arch := congrArg (fun h : Handle => getRegops h.arch) hd.handle
  rw [hops] at hreg
  unfold baseOf
  by_cases hsp : r = spReg x.handleDest.arch
  · rw [if_pos hsp]
    rw [hsp, reg_sp] at hreg
    cases hreg
    exact hd.sp k h0 hk
  · rw [if_neg hsp]
    rw [hr.resolve_left hsp, reg_fbp] at hreg
    cases hreg
    exact hd.fbp k h0 hk

theorem put_mem {st : Dst} {a len : Nat} {bs : List UInt8} (hbs : bs.length ≤ len) :
    Put x ds n k (.mem a len) bs st (writeBoth st (.mem a) none bs) := by
  have hw := wrote_mem st a bs
  refine ⟨⟨hw.same, hw.fixups, hw.sp, hw.fbp, ?_⟩, ?_, False.elim⟩
  · intro l n' hf hdisj
    exact hw.other l n' hf (hdisj.mono hbs)
  · intro _
    exact (read_writeLoc_same st (.mem a) (Nat.le_refl _)).trans (List.take_length ..)

section Reg
variable {st : Dst} (hd : DestFrames x n ds m st.ctx) {r : UInt16} (ho : Ordinary x r) {off : Nat}
  (hoff : st.ctx.regops.reg r = .ok off) {bs : List UInt8} (hbs : bs.length ≤ 8)

/-- A register of another activation is not part of the finished stack. -/
theorem read_writeLoc_act (st : Dst) {k : Nat} (h0 : 0 < k) (off : Nat) (bs : List UInt8) (l : Loc) (len : Nat) (hf : l.Final) :
    (writeLoc st (.reg k off) bs).read l len = st.read l len := by
  apply read_writeLoc_disj
  cases l with
  | mem a => trivial
  | reg j o => exact .inl (by rw [show j = 0 from hf]; omega)

include hd ho hoff hbs in
theorem writeReg_bases (j : Nat) :
    st.ctx.regops.sp ((writeLoc st (.reg k off) bs).ctx.acts j).regs = st.ctx.regops.sp (st.ctx.acts j).regs ∧
      st.ctx.regops.fbp ((writeLoc st (.reg k off) bs).ctx.acts j).regs = st.ctx.regops.fbp (st.ctx.acts j).regs := by
  have harch : st.ctx.handle.arch = x.handleDest.arch := congrArg Handle.arch hd.handle
  exact writeLoc_reg_bases st k hoff (harch ▸ ho.ne_spReg) (harch ▸ ho.notFbp) hbs j

include hd ho hoff hbs in
/-- The second write of a value in a register, to its place. -/
theorem writePlace_bases (h0 : 0 < k) (j : Nat) :
    st.ctx.regops.sp ((writeLoc st (savedPlace x ds n r k) bs).ctx.acts j).regs = st.ctx.regops.sp (st.ctx.acts j).regs ∧
      st.ctx.regops.fbp ((writeLoc st (savedPlace x ds n r k) bs).ctx.acts j).regs = st.ctx.regops.fbp (st.ctx.acts j).regs := by
  obtain ⟨i, -, hat, -⟩ := savedPlace_cases x ds n r h0
  obtain ⟨-, hl0⟩ | ⟨u, -, -, hl0⟩ := hat
  · have harch : st.ctx.handle.arch = x.handleDest.arch := congrArg Handle.arch hd.handle
    have hoff' : off = regOff x.handleDest.arch r := by
      unfold Ctx.regops at hoff
      rw [harch] at hoff
      exact (regOff_eq hoff).symm
    rw [hl0, ← hoff']
    exact writeReg_bases hd ho hoff hbs j
  · rw [hl0]
    exact ⟨rfl, rfl⟩

include hd ho hoff hbs in
/-- A value whose place is not found is written to its activation's register alone. -/
theorem wrote_act (h0 : 0 < k) (p : Loc) (len : Nat) : Wrote st (writeBoth st (.reg k off) none bs) p len := by
  have hbases := writeReg_bases (k := k) hd ho hoff hbs
  refine ⟨writeLoc_same st _ bs, rfl, fun j => (hbases j).1, fun j => (hbases j).2, ?_⟩
  intro l len hf _
  exact read_writeLoc_act st h0 off bs l len hf

include hd ho hoff hbs in
theorem put_reg_lost (h0 : 0 < k) (hstale : ¬ NoStaleBit x ds n k r) :
    Put x ds n k (.reg r) bs st (writeBoth st (.reg k off) none bs) := by
  refine ⟨wrote_act hd ho hoff hbs h0 _ _, ?_, fun _ => read_writeLoc_act st h0 off bs⟩
  intro h
  exact absurd hstale h

include hd ho hoff hbs in
theorem wrote_place (h0 : 0 < k) :
    Wrote st (writeBoth st (.reg k off) (some (savedPlace x ds n r k)) bs) (savedPlace x ds n r k) 8 := by
  have hsame := writeLoc_same st (.reg k off) bs
  have hbases := writeReg_bases (k := k) hd ho hoff hbs
  have hops : (writeLoc st (.reg k off) bs).ctx.regops = st.ctx.regops := by
    unfold Ctx.regops
    rw [hsame.handle]
  have hd1 : DestFrames x n ds m (writeLoc st (.reg k off) bs).ctx := by
    apply hd.bases hsame
    · intro j
      exact (hbases j).1
    · intro j
      exact (hbases j).2
  have hplace := writePlace_bases (k := k) hd1 ho (by rw [hops]; exact hoff) hbs h0
  rw [hops] at hplace
  refine ⟨writeBoth_same st _ _ bs, writeBoth_stackPointers st _ _ bs, ?_, ?_, ?_⟩
  · intro j
    exact (hplace j).1.trans (hbases j).1
  · intro j
    exact (hplace j).2.trans (hbases j).2
  · intro l len hf hdisj
    exact (read_writeLoc_disj _ (hdisj.mono hbs)).trans (read_writeLoc_act st h0 off bs l len hf)

include hd ho hoff hbs in
theorem put_reg_there (h0 : 0 < k) (hns : NoStaleBit x ds n k r) :
    Put x ds n k (.reg r) bs st (writeBoth st (.reg k off) (some (savedPlace x ds n r k)) bs) := by
  refine ⟨wrote_place hd ho hoff hbs h0, ?_, ?_⟩
  · intro _
    exact (read_writeLoc_same _ _ (Nat.le_refl _)).trans (List.take_length ..)
  · intro h
    exact absurd hns h

end Reg

/-- The two locations of a target of frame `k`: the register of its activation with the place its
    value is saved at, unless that is hidden by a stale bit; or an address. -/
inductive Locs (x : RewriteArgs) (ds : Nat → CallSite) (n k : Nat) : Target → Loc → Option Loc → Prop
  | found (r : UInt16) (ho : Ordinary x r) (hns : NoStaleBit x ds n k r) :
    Locs x ds n k (.reg r) (.reg k (regOff x.handleDest.arch r)) (some (savedPlace x ds n r k))
  | hidden (r : UInt16) (ho : Ordinary x r) (hstale : ¬ NoStaleBit x ds n k r) :
    Locs x ds n k (.reg r) (.reg k (regOff x.handleDest.arch r)) none
  | mem (a len : Nat) : Locs x ds n k (.mem a len) (.mem a) none

/-- The two locations of a target of frame `k`, as the runtime looks for them: where the value of
    a register is saved is found by the walk over the bitmaps. -/
inductive Finds (x : RewriteArgs) (c : Ctx) (k : Nat) : Target → Loc → Option Loc → Prop
  | reg (r : UInt16) (ho : Ordinary x r) {callee : Option Loc} (h : savedLocLoop c r k = .ok callee) :
    Finds x c k (.reg r) (.reg k (regOff x.handleDest.arch r)) callee
  | mem (a len : Nat) : Finds x c k (.mem a len) (.mem a) none

/-- The locations the runtime finds. -/
theorem finds_of {c : Ctx} (hd : DestFrames x n ds m c) (h0 : 0 < k) (hkm : k ≤ m)
    {type : Fin 16} {r : UInt16} {offset : Int} {len : Nat} {tg : Target} (htg : target x ds n k type r offset len = some tg)
    (haddr : Addressable x type r len) (hfine : Fine x ds n k tg) {dest : Loc} {callee : Option Loc}
    (h1 : getValLoc c type r offset k = .ok dest) (h2 : calleeAddr c type r k = .ok callee) : Finds x c k tg dest callee := by
  unfold target at htg
  unfold getValLoc at h1
  unfold Addressable at haddr
  unfold calleeAddr at h2
  cases ht : LocationType.ofCode type with
  | none =>
    rw [ht] at htg
    cases htg
  | some t =>
    rw [ht] at htg h1 haddr h2
    cases t with
    | register =>
      cases htg
      obtain ⟨ho, -⟩ := hfine
      obtain ⟨off, hoff, hdest⟩ := bind_ok.mp h1
      cases hdest
      have hoff' : off = regOff x.handleDest.arch r := by
        unfold Ctx.regops at hoff
        rw [hd.handle] at hoff
        exact (regOff_eq hoff).symm
      have hcs : c.props.isCalleeSaved r = true := by
        have := ho.calleeSaved
        rw [← hd.handle] at this
        exact this
      rw [if_pos ⟨rfl, hcs⟩] at h2
      unfold calleeSavedLoc at h2
      rw [if_neg (by omega)] at h2
      rw [hoff']
      exact .reg r ho h2
    | direct =>
      cases htg
      obtain ⟨off, hoff, hdest⟩ := bind_ok.mp h1
      rw [hd.base h0 hkm haddr hoff] at hdest
      rw [if_neg (fun h => nomatch h.1)] at h2
      cases hdest
      cases h2
      exact .mem _ _
    | indirect =>
      cases htg
      obtain ⟨off, hoff, hdest⟩ := bind_ok.mp h1
      rw [hd.base h0 hkm haddr hoff] at hdest
      rw [if_neg (fun h => nomatch h.1)] at h2
      cases hdest
      cases h2
      exact .mem _ _
    | constant => cases htg
    | constIdx => cases htg

theorem Finds.locs (hl : StackLayout x ds n) {c : Ctx} (hd : DestFrames x n ds m c) (hkm : k ≤ m) (hk : k + 1 < n) {tg : Target}
    {dest : Loc} {callee : Option Loc} (h : Finds x c k tg dest callee) : Locs x ds n k tg dest callee := by
  cases h with
  | reg r ho h =>
    obtain ⟨rfl, hns⟩ | ⟨rfl, hstale⟩ := savedLocLoop_cases hl hd ho hkm (by omega) h
    · exact .found r ho hns
    · exact .hidden r ho hstale
  | mem a len => exact .mem a len

theorem DestFrames.reg {c : Ctx} (hd : DestFrames x n ds m c) {r : UInt16} (ho : Ordinary x r) :
    c.regops.reg r = .ok (regOff x.handleDest.arch r) := by
  unfold Ctx.regops
  rw [hd.handle]
  exact (calleeSaved_cases ho.calleeSaved).1

/-- A value written to both of its locations is put to its place, or lost at a stale bit. -/
theorem Locs.put {st : Dst} (hd : DestFrames x n ds m st.ctx) (h0 : 0 < k) {tg : Target} {dest : Loc} {callee : Option Loc}
    (h : Locs x ds n k tg dest callee) {bs : List UInt8} (hbs : bs.length ≤ tg.len) :
    Put x ds n k tg bs st (writeBoth st dest callee bs) := by
  cases h with
  | found r ho hns => exact put_reg_there hd ho (hd.reg ho) hbs h0 hns
  | hidden r ho hstale => exact put_reg_lost hd ho (hd.reg ho) hbs h0 hstale
  | mem a len => exact put_mem hbs

/-- Wherever the walk ends, nothing but the value's place is written. -/
theorem Finds.wrote {st : Dst} (hd : DestFrames x n ds m st.ctx) (h0 : 0 < k) (hkm : k ≤ m) (hk : k + 1 < n) {tg : Target} {dest : Loc}
    {callee : Option Loc} (h : Finds x st.ctx k tg dest callee) {bs : List UInt8} (hbs : bs.length ≤ tg.len) :
    Wrote st (writeBoth st dest callee bs) (place x ds n k tg) tg.len := by
  cases h with
  | reg r ho h =>
    cases callee with
    | none => exact wrote_act hd ho (hd.reg ho) hbs h0 _ _
    | some l =>
      obtain rfl := savedLocLoop_place hd ho hkm (by omega) h
      exact wrote_place hd ho (hd.reg ho) hbs h0
  | mem a len =>
    have hput : Put x ds n k (.mem a len) bs st (writeBoth st (.mem a) none bs) := put_mem hbs
    exact hput.wrote

/-! ## The puts -/

theorem constantBytes_length (h : Handle) (i len : Nat) : (constantBytes h i len).length = len := by
  have hsum : ∀ c : Nat, ((List.range c).flatMap fun t => liveValueBytes (h.liveVals (i + t))).length = c * sizeofLiveValue := by
    intro c
    induction c with
    | zero => simp
    | succ c ih =>
      rw [List.range_succ, List.flatMap_append, List.length_append, ih, Nat.succ_mul]
      simp [liveValueBytes_length]
  unfold constantBytes
  rw [List.length_take, List.length_drop, hsum]
  unfold sizeofLiveValue
  omega

theorem getSrcBytes_length {src : Ctx} {mem : Mem} {i act len : Nat} {bs : List UInt8} (h : getSrcBytes src mem i act len = .ok bs) :
    bs.length = len := by
  have hread : ∀ l, (readLoc src mem l len).length = len := by
    intro l
    cases l <;> exact load_length _ _ _
  unfold getSrcBytes at h
  dsimp only at h
  cases ht : LocationType.ofCode (src.handle.liveVals i).type with
  | none =>
    rw [ht] at h
    cases h
  | some t =>
    rw [ht] at h
    cases t with
    | register =>
      obtain ⟨l, -, h⟩ := bind_ok.mp h
      cases h
      exact hread l
    | direct =>
      obtain ⟨l, -, h⟩ := bind_ok.mp h
      cases h
      exact hread l
    | indirect =>
      obtain ⟨l, -, h⟩ := bind_ok.mp h
      cases h
      exact hread l
    | constant =>
      cases h
      exact constantBytes_length _ _ _
    | constIdx => cases h

/-- A location the runtime finds is that of a target. -/
theorem target_of_loc (x : RewriteArgs) (ds : Nat → CallSite) (n k len : Nat) {c : Ctx} {type : Fin 16} {r : UInt16} {offset : Int}
    {act : Nat} {l : Loc} (h : getValLoc c type r offset act = .ok l) : ∃ tg, target x ds n k type r offset len = some tg := by
  unfold getValLoc at h
  unfold target
  cases ht : LocationType.ofCode type with
  | none =>
    rw [ht] at h
    cases h
  | some t =>
    rw [ht] at h
    cases t with
    | register => exact ⟨_, rfl⟩
    | direct => exact ⟨_, rfl⟩
    | indirect => exact ⟨_, rfl⟩
    | constant => cases h
    | constIdx => cases h

theorem target_constant {w : LiveValue} (h : isConstant w = true) : valTarget x ds n k w = none := by
  unfold isConstant at h
  unfold valTarget target
  cases ht : LocationType.ofCode w.type with
  | none => rfl
  | some t =>
    rw [ht] at h
    cases t with
    | constant => rfl
    | constIdx => rfl
    | register => cases h
    | direct => cases h
    | indirect => cases h

/-- A register's value has no more bytes than are saved of it. -/
theorem Addressable.len_le {type : Fin 16} {r : UInt16} {offset : Int} {len : Nat} {tg : Target} (ha : Addressable x type r len)
    (htg : target x ds n k type r offset len = some tg) : len ≤ tg.len := by
  unfold Addressable at ha
  unfold target at htg
  cases ht : LocationType.ofCode type with
  | none =>
    rw [ht] at htg
    cases htg
  | some t =>
    rw [ht] at ha htg
    cases t with
    | register =>
      cases htg
      exact ha
    | direct =>
      cases htg
      exact Nat.le_refl _
    | indirect =>
      cases htg
      exact Nat.le_refl _
    | constant => cases htg
    | constIdx => cases htg

section Puts
variable (hl : StackLayout x ds n) {st st' : Dst} (hd : DestFrames x n ds m st.ctx) (h0 : 0 < k)
  (hkm : k ≤ m) (hk : k + 1 < n)

include hd h0 hkm in
theorem putVal_finds {src : Ctx} {i : Nat} {w : LiveValue} (hact : src.act = k) (hact' : st.ctx.act = k)
    (haddr : Addressable x w.type w.regnum w.valSize) (hfine : ∀ tg ∈ valTarget x ds n k w, Fine x ds n k tg)
    (h : putVal src i st w = .ok st') :
    (valTarget x ds n k w = none ∧ st' = st) ∨ ∃ tg bs dest callee, valTarget x ds n k w = some tg ∧
      getSrcBytes src st.mem i k w.valSize = .ok bs ∧ bs.length ≤ tg.len ∧ Finds x st.ctx k tg dest callee ∧
      st' = writeBoth st dest callee bs := by
  unfold putVal at h
  split at h
  · rename_i hc
    exact .inl ⟨target_constant hc, (Except.ok.inj h).symm⟩
  · obtain ⟨bs, hbs, h⟩ := bind_ok.mp h
    obtain ⟨dest, h1, h⟩ := bind_ok.mp h
    obtain ⟨callee, h2, h⟩ := bind_ok.mp h
    rw [hact] at hbs h1
    rw [hact'] at h2
    obtain ⟨tg, htg⟩ := target_of_loc x ds n k w.valSize h1
    have hle : bs.length ≤ tg.len := by
      rw [getSrcBytes_length hbs]
      exact haddr.len_le htg
    exact .inr ⟨tg, bs, dest, callee, htg, hbs, hle, finds_of hd h0 hkm htg haddr (hfine tg htg) h1 h2, (Except.ok.inj h).symm⟩

include hl hd h0 hkm hk in
theorem putVal_locs {src : Ctx} {i : Nat} {w : LiveValue} (hact : src.act = k) (hact' : st.ctx.act = k)
    (haddr : Addressable x w.type w.regnum w.valSize) (hfine : ∀ tg ∈ valTarget x ds n k w, Fine x ds n k tg)
    (h : putVal src i st w = .ok st') :
    (valTarget x ds n k w = none ∧ st' = st) ∨ ∃ tg bs dest callee, valTarget x ds n k w = some tg ∧
      getSrcBytes src st.mem i k w.valSize = .ok bs ∧ bs.length ≤ tg.len ∧ Locs x ds n k tg dest callee ∧
      st' = writeBoth st dest callee bs := by
  obtain hnone | ⟨tg, bs, dest, callee, htg, hbs, hle, hfinds, rfl⟩ := putVal_finds hd h0 hkm hact hact' haddr hfine h
  · exact .inl hnone
  · exact .inr ⟨tg, bs, dest, callee, htg, hbs, hle, hfinds.locs hl hd hkm hk, rfl⟩

include hl hd h0 hkm hk in
theorem putVal_put {src : Ctx} {i : Nat} {w : LiveValue} (hact : src.act = k) (hact' : st.ctx.act = k)
    (haddr : Addressable x w.type w.regnum w.valSize) (hfine : ∀ tg ∈ valTarget x ds n k w, Fine x ds n k tg)
    (h : putVal src i st w = .ok st') :
    (valTarget x ds n k w = none ∧ st' = st) ∨ ∃ tg bs, valTarget x ds n k w = some tg ∧
      getSrcBytes src st.mem i k w.valSize = .ok bs ∧ Put x ds n k tg bs st st' := by
  obtain hnone | ⟨tg, bs, dest, callee, htg, hbs, hle, hlocs, rfl⟩ := putVal_locs hl hd h0 hkm hk hact hact' haddr hfine h
  · exact .inl hnone
  · exact .inr ⟨tg, bs, htg, hbs, hlocs.put hd h0 hle⟩

include hd h0 hkm in
theorem putValData_finds {w : LiveValue} {data : Nat} (hsize : w.valSize = 8) (haddr : Addressable x w.type w.regnum w.valSize)
    (hfine : ∀ tg ∈ valTarget x ds n k w, Fine x ds n k tg) (h : putValData st w k data = .ok st') :
    (valTarget x ds n k w = none ∧ st' = st) ∨ ∃ tg dest callee, valTarget x ds n k w = some tg ∧
      (leBytes 8 data).length ≤ tg.len ∧ Finds x st.ctx k tg dest callee ∧ st' = writeBoth st dest callee (leBytes 8 data) := by
  unfold putValData at h
  split at h
  · rename_i hc
    exact .inl ⟨target_constant hc, (Except.ok.inj h).symm⟩
  · obtain ⟨dest, h1, h⟩ := bind_ok.mp h
    obtain ⟨callee, h2, h⟩ := bind_ok.mp h
    obtain ⟨tg, htg⟩ := target_of_loc x ds n k w.valSize h1
    have hle : (leBytes 8 data).length ≤ tg.len := by
      rw [leBytes_length, ← hsize]
      exact haddr.len_le htg
    exact .inr ⟨tg, dest, callee, htg, hle, finds_of hd h0 hkm htg haddr (hfine tg htg) h1 h2, (Except.ok.inj h).symm⟩

include hl hd h0 hkm hk in
theorem putValData_locs {w : LiveValue} {data : Nat} (hsize : w.valSize = 8) (haddr : Addressable x w.type w.regnum w.valSize)
    (hfine : ∀ tg ∈ valTarget x ds n k w, Fine x ds n k tg) (h : putValData st w k data = .ok st') :
    (valTarget x ds n k w = none ∧ st' = st) ∨ ∃ tg dest callee, valTarget x ds n k w = some tg ∧
      (leBytes 8 data).length ≤ tg.len ∧ Locs x ds n k tg dest callee ∧ st' = writeBoth st dest callee (leBytes 8 data) := by
  obtain hnone | ⟨tg, dest, callee, htg, hle, hfinds, rfl⟩ := putValData_finds hd h0 hkm hsize haddr hfine h
  · exact .inl hnone
  · exact .inr ⟨tg, dest, callee, htg, hle, hfinds.locs hl hd hkm hk, rfl⟩

include hl hd h0 hkm hk in
theorem putValData_put {w : LiveValue} {data : Nat} (hsize : w.valSize = 8) (haddr : Addressable x w.type w.regnum w.valSize)
    (hfine : ∀ tg ∈ valTarget x ds n k w, Fine x ds n k tg) (h : putValData st w k data = .ok st') :
    (valTarget x ds n k w = none ∧ st' = st) ∨ ∃ tg, valTarget x ds n k w = some tg ∧
      Put x ds n k tg (leBytes 8 data) st st' := by
  obtain hnone | ⟨tg, dest, callee, htg, hle, hlocs, rfl⟩ := putValData_locs hl hd h0 hkm hk hsize haddr hfine h
  · exact .inl hnone
  · exact .inr ⟨tg, htg, hlocs.put hd h0 hle⟩

include hd h0 hkm in
theorem putValArch_finds {v : ArchLiveValue} (hact' : st.ctx.act = k) (haddr : Addressable x v.type v.regnum 8)
    (hfine : ∀ tg ∈ archTarget x ds n k v, Fine x ds n k tg) (h : putValArch st v = .ok st') :
    ∃ tg bs dest callee, archTarget x ds n k v = some tg ∧ bs.length ≤ tg.len ∧ Finds x st.ctx k tg dest callee ∧
      st' = writeBoth st dest callee bs := by
  unfold putValArch at h
  obtain ⟨dest, h1, h⟩ := bind_ok.mp h
  obtain ⟨callee, h2, h⟩ := bind_ok.mp h
  obtain ⟨operand, -, h⟩ := bind_ok.mp h
  obtain ⟨value, -, h⟩ := bind_ok.mp h
  rw [hact'] at h1 h2
  obtain ⟨tg, htg⟩ := target_of_loc x ds n k 8 h1
  have hle : (leBytes 8 value).length ≤ tg.len := by
    rw [leBytes_length]
    exact haddr.len_le htg
  exact ⟨tg, _, dest, callee, htg, hle, finds_of hd h0 hkm htg haddr (hfine tg htg) h1 h2, (Except.ok.inj h).symm⟩

include hl hd h0 hkm hk in
theorem putValArch_locs {v : ArchLiveValue} (hact' : st.ctx.act = k) (haddr : Addressable x v.type v.regnum 8)
    (hfine : ∀ tg ∈ archTarget x ds n k v, Fine x ds n k tg) (h : putValArch st v = .ok st') :
    ∃ tg bs dest callee, archTarget x ds n k v = some tg ∧ bs.length ≤ tg.len ∧ Locs x ds n k tg dest callee ∧
      st' = writeBoth st dest callee bs := by
  obtain ⟨tg, bs, dest, callee, htg, hle, hfinds, rfl⟩ := putValArch_finds hd h0 hkm hact' haddr hfine h
  exact ⟨tg, bs, dest, callee, htg, hle, hfinds.locs hl hd hkm hk, rfl⟩

include hl hd h0 hkm hk in
theorem putValArch_wrote {v : ArchLiveValue} (hact' : st.ctx.act = k) (haddr : Addressable x v.type v.regnum 8)
    (hfine : ∀ tg ∈ archTarget x ds n k v, Fine x ds n k tg) (h : putValArch st v = .ok st') :
    ∃ tg, archTarget x ds n k v = some tg ∧ Wrote st st' (place x ds n k tg) tg.len := by
  obtain ⟨tg, bs, dest, callee, htg, hle, hlocs, rfl⟩ := putValArch_locs hl hd h0 hkm hk hact' haddr hfine h
  exact ⟨tg, htg, (hlocs.put hd h0 hle).wrote⟩

end Puts

end

end Popcorn.Runtime
