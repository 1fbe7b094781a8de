/-
  Popcorn.Runtime.Layout — where the values of a rewritten stack live.

  Every value a rewrite puts into a destination frame has one place in the finished stack.
  A value in memory is in its frame; a value in a callee-saved register is in the save slot
  of the nearest inner frame that saves the register, or in the register set of the
  innermost one (`savedPlace`). `FrameLayout` is what the metadata promises of one
  destination frame: its slots lie in the frame and apart from each other, and its function
  saves the callee-saved registers it keeps values in.

  Proved:
  - `destCfa_succ`: the frames stand next to each other, without wrapping.
  - `place_disj`: the places of different values share no byte.
  - `place_spot`: a place is in the body of a frame, or a register of the innermost set.
-/

import Popcorn.Runtime.Bitmaps

namespace Popcorn.Runtime

open Popcorn.Lib Popcorn.Metadata

/-! ## Slots and places -/

/-- What a location record stands for in the finished stack. -/
inductive Target where
  | reg (r : UInt16)
  | mem (a len : Nat)

def Target.len : Target → Nat
  | .reg _ => 8
  | .mem _ len => len

def Target.Disj : Target → Target → Prop
  | .reg r, .reg r' => r ≠ r'
  | .mem a n, .mem b m => a + n ≤ b ∨ b + m ≤ a
  | _, _ => True

theorem Target.Disj.symm {a b : Target} (h : a.Disj b) : b.Disj a := by
  cases a <;> cases b <;> simp only [Target.Disj] at h ⊢
  · exact Ne.symm h
  · omega

section Def
variable (x : RewriteArgs) (ds : Nat → CallSite) (n : Nat)

/-- The FBP of the destination's activation `k`. -/
def destFbp (k : Nat) : Nat := padd (destCfa x ds n k) (-0x10)

/-- The unwind records of the destination's activation `k`. -/
def destRecs (k : Nat) : List UnwindLoc := unwindRecords x.handleDest (destSite ds k)

def saveSlot (k : Nat) (l : UnwindLoc) : Nat := padd (destFbp x ds n k) l.offset.toInt

/-- Where the value of register `r` in frame `k` is: in the slot of the nearest frame below
    that saves it, or still in the register. -/
def savedPlace (r : UInt16) : Nat → Loc
  | 0 => .reg 0 (regOff x.handleDest.arch r)
  | k + 1 =>
    match (destRecs x ds k).find? (·.reg == r) with
    | some l => .mem (saveSlot x ds n k l)
    | none => savedPlace r k

def place (k : Nat) : Target → Loc
  | .reg r => savedPlace x ds n r k
  | .mem a _ => .mem a

/-- The value of a base register of frame `k`: the SP or the FBP. -/
def baseOf (k : Nat) (r : UInt16) : Nat :=
  if r = spReg x.handleDest.arch then destCfa x ds n (k - 1) else destFbp x ds n k

/-- The target of a location record of frame `k`. -/
def target (k : Nat) (type : Fin 16) (r : UInt16) (offset : Int) (len : Nat) : Option Target :=
  match LocationType.ofCode type with
  | some .register => some (.reg r)
  | some .direct | some .indirect => some (.mem (padd (baseOf x ds n k r) offset) len)
  | _ => none

/-- The live value and arch-specific records of the destination frame `k`. -/
def destLive (k t : Nat) : LiveValue := x.handleDest.liveVals ((ds k).liveOffset + t)
def destArch (k i : Nat) : Option ArchLiveValue := x.handleDest.archLiveVals[(ds k).archLiveOffset + i]?

def valTarget (k : Nat) (w : LiveValue) : Option Target := target x ds n k w.type w.regnum w.offsetOrConstant.toInt w.valSize
def archTarget (k : Nat) (v : ArchLiveValue) : Option Target := target x ds n k v.type v.regnum (Int32.ofInt v.offset.toNat).toInt 8

/-- The bytes are in frame `k`, below its saved FBP and its return address. -/
def InFrame (k a len : Nat) : Prop := destCfa x ds n (k - 1) ≤ a ∧ a + len + 16 ≤ destCfa x ds n k

/-- A callee-saved register other than the FBP and the return address. -/
structure Ordinary (r : UInt16) : Prop where
  calleeSaved : isCalleeSaved x.handleDest.arch r = true
  notFbp : r ≠ fbpReg x.handleDest.arch
  notRa : r ≠ raReg x.handleDest.arch

/-- A target of frame `k`: a register its function saves, or bytes of the frame that are in
    none of its save slots. -/
def Fine (k : Nat) : Target → Prop
  | .reg r => Ordinary x r ∧ Lists x.handleDest (ds k) r
  | .mem a len => InFrame x ds n k a len ∧
      ∀ l ∈ destRecs x ds k, Ordinary x l.reg → a + len ≤ saveSlot x ds n k l ∨ saveSlot x ds n k l + 8 ≤ a

/-- A register's value has at most the 8 bytes that are saved of it, and a slot is relative to
    the SP or the FBP. -/
def Addressable (type : Fin 16) (r : UInt16) (len : Nat) : Prop :=
  match LocationType.ofCode type with
  | some .register => len ≤ 8
  | some .direct | some .indirect => r = spReg x.handleDest.arch ∨ r = fbpReg x.handleDest.arch
  | _ => True

/-- One rewritten frame of the destination: what its function keeps in the stack is in it. -/
structure FrameBody (k : Nat) : Prop where
  room : 16 ≤ (ds k).frameSize.toNat
  saves : ∀ l ∈ destRecs x ds k, Ordinary x l.reg → InFrame x ds n k (saveSlot x ds n k l) 8
  live : ∀ t < (ds k).numLive.toNat,
    Addressable x (destLive x ds k t).type (destLive x ds k t).regnum (destLive x ds k t).valSize ∧
      ∀ tg ∈ valTarget x ds n k (destLive x ds k t), Fine x ds n k tg
  arch : ∀ i < (ds k).numArchLive.toNat, ∀ v ∈ destArch x ds k i, Addressable x v.type v.regnum 8 ∧
    ∀ tg ∈ archTarget x ds n k v, Fine x ds n k tg
  pointer : ∀ t < (ds k).numLive.toNat, (destLive x ds k t).isPtr = true → (destLive x ds k t).isAlloca = false →
    (destLive x ds k t).valSize = 8

/-- One rewritten frame of the destination, as its metadata describes it. -/
structure FrameLayout (k : Nat) : Prop extends FrameBody x ds n k where
  /-- The saved FBP and the return address are at the top of the frame. -/
  fbp : (⟨fbpReg x.handleDest.arch, 0⟩ : UnwindLoc) ∈ destRecs x ds k
  ra : (⟨raReg x.handleDest.arch, 8⟩ : UnwindLoc) ∈ destRecs x ds k
  nodup : ((destRecs x ds k).map (·.reg)).Nodup
  savesApart : ∀ l ∈ destRecs x ds k, ∀ l' ∈ destRecs x ds k, Ordinary x l.reg → Ordinary x l'.reg → l.reg ≠ l'.reg →
    saveSlot x ds n k l + 8 ≤ saveSlot x ds n k l' ∨ saveSlot x ds n k l' + 8 ≤ saveSlot x ds n k l
  apart : ∀ t t', t < t' → t' < (ds k).numLive.toNat → ∀ a ∈ valTarget x ds n k (destLive x ds k t),
    ∀ b ∈ valTarget x ds n k (destLive x ds k t'), a.Disj b
  apartArch : ∀ t < (ds k).numLive.toNat, ∀ i < (ds k).numArchLive.toNat, ∀ a ∈ valTarget x ds n k (destLive x ds k t),
    ∀ v ∈ destArch x ds k i, ∀ b ∈ archTarget x ds n k v, a.Disj b

/-- The destination stack has room below its base. -/
structure Fits : Prop where
  below : frameSpan ds (n - 1) + 16 ≤ x.spBaseDest
  above : x.spBaseDest + 16 < 18446744073709551616

/-- The rewritten frames of a destination stack of `n`. -/
structure StackLayout : Prop where
  fits : Fits x ds n
  frames : ∀ k, 0 < k → k + 1 < n → FrameLayout x ds n k

end Def

theorem StackLayout.bodies {x : RewriteArgs} {ds : Nat → CallSite} {n : Nat} (hl : StackLayout x ds n) (k : Nat) (h0 : 0 < k)
    (hk : k + 1 < n) : FrameBody x ds n k := (hl.frames k h0 hk).toFrameBody

section Decide
variable (x : RewriteArgs) (ds : Nat → CallSite) (n k : Nat)

instance (r : UInt16) : Decidable (Ordinary x r) :=
  decidable_of_iff (isCalleeSaved x.handleDest.arch r = true ∧ r ≠ fbpReg x.handleDest.arch ∧ r ≠ raReg x.handleDest.arch)
    ⟨fun h => ⟨h.1, h.2.1, h.2.2⟩, fun h => ⟨h.calleeSaved, h.notFbp, h.notRa⟩⟩

instance (h : Handle) (s : CallSite) (r : UInt16) : Decidable (Lists h s r) := inferInstanceAs (Decidable (∃ l ∈ _, _))
instance (a len : Nat) : Decidable (InFrame x ds n k a len) := inferInstanceAs (Decidable (_ ∧ _))

instance : (a b : Target) → Decidable (a.Disj b)
  | .reg r, .reg r' => inferInstanceAs (Decidable (r ≠ r'))
  | .mem a n, .mem b m => inferInstanceAs (Decidable (a + n ≤ b ∨ b + m ≤ a))
  | .reg _, .mem _ _ => inferInstanceAs (Decidable True)
  | .mem _ _, .reg _ => inferInstanceAs (Decidable True)

instance : (tg : Target) → Decidable (Fine x ds n k tg)
  | .reg _ => inferInstanceAs (Decidable (_ ∧ _))
  | .mem _ _ => inferInstanceAs (Decidable (_ ∧ ∀ l ∈ _, _))

theorem addressable_iff (type : Fin 16) (r : UInt16) (len : Nat) :
    (LocationType.ofCode type = some .register → len ≤ 8) ∧
      (LocationType.ofCode type = some .direct ∨ LocationType.ofCode type = some .indirect →
        r = spReg x.handleDest.arch ∨ r = fbpReg x.handleDest.arch) ↔ Addressable x type r len := by
  unfold Addressable
  cases LocationType.ofCode type with
  | none => simp
  | some t => cases t <;> simp

instance (type : Fin 16) (r : UInt16) (len : Nat) : Decidable (Addressable x type r len) :=
  decidable_of_iff _ (addressable_iff x type r len)

end Decide

/-! ## Geometry -/

section
variable {x : RewriteArgs} {ds : Nat → CallSite} {n : Nat}

theorem destTop_bounds (hf : Fits x ds n) :
    8 ≤ destTop x.handleDest.arch x.spBaseDest (frameSpan ds (n - 1)) ∧
      destTop x.handleDest.arch x.spBaseDest (frameSpan ds (n - 1)) + frameSpan ds (n - 1) ≤ x.spBaseDest := by
  have h1 := hf.below
  have h2 := hf.above
  obtain ⟨stack, hst⟩ : ∃ stack, stack + frameSpan ds (n - 1) = x.spBaseDest := ⟨_, Nat.sub_add_cancel (by omega)⟩
  have hb : padd x.spBaseDest (-(frameSpan ds (n - 1) : Nat)) = stack := padd_eq (by omega) (by omega)
  have hb8 : padd stack (-8) = stack - 8 := padd_eq (by omega) (by omega)
  unfold destTop
  rw [hb]
  cases x.handleDest.arch with
  | x86_64 =>
    simp only [hb8]
    split <;> omega
  | aarch64 =>
    simp only
    omega

/-- The CFA of the function being entered: just above the SP, or, on aarch64, at it. -/
theorem destCfa_zero (hf : Fits x ds n) :
    destCfa x ds n 0 = destTop x.handleDest.arch x.spBaseDest (frameSpan ds (n - 1)) +
      (getProperties x.handleDest.arch).cfaOffsetFuncentry.toNat := by
  have htop := destTop_bounds hf
  have h2 := hf.above
  show padd _ _ = _
  generalize destTop x.handleDest.arch x.spBaseDest (frameSpan ds (n - 1)) = top at htop ⊢
  cases x.handleDest.arch <;> apply padd_eq <;> simp [getProperties, propertiesX86_64, propertiesAarch64] <;> omega

theorem destCfa_zero_bounds (hf : Fits x ds n) : 8 ≤ destCfa x ds n 0 ∧ destCfa x ds n 0 + frameSpan ds (n - 1) ≤ x.spBaseDest + 8 := by
  have htop := destTop_bounds hf
  have hoff : (getProperties x.handleDest.arch).cfaOffsetFuncentry.toNat ≤ 8 := by
    cases x.handleDest.arch <;> decide
  rw [destCfa_zero hf]
  omega

/-- The CFAs without wrapping. -/
theorem destCfa_eq (hf : Fits x ds n) {k : Nat} (hk : k < n) : destCfa x ds n k = destCfa x ds n 0 + frameSpan ds k := by
  have h0 := destCfa_zero_bounds hf
  have h2 := hf.above
  induction k with
  | zero => rfl
  | succ k ih =>
    have hm : frameSpan ds (k + 1) ≤ frameSpan ds (n - 1) := frameSpan_mono ds (by omega)
    have hs : frameSpan ds (k + 1) = frameSpan ds k + (ds (k + 1)).frameSize.toNat := rfl
    show padd (destCfa x ds n k) _ = _
    rw [ih (by omega)]
    apply padd_eq <;> omega

theorem destCfa_succ (hf : Fits x ds n) {k : Nat} (hk : k + 1 < n) :
    destCfa x ds n (k + 1) = destCfa x ds n k + (ds (k + 1)).frameSize.toNat := by
  rw [destCfa_eq hf hk, destCfa_eq hf (show k < n by omega), Nat.add_assoc]
  rfl

theorem destCfa_mono (hf : Fits x ds n) {j k : Nat} (h : j ≤ k) (hk : k < n) : destCfa x ds n j ≤ destCfa x ds n k := by
  rw [destCfa_eq hf hk, destCfa_eq hf (show j < n by omega)]
  exact Nat.add_le_add_left (frameSpan_mono ds h) _

theorem destCfa_pos (hf : Fits x ds n) {k : Nat} (hk : k < n) : 8 ≤ destCfa x ds n k :=
  Nat.le_trans (destCfa_zero_bounds hf).1 (destCfa_mono hf (Nat.zero_le k) hk)

theorem destCfa_room (hf : Fits x ds n) {k : Nat} (h0 : 0 < k) (hk : k < n) (hl : FrameLayout x ds n k) :
    destCfa x ds n (k - 1) + 16 ≤ destCfa x ds n k := by
  obtain ⟨j, rfl⟩ : ∃ j, k = j + 1 := ⟨k - 1, by omega⟩
  have := hl.room
  rw [destCfa_succ hf hk, Nat.add_sub_cancel]
  omega

/-- Bytes in different frames are different bytes. -/
theorem InFrame.disj (hf : Fits x ds n) {j k a b la lb : Nat} (hj : j < n) (hk : k < n) (hne : j ≠ k)
    (ha : InFrame x ds n j a la) (hb : InFrame x ds n k b lb) : a + la ≤ b ∨ b + lb ≤ a := by
  obtain ⟨ha1, ha2⟩ := ha
  obtain ⟨hb1, hb2⟩ := hb
  obtain h | h := Nat.lt_or_gt_of_ne hne
  · have := destCfa_mono hf (show j ≤ k - 1 by omega) (show k - 1 < n by omega)
    omega
  · have := destCfa_mono hf (show k ≤ j - 1 by omega) (show j - 1 < n by omega)
    omega

/-! ## Where a register is saved -/

theorem destRecs_zero : destRecs x ds 0 = [] := by
  unfold destRecs destSite unwindRecords
  exact List.take_zero

theorem destRecs_pos {k : Nat} (hk : 0 < k) : destRecs x ds k = unwindRecords x.handleDest (ds k) := by
  unfold destRecs destSite
  rw [if_neg (by omega)]

/-- The location is that of register `r` in activation 0, or its save slot in frame `j`. -/
def SavedAt (x : RewriteArgs) (ds : Nat → CallSite) (n : Nat) (r : UInt16) (j : Nat) (l : Loc) : Prop :=
  (j = 0 ∧ l = .reg 0 (regOff x.handleDest.arch r)) ∨ ∃ u ∈ destRecs x ds j, u.reg = r ∧ l = .mem (saveSlot x ds n j u)

/-- A saved place is that of the nearest frame which lists the register. -/
theorem savedPlace_cases (x : RewriteArgs) (ds : Nat → CallSite) (n : Nat) (r : UInt16) {k : Nat} (hk : 0 < k) :
    ∃ j < k, SavedAt x ds n r j (savedPlace x ds n r k) ∧ ∀ i, j < i → i < k → ∀ u ∈ destRecs x ds i, u.reg ≠ r := by
  induction k with
  | zero => omega
  | succ k ih =>
    unfold savedPlace
    cases hfind : (destRecs x ds k).find? (·.reg == r) with
    | some u =>
      have hr : u.reg = r := by simpa using List.find?_some hfind
      exact ⟨k, by omega, .inr ⟨u, List.mem_of_find?_eq_some hfind, hr, rfl⟩, fun i _ _ => by omega⟩
    | none =>
      have hnone : ∀ u ∈ destRecs x ds k, u.reg ≠ r := by
        intro u hu
        simpa using List.find?_eq_none.mp hfind u hu
      by_cases h0 : k = 0
      · subst h0
        exact ⟨0, by omega, .inl ⟨rfl, rfl⟩, fun i _ _ => by omega⟩
      · obtain ⟨j, hj, hat, hbetween⟩ := ih (by omega)
        refine ⟨j, by omega, hat, ?_⟩
        intro i hji hi
        obtain rfl | hi := Nat.eq_or_lt_of_le (Nat.le_of_lt_succ hi)
        · exact hnone
        · exact hbetween i hji hi

/-! ## Places -/

/-- A location in the body of frame `i`; those of frame 0 are the ordinary registers. -/
inductive Spot (x : RewriteArgs) (ds : Nat → CallSite) (n : Nat) : Nat → Loc → Nat → Prop
  | reg (r : UInt16) (ho : Ordinary x r) : Spot x ds n 0 (.reg 0 (regOff x.handleDest.arch r)) 8
  | mem (i a len : Nat) (h0 : 0 < i) (ha : InFrame x ds n i a len) : Spot x ds n i (.mem a) len

theorem Spot.disj (hf : Fits x ds n) {i j la lb : Nat} {a b : Loc} (hi : i < n) (hj : j < n) (ha : Spot x ds n i a la)
    (hb : Spot x ds n j b lb) (hne : i ≠ j) : a.Disj la b lb := by
  cases ha with
  | reg r ho =>
    cases hb with
    | reg r' ho' => exact absurd rfl hne
    | mem _ b _ h0 hb => trivial
  | mem _ a _ h0 ha =>
    cases hb with
    | reg r' ho' => trivial
    | mem _ b _ h0' hb => exact ha.disj hf hi hj hne hb

section
variable (hl : StackLayout x ds n)

theorem SavedAt.spot (hframes : ∀ k, 0 < k → k + 1 < n → FrameBody x ds n k) {r : UInt16} {j : Nat} {l : Loc} (hj : j + 1 < n)
    (ho : Ordinary x r) (h : SavedAt x ds n r j l) : Spot x ds n j l 8 := by
  obtain ⟨rfl, rfl⟩ | ⟨u, hu, rfl, rfl⟩ := h
  · exact .reg r ho
  · have h0 : 0 < j := by
      apply Nat.pos_of_ne_zero
      intro hj0
      rw [hj0, destRecs_zero] at hu
      cases hu
    exact .mem j _ 8 h0 ((hframes j h0 hj).saves u hu ho)

include hl in
theorem SavedAt.disj {r r' : UInt16} {j : Nat} {l l' : Loc} (hj : j + 1 < n) (ho : Ordinary x r) (ho' : Ordinary x r')
    (hne : r ≠ r') (h : SavedAt x ds n r j l) (h' : SavedAt x ds n r' j l') : l.Disj 8 l' 8 := by
  obtain ⟨rfl, rfl⟩ | ⟨u, hu, rfl, rfl⟩ := h
  · obtain ⟨-, rfl⟩ | ⟨u', hu', -, -⟩ := h'
    · exact .inr (reg_disj (calleeSaved_cases ho.calleeSaved).1 (calleeSaved_cases ho'.calleeSaved).1 hne)
    · rw [destRecs_zero] at hu'
      cases hu'
  · obtain ⟨rfl, -⟩ | ⟨u', hu', rfl, rfl⟩ := h'
    · rw [destRecs_zero] at hu
      cases hu
    · have h0 : 0 < j := by
        apply Nat.pos_of_ne_zero
        intro hj0
        rw [hj0, destRecs_zero] at hu
        cases hu
      exact (hl.frames j h0 hj).savesApart u hu u' hu' ho ho' hne

/-- The place of a value of frame `k` is in the body of a frame up to `k`. -/
theorem place_spot (hframes : ∀ k, 0 < k → k + 1 < n → FrameBody x ds n k) {k : Nat} {tg : Target} (h0 : 0 < k) (hk : k + 1 < n)
    (hfine : Fine x ds n k tg) : ∃ i ≤ k, Spot x ds n i (place x ds n k tg) tg.len := by
  cases tg with
  | reg r =>
    obtain ⟨j, hj, hat, -⟩ := savedPlace_cases x ds n r h0
    exact ⟨j, by omega, hat.spot hframes (by omega) hfine.1⟩
  | mem a len => exact ⟨k, Nat.le_refl k, .mem k a len h0 hfine.1⟩

include hl in
/-- A register's value of a frame, and a slot of one. -/
theorem place_disj_mem {k k' a len : Nat} {r : UInt16} (h0 : 0 < k) (hk : k + 1 < n) (h0' : 0 < k') (hk' : k' + 1 < n)
    (ho : Ordinary x r) (ha : Fine x ds n k' (.mem a len)) : (savedPlace x ds n r k).Disj 8 (.mem a) len := by
  obtain ⟨j, hj, hat, -⟩ := savedPlace_cases x ds n r h0
  by_cases hjk : j = k'
  · subst hjk
    obtain ⟨hj0, -⟩ | ⟨u, hu, rfl, he⟩ := hat
    · omega
    · rw [he]
      exact (ha.2 u hu ho).symm
  · exact (hat.spot hl.bodies (by omega) ho).disj hl.fits (by omega) (by omega) (.mem k' a len h0' ha.1) hjk

include hl in
/-- One register's values in two frames: the inner frame saves the register. -/
theorem savedPlace_disj_same {k k' : Nat} {r : UInt16} (h0 : 0 < k) (hk' : k' + 1 < n) (hlt : k < k')
    (hr : Fine x ds n k (.reg r)) : (savedPlace x ds n r k).Disj 8 (savedPlace x ds n r k') 8 := by
  obtain ⟨j, hj, hat, -⟩ := savedPlace_cases x ds n r h0
  obtain ⟨j', hj', hat', hbetween⟩ := savedPlace_cases x ds n r (show 0 < k' by omega)
  have hge : k ≤ j' := by
    apply Nat.le_of_not_lt
    intro hlt'
    obtain ⟨u, hu, hur⟩ := hr.2
    exact hbetween k hlt' hlt u (by rwa [destRecs_pos h0]) hur
  exact (hat.spot hl.bodies (by omega) hr.1).disj hl.fits (by omega) (by omega) (hat'.spot hl.bodies (by omega) hr.1) (by omega)

include hl in
theorem savedPlace_disj_ne {k k' : Nat} {r r' : UInt16} (h0 : 0 < k) (hk : k + 1 < n) (h0' : 0 < k') (hk' : k' + 1 < n)
    (ho : Ordinary x r) (ho' : Ordinary x r') (hne : r ≠ r') : (savedPlace x ds n r k).Disj 8 (savedPlace x ds n r' k') 8 := by
  obtain ⟨j, hj, hat, -⟩ := savedPlace_cases x ds n r h0
  obtain ⟨j', hj', hat', -⟩ := savedPlace_cases x ds n r' h0'
  by_cases hjj : j = j'
  · subst hjj
    exact hat.disj hl (by omega) ho ho' hne hat'
  · exact (hat.spot hl.bodies (by omega) ho).disj hl.fits (by omega) (by omega) (hat'.spot hl.bodies (by omega) ho') hjj

include hl in
/-- The places of different values share no byte. -/
theorem place_disj {k k' : Nat} {tg tg' : Target} (h0 : 0 < k) (hk : k + 1 < n) (h0' : 0 < k') (hk' : k' + 1 < n)
    (h : Fine x ds n k tg) (h' : Fine x ds n k' tg') (hne : k ≠ k' ∨ tg.Disj tg') :
    (place x ds n k tg).Disj tg.len (place x ds n k' tg') tg'.len := by
  cases tg with
  | reg r =>
    cases tg' with
    | reg r' =>
      by_cases hrr : r = r'
      · subst hrr
        obtain hlt | hlt := Nat.lt_or_gt_of_ne (hne.resolve_right fun h => h rfl)
        · exact savedPlace_disj_same hl h0 hk' hlt h
        · exact (savedPlace_disj_same hl h0' hk hlt h').symm
      · exact savedPlace_disj_ne hl h0 hk h0' hk' h.1 h'.1 hrr
    | mem a len => exact place_disj_mem hl h0 hk h0' hk' h.1 h'
  | mem a len =>
    cases tg' with
    | reg r' => exact (place_disj_mem hl h0' hk' h0 hk h'.1 h).symm
    | mem b len' =>
      by_cases hkk : k = k'
      · subst hkk
        exact hne.resolve_left fun h => h rfl
      · exact h.1.disj hl.fits (by omega) (by omega) hkk h'.1

end

end

end Popcorn.Runtime
