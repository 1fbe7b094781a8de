/-
  Popcorn.Runtime.SiteLayout — what the metadata says of a frame, wherever the frame is.

  The records of a call site are relative to its frame: a value in memory is at an offset from
  the SP or the FBP, a saved register at one from the FBP. `SiteLayout` is `FrameLayout` in
  these terms. It is about a call site alone, so that it can be checked once for a binary, and
  it is about the frames of a source stack as well as those of a destination.

  Proved:
  - `DestBounds.layout`: a destination frame of such a call site is laid out.
  - `Framed.vaddr_eq`: where a record of a source frame is.
-/

import Popcorn.Runtime.Values

namespace Popcorn.Runtime

open Popcorn.Lib Popcorn.Metadata

/-! ## Slots -/

/-- What a record stands for in its frame. -/
inductive Slot where
  | reg (r : UInt16)
  /-- `len` bytes at the offset `o` from the FBP. -/
  | mem (o : Int) (len : Nat)

def Slot.Disj : Slot → Slot → Prop
  | .reg r, .reg r' => r ≠ r'
  | .mem o n, .mem o' n' => o + n ≤ o' ∨ o' + n' ≤ o
  | _, _ => True

/-- The slot in the frame with the FBP `fbp`. -/
def Slot.at (fbp : Nat) : Slot → Target
  | .reg r => .reg r
  | .mem o len => .mem (fbp + o).toNat len

/-- The slot of a record; the SP is the frame's size below the CFA, and the FBP 16 bytes. -/
def recordSlot (h : Handle) (s : CallSite) (type : Fin 16) (r : UInt16) (offset : Int) (len : Nat) : Option Slot :=
  match LocationType.ofCode type with
  | some .register => some (.reg r)
  | some .direct | some .indirect => some (.mem (if r = spReg h.arch then 16 - s.frameSize.toNat + offset else offset) len)
  | _ => none

def valSlot (h : Handle) (s : CallSite) (v : LiveValue) : Option Slot :=
  recordSlot h s v.type v.regnum v.offsetOrConstant.toInt v.valSize
def archSlot (h : Handle) (s : CallSite) (v : ArchLiveValue) : Option Slot :=
  recordSlot h s v.type v.regnum (Int32.ofInt v.offset.toNat).toInt 8

/-- The live values and the arch-specific ones of a call site. -/
def siteLive (h : Handle) (s : CallSite) (t : Nat) : LiveValue := h.liveVals (s.liveOffset + t)
def siteArch (h : Handle) (s : CallSite) (i : Nat) : Option ArchLiveValue := h.archLiveVals[s.archLiveOffset + i]?

/-- A callee-saved register other than the FBP and the return address. -/
def KeepsValues (a : Arch) (r : UInt16) : Prop := isCalleeSaved a r = true ∧ r ≠ fbpReg a ∧ r ≠ raReg a

/-- The bytes are in the frame, below its saved FBP and its return address. -/
def InBody (s : CallSite) (o : Int) (len : Nat) : Prop := 16 - (s.frameSize.toNat : Int) ≤ o ∧ o + len ≤ 0

def SlotFine (h : Handle) (s : CallSite) : Slot → Prop
  | .reg r => KeepsValues h.arch r ∧ Lists h s r
  | .mem o len => InBody s o len ∧
      ∀ l ∈ unwindRecords h s, KeepsValues h.arch l.reg → o + len ≤ l.offset.toInt ∨ l.offset.toInt + 8 ≤ o

def SlotAddressable (a : Arch) (type : Fin 16) (r : UInt16) (len : Nat) : Prop :=
  (LocationType.ofCode type = some .register → len ≤ 8) ∧
    (LocationType.ofCode type = some .direct ∨ LocationType.ofCode type = some .indirect → r = spReg a ∨ r = fbpReg a)

/-- The frame of a function at the call site `s`, as the metadata of its binary describes it. -/
structure SiteLayout (h : Handle) (s : CallSite) : Prop where
  room : 16 ≤ s.frameSize.toNat
  fbp : (⟨fbpReg h.arch, 0⟩ : UnwindLoc) ∈ unwindRecords h s
  ra : (⟨raReg h.arch, 8⟩ : UnwindLoc) ∈ unwindRecords h s
  nodup : ((unwindRecords h s).map (·.reg)).Nodup
  calleeSaved : ∀ l ∈ unwindRecords h s, isCalleeSaved h.arch l.reg = true
  saves : ∀ l ∈ unwindRecords h s, KeepsValues h.arch l.reg → InBody s l.offset.toInt 8
  savesApart : ∀ l ∈ unwindRecords h s, ∀ l' ∈ unwindRecords h s, KeepsValues h.arch l.reg → KeepsValues h.arch l'.reg →
    l.reg ≠ l'.reg → l.offset.toInt + 8 ≤ l'.offset.toInt ∨ l'.offset.toInt + 8 ≤ l.offset.toInt
  live : ∀ t < s.numLive.toNat,
    SlotAddressable h.arch (siteLive h s t).type (siteLive h s t).regnum (siteLive h s t).valSize ∧
      ∀ sl ∈ valSlot h s (siteLive h s t), SlotFine h s sl
  arch : ∀ i < s.numArchLive.toNat, ∀ v ∈ siteArch h s i, SlotAddressable h.arch v.type v.regnum 8 ∧
    ∀ sl ∈ archSlot h s v, SlotFine h s sl
  apart : ∀ t' < s.numLive.toNat, ∀ t < t', ∀ a ∈ valSlot h s (siteLive h s t), ∀ b ∈ valSlot h s (siteLive h s t'), a.Disj b
  apartArch : ∀ t < s.numLive.toNat, ∀ i < s.numArchLive.toNat, ∀ a ∈ valSlot h s (siteLive h s t), ∀ v ∈ siteArch h s i,
    ∀ b ∈ archSlot h s v, a.Disj b
  pointer : ∀ t < s.numLive.toNat, (siteLive h s t).isPtr = true → (siteLive h s t).isAlloca = false →
    (siteLive h s t).valSize = 8

section Decide
variable (h : Handle) (s : CallSite)

instance (a : Arch) (r : UInt16) : Decidable (KeepsValues a r) := inferInstanceAs (Decidable (_ ∧ _ ∧ _))
instance (o : Int) (len : Nat) : Decidable (InBody s o len) := inferInstanceAs (Decidable (_ ∧ _))
instance (a : Arch) (type : Fin 16) (r : UInt16) (len : Nat) : Decidable (SlotAddressable a type r len) :=
  inferInstanceAs (Decidable (_ ∧ _))

instance : (sl : Slot) → Decidable (SlotFine h s sl)
  | .reg _ => inferInstanceAs (Decidable (_ ∧ _))
  | .mem _ _ => inferInstanceAs (Decidable (_ ∧ ∀ l ∈ _, _))

instance : (a b : Slot) → Decidable (a.Disj b)
  | .reg r, .reg r' => inferInstanceAs (Decidable (r ≠ r'))
  | .mem o n, .mem o' n' => inferInstanceAs (Decidable (o + n ≤ o' ∨ o' + n' ≤ o))
  | .reg _, .mem _ _ => inferInstanceAs (Decidable True)
  | .mem _ _, .reg _ => inferInstanceAs (Decidable True)

end Decide

theorem Slot.Disj.symm {a b : Slot} (h : a.Disj b) : b.Disj a := by
  cases a <;> cases b <;> simp only [Slot.Disj] at h ⊢
  · exact Ne.symm h
  · omega

/-! ## Slots in a frame -/

section
variable {h : Handle} {s : CallSite} {fbp : Nat}

/-- In a frame with room for it the address of a slot does not wrap. -/
theorem InBody.at {o : Int} {len : Nat} (hb : InBody s o len) (hlow : s.frameSize.toNat ≤ fbp + 16) :
    ((fbp + o).toNat : Int) = fbp + o := by
  have h1 := hb.1
  omega

theorem padd_slot {o : Int} {len : Nat} (hb : InBody s o len) (hlow : s.frameSize.toNat ≤ fbp + 16)
    (hlt : fbp < 18446744073709551616) : padd fbp o = (fbp + o).toNat := by
  have hat := hb.at hlow
  have h2 := hb.2
  exact padd_eq (by omega) hat

/-- The address of a record by its base register. -/
theorem padd_record {o : Int} {len sp : Nat} {r : UInt16}
    (hb : InBody s (if r = spReg h.arch then 16 - s.frameSize.toNat + o else o) len)
    (hsp : sp + s.frameSize.toNat = fbp + 16) (hlt : fbp < 18446744073709551616) :
    padd (if r = spReg h.arch then sp else fbp) o = (fbp + (if r = spReg h.arch then 16 - (s.frameSize.toNat : Int) + o else o)).toNat := by
  have hlow : s.frameSize.toNat ≤ fbp + 16 := by omega
  have hat := hb.at hlow
  have h2 := hb.2
  split
  · rename_i hr
    rw [if_pos hr] at hat h2
    exact padd_eq (by omega) (by omega)
  · rename_i hr
    rw [if_neg hr] at hat h2
    exact padd_eq (by omega) hat

theorem Slot.Disj.at {a b : Slot} (hd : a.Disj b) (ha : SlotFine h s a) (hb : SlotFine h s b)
    (hlow : s.frameSize.toNat ≤ fbp + 16) : (a.at fbp).Disj (b.at fbp) := by
  cases a with
  | reg r =>
    cases b with
    | reg r' => exact hd
    | mem o len => trivial
  | mem o len =>
    cases b with
    | reg r' => trivial
    | mem o' len' =>
      have h1 := ha.1.at hlow
      have h2 := hb.1.at hlow
      simp only [Slot.Disj] at hd
      show (fbp + o).toNat + len ≤ (fbp + o').toNat ∨ (fbp + o').toNat + len' ≤ (fbp + o).toNat
      omega

end

/-! ## Destination frames -/

section
variable {x : RewriteArgs} {ds : Nat → CallSite} {n k : Nat}

theorem keepsValues_iff {r : UInt16} : KeepsValues x.handleDest.arch r ↔ Ordinary x r :=
  ⟨fun h => ⟨h.1, h.2.1, h.2.2⟩, fun h => ⟨h.calleeSaved, h.notFbp, h.notRa⟩⟩

/-- The bounds of a destination frame. -/
structure DestBounds (x : RewriteArgs) (ds : Nat → CallSite) (n k : Nat) : Prop where
  room : 16 ≤ (ds k).frameSize.toNat
  fbp : destFbp x ds n k + 16 = destCfa x ds n k
  sp : destCfa x ds n (k - 1) + (ds k).frameSize.toNat = destFbp x ds n k + 16
  lt : destFbp x ds n k < 18446744073709551616

theorem SiteLayout.bounds (hs : SiteLayout x.handleDest (ds k)) (hf : Fits x ds n) (h0 : 0 < k) (hk : k < n) : DestBounds x ds n k := by
  obtain ⟨j, rfl⟩ : ∃ j, k = j + 1 := ⟨k - 1, by omega⟩
  have hroom := hs.room
  have hsucc := destCfa_succ hf hk
  have hlt := destCfa_lt x ds n (j + 1)
  have hfbp : destFbp x ds n (j + 1) = destCfa x ds n (j + 1) - 16 := padd_eq (by omega) (by omega)
  refine ⟨hroom, by omega, ?_, by omega⟩
  rw [Nat.add_sub_cancel]
  omega

variable (hd : DestBounds x ds n k)

include hd in
theorem DestBounds.low : (ds k).frameSize.toNat ≤ destFbp x ds n k + 16 := by
  rw [← hd.sp]
  exact Nat.le_add_left _ _

include hd in
/-- A record's target is its slot in the frame. -/
theorem DestBounds.target {type : Fin 16} {r : UInt16} {offset : Int} {len : Nat}
    (hfine : ∀ sl ∈ recordSlot x.handleDest (ds k) type r offset len, SlotFine x.handleDest (ds k) sl) :
    target x ds n k type r offset len = (recordSlot x.handleDest (ds k) type r offset len).map (Slot.at (destFbp x ds n k)) := by
  unfold Popcorn.Runtime.target recordSlot at *
  have hmem : ∀ len, InBody (ds k) (if r = spReg x.handleDest.arch then 16 - (ds k).frameSize.toNat + offset else offset) len →
      padd (baseOf x ds n k r) offset =
        (destFbp x ds n k + (if r = spReg x.handleDest.arch then 16 - ((ds k).frameSize.toNat : Int) + offset else offset)).toNat :=
    fun len hb => padd_record hb hd.sp hd.lt
  cases ht : LocationType.ofCode type with
  | none => rfl
  | some t =>
    rw [ht] at hfine
    cases t with
    | register => rfl
    | direct =>
      have := hmem len (hfine _ rfl).1
      dsimp only [Option.map_some, Slot.at]
      rw [this]
    | indirect =>
      have := hmem len (hfine _ rfl).1
      dsimp only [Option.map_some, Slot.at]
      rw [this]
    | constant => rfl
    | constIdx => rfl

include hd in
theorem DestBounds.saveSlot_eq {l : UnwindLoc} (hb : InBody (ds k) l.offset.toInt 8) :
    (saveSlot x ds n k l : Int) = destFbp x ds n k + l.offset.toInt := by
  unfold saveSlot
  rw [padd_slot hb hd.low hd.lt]
  exact hb.at hd.low

include hd in
theorem DestBounds.inFrame {o : Int} {len : Nat} (hb : InBody (ds k) o len) : InFrame x ds n k (destFbp x ds n k + o).toNat len := by
  have hsp := hd.sp
  have hfbp := hd.fbp
  have hat := hb.at hd.low
  have h1 := hb.1
  have h2 := hb.2
  exact ⟨by omega, by omega⟩

include hd in
theorem DestBounds.fine (hs : SiteLayout x.handleDest (ds k)) (h0 : 0 < k) {sl : Slot} (hfine : SlotFine x.handleDest (ds k) sl) :
    Fine x ds n k (sl.at (destFbp x ds n k)) := by
  cases sl with
  | reg r => exact ⟨keepsValues_iff.mp hfine.1, hfine.2⟩
  | mem o len =>
    refine ⟨hd.inFrame hfine.1, ?_⟩
    intro l hl ho
    rw [destRecs_pos h0] at hl
    have hkeep := keepsValues_iff.mpr ho
    have hslot := hd.saveSlot_eq (hs.saves l hl hkeep)
    have hat := hfine.1.at hd.low
    have := hfine.2 l hl hkeep
    omega

include hd in
/-- A destination frame of a call site that is laid out. -/
theorem DestBounds.layout (hs : SiteLayout x.handleDest (ds k)) (h0 : 0 < k) : FrameLayout x ds n k := by
  have hrecs : destRecs x ds k = unwindRecords x.handleDest (ds k) := destRecs_pos h0
  have haddr : ∀ {type r len}, SlotAddressable x.handleDest.arch type r len → Addressable x type r len :=
    fun h => (addressable_iff x _ _ _).mp h
  have hval : ∀ t < (ds k).numLive.toNat, ∀ tg ∈ valTarget x ds n k (destLive x ds k t),
      ∃ sl ∈ valSlot x.handleDest (ds k) (siteLive x.handleDest (ds k) t), tg = sl.at (destFbp x ds n k) := by
    intro t ht tg htg
    have heq := hd.target (hs.live t ht).2
    obtain ⟨sl, hsl, rfl⟩ := Option.map_eq_some_iff.mp (heq.symm.trans htg)
    exact ⟨sl, hsl, rfl⟩
  have harch : ∀ i < (ds k).numArchLive.toNat, ∀ v ∈ destArch x ds k i, ∀ tg ∈ archTarget x ds n k v,
      ∃ sl ∈ archSlot x.handleDest (ds k) v, tg = sl.at (destFbp x ds n k) := by
    intro i hi v hv tg htg
    have heq := hd.target (hs.arch i hi v hv).2
    obtain ⟨sl, hsl, rfl⟩ := Option.map_eq_some_iff.mp (heq.symm.trans htg)
    exact ⟨sl, hsl, rfl⟩
  refine ⟨⟨?room, ?saves, ?live, ?arch, ?pointer⟩, ?fbp, ?ra, ?nodup, ?savesApart, ?apart, ?apartArch⟩
  case room => exact hs.room
  case fbp =>
    rw [hrecs]
    exact hs.fbp
  case ra =>
    rw [hrecs]
    exact hs.ra
  case nodup =>
    rw [hrecs]
    exact hs.nodup
  case saves =>
    rw [hrecs]
    intro l hl ho
    have hb := hs.saves l hl (keepsValues_iff.mpr ho)
    have hin := hd.inFrame hb
    have heq := hd.saveSlot_eq hb
    rwa [show saveSlot x ds n k l = (destFbp x ds n k + l.offset.toInt).toNat by omega]
  case savesApart =>
    rw [hrecs]
    intro l hl l' hl' ho ho' hne
    have heq := hd.saveSlot_eq (hs.saves l hl (keepsValues_iff.mpr ho))
    have heq' := hd.saveSlot_eq (hs.saves l' hl' (keepsValues_iff.mpr ho'))
    have := hs.savesApart l hl l' hl' (keepsValues_iff.mpr ho) (keepsValues_iff.mpr ho') hne
    omega
  case live =>
    intro t ht
    refine ⟨haddr (hs.live t ht).1, ?_⟩
    intro tg htg
    obtain ⟨sl, hsl, rfl⟩ := hval t ht tg htg
    exact hd.fine hs h0 ((hs.live t ht).2 sl hsl)
  case arch =>
    intro i hi v hv
    refine ⟨haddr (hs.arch i hi v hv).1, ?_⟩
    intro tg htg
    obtain ⟨sl, hsl, rfl⟩ := harch i hi v hv tg htg
    exact hd.fine hs h0 ((hs.arch i hi v hv).2 sl hsl)
  case apart =>
    intro t t' htt ht' a ha b hb
    obtain ⟨sl, hsl, rfl⟩ := hval t (by omega) a ha
    obtain ⟨sl', hsl', rfl⟩ := hval t' ht' b hb
    exact (hs.apart t' ht' t htt sl hsl sl' hsl').at ((hs.live t (by omega)).2 sl hsl) ((hs.live t' ht').2 sl' hsl') hd.low
  case apartArch =>
    intro t ht i hi a ha v hv b hb
    obtain ⟨sl, hsl, rfl⟩ := hval t ht a ha
    obtain ⟨sl', hsl', rfl⟩ := harch i hi v hv b hb
    exact (hs.apartArch t ht i hi sl hsl v hv sl' hsl').at ((hs.live t ht).2 sl hsl) ((hs.arch i hi v hv).2 sl' hsl') hd.low
  case pointer => exact hs.pointer

end

/-! ## Source frames -/

/-- The address of a slot in memory. -/
def Slot.addr (fbp : Nat) : Slot → Option Nat
  | .reg _ => none
  | .mem o _ => some (fbp + o).toNat

/-- A frame between its SP and its CFA, with the FBP at the slot of the saved one. -/
structure Framed (h : Handle) (f : VFrame) : Prop where
  cfa : f.cfa = (getRegops h.arch).sp f.regs + f.site.frameSize.toNat
  fbp : (getRegops h.arch).fbp f.regs + 16 = f.cfa
  lt : f.cfa < 18446744073709551616

section
variable {h : Handle} {f : VFrame} (hf : Framed h f) {v : LiveValue}

include hf in
theorem Framed.low : f.site.frameSize.toNat ≤ (getRegops h.arch).fbp f.regs + 16 := by
  rw [hf.fbp, hf.cfa]
  exact Nat.le_add_left _ _

/-- The base registers of a record in memory. -/
theorem base_reg (a : Arch) (regs : RegSet) {r : UInt16} (hr : r = spReg a ∨ r = fbpReg a) :
    ∃ off, (getRegops a).reg r = .ok off ∧
      rget regs off = if r = spReg a then (getRegops a).sp regs else (getRegops a).fbp regs := by
  by_cases hsp : r = spReg a
  · rw [if_pos hsp, hsp]
    exact ⟨_, reg_sp _, rfl⟩
  · rw [if_neg hsp, hr.resolve_left hsp]
    exact ⟨_, reg_fbp _, rfl⟩

include hf in
/-- The address of a record is that of its slot. -/
theorem Framed.vaddr_eq (haddr : SlotAddressable h.arch v.type v.regnum v.valSize)
    (hfine : ∀ sl ∈ valSlot h f.site v, SlotFine h f.site sl) :
    vaddr h f v = (valSlot h f.site v).bind (Slot.addr ((getRegops h.arch).fbp f.regs)) := by
  have hsp : (getRegops h.arch).sp f.regs + f.site.frameSize.toNat = (getRegops h.arch).fbp f.regs + 16 := by
    rw [hf.fbp, hf.cfa]
  have hlt : (getRegops h.arch).fbp f.regs < 18446744073709551616 := by
    have h1 := hf.fbp
    have h2 := hf.lt
    omega
  have hmem : LocationType.ofCode v.type = some .direct ∨ LocationType.ofCode v.type = some .indirect →
      InBody f.site (if v.regnum = spReg h.arch then 16 - f.site.frameSize.toNat + v.offsetOrConstant.toInt else v.offsetOrConstant.toInt)
        v.valSize → ∃ off, (getRegops h.arch).reg v.regnum = .ok off ∧ padd (rget f.regs off) v.offsetOrConstant.toInt =
          ((getRegops h.arch).fbp f.regs + (if v.regnum = spReg h.arch then 16 - (f.site.frameSize.toNat : Int) + v.offsetOrConstant.toInt
            else v.offsetOrConstant.toInt)).toNat := by
    intro ht hb
    obtain ⟨off, hoff, hbase⟩ := base_reg h.arch f.regs (haddr.2 ht)
    refine ⟨off, hoff, ?_⟩
    rw [hbase]
    exact padd_record hb hsp hlt
  unfold vaddr valSlot recordSlot at *
  cases ht : LocationType.ofCode v.type with
  | none => rfl
  | some t =>
    rw [ht] at hfine hmem
    cases t with
    | register => rfl
    | direct =>
      obtain ⟨off, hoff, hpadd⟩ := hmem (.inl rfl) (hfine _ rfl).1
      rw [hoff]
      exact congrArg some hpadd
    | indirect =>
      obtain ⟨off, hoff, hpadd⟩ := hmem (.inr rfl) (hfine _ rfl).1
      rw [hoff]
      exact congrArg some hpadd
    | constant => rfl
    | constIdx => rfl

end

end Popcorn.Runtime
