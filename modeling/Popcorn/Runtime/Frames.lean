/-
  Popcorn.Runtime.Frames — what popping a frame does (see `Popcorn.Runtime.Unwind`).

  `popped` is the context after `pop_frame` as a pure function of the one before it and
  `CanPop` is when the code gets there: the next activation fits into `acts`, the frame's
  unwind records lie in their section and name callee-saved registers, and the words of
  the frame's bitmap lie in the pool.

  Proved:
  - `popFrame_ok_iff`: `pop_frame` returns exactly when `CanPop` holds, with `popped`.
  - `rget_reload`: what a register holds after the reload.
  - `testBit_mark`: what a bitmap holds after the marking.
-/

import Mathlib.Tactic.NormNum
import Popcorn.Lib.Run
import Popcorn.Runtime.Unwind

namespace Popcorn.Runtime

open Popcorn.Lib Popcorn.Metadata

/-! ## The reload -/

/-- The unwind records of a call site's function. -/
def unwindRecords (h : Handle) (s : CallSite) : List UnwindLoc :=
  (h.unwindLocs.drop (unwindStart s)).take (unwindEnd s - unwindStart s)

def reloadReg (mem : Mem) (a : Arch) (fbp : Nat) (regs : RegSet) (l : UnwindLoc) : RegSet :=
  store regs (regOff a l.reg) (load mem (padd fbp l.offset.toInt) 8)

def reload (mem : Mem) (a : Arch) (fbp : Nat) (recs : List UnwindLoc) (regs : RegSet) : RegSet :=
  recs.foldl (reloadReg mem a fbp) regs

def markReg (b : Bitmap) (pool : Pool) (l : UnwindLoc) : Pool :=
  Function.update pool (b.bits + l.reg.toNat / 64) (pool (b.bits + l.reg.toNat / 64) ||| bitMask l.reg.toNat)

def mark (b : Bitmap) (recs : List UnwindLoc) (pool : Pool) : Pool := recs.foldl (markReg b) pool

/-- The records name callee-saved registers, whose bits lie in the pool. -/
def Markable (a : Arch) (b : Bitmap) (recs : List UnwindLoc) : Prop :=
  ∀ l ∈ recs, isCalleeSaved a l.reg = true ∧ b.bits + l.reg.toNat / 64 < poolWords a

theorem restoreReg_ok_iff {mem : Mem} {h : Handle} {fbp : Nat} {b : Bitmap} {s s' : RegSet × Pool} {i : Nat} :
    restoreReg mem h fbp b s i = .ok s' ↔
      ∃ l, h.unwindLocs[i]? = some l ∧ Markable h.arch b [l] ∧ s' = (reloadReg mem h.arch fbp s.1 l, markReg b s.2 l) := by
  unfold restoreReg unwindLocAt
  cases hl : h.unwindLocs[i]? with
  | none => simp [bind_ok]
  | some l =>
    simp only [bind_ok, Except.ok.injEq, Option.some.injEq, exists_eq_left', Markable, List.mem_singleton, forall_eq]
    by_cases hc : isCalleeSaved h.arch l.reg = true
    · obtain ⟨h1, h2, -, -⟩ := calleeSaved_cases hc
      simp only [h1, h2, Except.ok.injEq, exists_eq_left', hc, true_and, bitmapSet, storageTypeBits]
      by_cases hw : b.bits + l.reg.toNat / 64 < poolWords h.arch
      · simp only [hw, if_true, Except.ok.injEq, exists_eq_left', true_and]
        exact ⟨fun e => (Except.ok.inj e).symm, fun e => congrArg Except.ok e.symm⟩
      · simp [hw]
    · have : (getProperties h.arch).calleeRegSize l.reg =
          .error (.stErr 1 (getProperties h.arch).unknownRegister [l.reg.toNat]) := if_neg hc
      simp [this, hc]

/-- The loop of `restore_callee_saved_regs` over the records from `start` on. -/
theorem restoreLoop_ok_iff {mem : Mem} {h : Handle} {fbp : Nat} {b : Bitmap} (len start : Nat) (s s' : RegSet × Pool) :
    (List.range' start len).foldlM (restoreReg mem h fbp b) s = .ok s' ↔
      (len = 0 ∨ start + len ≤ h.unwindLocs.length) ∧ Markable h.arch b ((h.unwindLocs.drop start).take len) ∧
        s' = (reload mem h.arch fbp ((h.unwindLocs.drop start).take len) s.1, mark b ((h.unwindLocs.drop start).take len) s.2) := by
  induction len generalizing start s with
  | zero =>
    simp only [List.range'_zero, List.foldlM_nil, List.take_zero, Markable, List.not_mem_nil, false_implies, implies_true,
      true_and, reload, mark, List.foldl_nil, true_or]
    exact ⟨fun e => (Except.ok.inj e).symm, fun e => congrArg Except.ok e.symm⟩
  | succ len ih =>
    rw [List.range'_succ, List.foldlM_cons, bind_ok]
    by_cases hs : start < h.unwindLocs.length
    · have hl : h.unwindLocs[start]? = some h.unwindLocs[start] := List.getElem?_eq_getElem hs
      rw [List.drop_eq_getElem_cons hs, List.take_succ_cons]
      constructor
      · intro ⟨s1, h1, h2⟩
        obtain ⟨l, hl', hm, rfl⟩ := restoreReg_ok_iff.mp h1
        cases hl.symm.trans hl'
        obtain ⟨hb, hm2, rfl⟩ := (ih (start + 1) _).mp h2
        refine ⟨by omega, ?_, rfl⟩
        intro x hx
        obtain rfl | hx := List.mem_cons.mp hx
        · exact hm _ (List.mem_singleton.mpr rfl)
        · exact hm2 x hx
      · intro ⟨hb, hm, he⟩
        refine ⟨_, restoreReg_ok_iff.mpr ⟨_, hl, ?_, rfl⟩, (ih (start + 1) _).mpr ⟨by omega, ?_, he⟩⟩
        · intro x hx
          exact hm x (List.mem_cons.mpr (.inl (List.mem_singleton.mp hx)))
        · intro x hx
          exact hm x (List.mem_cons_of_mem _ hx)
    · constructor
      · intro ⟨s1, h1, _⟩
        obtain ⟨l, hl', -, -⟩ := restoreReg_ok_iff.mp h1
        exact absurd (List.getElem?_eq_some_iff.mp hl').1 hs
      · intro ⟨hb, _⟩
        omega

/-! ## Popping a frame -/

structure CanPop (c : Ctx) : Prop where
  next : c.act + 1 < maxFrames
  bound : unwindEnd c.cur.site ≤ unwindStart c.cur.site ∨ unwindEnd c.cur.site ≤ c.handle.unwindLocs.length
  markable : Markable c.handle.arch c.cur.calleeSaved (unwindRecords c.handle c.cur.site)

/-- The registers of the caller, but for those that follow from the frame's bounds. -/
def callerRegs (mem : Mem) (h : Handle) (site : CallSite) (regs : RegSet) : RegSet :=
  setPcFromRa (getRegops h.arch) (reload mem h.arch ((getRegops h.arch).fbp regs) (unwindRecords h site) regs)

/-- The next activation with its registers reloaded and its callee's bitmap marked. -/
def reloaded (mem : Mem) (c : Ctx) : Ctx :=
  let saved : Bitmap := ⟨c.regops.numRegs, (c.act + 1) * bitmapSize c.regops.numRegs⟩
  let p : Ctx := { c with pool := mark c.cur.calleeSaved (unwindRecords c.handle c.cur.site) c.pool, act := c.act + 1 }
  p.modAct (c.act + 1) fun x => { x with regs := callerRegs mem c.handle c.cur.site c.cur.regs, calleeSaved := saved }

def popped (mem : Mem) (c : Ctx) (setupBounds : Bool) : Ctx :=
  if setupBounds then setupFrameBounds (reloaded mem c) (c.act + 1)
  else (reloaded mem c).modAct (c.act + 1) fun x => { x with regs := c.regops.setSp x.regs c.cur.cfa }

theorem restoreCalleeSavedRegs_ok_iff {mem : Mem} {c c' : Ctx} {k : Nat} :
    restoreCalleeSavedRegs mem c (k + 1) = .ok c' ↔
      (unwindEnd (c.acts k).site ≤ unwindStart (c.acts k).site ∨ unwindEnd (c.acts k).site ≤ c.handle.unwindLocs.length) ∧
      Markable c.handle.arch (c.acts k).calleeSaved (unwindRecords c.handle (c.acts k).site) ∧
      c' = { c with pool := mark (c.acts k).calleeSaved (unwindRecords c.handle (c.acts k).site) c.pool }.modAct (k + 1)
        fun x => { x with regs := setPcFromRa c.regops (reload mem c.handle.arch (c.regops.fbp (c.acts k).regs)
          (unwindRecords c.handle (c.acts k).site) x.regs) } := by
  unfold restoreCalleeSavedRegs unwindRecords
  simp only [Nat.add_sub_cancel]
  generalize unwindStart (c.acts k).site = start
  generalize unwindEnd (c.acts k).site = fin
  rw [bind_ok]
  constructor
  · intro h
    obtain ⟨s1, h1, h2⟩ := h
    obtain ⟨hb, hm, rfl⟩ := (restoreLoop_ok_iff _ _ _ _).mp h1
    refine ⟨by omega, hm, (Except.ok.inj h2).symm.trans ?_⟩
    simp only [Ctx.modAct]
  · intro h
    obtain ⟨hb, hm, he⟩ := h
    refine ⟨_, (restoreLoop_ok_iff _ _ _ _).mpr ⟨by omega, hm, rfl⟩, congrArg Except.ok ?_⟩
    rw [he]
    simp only [Ctx.modAct]

/-- The next activation as `pop_frame` first sets it up. -/
def nextAct (c : Ctx) : Ctx := setupCalleeSavedBits (c.modAct (c.act + 1) fun x => { x with regs := c.cur.regs }) (c.act + 1)

theorem nextAct_cur (c : Ctx) : (nextAct c).acts c.act = c.cur := by
  unfold nextAct setupCalleeSavedBits Ctx.cur
  rw [Ctx.modAct_ne _ _ _ (by omega), Ctx.modAct_ne _ _ _ (by omega)]

/-- The pop of a next activation that is set up. -/
theorem popped_eq (mem : Mem) (c : Ctx) (setupBounds : Bool) :
    let recs := unwindRecords c.handle c.cur.site
    let r : Ctx := { nextAct c with pool := mark c.cur.calleeSaved recs c.pool }.modAct (c.act + 1)
      fun x => { x with regs := setPcFromRa c.regops (reload mem c.handle.arch (c.regops.fbp c.cur.regs) recs x.regs) }
    ({ (if setupBounds then setupFrameBounds r (c.act + 1)
        else r.modAct (c.act + 1) fun x => { x with regs := r.regops.setSp x.regs r.cur.cfa }) with act := c.act + 1 } : Ctx) =
      popped mem c setupBounds := by
  intro recs r
  have hr : ({ r with act := c.act + 1 } : Ctx) = reloaded mem c := by
    simp only [r, reloaded, nextAct, setupCalleeSavedBits, Ctx.modAct, Function.update_idem, Function.update_self]
    rfl
  have hcfa : r.cur.cfa = c.cur.cfa := by
    show (r.acts c.act).cfa = c.cur.cfa
    rw [Ctx.modAct_ne _ _ _ (by omega)]
    exact congrArg Activation.cfa (nextAct_cur c)
  unfold popped
  cases setupBounds
  · refine Eq.trans ?_ (congrArg (fun p : Ctx => p.modAct (c.act + 1) fun x => { x with regs := c.regops.setSp x.regs c.cur.cfa }) hr)
    simp only [Bool.false_eq_true, if_false, hcfa]
    rfl
  · exact Eq.trans rfl (congrArg (fun p : Ctx => setupFrameBounds p (c.act + 1)) hr)

/-- `pop_frame` returns exactly when the frame can be popped. -/
theorem popFrame_ok_iff {mem : Mem} {c c' : Ctx} {setupBounds : Bool} :
    popFrame mem c setupBounds = .ok c' ↔ CanPop c ∧ c' = popped mem c setupBounds := by
  show (setupRegset c (c.act + 1) >>= _) = _ ↔ _
  by_cases hn : c.act + 1 < maxFrames
  · have hr : setupRegset c (c.act + 1) = .ok (c.modAct (c.act + 1) fun x => { x with regs := c.cur.regs }) := if_pos hn
    rw [hr]
    show (restoreCalleeSavedRegs mem (nextAct c) (c.act + 1) >>= _) = _ ↔ _
    rw [bind_ok, ← popped_eq]
    simp only [restoreCalleeSavedRegs_ok_iff, nextAct_cur]
    constructor
    · intro ⟨r, ⟨hb, hm, he⟩, h⟩
      refine ⟨⟨hn, hb, hm⟩, ?_⟩
      rw [← Except.ok.inj h, he]
      cases setupBounds <;> rfl
    · intro ⟨⟨_, hb, hm⟩, he⟩
      refine ⟨_, ⟨hb, hm, rfl⟩, ?_⟩
      rw [he]
      cases setupBounds <;> rfl
  · have hr : setupRegset c (c.act + 1) = .error .outOfBounds := if_neg hn
    rw [hr]
    constructor
    · intro h
      cases h
    · intro h
      exact absurd h.1.next hn

section Popped
variable (mem : Mem) (c : Ctx) (b : Bool)

@[simp] theorem popped_handle : (popped mem c b).handle = c.handle := by cases b <;> rfl
@[simp] theorem popped_stackBase : (popped mem c b).stackBase = c.stackBase := by cases b <;> rfl
@[simp] theorem popped_stack : (popped mem c b).stack = c.stack := by cases b <;> rfl
@[simp] theorem popped_numActs : (popped mem c b).numActs = c.numActs := by cases b <;> rfl
@[simp] theorem popped_act : (popped mem c b).act = c.act + 1 := by cases b <;> rfl
@[simp] theorem popped_stackPointers : (popped mem c b).stackPointers = c.stackPointers := by cases b <;> rfl

theorem popped_pool : (popped mem c b).pool = mark c.cur.calleeSaved (unwindRecords c.handle c.cur.site) c.pool := by
  cases b <;> rfl

theorem popped_acts_ne {j : Nat} (h : j ≠ c.act + 1) : (popped mem c b).acts j = c.acts j := by
  cases b
  · unfold popped reloaded
    simp only [Bool.false_eq_true, if_false]
    rw [Ctx.modAct_ne _ _ _ h, Ctx.modAct_ne _ _ _ h]
  · unfold popped setupFrameBounds reloaded
    simp only [if_true]
    rw [Ctx.modAct_ne _ _ _ h, Ctx.modAct_ne _ _ _ h, Ctx.modAct_ne _ _ _ h]

theorem popped_site : ((popped mem c b).acts (c.act + 1)).site = (c.acts (c.act + 1)).site := by
  cases b
  · simp [popped, reloaded]
  · simp [popped, reloaded, setupFrameBounds]

theorem popped_bits : ((popped mem c b).acts (c.act + 1)).calleeSaved.bits = (c.act + 1) * 16 := by
  have h := bitmapSize_numRegs c.handle.arch
  cases b
  · simp [popped, reloaded, Ctx.regops, h]
  · simp [popped, reloaded, setupFrameBounds, Ctx.regops, h]

theorem popped_regs : ((popped mem c false).acts (c.act + 1)).regs =
    c.regops.setSp (callerRegs mem c.handle c.cur.site c.cur.regs) c.cur.cfa := by
  simp [popped, reloaded]

end Popped

/-! ## Registers after a pop -/

theorem rget_reloadReg_same (mem : Mem) (a : Arch) (fbp : Nat) (regs : RegSet) (l : UnwindLoc) :
    rget (reloadReg mem a fbp regs l) (regOff a l.reg) = readLe 8 mem (padd fbp l.offset.toInt) := by
  have h := load_store_same regs (regOff a l.reg) (load mem (padd fbp l.offset.toInt) 8)
  rw [load_length] at h
  unfold rget reloadReg readLe
  rw [h]

theorem rget_reloadReg_disj (mem : Mem) (a : Arch) (fbp : Nat) (regs : RegSet) (l : UnwindLoc) {off : Nat}
    (h : off + 8 ≤ regOff a l.reg ∨ regOff a l.reg + 8 ≤ off) : rget (reloadReg mem a fbp regs l) off = rget regs off :=
  readLe_store_disj _ (by rwa [load_length])

/-- What a callee-saved register holds after the reload: the value in its save slot if it
    is listed, else its old value. -/
theorem rget_reload {mem : Mem} {a : Arch} {fbp : Nat} {r : UInt16} {v : Nat} {recs : List UnwindLoc}
    (hrecs : ∀ l ∈ recs, isCalleeSaved a l.reg = true) (hr : isCalleeSaved a r = true) (regs : RegSet)
    (hin : ∀ l ∈ recs, l.reg = r → readLe 8 mem (padd fbp l.offset.toInt) = v)
    (hout : (∀ l ∈ recs, l.reg ≠ r) → rget regs (regOff a r) = v) : rget (reload mem a fbp recs regs) (regOff a r) = v := by
  induction recs generalizing regs with
  | nil => exact hout (by simp)
  | cons l recs ih =>
    apply ih (fun x hx => hrecs x (List.mem_cons_of_mem _ hx)) _ (fun x hx => hin x (List.mem_cons_of_mem _ hx))
    intro hne
    by_cases hl : l.reg = r
    · rw [← hl, rget_reloadReg_same]
      exact hin l List.mem_cons_self hl
    · have hd := reg_disj (calleeSaved_cases hr).1 (calleeSaved_cases (hrecs l List.mem_cons_self)).1 (Ne.symm hl)
      rw [rget_reloadReg_disj _ _ _ _ _ hd]
      apply hout
      intro x hx
      obtain rfl | hx := List.mem_cons.mp hx
      · exact hl
      · exact hne x hx

/-- The return address lands in the PC, and no register changes with it. -/
theorem pc_setPcFromRa (a : Arch) (regs : RegSet) :
    (getRegops a).pc (setPcFromRa (getRegops a) regs) = rget regs (regOff a (raReg a)) := by
  cases a
  · rfl
  · exact rget_rset_same _ _ (rget_lt _ _)

theorem rget_setPcFromRa {a : Arch} {r : UInt16} {o : Nat} (h : (getRegops a).reg r = .ok o) (regs : RegSet) :
    rget (setPcFromRa (getRegops a) regs) o = rget regs o := by
  cases a
  · rfl
  · apply rget_rset_disj
    simp only [getRegops, regsAarch64, regAarch64] at h ⊢
    split_ifs at h <;> cases h <;> omega

theorem rget_setSp {a : Arch} {r : UInt16} {o : Nat} (h : (getRegops a).reg r = .ok o) (hne : r ≠ spReg a) (regs : RegSet)
    (v : Nat) : rget ((getRegops a).setSp regs v) o = rget regs o :=
  rget_rset_disj _ (reg_disj h (reg_sp a) hne)

theorem pc_setSp (a : Arch) (regs : RegSet) (v : Nat) : (getRegops a).pc ((getRegops a).setSp regs v) = (getRegops a).pc regs := by
  apply rget_rset_disj
  cases a <;> decide

theorem sp_setSp (a : Arch) (regs : RegSet) {v : Nat} (hv : v < 18446744073709551616) :
    (getRegops a).sp ((getRegops a).setSp regs v) = v := rget_rset_same _ _ hv

/-! ## Bitmaps after a pop -/

theorem testBit_markReg (b b' : Bitmap) (pool : Pool) (l : UnwindLoc) (num : Nat) :
    testBit (markReg b pool l) b' num =
      (testBit pool b' num || decide (b'.bits + num / 64 = b.bits + l.reg.toNat / 64 ∧ num % 64 = l.reg.toNat % 64)) := by
  have h : bitmapSet (b.bits + l.reg.toNat / 64 + 1) pool b l.reg.toNat = .ok (markReg b pool l) := by
    unfold bitmapSet storageTypeBits
    exact if_pos (by omega)
  exact isSet_set h b' num

/-- A bit after the marking: it was set before, or a record lists its register. -/
theorem testBit_mark (b b' : Bitmap) (recs : List UnwindLoc) (pool : Pool) (num : Nat) :
    testBit (mark b recs pool) b' num = true ↔
      testBit pool b' num = true ∨ ∃ l ∈ recs, b'.bits + num / 64 = b.bits + l.reg.toNat / 64 ∧ num % 64 = l.reg.toNat % 64 := by
  induction recs generalizing pool with
  | nil => simp [mark]
  | cons l recs ih =>
    show testBit (mark b recs (markReg b pool l)) b' num = true ↔ _
    rw [ih, testBit_markReg, Bool.or_eq_true, decide_eq_true_eq]
    simp only [List.mem_cons, exists_eq_or_imp, or_assoc]

/-! ## Frame bounds -/

/-- The bounds a frame gets: the callee's CFA is its SP, the FBP stands below its CFA. -/
structure Bounds (a : Arch) (x : Activation) (lo hi : Nat) : Prop where
  cfa : x.cfa = hi
  sp : (getRegops a).sp x.regs = lo
  fbp : (getRegops a).fbp x.regs = padd hi (-0x10)

theorem setupFrameBounds_acts_ne (c : Ctx) {k j : Nat} (h : j ≠ k) : (setupFrameBounds c k).acts j = c.acts j := by
  unfold setupFrameBounds
  simp [h]

theorem setupFrameBounds_site (c : Ctx) (k : Nat) : ((setupFrameBounds c k).acts k).site = (c.acts k).site := by
  simp [setupFrameBounds]

theorem setupFrameBounds_calleeSaved (c : Ctx) (k : Nat) :
    ((setupFrameBounds c k).acts k).calleeSaved = (c.acts k).calleeSaved := by
  simp [setupFrameBounds]

theorem setupFrameBounds_bounds (c : Ctx) (k : Nat) {v : Nat} (hv : (c.acts (k - 1)).cfa = v)
    (hlt : v < 18446744073709551616) :
    Bounds c.handle.arch ((setupFrameBounds c k).acts k) v (padd v (c.acts k).site.frameSize.toNat) := by
  have hacts : (setupFrameBounds c k).acts k = { c.acts k with
      cfa := padd (c.regops.sp (c.regops.setSp (c.acts k).regs v)) (c.acts k).site.frameSize.toNat,
      regs := c.regops.setupFbp (c.regops.setSp (c.acts k).regs v)
        (padd (c.regops.sp (c.regops.setSp (c.acts k).regs v)) (c.acts k).site.frameSize.toNat) } := by
    unfold setupFrameBounds calculateCfa
    simp [hv]
  have hsp : c.regops.sp (c.regops.setSp (c.acts k).regs v) = v := sp_setSp _ _ hlt
  rw [hsp] at hacts
  rw [hacts]
  refine ⟨rfl, ?_, ?_⟩
  · refine (rget_rset_disj _ ?_).trans hsp
    exact reg_disj (reg_sp _) (reg_fbp _) (by cases c.handle.arch <;> decide)
  · exact rget_rset_same _ _ (padd_lt _ _)

/-- The bounds are set up in the SP and the FBP. -/
theorem setupFrameBounds_reg (c : Ctx) (k : Nat) {r : UInt16} {off : Nat} (hr : c.regops.reg r = .ok off)
    (hsp : r ≠ spReg c.handle.arch) (hfbp : r ≠ fbpReg c.handle.arch) :
    rget ((setupFrameBounds c k).acts k).regs off = rget (c.acts k).regs off := by
  unfold setupFrameBounds
  simp only [Ctx.modAct_same]
  refine (rget_rset_disj _ (reg_disj hr (reg_fbp _) hfbp)).trans ?_
  exact rget_rset_disj _ (reg_disj hr (reg_sp _) hsp)

/-- A frame popped with its bounds. -/
theorem popped_bounds (mem : Mem) (c : Ctx) (hlt : c.cur.cfa < 18446744073709551616) :
    Bounds c.handle.arch ((popped mem c true).acts (c.act + 1)) c.cur.cfa
      (padd c.cur.cfa (c.acts (c.act + 1)).site.frameSize.toNat) := by
  have hcfa : ((reloaded mem c).acts (c.act + 1 - 1)).cfa = c.cur.cfa := by
    unfold reloaded
    rw [Nat.add_sub_cancel, Ctx.modAct_ne _ _ _ (by omega)]
    rfl
  have h := setupFrameBounds_bounds (reloaded mem c) (c.act + 1) hcfa hlt
  have hsite : ((reloaded mem c).acts (c.act + 1)).site = (c.acts (c.act + 1)).site := by
    unfold reloaded
    rw [Ctx.modAct_same]
  rw [hsite] at h
  exact h

/-- The other registers of a popped frame are reloaded. -/
theorem popped_reg (mem : Mem) (c : Ctx) {r : UInt16} {off : Nat} (hr : c.regops.reg r = .ok off)
    (hsp : r ≠ spReg c.handle.arch) (hfbp : r ≠ fbpReg c.handle.arch) :
    rget ((popped mem c true).acts (c.act + 1)).regs off =
      rget (reload mem c.handle.arch (c.regops.fbp c.cur.regs) (unwindRecords c.handle c.cur.site) c.cur.regs) off := by
  refine (setupFrameBounds_reg (reloaded mem c) (c.act + 1) hr hsp hfbp).trans ?_
  unfold reloaded
  rw [Ctx.modAct_same]
  exact rget_setPcFromRa hr _

/-! ## Function entry -/

/-- The context after `pop_frame_funcentry`. -/
def entered (mem : Mem) (c : Ctx) : Ctx := enterCaller mem (nextAct c) (c.act + 1)

theorem popFrameFuncentry_ok_iff {mem : Mem} {c c' : Ctx} :
    popFrameFuncentry mem c = .ok c' ↔ c.act + 1 < maxFrames ∧ c' = entered mem c := by
  show (setupRegset c (c.act + 1) >>= _) = _ ↔ _
  by_cases hn : c.act + 1 < maxFrames
  · have hr : setupRegset c (c.act + 1) = .ok (c.modAct (c.act + 1) fun x => { x with regs := c.cur.regs }) := if_pos hn
    rw [hr]
    show Except.ok (entered mem c) = _ ↔ _
    constructor
    · intro h
      exact ⟨hn, (Except.ok.inj h).symm⟩
    · intro h
      rw [h.2]
  · have hr : setupRegset c (c.act + 1) = .error .outOfBounds := if_neg hn
    rw [hr]
    constructor
    · intro h
      cases h
    · intro h
      exact absurd h.1 hn

section Entered
variable (mem : Mem) (c : Ctx)

@[simp] theorem entered_handle : (entered mem c).handle = c.handle := by
  simp [entered, enterCaller, nextAct, setupCalleeSavedBits, setupFrameBounds]
@[simp] theorem entered_act : (entered mem c).act = c.act + 1 := by
  simp [entered, enterCaller, nextAct, setupCalleeSavedBits, setupFrameBounds]
@[simp] theorem entered_pool : (entered mem c).pool = c.pool := by
  simp [entered, enterCaller, nextAct, setupCalleeSavedBits, setupFrameBounds]
@[simp] theorem entered_stackPointers : (entered mem c).stackPointers = c.stackPointers := by
  simp [entered, enterCaller, nextAct, setupCalleeSavedBits, setupFrameBounds]

theorem nextAct_acts_ne {j : Nat} (h : j ≠ c.act + 1) : (nextAct c).acts j = c.acts j := by
  unfold nextAct setupCalleeSavedBits
  rw [Ctx.modAct_ne _ _ _ h, Ctx.modAct_ne _ _ _ h]

/-- The caller's frame before the callee's FBP is set. -/
def enteredBounds : Ctx := setupFrameBounds ((nextAct c).modAct (c.act + 1) fun x =>
  { x with regs := c.regops.setPc x.regs (entryRa mem c.regops c.cur.regs) }) (c.act + 1)

theorem entered_acts : (entered mem c).acts = Function.update (enteredBounds mem c).acts c.act
    { (enteredBounds mem c).acts c.act with
      regs := c.regops.setFbp ((enteredBounds mem c).acts c.act).regs (c.regops.fbp ((enteredBounds mem c).acts (c.act + 1)).regs) } := by
  have hcur : (nextAct c).cur = c.cur := nextAct_cur c
  have hops : (nextAct c).regops = c.regops := by simp [nextAct, setupCalleeSavedBits]
  unfold entered enterCaller enteredBounds
  rw [hcur, hops]
  simp [Ctx.modAct, setupFrameBounds, Ctx.regops, nextAct, setupCalleeSavedBits]

theorem enteredBounds_cur : (enteredBounds mem c).acts c.act = c.cur := by
  unfold enteredBounds
  rw [setupFrameBounds_acts_ne _ (by omega), Ctx.modAct_ne _ _ _ (by omega)]
  exact nextAct_cur c

theorem enteredBounds_next (hlt : c.cur.cfa < 18446744073709551616) :
    Bounds c.handle.arch ((enteredBounds mem c).acts (c.act + 1)) c.cur.cfa
      (padd c.cur.cfa (c.acts (c.act + 1)).site.frameSize.toNat) := by
  unfold enteredBounds
  have hcfa : (((nextAct c).modAct (c.act + 1) fun x =>
      { x with regs := c.regops.setPc x.regs (entryRa mem c.regops c.cur.regs) }).acts (c.act + 1 - 1)).cfa = c.cur.cfa := by
    rw [Nat.add_sub_cancel, Ctx.modAct_ne _ _ _ (by omega), nextAct_cur]
  have h := setupFrameBounds_bounds _ (c.act + 1) hcfa hlt
  have hsite : ((nextAct c).acts (c.act + 1)).site = (c.acts (c.act + 1)).site := by
    simp [nextAct, setupCalleeSavedBits]
  rw [Ctx.modAct_same] at h
  simp only [hsite] at h
  have harch : ((nextAct c).modAct (c.act + 1) fun x =>
      { x with regs := c.regops.setPc x.regs (entryRa mem c.regops c.cur.regs) }).handle.arch = c.handle.arch := by
    simp [nextAct, setupCalleeSavedBits]
  rwa [harch] at h

/-- The function being entered gets its caller's FBP. -/
theorem entered_cur (hlt : c.cur.cfa < 18446744073709551616) :
    let fbp := padd (padd c.cur.cfa (c.acts (c.act + 1)).site.frameSize.toNat) (-0x10)
    (entered mem c).acts c.act = { c.cur with regs := c.regops.setFbp c.cur.regs fbp } := by
  intro fbp
  have hfbp : c.regops.fbp ((enteredBounds mem c).acts (c.act + 1)).regs = _ := (enteredBounds_next mem c hlt).fbp
  rw [entered_acts, Function.update_self, enteredBounds_cur, hfbp]

theorem entered_next (hlt : c.cur.cfa < 18446744073709551616) :
    Bounds c.handle.arch ((entered mem c).acts (c.act + 1)) c.cur.cfa
      (padd c.cur.cfa (c.acts (c.act + 1)).site.frameSize.toNat) := by
  rw [entered_acts, Function.update_of_ne (by omega)]
  exact enteredBounds_next mem c hlt

/-- The caller's other registers are those of the function being entered. -/
theorem entered_reg {r : UInt16} {off : Nat} (hr : c.regops.reg r = .ok off) (hsp : r ≠ spReg c.handle.arch)
    (hfbp : r ≠ fbpReg c.handle.arch) (hra : r ≠ raReg c.handle.arch) :
    rget ((entered mem c).acts (c.act + 1)).regs off = rget c.cur.regs off := by
  rw [entered_acts, Function.update_of_ne (by omega)]
  have hhandle : (nextAct c).handle = c.handle := by simp [nextAct, setupCalleeSavedBits]
  have hregs : ((nextAct c).acts (c.act + 1)).regs = c.cur.regs := by simp [nextAct, setupCalleeSavedBits]
  unfold enteredBounds
  refine (setupFrameBounds_reg _ (c.act + 1) (r := r) ?_ ?_ ?_).trans ?_
  · unfold Ctx.regops
    rw [Ctx.modAct_handle, hhandle]
    exact hr
  · rw [Ctx.modAct_handle, hhandle]
    exact hsp
  · rw [Ctx.modAct_handle, hhandle]
    exact hfbp
  · rw [Ctx.modAct_same, hregs]
    exact rget_rset_disj _ (pc_disj hr hra)

theorem entered_site (k : Nat) : ((entered mem c).acts k).site = (c.acts k).site := by
  rw [entered_acts]
  by_cases hk : k = c.act
  · subst hk
    rw [Function.update_self, enteredBounds_cur]
    rfl
  · rw [Function.update_of_ne hk]
    unfold enteredBounds
    by_cases hk' : k = c.act + 1
    · subst hk'
      rw [setupFrameBounds_site, Ctx.modAct_same]
      simp [nextAct, setupCalleeSavedBits]
    · rw [setupFrameBounds_acts_ne _ hk', Ctx.modAct_ne _ _ _ hk', nextAct_acts_ne c hk']

theorem entered_bits : ((entered mem c).acts (c.act + 1)).calleeSaved.bits = (c.act + 1) * 16 := by
  have h : bitmapSize c.regops.numRegs = 16 := bitmapSize_numRegs c.handle.arch
  rw [entered_acts, Function.update_of_ne (by omega)]
  unfold enteredBounds
  rw [setupFrameBounds_calleeSaved, Ctx.modAct_same]
  simp [nextAct, setupCalleeSavedBits, h]

end Entered

end Popcorn.Runtime
