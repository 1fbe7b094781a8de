/-
  Popcorn.Runtime.Preserve — a rewrite preserves the call chain and the live values.

  The result of a rewrite is read by virtual unwinding, as the destination will run it: the
  first step is that out of a function that has not set up its frame (`ventry`), the others
  go by the destination's call sites and unwind records. `DestAt` is what holds of each
  frame so reached: a callee-saved register has the bytes at the place the rewrite puts its
  values to, so a live value is where its location record says.

  Proved:
  - `Rewriting.unwinds`: unwinding the result visits the frames the rewrite has laid out.
  - `rewrite_preserves_iff`: it visits the source's call sites in their order and finds every
    value that does not point into the source stack, exactly when no value's place is hidden
    by a stale bit.
-/

import Popcorn.Runtime.RewriteProofs

namespace Popcorn.Runtime

open Popcorn.Lib Popcorn.Metadata

/-! ## Unwinding the result -/

/-- The registers of the caller of a function that has not set up its frame. -/
def ventryRegs (mem : Mem) (h : Handle) (regs : RegSet) : RegSet :=
  let o := getRegops h.arch
  o.setSp (o.setPc regs (entryRa mem o regs)) (padd (o.sp regs) (getProperties h.arch).cfaOffsetFuncentry)

def ventry (mem : Mem) (h : Handle) (regs : RegSet) : Option VFrame := vframe h (ventryRegs mem h regs)

/-- The frames `df 1`, ..., `df (n - 1)` of a stack by virtual unwinding from the register set of
    a function that has not set up its frame. -/
structure Unwinds (mem : Mem) (h : Handle) (regs : RegSet) (n : Nat) (df : Nat → VFrame) : Prop where
  entry : ventry mem h regs = some (df 1)
  next : ∀ k, 0 < k → k + 1 < n → vnext mem h (df k) = some (df (k + 1))

/-- Virtual unwinding goes one way. -/
theorem Unwinds.unique {mem : Mem} {h : Handle} {regs : RegSet} {n : Nat} {df df' : Nat → VFrame} (hd : Unwinds mem h regs n df)
    (hd' : Unwinds mem h regs n df') : ∀ k, 0 < k → k < n → df k = df' k := by
  intro k
  induction k with
  | zero => intro h0; omega
  | succ k ih =>
    intro _ hk
    by_cases h0 : k = 0
    · subst h0
      exact Option.some.inj (hd.entry.symm.trans hd'.entry)
    · have hn := hd.next k (by omega) hk
      rw [ih (by omega) (by omega)] at hn
      exact Option.some.inj (hn.symm.trans (hd'.next k (by omega) hk))

/-- The destination's frame `k` as virtual unwinding finds it in the state `st`. -/
structure DestAt (x : RewriteArgs) (n : Nat) (ds : Nat → CallSite) (st : Dst) (k : Nat) (f : VFrame) : Prop where
  site : f.site = ds k
  cfa : f.cfa = destCfa x ds n k
  sp : (getRegops x.handleDest.arch).sp f.regs = destCfa x ds n (k - 1)
  fbp : (getRegops x.handleDest.arch).fbp f.regs = destFbp x ds n k
  saved : ∀ r, Ordinary x r → load f.regs (regOff x.handleDest.arch r) 8 = st.read (savedPlace x ds n r k) 8

section
variable {mem : Mem} {x : RewriteArgs} {n : Nat} {sf : Nat → VFrame} {ds : Nat → CallSite} {gs : Nat → List (Group × Group)}
  {st : Dst} {m k : Nat} {f : VFrame}

theorem vframe_addr {h : Handle} {s : CallSite} (hs : getSiteByAddr h s.addr = some s) {regs : RegSet}
    (hpc : (getRegops h.arch).pc regs = s.addr.toNat) :
    vframe h regs = some ⟨s, regs, padd ((getRegops h.arch).sp regs) s.frameSize.toNat⟩ := by
  unfold vframe
  rw [hpc, UInt64.ofNat_toNat, hs]
  rfl

theorem ventryRegs_regs {r : UInt16} {o : Nat} (m0 : Mem) {regs : RegSet} (hr : (getRegops x.handleDest.arch).reg r = .ok o)
    (hra : r ≠ raReg x.handleDest.arch) (hsp : r ≠ spReg x.handleDest.arch) :
    load (ventryRegs m0 x.handleDest regs) o 8 = load regs o 8 := load_setSpecial hr hra hsp _ _

theorem savedPlace_one (r : UInt16) : savedPlace x ds n r 1 = .reg 0 (regOff x.handleDest.arch r) := by
  unfold savedPlace
  rw [destRecs_zero]
  rfl

/-- The first step of the unwinding. -/
theorem Slots.ventry (hs : Slots x n ds m st) (haddr : getSiteByAddr x.handleDest (ds 1).addr = some (ds 1)) :
    ∃ f, ventry st.mem x.handleDest (st.ctx.acts 0).regs = some f ∧ DestAt x n ds st 1 f := by
  have hsp : (getRegops x.handleDest.arch).sp (ventryRegs st.mem x.handleDest (st.ctx.acts 0).regs) = destCfa x ds n 0 := by
    unfold ventryRegs
    dsimp only
    rw [sp_setSp _ _ (padd_lt _ _), hs.entrySp]
    rfl
  have hpc : (getRegops x.handleDest.arch).pc (ventryRegs st.mem x.handleDest (st.ctx.acts 0).regs) = (ds 1).addr.toNat := by
    unfold ventryRegs
    dsimp only
    rw [pc_setSp, hs.entryRa]
    exact rget_rset_same _ _ (ds 1).addr.toNat_lt
  refine ⟨_, vframe_addr haddr hpc, rfl, ?_, hsp, ?_, ?_⟩
  · dsimp only
    rw [hsp]
    rfl
  · refine (congrArg leVal (ventryRegs_regs st.mem (reg_fbp _) (fbpReg_ne_raReg _) ?_)).trans hs.entryFbp
    cases x.handleDest.arch <;> decide
  · intro r ho
    rw [savedPlace_one]
    exact ventryRegs_regs st.mem (calleeSaved_cases ho.calleeSaved).1 ho.notRa ho.ne_spReg

/-! ## The step to the caller -/

/-- A frame lists a register once. -/
theorem FrameLayout.rec_eq (hl : FrameLayout x ds n k) {l l' : UnwindLoc} (h : l ∈ destRecs x ds k) (h' : l' ∈ destRecs x ds k)
    (hr : l.reg = l'.reg) : l = l' := List.inj_on_of_nodup_map hl.nodup h h' hr

theorem savedPlace_listed (hl : FrameLayout x ds n k) {l : UnwindLoc} (h : l ∈ destRecs x ds k) :
    savedPlace x ds n l.reg (k + 1) = .mem (saveSlot x ds n k l) := by
  unfold savedPlace
  cases hfind : (destRecs x ds k).find? (·.reg == l.reg) with
  | none =>
    have := List.find?_eq_none.mp hfind l h
    simp at this
  | some l' =>
    have hr : l'.reg = l.reg := by simpa using List.find?_some hfind
    rw [hl.rec_eq (List.mem_of_find?_eq_some hfind) h hr]

theorem savedPlace_unlisted {r : UInt16} (h : ∀ l ∈ destRecs x ds k, l.reg ≠ r) : savedPlace x ds n r (k + 1) = savedPlace x ds n r k := by
  rw [savedPlace]
  have hfind : (destRecs x ds k).find? (·.reg == r) = none := by
    rw [List.find?_eq_none]
    simpa using h
  rw [hfind]

section Step
variable (hl : StackLayout x ds n) (hs : Slots x n ds (n - 1) st) (h0 : 0 < k) (hk : k + 1 < n) (hf : DestAt x n ds st k f)
  (hrecs : ∀ l ∈ destRecs x ds k, isCalleeSaved x.handleDest.arch l.reg = true)

include hl hs h0 hk hf hrecs in
/-- The FBP and the return address are reloaded from the frame's slots. -/
theorem DestAt.reload_slots :
    rget (reload st.mem x.handleDest.arch ((getRegops x.handleDest.arch).fbp f.regs) (destRecs x ds k) f.regs)
        (regOff x.handleDest.arch (fbpReg x.handleDest.arch)) = destFbp x ds n (k + 1) ∧
      rget (reload st.mem x.handleDest.arch ((getRegops x.handleDest.arch).fbp f.regs) (destRecs x ds k) f.regs)
        (regOff x.handleDest.arch (raReg x.handleDest.arch)) = (ds (k + 1)).addr.toNat := by
  have hlay := hl.frames k h0 hk
  have hroom := destCfa_room hl.fits h0 (by omega) hlay
  have hlt := destCfa_lt x ds n k
  have hfbp : destFbp x ds n k = destCfa x ds n k - 16 := padd_eq (by omega) (by omega)
  rw [hf.fbp, hfbp]
  constructor
  · apply rget_reload hrecs (fbpReg_calleeSaved _)
    · intro l hrec hr
      rw [hlay.rec_eq hrec hlay.fbp hr]
      rw [padd_eq (b := destCfa x ds n k - 16) (by omega) (by simp)]
      exact hs.fbp k h0 (by omega)
    · intro hnone
      exact absurd rfl (hnone _ hlay.fbp)
  · apply rget_reload hrecs (raReg_calleeSaved _)
    · intro l hrec hr
      rw [hlay.rec_eq hrec hlay.ra hr]
      rw [padd_eq (b := destCfa x ds n k - 8) (by omega) (by simp; omega)]
      exact hs.ra k h0 (by omega)
    · intro hnone
      exact absurd rfl (hnone _ hlay.ra)

include hl h0 hk hf hrecs in
/-- An ordinary register is reloaded from the place of its value in the caller. -/
theorem DestAt.reload_saved {r : UInt16} (ho : Ordinary x r) :
    rget (reload st.mem x.handleDest.arch ((getRegops x.handleDest.arch).fbp f.regs) (destRecs x ds k) f.regs)
      (regOff x.handleDest.arch r) = leVal (st.read (savedPlace x ds n r (k + 1)) 8) := by
  apply rget_reload hrecs ho.calleeSaved
  · intro l hrec hr
    subst hr
    rw [hf.fbp, savedPlace_listed (hl.frames k h0 hk) hrec]
    rfl
  · intro hnone
    rw [savedPlace_unlisted hnone]
    exact congrArg leVal (hf.saved r ho)

include hl hs h0 hk hf hrecs in
/-- The step from a frame is to its caller. -/
theorem DestAt.vnext (haddr : getSiteByAddr x.handleDest (ds (k + 1)).addr = some (ds (k + 1))) :
    ∃ f', vnext st.mem x.handleDest f = some f' ∧ DestAt x n ds st (k + 1) f' := by
  obtain ⟨hfbp, hra⟩ := hf.reload_slots hl hs h0 hk hrecs
  have hsaved := fun r (ho : Ordinary x r) => hf.reload_saved hl h0 hk hrecs ho
  have hunwind : unwindRecords x.handleDest f.site = destRecs x ds k := by rw [hf.site, destRecs_pos h0]
  have hspfbp : fbpReg x.handleDest.arch ≠ spReg x.handleDest.arch := by cases x.handleDest.arch <;> decide
  have hsp : (getRegops x.handleDest.arch).sp (vcaller st.mem x.handleDest f) = destCfa x ds n k := by
    unfold vcaller
    rw [hf.cfa, sp_setSp _ _ (destCfa_lt x ds n k)]
  have hpc : (getRegops x.handleDest.arch).pc (vcaller st.mem x.handleDest f) = (ds (k + 1)).addr.toNat := by
    unfold vcaller callerRegs
    rw [pc_setSp, pc_setPcFromRa, hunwind]
    exact hra
  refine ⟨_, vframe_addr haddr hpc, rfl, ?_, hsp, ?_, ?_⟩
  · dsimp only
    rw [hsp]
    rfl
  · rw [fbp_eq_rget]
    unfold vcaller callerRegs
    dsimp only
    have hr := (calleeSaved_cases (fbpReg_calleeSaved x.handleDest.arch)).1
    rw [rget_setSp hr hspfbp, rget_setPcFromRa hr, hunwind]
    exact hfbp
  · intro r ho
    have hr := (calleeSaved_cases ho.calleeSaved).1
    apply leVal_inj
    · rw [load_length, Dst.read_length]
    · show rget (vcaller st.mem x.handleDest f) _ = _
      unfold vcaller callerRegs
      rw [rget_setSp hr ho.ne_spReg, rget_setPcFromRa hr, hunwind]
      exact hsaved r ho

end Step

/-! ## The frames of the result -/

/-- The destination finds its call sites by their return addresses. -/
def AddrsFound (x : RewriteArgs) (n : Nat) (ds : Nat → CallSite) : Prop :=
  ∀ k, 0 < k → k < n → getSiteByAddr x.handleDest (ds k).addr = some (ds k)

/-- Unwinding the result of a rewrite visits the frames it has laid out. -/
theorem Rewriting.unwinds (hl : StackLayout x ds n) (hn : 2 ≤ n) (haddr : AddrsFound x n ds)
    (hr : Rewriting mem x n sf ds gs (n - 1) st) :
    ∃ df, Unwinds st.mem x.handleDest (st.ctx.acts 0).regs n df ∧ ∀ k, 0 < k → k < n → DestAt x n ds st k (df k) := by
  obtain ⟨f1, hf1, h1⟩ := hr.slots.ventry (haddr 1 (by omega) (by omega))
  have hstep : ∀ k, k + 1 < n → ∃ f, vchain st.mem x.handleDest f1 k = some f ∧ DestAt x n ds st (k + 1) f := by
    intro k
    induction k with
    | zero => intro _; exact ⟨f1, rfl, h1⟩
    | succ k ih =>
      intro hk
      obtain ⟨f, hf, hat⟩ := ih (by omega)
      obtain ⟨f', hf', hat'⟩ := hat.vnext hl hr.slots (by omega) hk (hr.saved (k + 1) (by omega) (by omega)) (haddr _ (by omega) (by omega))
      refine ⟨f', ?_, hat'⟩
      unfold vchain
      rw [hf]
      exact hf'
  have hget : ∀ k, k + 1 < n → vchain st.mem x.handleDest f1 k = some ((vchain st.mem x.handleDest f1 k).getD f1) := by
    intro k hk
    obtain ⟨f, hf, -⟩ := hstep k hk
    rw [hf]
    rfl
  refine ⟨fun k => (vchain st.mem x.handleDest f1 (k - 1)).getD f1, ⟨hf1, ?_⟩, ?_⟩
  · intro k h0 hk
    obtain ⟨j, rfl⟩ : ∃ j, k = j + 1 := ⟨k - 1, by omega⟩
    rw [Nat.add_sub_cancel, Nat.add_sub_cancel, ← hget (j + 1) hk]
    show vnext _ _ _ = (vchain st.mem x.handleDest f1 j).bind (vnext st.mem x.handleDest)
    rw [hget j (by omega)]
    rfl
  · intro k h0 hk
    obtain ⟨j, rfl⟩ : ∃ j, k = j + 1 := ⟨k - 1, by omega⟩
    obtain ⟨f, hf, hat⟩ := hstep j hk
    show DestAt x n ds st (j + 1) ((vchain st.mem x.handleDest f1 j).getD f1)
    rw [hf]
    exact hat

theorem Dst.read_take (st : Dst) (l : Loc) {len len' : Nat} (h : len ≤ len') : (st.read l len').take len = st.read l len := by
  cases l <;> exact load_take _ _ h

/-- A destination record in memory has its base register in the frame's bounds. -/
theorem DestAt.base (hf : DestAt x n ds st k f) {r : UInt16} (hr : r = spReg x.handleDest.arch ∨ r = fbpReg x.handleDest.arch) :
    ∃ off, (getRegops x.handleDest.arch).reg r = .ok off ∧ rget f.regs off = baseOf x ds n k r := by
  unfold baseOf
  by_cases hsp : r = spReg x.handleDest.arch
  · rw [if_pos hsp, hsp]
    exact ⟨_, reg_sp _, hf.sp⟩
  · rw [if_neg hsp, hr.resolve_left hsp]
    exact ⟨_, reg_fbp _, hf.fbp⟩

/-- What a location record reads in the frame is what stands at its place. -/
theorem DestAt.vread (hf : DestAt x n ds st k f) {w : LiveValue} (haddr : Addressable x w.type w.regnum w.valSize) {tg : Target}
    (htg : valTarget x ds n k w = some tg) (hfine : Fine x ds n k tg) {len : Nat} (hlen : len ≤ tg.len) :
    vread st.mem x.handleDest f w len = some (st.read (place x ds n k tg) len) := by
  unfold valTarget target at htg
  unfold Addressable at haddr
  unfold Popcorn.Runtime.vread
  cases ht : LocationType.ofCode w.type with
  | none =>
    rw [ht] at htg
    cases htg
  | some t =>
    rw [ht] at htg haddr
    cases t with
    | register =>
      cases htg
      rw [(calleeSaved_cases hfine.1.calleeSaved).1]
      refine congrArg some ?_
      show load f.regs _ len = st.read (savedPlace x ds n w.regnum k) len
      rw [← load_take f.regs _ hlen, ← Dst.read_take st _ hlen]
      exact congrArg (List.take len) (hf.saved _ hfine.1)
    | direct =>
      cases htg
      obtain ⟨off, hoff, hbase⟩ := hf.base haddr
      rw [hoff]
      dsimp only
      rw [hbase]
      rfl
    | indirect =>
      cases htg
      obtain ⟨off, hoff, hbase⟩ := hf.base haddr
      rw [hoff]
      dsimp only
      rw [hbase]
      rfl
    | constant => cases htg
    | constIdx => cases htg

theorem Located.valTarget (x : RewriteArgs) (ds : Nat → CallSite) (n k : Nat) {o : RegOps} {w : LiveValue}
    (h : Located o w.type w.regnum) : ∃ tg, valTarget x ds n k w = some tg := by
  unfold Popcorn.Runtime.valTarget target
  obtain ⟨ht | ht | ht, -⟩ := h
  · rw [ht]
    exact ⟨_, rfl⟩
  · rw [ht]
    exact ⟨_, rfl⟩
  · rw [ht]
    exact ⟨_, rfl⟩

theorem valTarget_reg {w : LiveValue} {r : UInt16} (h : valTarget x ds n k w = some (.reg r)) :
    LocationType.ofCode w.type = some .register ∧ w.regnum = r := by
  unfold valTarget target at h
  cases ht : LocationType.ofCode w.type with
  | none =>
    rw [ht] at h
    cases h
  | some t =>
    rw [ht] at h
    cases t with
    | register =>
      cases h
      exact ⟨rfl, rfl⟩
    | direct => cases h
    | indirect => cases h
    | constant => cases h
    | constIdx => cases h

/-! ## Call chain and live values -/

/-- The result of a rewrite has the source's call chain and live values: those held in a
    register or in memory that do not point into the source stack. -/
def Preserved (mem : Mem) (x : RewriteArgs) (n : Nat) (sf : Nat → VFrame) (gs : Nat → List (Group × Group)) (out : Rewritten) : Prop :=
  ∃ df, Unwinds out.mem x.handleDest out.regs n df ∧ (∀ k, 0 < k → k < n → (df k).site.id = (sf k).site.id) ∧
    ∀ k, 0 < k → k + 1 < n → ∀ c ∈ cellsOf (gs k), Located (getRegops x.handleDest.arch) c.2.type c.2.regnum →
      ∀ bs, vread mem x.handleSrc (sf k) c.1 c.1.valSize = some bs →
        (∀ addr, VPoints mem x.handleSrc (sf k) c.1 addr → ¬ IntoStack x sf addr) →
          vread out.mem x.handleDest (df k) c.2 c.2.valSize = some bs

/-- No such value is kept in a register whose place `callee_saved_loc` misses, at a stale bit of
    an inner frame, unless the value was there before. -/
def NothingMissed (mem : Mem) (x : RewriteArgs) (n : Nat) (sf : Nat → VFrame) (ds : Nat → CallSite)
    (gs : Nat → List (Group × Group)) : Prop :=
  ∀ k, 0 < k → k + 1 < n → ∀ c ∈ cellsOf (gs k), LocationType.ofCode c.2.type = some .register →
    ∀ bs, vread mem x.handleSrc (sf k) c.1 c.1.valSize = some bs →
      (∀ addr, VPoints mem x.handleSrc (sf k) c.1 addr → ¬ IntoStack x sf addr) →
        NoStaleBit x ds n k c.2.regnum ∨ (before mem x (savedPlace x ds n c.2.regnum k) 8).take c.1.valSize = bs

/-- The values have the same size on both sides. -/
def SameSizes (n : Nat) (gs : Nat → List (Group × Group)) : Prop :=
  ∀ k, 0 < k → k + 1 < n → ∀ c ∈ cellsOf (gs k), c.2.valSize = c.1.valSize

theorem SameSizes.not_skip {c : LiveValue × LiveValue} (h : c.2.valSize = c.1.valSize) : skipVaList c.1 c.2 = false := by
  rw [Bool.eq_false_iff]
  intro hskip
  simp only [skipVaList, Bool.or_eq_true, Bool.and_eq_true, beq_iff_eq] at hskip
  omega

theorem vread_length {m : Mem} {h : Handle} {v : LiveValue} {len : Nat} {bs : List UInt8} (hv : vread m h f v len = some bs) :
    bs.length = len := by
  unfold vread at hv
  split at hv
  · cases hv
    exact load_length _ _ _
  · cases hv
    exact load_length _ _ _
  · cases hv
    exact load_length _ _ _
  · cases hv

section Result
variable (hl : StackLayout x ds n) (hm : Matched x n sf ds gs) (hr : Rewriting mem x n sf ds gs (n - 1) st) {i : Nat} {v w : LiveValue}
  (h0 : 0 < k) (hk : k + 1 < n) (hc : (cellsOf (gs k))[i]? = some (v, w)) {tg : Target} (htg : valTarget x ds n k w = some tg)

include hr h0 hk hc in
/-- All the cells are done. -/
theorem Rewriting.cell : CellKept mem x n sf ds gs st.ctx.stackPointers st k v w :=
  hr.kept.cells k i v w ⟨h0, .inl (by omega)⟩ hc

include hr h0 hk hc htg in
/-- A value whose place is found is there. -/
theorem Rewriting.value_found (hb : ¬ Blocked x ds n k tg) (hskip : skipVaList v w = false) {bs : List UInt8}
    (hbs : vread mem x.handleSrc (sf k) v w.valSize = some bs)
    (hout : ∀ addr, VPoints mem x.handleSrc (sf k) v addr → ¬ IntoStack x sf addr) : st.read (place x ds n k tg) w.valSize = bs := by
  have := ((hr.cell h0 hk hc).value hskip bs hbs hout tg htg hb).2
  rwa [vread_length hbs] at this

include hr h0 hk hc htg in
/-- A value whose place is missed leaves what was there. -/
theorem Rewriting.value_missed (hb : Blocked x ds n k tg) {len : Nat} (hlen : len ≤ tg.len) :
    st.read (place x ds n k tg) len = (before mem x (place x ds n k tg) tg.len).take len := by
  rw [← hr.kept.lost k i v w h0 hk hc tg htg hb, Dst.read_take st _ hlen]

end Result

/-- The result of a rewrite is preserved exactly when nothing is missed. -/
theorem Rewriting.preserved_iff (hl : StackLayout x ds n) (hm : Matched x n sf ds gs) (hsize : SameSizes n gs)
    (haddr : AddrsFound x n ds) (hs : SourceStack mem x n sf ds) (hr : Rewriting mem x n sf ds gs (n - 1) st) :
    Preserved mem x n sf gs ⟨(st.ctx.acts 0).regs, st.mem, st.ctx⟩ ↔ NothingMissed mem x n sf ds gs := by
  obtain ⟨df, hdf, hat⟩ := hr.unwinds hl hs.two haddr
  constructor
  · rintro ⟨df', hdf', -, hval⟩ k h0 hk c hc hreg bs hbs hout
    obtain ⟨i, hi⟩ := List.mem_iff_getElem?.mp hc
    obtain ⟨haddr', hfine⟩ := hm.cell_fine hl.bodies h0 hk hi
    have htg : valTarget x ds n k c.2 = some (.reg c.2.regnum) := by
      unfold valTarget target
      rw [hreg]
    have hreg' := (calleeSaved_cases (hfine _ htg).1.calleeSaved).1
    have hread := hval k h0 hk c hc ⟨.inl hreg, _, hreg'⟩ bs hbs hout
    have hlen := haddr'.len_le htg
    rw [← hdf.unique hdf' k h0 (by omega), (hat k h0 (by omega)).vread haddr' htg (hfine _ htg) hlen] at hread
    by_cases hns : NoStaleBit x ds n k c.2.regnum
    · exact .inl hns
    · refine .inr ?_
      rw [← Option.some.inj hread, hr.value_missed h0 hk hi htg hns hlen, hsize k h0 hk c hc]
      rfl
  · intro hmiss
    refine ⟨df, hdf, ?_, ?_⟩
    · intro k h0 hk
      rw [(hat k h0 hk).site]
      exact (getSiteById_mem (hs.visits.dest k h0 hk)).2
    · intro k h0 hk c hc hloc bs hbs hout
      obtain ⟨i, hi⟩ := List.mem_iff_getElem?.mp hc
      obtain ⟨haddr', hfine⟩ := hm.cell_fine hl.bodies h0 hk hi
      obtain ⟨tg, htg⟩ := Located.valTarget x ds n k hloc
      have hlen := haddr'.len_le htg
      have hcsize := hsize k h0 hk c hc
      rw [(hat k h0 (by omega)).vread haddr' htg (hfine _ htg) hlen]
      refine congrArg some ?_
      by_cases hb : Blocked x ds n k tg
      · cases tg with
        | mem a len => exact hb.elim
        | reg r =>
          obtain ⟨hreg, rfl⟩ := valTarget_reg htg
          rw [hr.value_missed h0 hk hi htg hb hlen, hcsize]
          exact (hmiss k h0 hk c hc hreg bs hbs hout).resolve_left hb
      · exact hr.value_found h0 hk hi htg hb (SameSizes.not_skip hcsize) (by rw [hcsize]; exact hbs) hout

/-- A rewrite that returns 0 preserves the call chain and the live values exactly when no
    value is missed at a stale bit. The destination lists the same values as the source, frame
    by frame, in slots and callee-saved registers that are apart from each other. -/
theorem rewrite_preserves_iff (mem : Mem) (x : RewriteArgs) (n : Nat) (sf : Nat → VFrame) (ds : Nat → CallSite)
    (gs : Nat → List (Group × Group)) (hs : SourceStack mem x n sf ds) (hl : StackLayout x ds n) (hm : Matched x n sf ds gs)
    (hsize : SameSizes n gs) (haddr : AddrsFound x n ds) (out : Rewritten) (h : stRewriteStack mem x = .ok (some out)) :
    Preserved mem x n sf gs out ↔ NothingMissed mem x n sf ds gs := by
  obtain ⟨st, hr, rfl⟩ := stRewriteStack_rewriting hl hm hs h
  exact hr.preserved_iff hl hm hsize haddr hs

end

/-! ## A migration from x86-64 to aarch64 -/

/-- The call sites of two functions and of the start function they run under. -/
def demoSites (base : UInt64) (size1 size2 size3 : UInt32) : List CallSite :=
  [⟨1, base + 0x100, size1, 2, 0, 1, 0, 0, 0⟩, ⟨2, base + 0x200, size2, 3, 0, 2, 1, 0, 0⟩,
    ⟨uint64Max, base + 0x300, size3, 2, 0, 0, 3, 0, 0⟩]

/-- The call site the source is stopped at. -/
def demoStop : CallSite := ⟨10, 0x1000, 16, 2, 0, 0, 0, 0, 0⟩

/-- The outer function has an integer in a callee-saved register and an alloca, a `va_list` or
    an array of 16 bytes; the inner one has a pointer into it. -/
def demoPtr (fbp : UInt16) : LiveValue := ⟨false, false, true, false, 3, 8, fbp, -8, 0⟩
def demoInt (r : UInt16) : LiveValue := ⟨false, false, false, false, 1, 8, r, 0, 0⟩
def demoAlloca (fbp : UInt16) (offset : Int32) (size : UInt32) : LiveValue := ⟨false, true, true, false, 2, 8, fbp, offset, size⟩
def demoNone : LiveValue := ⟨false, false, false, false, 0, 0, 0, 0, 0⟩

def demoSrc (va : Bool) : Handle where
  arch := .x86_64
  unwindAddrs := [⟨0xF00, 2, 0⟩]
  unwindLocs := [⟨6, 0⟩, ⟨16, 8⟩, ⟨3, -8⟩]
  sitesId := [⟨1, 0x1100, 32, 2, 0, 1, 0, 0, 0⟩, ⟨2, 0x1200, 64, 3, 0, 2, 1, 0, 0⟩, demoStop, ⟨uint64Max, 0x1300, 16, 2, 0, 0, 3, 0, 0⟩]
  sitesAddr := demoStop :: demoSites 0x1000 32 64 16
  liveVals i := [demoPtr 6, demoInt 3, demoAlloca 6 (-40) (if va then 24 else 16)].getD i demoNone
  liveValsCount := 3
  archLiveVals := []
  sites_len := rfl

def demoDest (va : Bool) : Handle where
  arch := .aarch64
  unwindAddrs := []
  unwindLocs := [⟨29, 0⟩, ⟨30, 8⟩, ⟨19, -8⟩]
  sitesId := demoSites 0x5000 48 80 32
  sitesAddr := demoSites 0x5000 48 80 32
  liveVals i := [demoPtr 29, demoInt 19, demoAlloca 29 (-48) (if va then 32 else 16)].getD i demoNone
  liveValsCount := 3
  archLiveVals := []
  sites_len := rfl

/-- Saved FBPs, return addresses and the pointer. -/
def demoMem : Mem :=
  [(0x10000, 0x10020), (0x10008, 0x1100), (0x10018, 0x1003C), (0x10020, 0x10060), (0x10028, 0x1200), (0x10060, 0x10070),
    (0x10068, 0x1300)].foldl (fun m p => store m p.1 (leBytes 8 p.2)) fun _ => 0

def demoRegs : RegSet := rset (rset (rset (rset (fun _ => 0) 0 0x1000) 64 0x10000) 56 0x10000) 32 0x2A

/-- `dirty` is whether `malloc` returned ones in the destination's pool. -/
def demoArgs (va dirty : Bool) : RewriteArgs where
  handleSrc := demoSrc va
  regsetSrc := demoRegs
  spBaseSrc := 0x10080
  freshSrc := ⟨fun _ => ⟨emptyCallSite, 0, fun _ => 0, ⟨0, 0⟩⟩, fun _ => 0⟩
  handleDest := demoDest va
  spBaseDest := 0x40000
  freshDest := ⟨fun _ => ⟨emptyCallSite, 0, fun _ => 0, ⟨0, 0⟩⟩, fun _ => if dirty then uint64Max else 0⟩
  foundFixup _ := false

def demoFrame (va : Bool) : Nat → VFrame
  | 0 => ⟨demoStop, demoRegs, 0x10010⟩
  | k + 1 => (vnext demoMem (demoSrc va) (demoFrame va k)).getD ⟨emptyCallSite, demoRegs, 0⟩

def demoDs (k : Nat) : CallSite := (emptyCallSite :: demoSites 0x5000 48 80 32).getD k emptyCallSite

/-- The records of a value that has one. -/
def Group.single (v : LiveValue) (h : v.isDuplicate = false) : Group := ⟨v, [], h, fun _ hd => nomatch hd⟩

def demoGroups (va : Bool) : Nat → List (Group × Group)
  | 1 => [(.single (demoPtr 6) rfl, .single (demoPtr 29) rfl)]
  | 2 => [(.single (demoInt 3) rfl, .single (demoInt 19) rfl),
      (.single (demoAlloca 6 (-40) (if va then 24 else 16)) rfl, .single (demoAlloca 29 (-48) (if va then 32 else 16)) rfl)]
  | _ => []

theorem demoSourceStack (va dirty : Bool) : SourceStack demoMem (demoArgs va dirty) 4 (demoFrame va) demoDs where
  two := by decide
  first := by
    show vframe (demoSrc va) demoRegs = _
    have : (getSiteByAddr (demoSrc va) (UInt64.ofNat ((getRegops (demoSrc va).arch).pc demoRegs))) = some demoStop := by
      cases va <;> decide
    unfold vframe
    rw [this]
    have hsp : padd ((getRegops (demoSrc va).arch).sp demoRegs) demoStop.frameSize.toNat = 0x10010 := by cases va <;> decide
    simp only [Option.map_some, hsp]
    rfl
  visits := by
    constructor
    · intro k hk
      have hsome : (vnext demoMem (demoSrc va) (demoFrame va k)).isSome = true := by
        obtain rfl | rfl | rfl : k = 0 ∨ k = 1 ∨ k = 2 := by omega
        all_goals cases va <;> decide
      obtain ⟨f, hf⟩ := Option.isSome_iff_exists.mp hsome
      show vnext demoMem (demoSrc va) (demoFrame va k) = some ((vnext demoMem (demoSrc va) (demoFrame va k)).getD _)
      rw [hf]
      rfl
    · intro k h0 hk
      show getSiteById (demoDest va) (demoFrame va k).site.id = some (demoDs k)
      obtain rfl | rfl | rfl : k = 1 ∨ k = 2 ∨ k = 3 := by omega
      all_goals cases va <;> decide
  start := by cases va <;> decide
  inner := by
    intro k h0 hk
    obtain rfl | rfl : k = 1 ∨ k = 2 := by omega
    all_goals cases va <;> decide

theorem demoFrameLayout (va dirty : Bool) (k : Nat) (h0 : 0 < k) (hk : k + 1 < 4) : FrameLayout (demoArgs va dirty) demoDs 4 k := by
  have hkey : ∀ k, k = 1 ∨ k = 2 → ∀ va dirty,
      (∀ t' < (demoDs k).numLive.toNat, ∀ t < t', ∀ a ∈ valTarget (demoArgs va dirty) demoDs 4 k (destLive (demoArgs va dirty) demoDs k t),
        ∀ b ∈ valTarget (demoArgs va dirty) demoDs 4 k (destLive (demoArgs va dirty) demoDs k t'), a.Disj b) := by
    rintro k (rfl | rfl) va dirty
    all_goals cases va <;> cases dirty <;> decide
  refine ⟨⟨?_, ?_, ?_, ?_, ?_⟩, ?_, ?_, ?_, ?_, ?apart, ?_⟩
  case apart => exact fun t t' h h' => hkey k (by omega) va dirty t' h' t h
  all_goals
    obtain rfl | rfl : k = 1 ∨ k = 2 := by omega
    all_goals
      clear hkey h0 hk
      revert va dirty
      decide

theorem demoStackLayout (va dirty : Bool) : StackLayout (demoArgs va dirty) demoDs 4 where
  fits := by constructor <;> revert va dirty <;> decide
  frames := demoFrameLayout va dirty

/-- Records without duplicates, one after the other. -/
theorem GroupsAt.single {h : Handle} {i : Nat} {gs : List Group} (hr : ∀ t < (gs.flatMap Group.records).length,
    (gs.flatMap Group.records)[t]? = some (h.liveVals (i + t))) (hin : i + (gs.flatMap Group.records).length ≤ h.liveValsCount)
    (he : (h.liveVals (i + (gs.flatMap Group.records).length)).isDuplicate = false) : GroupsAt h i gs where
  records t v hv := by
    have := hr t (List.getElem?_eq_some_iff.mp hv).1
    exact Option.some.inj (this.symm.trans hv)
  inside := hin
  ends := he

theorem demoMatched (va dirty : Bool) : Matched (demoArgs va dirty) 4 (demoFrame va) demoDs (demoGroups va) where
  src k h0 hk := by
    obtain rfl | rfl : k = 1 ∨ k = 2 := by omega
    all_goals apply GroupsAt.single <;> clear h0 hk <;> revert va dirty <;> decide
  dest k h0 hk := by
    obtain rfl | rfl : k = 1 ∨ k = 2 := by omega
    all_goals apply GroupsAt.single <;> clear h0 hk <;> revert va dirty <;> decide
  numLive k h0 hk := by
    obtain rfl | rfl : k = 1 ∨ k = 2 := by omega
    all_goals cases va <;> rfl
  size k h0 hk := by
    obtain rfl | rfl : k = 1 ∨ k = 2 := by omega
    all_goals clear h0 hk; revert va; decide
  isPtr k h0 hk := by
    obtain rfl | rfl : k = 1 ∨ k = 2 := by omega
    all_goals clear h0 hk; revert va; decide
  isAlloca k h0 hk := by
    obtain rfl | rfl : k = 1 ∨ k = 2 := by omega
    all_goals clear h0 hk; revert va; decide
  alloca k h0 hk g hg ha := by
    obtain rfl | rfl : k = 1 ∨ k = 2 := by omega
    · obtain rfl := List.mem_singleton.mp hg
      cases ha
    · obtain rfl | hg' := List.mem_cons.mp hg
      · cases ha
      · obtain rfl := List.mem_singleton.mp hg'
        refine ⟨rfl, 0x10038, 0x3FFA0, ?_⟩
        clear h0 hk hg hg' ha
        revert va dirty
        decide
  apart k h0 hk := by
    have hkey : ∀ c ∈ cellsOf (demoGroups va k), ∀ a ∈ vaddr (demoSrc va) (demoFrame va k) c.1,
        a + c.1.valSize ≤ destLow (demoArgs va dirty) 4 demoDs ∨ destHigh (demoArgs va dirty) 4 demoDs ≤ a := by
      obtain rfl | rfl : k = 1 ∨ k = 2 := by omega
      all_goals clear h0 hk; revert va dirty; decide
    exact fun c hc a ha => hkey c hc a ha

theorem demoAddrsFound (va dirty : Bool) : AddrsFound (demoArgs va dirty) 4 demoDs := by
  intro k h0 hk
  obtain rfl | rfl | rfl : k = 1 ∨ k = 2 ∨ k = 3 := by omega
  all_goals clear h0 hk; revert va dirty; decide

/-- A rewrite with a result returns 0. -/
theorem returns_of_isSome {r : Except Abort (Option Rewritten)} (h : r.toOption.join.isSome = true) : ∃ out, r = .ok (some out) := by
  cases r with
  | error e => cases h
  | ok out =>
    cases out with
    | none => cases h
    | some out => exact ⟨out, rfl⟩

theorem demo_returns (va dirty : Bool) : ∃ out, stRewriteStack demoMem (demoArgs va dirty) = .ok (some out) := by
  apply returns_of_isSome
  revert va dirty
  decide +kernel

theorem demoSameSizes : SameSizes 4 (demoGroups false) := by
  intro k h0 hk
  obtain rfl | rfl : k = 1 ∨ k = 2 := by omega
  all_goals clear h0 hk; decide

/-- In a clean pool nothing is missed. -/
theorem NoStaleBit.of_clean {x : RewriteArgs} {n : Nat} (hc : PoolClean x.freshDest.pool n) (ds : Nat → CallSite) {k : Nat} (hk : k < n)
    {r : UInt16} (hr : isCalleeSaved x.handleDest.arch r = true) : NoStaleBit x ds n k r := by
  intro j hj _ hset
  rw [bitAt_clean hc (by omega) hr] at hset
  cases hset

theorem demo_noStaleBit (va : Bool) {k : Nat} (h0 : 0 < k) (hk : k + 1 < 4) {c : LiveValue × LiveValue}
    (hc : c ∈ cellsOf (demoGroups va k)) (hreg : LocationType.ofCode c.2.type = some .register) :
    NoStaleBit (demoArgs va false) demoDs 4 k c.2.regnum := by
  obtain ⟨i, hi⟩ := List.mem_iff_getElem?.mp hc
  have htg : valTarget (demoArgs va false) demoDs 4 k c.2 = some (.reg c.2.regnum) := by
    unfold valTarget target
    rw [hreg]
  apply NoStaleBit.of_clean (fun _ _ _ _ _ => rfl) demoDs (by omega)
  exact (((demoMatched va false).cell_fine (demoStackLayout va false).bodies h0 hk hi).2 _ htg).1.calleeSaved

theorem rewrite_preserves_iff_demo : ∃ out, stRewriteStack demoMem (demoArgs false false) = .ok (some out) ∧
    Preserved demoMem (demoArgs false false) 4 (demoFrame false) (demoGroups false) out := by
  obtain ⟨out, hout⟩ := demo_returns false false
  refine ⟨out, hout, (rewrite_preserves_iff demoMem (demoArgs false false) 4 (demoFrame false) demoDs (demoGroups false)
    (demoSourceStack false false) (demoStackLayout false false) (demoMatched false false) demoSameSizes (demoAddrsFound false false)
    out hout).mpr ?_⟩
  intro k h0 hk c hc hreg bs _ _
  exact .inl (demo_noStaleBit false h0 hk hc hreg)

/-- With ones in the pool the outer function's integer is lost: the inner function does not save
    its register, but the bit of its bitmap is set. -/
theorem rewrite_loses_value : ∃ out, SourceStack demoMem (demoArgs false true) 4 (demoFrame false) demoDs ∧
    StackLayout (demoArgs false true) demoDs 4 ∧ Matched (demoArgs false true) 4 (demoFrame false) demoDs (demoGroups false) ∧
    SameSizes 4 (demoGroups false) ∧ AddrsFound (demoArgs false true) 4 demoDs ∧
    stRewriteStack demoMem (demoArgs false true) = .ok (some out) ∧
    ¬ Preserved demoMem (demoArgs false true) 4 (demoFrame false) (demoGroups false) out := by
  obtain ⟨out, hout⟩ := demo_returns false true
  have hs := demoSourceStack false true
  have hl := demoStackLayout false true
  have hm := demoMatched false true
  refine ⟨out, hs, hl, hm, demoSameSizes, demoAddrsFound false true, hout, ?_⟩
  obtain ⟨st, hr, rfl⟩ := stRewriteStack_rewriting hl hm hs hout
  rw [hr.preserved_iff hl hm demoSameSizes (demoAddrsFound false true) hs]
  intro hmiss
  have hint : (demoInt 3, demoInt 19) ∈ cellsOf (demoGroups false 2) := by decide
  have hval : vread demoMem (demoArgs false true).handleSrc (demoFrame false 2) (demoInt 3) (demoInt 3).valSize = some (leBytes 8 0x2A) := by
    decide
  obtain hns | hbefore := hmiss 2 (by decide) (by decide) _ hint rfl _ hval (fun _ hp => nomatch hp.1)
  · have hlists := hns 1 (by decide) (fun i _ _ => by omega) (by decide)
    exact absurd hlists (by decide)
  · exact absurd hbefore (by decide)

end Popcorn.Runtime
