/-
  Popcorn.Runtime.Aborts — which live values a rewrite aborts on.

  `ST_ERR` ends the process. The switches of data.c reach it for a location or an operand of
  a type they do not take, a register the architecture's table does not have, and the
  operation `Load`. `ValueSupported` and `ArchSupported` say what is left, record by record.

  Proved:
  - `rewriteFrame_noAbort`: rewriting a frame of supported values never aborts.
  - `rewriteFrame_supported`: from a state in which no pointer is into the stack, rewriting a
    frame aborts or all its values are supported.
-/

import Popcorn.Runtime.Groups

namespace Popcorn.Runtime

open Popcorn.Lib Popcorn.Metadata

/-! ## Supported values -/

/-- The run ends in `ST_ERR`. -/
def Fault.aborts : Fault → Bool
  | .stErr _ _ _ => true
  | _ => false

def Aborts (e : Fault) : Prop := e.aborts = true
def NoAbort (e : Fault) : Prop := e.aborts = false

/-- The register table has the register. -/
def Known (o : RegOps) (r : UInt16) : Prop := ∃ off, o.reg r = .ok off

/-- `get_val_loc` finds a location. -/
def Located (o : RegOps) (type : Fin 16) (r : UInt16) : Prop :=
  (LocationType.ofCode type = some .register ∨ LocationType.ofCode type = some .direct ∨
    LocationType.ofCode type = some .indirect) ∧ Known o r

/-- A pending fixup can be written. -/
def Placeable (o : RegOps) (w : LiveValue) : Prop := isConstant w = true ∨ Located o w.type w.regnum

/-- The source record `v` can be rewritten to the destination record `w`: a pointer that is no
    alloca is in a register or spilled, and what is written comes from a place or is a
    constant of the record. -/
structure ValueSupported (src dest : RegOps) (v w : LiveValue) : Prop where
  pointer : v.isPtr = true → v.isAlloca = false →
    (LocationType.ofCode v.type = some .register ∨ LocationType.ofCode v.type = some .indirect) ∧ Known src v.regnum
  value : isConstant w = false → Located dest w.type w.regnum ∧
    (LocationType.ofCode v.type = some .constant ∨ Located src v.type v.regnum)

/-- An operand is a constant, a register or a frame address. -/
def OperandSupported (o : RegOps) (v : ArchLiveValue) : Prop :=
  LocationType.ofCode v.operandType = some .constant ∨
    (LocationType.ofCode v.operandType = some .register ∨ LocationType.ofCode v.operandType = some .direct) ∧
      Known o v.operandRegnum

structure ArchSupported (o : RegOps) (v : ArchLiveValue) : Prop where
  loc : Located o v.type v.regnum
  operand : OperandSupported o v
  inst : v.instType.val ≤ InstType.mask.code.val

/-! ## Locations -/

theorem reg_ends (a : Arch) (r : UInt16) : Ends Aborts (fun _ => Known (getRegops a) r) ((getRegops a).reg r) := by
  cases h : (getRegops a).reg r with
  | ok off => exact ⟨off, h⟩
  | error e =>
    cases a
    · simp only [getRegops, regsX86_64, regX86_64] at h
      split_ifs at h
      cases h
      rfl
    · simp only [getRegops, regsAarch64, regAarch64] at h
      split_ifs at h
      cases h
      rfl

theorem Located.ok {c : Ctx} {type : Fin 16} {r : UInt16} (h : Located c.regops type r) (offset : Int) (act : Nat) :
    ∃ l, getValLoc c type r offset act = .ok l := by
  obtain ⟨ht, off, hoff⟩ := h
  unfold getValLoc
  rw [hoff]
  obtain ht | ht | ht := ht
  · rw [ht]
    exact ⟨_, rfl⟩
  · rw [ht]
    exact ⟨_, rfl⟩
  · rw [ht]
    exact ⟨_, rfl⟩

theorem getValLoc_ends (c : Ctx) (type : Fin 16) (r : UInt16) (offset : Int) (act : Nat) :
    Ends Aborts (fun _ => Located c.regops type r) (getValLoc c type r offset act) := by
  unfold getValLoc
  have hreg := reg_ends c.handle.arch r
  cases ht : LocationType.ofCode type with
  | none => rfl
  | some t =>
    cases t with
    | register => exact hreg.bind fun _ hk => ⟨.inl ht, hk⟩
    | direct => exact hreg.bind fun _ hk => ⟨.inr (.inl ht), hk⟩
    | indirect => exact hreg.bind fun _ hk => ⟨.inr (.inr ht), hk⟩
    | constant => rfl
    | constIdx => rfl

/-! ## Saved registers -/

/-- While the frame of `d` is rewritten, every fixup in the queue can be written. -/
structure Going (d : Ctx) (st : Dst) : Prop where
  same : SameFrames d st.ctx
  queue : ∀ f ∈ st.ctx.stackPointers, Placeable d.regops f.destLoc

section
variable {src d : Ctx} {st : Dst}

theorem Going.regops (h : Going d st) : st.ctx.regops = d.regops := by
  unfold Ctx.regops
  rw [h.same.handle]

theorem Going.write (h : Going d st) (l : Loc) (callee : Option Loc) (bs : List UInt8) : Going d (writeBoth st l callee bs) := by
  refine ⟨h.same.trans (writeBoth_same st l callee bs), ?_⟩
  rw [writeBoth_stackPointers]
  exact h.queue

theorem Going.setFixups (h : Going d st) {fs : List Fixup} (hfs : ∀ f ∈ fs, Placeable d.regops f.destLoc) :
    Going d (st.setFixups fs) := ⟨h.same.trans (setFixups_same st fs), hfs⟩

theorem Located.ends {c : Ctx} {type : Fin 16} {r : UInt16} (h : Located c.regops type r) (offset : Int) (act : Nat) :
    Ends NoAbort (fun _ => True) (getValLoc c type r offset act) := by
  obtain ⟨l, hl⟩ := h.ok offset act
  rw [hl]
  trivial

/-- Both records of an alloca are places. -/
def AllocaPlaced (src dest : RegOps) (v w : LiveValue) : Prop :=
  v.isAlloca = true → Located src v.type v.regnum ∧ Located dest w.type w.regnum

/-- Every operation but `Load` is carried out, or C leaves it undefined (a division by zero, a
    shift by more than 63). -/
theorem archOperation_cases (orig operand : Nat) (inst : Fin 16) :
    (inst.val ≤ InstType.mask.code.val ∧
      ((∃ v, archOperation orig operand inst = .ok v) ∨ archOperation orig operand inst = .error .undefined)) ∨
    (InstType.mask.code.val < inst.val ∧
      archOperation orig operand inst = .error (.stErr 1 "Invalid instruction type (%d)\n" [inst.val])) := by
  unfold archOperation
  dsimp only
  split
  case h_5 =>
    refine .inl ⟨by decide, ?_⟩
    split
    · exact .inr rfl
    · exact .inl ⟨_, rfl⟩
  case h_6 | h_7 | h_8 =>
    refine .inl ⟨by decide, ?_⟩
    split
    · exact .inl ⟨_, rfl⟩
    · exact .inr rfl
  case h_10 =>
    have h8 : InstType.mask.code.val = 8 := rfl
    exact .inr ⟨by grind, rfl⟩
  all_goals exact .inl ⟨by decide, .inl ⟨_, rfl⟩⟩

/-- Every value of a frame can be rewritten; every alloca is in a place on both sides. -/
structure GroupsSupported (src dest : RegOps) (gs : List (Group × Group)) : Prop where
  values : ∀ g ∈ gs, ∀ w ∈ g.2.records, ValueSupported src dest g.1.first w
  allocas : ∀ g ∈ gs, ∀ w ∈ g.2.records, AllocaPlaced src dest g.1.first w

theorem GroupsSupported.tail {so d : RegOps} {g : Group × Group} {gs : List (Group × Group)} (h : GroupsSupported so d (g :: gs)) :
    GroupsSupported so d gs :=
  ⟨fun x hx => h.values x (List.mem_cons_of_mem g hx), fun x hx => h.allocas x (List.mem_cons_of_mem g hx)⟩

end

/-- The frame of `src` and the one of `d` it is rewritten to list the values `gs`, and the
    destination's the values `vals` of its own. -/
structure FrameAt (src d : Ctx) (gs : List (Group × Group)) (vals : List ArchLiveValue) : Prop where
  src : GroupsAt src.handle src.cur.site.liveOffset (gs.map Prod.fst)
  dest : GroupsAt d.handle d.cur.site.liveOffset (gs.map Prod.snd)
  numLive : d.cur.site.numLive.toNat = ((gs.map Prod.snd).flatMap Group.records).length
  archLive : ∀ t v, vals[t]? = some v → d.handle.archLiveVals[d.cur.site.archLiveOffset + t]? = some v
  numArchLive : d.cur.site.numArchLive.toNat = vals.length

theorem groups_le_records (gs : List Group) : gs.length ≤ (gs.flatMap Group.records).length := by
  induction gs with
  | nil => exact Nat.le_refl _
  | cons g gs ih =>
    rw [List.flatMap_cons, List.length_append, List.length_cons, g.records_length]
    omega

section
variable {src d : Ctx} {gs : List (Group × Group)} {vals : List ArchLiveValue}

theorem FrameAt.fuel (h : FrameAt src d gs vals) : gs.length ≤ d.cur.site.numLive.toNat := by
  have := groups_le_records (gs.map Prod.snd)
  rw [List.length_map] at this
  rw [h.numLive]
  exact this

theorem FrameAt.rewriteVals_eq (h : FrameAt src d gs vals) {st : Dst} (hs : SameFrames d st.ctx) :
    rewriteVals src d.cur.site.numLive.toNat src.cur.site.liveOffset d.cur.site.liveOffset (false, st) =
      rewriteGroups src src.cur.site.liveOffset gs (false, st) :=
  rewriteVals_groups gs hs.handle hs.curSite h.src h.dest
    (by rw [h.numLive]) h.fuel

theorem FrameAt.localSearch_eq (h : FrameAt src d gs vals) {st : Dst} (hs : SameFrames d st.ctx) (ptr : Nat) :
    localSearch src st.ctx ptr st.ctx.cur.site.numLive.toNat src.cur.site.liveOffset st.ctx.cur.site.liveOffset =
      searchGroups src st.ctx ptr gs := by
  apply localSearch_groups gs h.src
  · rw [hs.handle, hs.curSite]
    exact h.dest
  · rw [hs.curSite, h.numLive]
  · rw [hs.curSite]
    exact h.fuel

/-- The `t`-th round of the loop over the destination's own values. -/
theorem FrameAt.archRound (h : FrameAt src d gs vals) {st : Dst} (hs : SameFrames d st.ctx) {i : Nat}
    (hi : i ∈ List.range' d.cur.site.archLiveOffset d.cur.site.numArchLive.toNat) :
    ∃ t v, vals[t]? = some v ∧ i = d.cur.site.archLiveOffset + t ∧ rewriteArchVal st i = putValArch st v := by
  rw [List.mem_range'_1, h.numArchLive] at hi
  have ht : i - d.cur.site.archLiveOffset < vals.length := by omega
  have hv := List.getElem?_eq_getElem ht
  have hi' : i = d.cur.site.archLiveOffset + (i - d.cur.site.archLiveOffset) := by omega
  refine ⟨_, _, hv, hi', ?_⟩
  have := h.archLive _ _ hv
  rw [← hi'] at this
  unfold rewriteArchVal
  rw [hs.handle, this]

end

/-! ## A quiet state -/

/-- No address is in the stack of `src`, and `d` is at the frame after the outermost one, which
    saves no register. -/
structure Quiet (src d : Ctx) : Prop where
  stack : src.stackBase ≤ src.stack
  act : d.act = 1
  bitmap : (d.acts 0).calleeSaved.bits = 0
  pool : ∀ n, d.pool n = 0

/-- While the frame of `d` is rewritten, no fixup is queued. -/
structure Resting (d : Ctx) (st : Dst) : Prop where
  same : SameFrames d st.ctx
  queue : st.ctx.stackPointers = []

/-- The words an operand can be do not make its operation undefined. -/
def OperationDefined (v : ArchLiveValue) : Prop :=
  ∀ orig operand, (LocationType.ofCode v.operandType = some .constant →
    operand = (v.operandOffsetOrConstant.toInt % 18446744073709551616).toNat) →
    archOperation orig operand v.instType ≠ .error .undefined

section
variable {src d : Ctx} {st : Dst}

theorem Resting.regops (h : Resting d st) : st.ctx.regops = d.regops := by
  unfold Ctx.regops
  rw [h.same.handle]

theorem Resting.write (h : Resting d st) (l : Loc) (callee : Option Loc) (bs : List UInt8) :
    Resting d (writeBoth st l callee bs) := by
  refine ⟨h.same.trans (writeBoth_same st l callee bs), ?_⟩
  rw [writeBoth_stackPointers]
  exact h.queue

theorem Quiet.calleeAddr_ok (hq : Quiet src d) (hs : Resting d st) (type : Fin 16) (r : UInt16) :
    ∃ l, calleeAddr st.ctx type r st.ctx.act = .ok l := by
  unfold calleeAddr
  split
  · rename_i h
    obtain ⟨hreg, -, -, hlt⟩ := calleeSaved_cases (a := st.ctx.handle.arch) h.2
    have hclear : bitmapIsSet (poolWords st.ctx.handle.arch) st.ctx.pool (st.ctx.acts 0).calleeSaved r.toNat = .ok false := by
      unfold bitmapIsSet testBit storageTypeBits
      rw [hs.same.calleeSaved, hs.same.pool, hq.bitmap, poolWords_eq, if_pos (by omega), hq.pool]
      simp
    unfold calleeSavedLoc
    rw [hs.same.act, hq.act, if_neg (by decide)]
    unfold savedLocLoop
    rw [hclear]
    show ∃ l, savedLocLoop st.ctx r 0 = .ok l
    unfold savedLocLoop
    rw [show st.ctx.regops.reg r = _ from hreg]
    exact ⟨_, rfl⟩
  · exact ⟨_, rfl⟩

theorem getSrcBytes_supported {i : Nat} {v : LiveValue} (hv : src.handle.liveVals i = v) (mem : Mem) (act n : Nat) :
    Ends Aborts (fun _ => LocationType.ofCode v.type = some .constant ∨ Located src.regops v.type v.regnum)
      (getSrcBytes src mem i act n) := by
  have hloc := getValLoc_ends src v.type v.regnum v.offsetOrConstant.toInt act
  unfold getSrcBytes
  rw [hv]
  dsimp only
  cases ht : LocationType.ofCode v.type with
  | none => rfl
  | some t =>
    cases t with
    | register => exact hloc.bind fun _ h => .inr h
    | direct => exact hloc.bind fun _ h => .inr h
    | indirect => exact hloc.bind fun _ h => .inr h
    | constant => exact .inl rfl
    | constIdx => rfl

theorem putVal_supported (hq : Quiet src d) (hs : Resting d st) {i : Nat} {v : LiveValue} (hv : src.handle.liveVals i = v)
    (w : LiveValue) : Ends Aborts (fun s => Resting d s ∧ (isConstant w = false → Located d.regops w.type w.regnum ∧
      (LocationType.ofCode v.type = some .constant ∨ Located src.regops v.type v.regnum))) (putVal src i st w) := by
  unfold putVal
  split
  · rename_i hc
    exact ⟨hs, fun h => absurd hc (Bool.eq_false_iff.mp h)⟩
  · apply (getSrcBytes_supported hv _ _ _).bind
    intro bs hval
    apply (getValLoc_ends _ _ _ _ _).bind
    intro l hl
    obtain ⟨c, hc⟩ := hq.calleeAddr_ok hs w.type w.regnum
    rw [hc]
    exact ⟨hs.write l c bs, fun _ => ⟨hs.regops ▸ hl, hval⟩⟩

theorem pointsToStack_supported (hq : Quiet src d) (mem : Mem) (v : LiveValue) :
    Ends Aborts (fun addr => addr = 0 ∧ (v.isPtr = true → v.isAlloca = false → (LocationType.ofCode v.type = some .register ∨
      LocationType.ofCode v.type = some .indirect) ∧ Known src.regops v.regnum)) (pointsToStack src mem v) := by
  have hreg := reg_ends src.handle.arch v.regnum
  have hnull : ∀ addr, (if addr < src.stack ∨ src.stackBase ≤ addr then 0 else addr) = 0 := by
    intro addr
    have := hq.stack
    rw [if_pos (by omega)]
  unfold pointsToStack
  split
  · cases ht : LocationType.ofCode v.type with
    | none => rfl
    | some t =>
      cases t with
      | register => exact hreg.bind fun off hk => ⟨hnull _, fun _ _ => ⟨.inl rfl, hk⟩⟩
      | direct => rfl
      | indirect => exact hreg.bind fun off hk => ⟨hnull _, fun _ _ => ⟨.inr rfl, hk⟩⟩
      | constant => rfl
      | constIdx => rfl
  · rename_i hv
    refine ⟨rfl, ?_⟩
    intro hp ha
    rw [hp, ha] at hv
    exact absurd rfl hv

theorem rewriteVal_supported (hq : Quiet src d) (hs : Resting d st) {i : Nat} {v w : LiveValue} (hv : src.handle.liveVals i = v)
    (hva : skipVaList v w = false) :
    Ends Aborts (fun r => (r.1 = false ∧ Resting d r.2) ∧ ValueSupported src.regops d.regops v w) (rewriteVal src i st w) := by
  unfold rewriteVal
  rw [hv]
  dsimp only
  rw [if_neg (Bool.eq_false_iff.mp hva)]
  have hput : Ends Aborts (fun r => (r.1 = false ∧ Resting d r.2) ∧ ValueSupported src.regops d.regops v w)
      (fixupOrPut src i st w) := by
    unfold fixupOrPut
    rw [hv]
    apply (pointsToStack_supported hq st.mem v).bind
    intro addr ⟨hnull, hptr⟩
    rw [if_neg (fun h => h hnull)]
    apply (putVal_supported hq hs hv w).bind
    intro s ⟨hs', hval⟩
    exact ⟨⟨rfl, hs'⟩, hptr, hval⟩
  apply hput.bind
  intro ⟨b, st1⟩ ⟨⟨hb, hs1⟩, hsup⟩
  dsimp only at hb hs1 ⊢
  split
  · rw [hs1.queue]
    exact ⟨⟨hb, hs1.same.trans (setFixups_same st1 []), rfl⟩, hsup⟩
  · exact ⟨⟨hb, hs1⟩, hsup⟩

theorem rewriteGroups_supported (hq : Quiet src d) (gs : List (Group × Group)) : ∀ {i : Nat} {s : Bool × Dst},
    GroupsAt src.handle i (gs.map Prod.fst) → (∀ g ∈ gs, ∀ w ∈ g.2.records, skipVaList g.1.first w = false) →
    s.1 = false → Resting d s.2 →
    Ends Aborts (fun r => (r.1 = false ∧ Resting d r.2) ∧
      ∀ g ∈ gs, ∀ w ∈ g.2.records, ValueSupported src.regops d.regops g.1.first w) (rewriteGroups src i gs s) := by
  induction gs with
  | nil => exact fun _ _ hb hs => ⟨⟨hb, hs⟩, fun g hg => absurd hg List.not_mem_nil⟩
  | cons g gs ih =>
    intro i s hat hva hb hs
    rw [List.map_cons] at hat
    unfold rewriteGroups
    have hone := ends_foldlM (E := Aborts) (P := fun r : Bool × Dst => r.1 = false ∧ Resting d r.2)
      (Q := ValueSupported src.regops d.regops g.1.first) (f := rewriteOne src i) (l := g.2.records) (s := s) (by
        intro r w hw hr
        unfold rewriteOne
        apply (rewriteVal_supported hq hr.2 hat.first.1 (hva g List.mem_cons_self w hw)).bind
        intro q hq'
        exact ⟨⟨by rw [hr.1, hq'.1.1]; rfl, hq'.1.2⟩, hq'.2⟩) ⟨hb, hs⟩
    apply hone.bind
    intro r hr
    obtain ⟨⟨hb1, hs1⟩, hsup⟩ := hr
    apply (ih hat.next (fun x hx => hva x (List.mem_cons_of_mem g hx)) hb1 hs1).mono
    intro q hq1
    obtain ⟨hq1, hrest⟩ := hq1
    refine ⟨hq1, ?_⟩
    intro x hx
    obtain rfl | hx := List.mem_cons.mp hx
    · exact hsup
    · exact hrest x hx

theorem getArchOperandLoc_supported (c : Ctx) (v : ArchLiveValue) (act : Nat) :
    Ends Aborts (fun operand => OperandSupported c.regops v ∧ (LocationType.ofCode v.operandType = some .constant →
      operand = (v.operandOffsetOrConstant.toInt % 18446744073709551616).toNat)) (getArchOperandLoc c v act) := by
  have hreg := reg_ends c.handle.arch v.operandRegnum
  unfold getArchOperandLoc
  split
  · rename_i hc
    exact ⟨.inl hc, fun _ => rfl⟩
  · rename_i hc
    unfold getValLoc
    cases ht : LocationType.ofCode v.operandType with
    | none => rfl
    | some t =>
      cases t with
      | register =>
        refine Ends.bind (P := fun l => Known c.regops v.operandRegnum ∧ ∃ k off, l = .reg k off)
          (hreg.bind fun off hk => ⟨hk, act, off, rfl⟩) ?_
        rintro _ ⟨hk, k, off, rfl⟩
        exact ⟨.inr ⟨.inl ht, hk⟩, fun h => nomatch h⟩
      | direct =>
        refine Ends.bind (P := fun l => Known c.regops v.operandRegnum ∧ ∃ a, l = .mem a)
          (hreg.bind fun off hk => ⟨hk, _, rfl⟩) ?_
        rintro _ ⟨hk, a, rfl⟩
        exact ⟨.inr ⟨.inr ht, hk⟩, fun h => nomatch h⟩
      | indirect =>
        refine Ends.bind (P := fun l => ∃ a, l = .mem a) (hreg.bind fun off _ => ⟨_, rfl⟩) ?_
        rintro _ ⟨a, rfl⟩
        rfl
      | constant => exact absurd ht hc
      | constIdx => rfl

theorem archOperation_supported {orig operand : Nat} {inst : Fin 16} (h : archOperation orig operand inst ≠ .error .undefined) :
    Ends Aborts (fun _ => inst.val ≤ InstType.mask.code.val) (archOperation orig operand inst) := by
  obtain ⟨hle, ⟨v, hv⟩ | hv⟩ | ⟨-, hv⟩ := archOperation_cases orig operand inst
  · rw [hv]
    exact hle
  · exact absurd hv h
  · rw [hv]
    rfl

theorem putValArch_supported (hq : Quiet src d) (hs : Resting d st) {v : ArchLiveValue} (hdef : OperationDefined v) :
    Ends Aborts (fun s => Resting d s ∧ ArchSupported d.regops v) (putValArch st v) := by
  unfold putValArch
  apply (getValLoc_ends _ _ _ _ _).bind
  intro l hl
  obtain ⟨c, hc⟩ := hq.calleeAddr_ok hs v.type v.regnum
  rw [hc]
  apply (getArchOperandLoc_supported _ v _).bind
  intro operand ⟨hop, hconst⟩
  apply (archOperation_supported (hdef _ operand hconst)).bind
  intro value hinst
  exact ⟨hs.write l c _, hs.regops ▸ hl, hs.regops ▸ hop, hinst⟩

end

/-- From a quiet state, rewriting a frame aborts or every one of its values is supported. -/
theorem rewriteFrame_supported {src : Ctx} {st : Dst} {gs : List (Group × Group)} {vals : List ArchLiveValue}
    (hq : Quiet src st.ctx) (hqueue : st.ctx.stackPointers = []) (hf : FrameAt src st.ctx gs vals)
    (hva : ∀ g ∈ gs, ∀ w ∈ g.2.records, skipVaList g.1.first w = false) (hdef : ∀ v ∈ vals, OperationDefined v) (found : Bool) :
    Ends Aborts (fun _ => (∀ g ∈ gs, ∀ w ∈ g.2.records, ValueSupported src.regops st.ctx.regops g.1.first w) ∧
      ∀ v ∈ vals, ArchSupported st.ctx.regops v) (rewriteFrame src found st) := by
  have hs : Resting st.ctx st := ⟨SameFrames.refl _, hqueue⟩
  unfold rewriteFrame
  dsimp only
  rw [hf.rewriteVals_eq hs.same]
  apply (rewriteGroups_supported hq gs hf.src hva rfl hs).bind
  intro ⟨needs, st1⟩ ⟨⟨hneeds, hs1⟩, hgs⟩
  have harch := ends_foldlM (E := Aborts) (P := Resting st.ctx)
    (Q := fun i => ∀ v, st.ctx.handle.archLiveVals[i]? = some v → ArchSupported st.ctx.regops v) (f := rewriteArchVal)
    (l := List.range' st.ctx.cur.site.archLiveOffset st.ctx.cur.site.numArchLive.toNat) (s := st1) (by
      intro s i hi hs'
      obtain ⟨t, v, hv, rfl, heq⟩ := hf.archRound hs'.same hi
      rw [heq]
      apply (putValArch_supported hq hs' (hdef v (List.mem_of_getElem? hv))).mono
      intro s' ⟨hs'', hsup⟩
      refine ⟨hs'', ?_⟩
      intro w hw
      cases (hf.archLive t v hv).symm.trans hw
      exact hsup) hs1
  apply harch.bind
  intro st2 ⟨_, hvals⟩
  dsimp only at hneeds ⊢
  rw [hneeds]
  refine ⟨hgs, ?_⟩
  intro v hv
  obtain ⟨t, ht⟩ := List.mem_iff_getElem?.mp hv
  have hlt := (List.getElem?_eq_some_iff.mp ht).1
  refine hvals (st.ctx.cur.site.archLiveOffset + t) ?_ v (hf.archLive t v ht)
  rw [List.mem_range'_1, hf.numArchLive]
  omega

end Popcorn.Runtime
