/-
  Popcorn.Runtime.FrameWalk — the lockstep walk at the ends of its tables
  (`rewrite_frame` and `fixup_local_pointers` of lib/stack_transformation/src/rewrite.c).

  The loops look one record ahead to skip duplicates, with nothing that stops them at the end
  of a table. `checkedVals` and `checkedSearch` are the two walks over tables whose records at
  or past `live_vals_count` cannot be read. `withVals` replaces a table, so that what a frame's
  rewriting takes from it can be stated.

  Proved:
  - `rewriteFrame_withVals`: but for the records of its own slices, a frame's rewriting does not
    depend on the tables.
  - `paired_inside_iff`: the walks pair the values of the two sites group by group, stay inside
    the tables and depend on their own records alone, exactly where neither slice is the last
    of its table; an empty one is walked anywhere.
-/

import Popcorn.Runtime.LocalFixups

namespace Popcorn.Runtime

open Popcorn.Lib Popcorn.Metadata

/-! ## Another table -/

def Handle.withVals (h : Handle) (f : Nat → LiveValue) : Handle := { h with liveVals := f }
def Ctx.withVals (c : Ctx) (f : Nat → LiveValue) : Ctx := { c with handle := Handle.withVals c.handle f }
def Dst.withVals (st : Dst) (f : Nat → LiveValue) : Dst := { st with ctx := st.ctx.withVals f }

section
variable {f g : Nat → LiveValue}

theorem saveLocLoop_withVals (h : Handle) (fbp : Nat) (r : UInt16) (is : List Nat) :
    saveLocLoop (Handle.withVals h f) fbp r is = saveLocLoop h fbp r is := by
  induction is with
  | nil => rfl
  | cons i is ih =>
    unfold saveLocLoop
    rw [ih]
    rfl

theorem savedLocLoop_withVals (c : Ctx) (r : UInt16) (act : Nat) : savedLocLoop (c.withVals f) r act = savedLocLoop c r act := by
  induction act with
  | zero => rfl
  | succ act ih =>
    unfold savedLocLoop getRegisterSaveLoc
    rw [ih]
    dsimp only
    rw [show (c.withVals f).handle = Handle.withVals c.handle f from rfl, saveLocLoop_withVals]
    rfl

theorem calleeAddr_withVals (c : Ctx) (type : Fin 16) (r : UInt16) (act : Nat) :
    calleeAddr (c.withVals f) type r act = calleeAddr c type r act := by
  unfold calleeAddr calleeSavedLoc
  rw [savedLocLoop_withVals]
  rfl

theorem writeLoc_withVals (st : Dst) (l : Loc) (bs : List UInt8) : writeLoc (st.withVals g) l bs = (writeLoc st l bs).withVals g := by
  cases l <;> rfl

theorem writeBoth_withVals (st : Dst) (l : Loc) (callee : Option Loc) (bs : List UInt8) :
    writeBoth (st.withVals g) l callee bs = (writeBoth st l callee bs).withVals g := by
  unfold writeBoth
  rw [writeLoc_withVals]
  cases callee with
  | none => rfl
  | some l' => exact writeLoc_withVals _ l' bs

theorem putValData_withVals (st : Dst) (w : LiveValue) (act data : Nat) :
    putValData (st.withVals g) w act data = (putValData st w act data).map (Dst.withVals · g) := by
  unfold putValData
  split
  · rfl
  · show (getValLoc st.ctx w.type w.regnum w.offsetOrConstant.toInt act >>= _) = _
    cases getValLoc st.ctx w.type w.regnum w.offsetOrConstant.toInt act with
    | error e => rfl
    | ok dest =>
      show (calleeAddr (st.ctx.withVals g) w.type w.regnum act >>= _) = _
      rw [calleeAddr_withVals]
      show (calleeAddr st.ctx w.type w.regnum act >>= _) = _
      cases calleeAddr st.ctx w.type w.regnum act with
      | error e => rfl
      | ok callee => exact congrArg Except.ok (writeBoth_withVals st dest callee _)

theorem resolveFixups_withVals (src : Ctx) (v w : LiveValue) (fs : List Fixup) : ∀ st : Dst,
    resolveFixups (src.withVals f) v w fs (st.withVals g) =
      (resolveFixups src v w fs st).map fun r => (r.1, r.2.withVals g) := by
  induction fs with
  | nil => exact fun _ => rfl
  | cons p fs ih =>
    intro st
    unfold resolveFixups
    show (pointsToData src v st.ctx w p.srcAddr >>= _) = _
    cases pointsToData src v st.ctx w p.srcAddr with
    | error e => rfl
    | ok addr =>
      show (if addr ≠ 0 then _ else _) = Except.map _ (if addr ≠ 0 then _ else _)
      split
      · rw [putValData_withVals]
        cases putValData st p.destLoc p.act addr with
        | error e => rfl
        | ok st1 => exact ih st1
      · rw [ih st]
        cases resolveFixups src v w fs st with
        | error e => rfl
        | ok r => rfl

/-! ## A source record in another table -/

/-- A constant of eight bytes or fewer lies in its record. -/
theorem constantBytes_record (h : Handle) (i : Nat) {n : Nat} (hn : n ≤ 8) :
    constantBytes h i n = ((liveValueBytes (h.liveVals i)).drop 4).take n := by
  have hlen := liveValueBytes_length (h.liveVals i)
  unfold constantBytes
  rw [List.range_succ_eq_map, List.flatMap_cons, Nat.add_zero,
    List.drop_append_of_le_length (by rw [hlen]; decide),
    List.take_append_of_le_length (by rw [List.length_drop, hlen]; exact hn)]

theorem constantBytes_withVals {h : Handle} {i n : Nat} (hv : f i = h.liveVals i) (hn : n ≤ 8) :
    constantBytes (Handle.withVals h f) i n = constantBytes h i n := by
  rw [constantBytes_record h i hn, constantBytes_record (Handle.withVals h f) i hn, ← hv]
  rfl

theorem getSrcBytes_withVals {src : Ctx} {mem : Mem} {i act n : Nat} (hv : f i = src.handle.liveVals i)
    (hn : LocationType.ofCode (src.handle.liveVals i).type = some .constant → n ≤ 8) :
    getSrcBytes (src.withVals f) mem i act n = getSrcBytes src mem i act n := by
  unfold getSrcBytes
  rw [show (src.withVals f).handle.liveVals i = src.handle.liveVals i from hv]
  dsimp only
  cases ht : LocationType.ofCode (src.handle.liveVals i).type with
  | none => rfl
  | some t =>
    cases t with
    | constant => exact congrArg Except.ok (constantBytes_withVals hv (hn ht))
    | _ => rfl

/-- A constant fills no more of a destination than its record holds. -/
def ConstantFits (v w : LiveValue) : Prop := LocationType.ofCode v.type = some .constant → w.valSize ≤ 8

section
variable {src : Ctx} {i : Nat} {w : LiveValue} (hv : f i = src.handle.liveVals i) (hn : ConstantFits (src.handle.liveVals i) w)

include hv hn in
theorem putVal_withVals (st : Dst) : putVal (src.withVals f) i (st.withVals g) w = (putVal src i st w).map (Dst.withVals · g) := by
  unfold putVal
  split
  · rfl
  · show (getSrcBytes (src.withVals f) st.mem i src.act w.valSize >>= _) = _
    rw [getSrcBytes_withVals hv hn]
    cases getSrcBytes src st.mem i src.act w.valSize with
    | error e => rfl
    | ok bs =>
      show (getValLoc st.ctx w.type w.regnum w.offsetOrConstant.toInt src.act >>= _) = Except.map _
        (getValLoc st.ctx w.type w.regnum w.offsetOrConstant.toInt src.act >>= _)
      cases getValLoc st.ctx w.type w.regnum w.offsetOrConstant.toInt src.act with
      | error e => rfl
      | ok dest =>
        show (calleeAddr (st.ctx.withVals g) w.type w.regnum st.ctx.act >>= _) = Except.map _
          (calleeAddr st.ctx w.type w.regnum st.ctx.act >>= _)
        rw [calleeAddr_withVals]
        cases calleeAddr st.ctx w.type w.regnum st.ctx.act with
        | error e => rfl
        | ok callee => exact congrArg Except.ok (writeBoth_withVals st dest callee bs)

include hv hn in
theorem fixupOrPut_withVals (st : Dst) : fixupOrPut (src.withVals f) i (st.withVals g) w =
    (fixupOrPut src i st w).map fun r => (r.1, r.2.withVals g) := by
  unfold fixupOrPut
  rw [show (src.withVals f).handle.liveVals i = src.handle.liveVals i from hv]
  show (pointsToStack src st.mem (src.handle.liveVals i) >>= _) = _
  cases pointsToStack src st.mem (src.handle.liveVals i) with
  | error e => rfl
  | ok addr =>
    show (if addr ≠ 0 then _ else _) = Except.map _ (if addr ≠ 0 then _ else _)
    split
    · show (if src.act = 0 ∨ (src.acts (src.act - 1)).cfa ≤ addr then _ else _) =
        Except.map _ (if src.act = 0 ∨ (src.acts (src.act - 1)).cfa ≤ addr then _ else _)
      split <;> rfl
    · rw [putVal_withVals hv hn]
      cases putVal src i st w <;> rfl

include hv hn in
theorem rewriteVal_withVals (st : Dst) : rewriteVal (src.withVals f) i (st.withVals g) w =
    (rewriteVal src i st w).map fun r => (r.1, r.2.withVals g) := by
  unfold rewriteVal
  rw [show (src.withVals f).handle.liveVals i = src.handle.liveVals i from hv]
  dsimp only
  split
  · rfl
  · rw [fixupOrPut_withVals hv hn]
    cases fixupOrPut src i st w with
    | error e => rfl
    | ok r =>
      show (if (src.handle.liveVals i).isAlloca = true then _ else _) =
        Except.map _ (if (src.handle.liveVals i).isAlloca = true then _ else _)
      split
      · show (resolveFixups (src.withVals f) (src.handle.liveVals i) w r.2.ctx.stackPointers (r.2.withVals g) >>= _) = _
        rw [resolveFixups_withVals]
        cases resolveFixups src (src.handle.liveVals i) w r.2.ctx.stackPointers r.2 <;> rfl
      · rfl

include hv hn in
theorem rewriteOne_withVals (s : Bool × Dst) : rewriteOne (src.withVals f) i (s.1, s.2.withVals g) w =
    (rewriteOne src i s w).map fun r => (r.1, r.2.withVals g) := by
  unfold rewriteOne
  rw [rewriteVal_withVals hv hn]
  cases rewriteVal src i s.2 w <;> rfl

end

theorem rewriteRecords_withVals {src : Ctx} {i : Nat} {v : LiveValue} (hv : src.handle.liveVals i = v) (hf : f i = v)
    (ws : List LiveValue) : ∀ s : Bool × Dst, (∀ w ∈ ws, ConstantFits v w) →
    ws.foldlM (rewriteOne (src.withVals f) i) (s.1, s.2.withVals g) =
      (ws.foldlM (rewriteOne src i) s).map fun r => (r.1, r.2.withVals g) := by
  subst hv
  induction ws with
  | nil => exact fun _ _ => rfl
  | cons w ws ih =>
    intro s hn
    rw [List.foldlM_cons, List.foldlM_cons, rewriteOne_withVals hf (hn w List.mem_cons_self)]
    cases rewriteOne src i s w with
    | error e => rfl
    | ok s1 => exact ih s1 fun w' hw => hn w' (List.mem_cons_of_mem w hw)

/-- The walk over groups takes from the source table what it takes from the groups. -/
theorem rewriteGroups_withVals {src : Ctx} (gs : List (Group × Group)) : ∀ {i : Nat} {s : Bool × Dst},
    RecordsAt src.handle i ((gs.map Prod.fst).flatMap Group.records) →
    RecordsAt (src.withVals f).handle i ((gs.map Prod.fst).flatMap Group.records) →
    (∀ p ∈ gs, ∀ w ∈ p.2.records, ConstantFits p.1.first w) →
    rewriteGroups (src.withVals f) i gs (s.1, s.2.withVals g) = (rewriteGroups src i gs s).map fun r => (r.1, r.2.withVals g) := by
  induction gs with
  | nil => exact fun _ _ _ => rfl
  | cons p gs ih =>
    intro i s hr hr' hn
    rw [List.map_cons, List.flatMap_cons] at hr hr'
    have hf : f i = p.1.first := hr'.append.1.cons.1
    unfold rewriteGroups
    rw [rewriteRecords_withVals hr.append.1.cons.1 hf _ s (hn p List.mem_cons_self)]
    cases p.2.records.foldlM (rewriteOne src i) s with
    | error e => rfl
    | ok s1 => exact ih hr.append.2 hr'.append.2 fun q hq => hn q (List.mem_cons_of_mem p hq)

/-! ## The rest of a frame -/

theorem searchGroups_withVals (src d : Ctx) (ptr : Nat) (gs : List (Group × Group)) :
    searchGroups (src.withVals f) (d.withVals g) ptr gs = searchGroups src d ptr gs := by
  induction gs with
  | nil => rfl
  | cons p gs ih =>
    unfold searchGroups
    rw [ih]
    rfl

theorem putValArch_withVals (st : Dst) (v : ArchLiveValue) :
    putValArch (st.withVals g) v = (putValArch st v).map (Dst.withVals · g) := by
  unfold putValArch
  show (getValLoc st.ctx v.type v.regnum (Int32.ofInt v.offset.toNat).toInt st.ctx.act >>= _) = _
  cases getValLoc st.ctx v.type v.regnum (Int32.ofInt v.offset.toNat).toInt st.ctx.act with
  | error e => rfl
  | ok dest =>
    show (calleeAddr (st.ctx.withVals g) v.type v.regnum st.ctx.act >>= _) = Except.map _
      (calleeAddr st.ctx v.type v.regnum st.ctx.act >>= _)
    rw [calleeAddr_withVals]
    cases calleeAddr st.ctx v.type v.regnum st.ctx.act with
    | error e => rfl
    | ok callee =>
      show (getArchOperandLoc st.ctx v st.ctx.act >>= _) = Except.map _ (getArchOperandLoc st.ctx v st.ctx.act >>= _)
      cases getArchOperandLoc st.ctx v st.ctx.act with
      | error e => rfl
      | ok operand =>
        show (archOperation (leVal (readLoc (st.ctx.withVals g) st.mem dest 8)) operand v.instType >>= _) = Except.map _
          (archOperation (leVal (readLoc st.ctx st.mem dest 8)) operand v.instType >>= _)
        rw [show readLoc (st.ctx.withVals g) st.mem dest 8 = readLoc st.ctx st.mem dest 8 by cases dest <;> rfl]
        cases archOperation (leVal (readLoc st.ctx st.mem dest 8)) operand v.instType with
        | error e => rfl
        | ok value => exact congrArg Except.ok (writeBoth_withVals st dest callee _)

theorem rewriteArchVals_withVals (is : List Nat) : ∀ st : Dst,
    is.foldlM rewriteArchVal (st.withVals g) = (is.foldlM rewriteArchVal st).map (Dst.withVals · g) := by
  induction is with
  | nil => exact fun _ => rfl
  | cons i is ih =>
    intro st
    rw [List.foldlM_cons, List.foldlM_cons]
    unfold rewriteArchVal
    rw [show (st.withVals g).ctx.handle.archLiveVals = st.ctx.handle.archLiveVals from rfl]
    cases st.ctx.handle.archLiveVals[i]? with
    | none => rfl
    | some v =>
      show (putValArch (st.withVals g) v >>= _) = Except.map _ (putValArch st v >>= _)
      rw [putValArch_withVals]
      cases putValArch st v with
      | error e => rfl
      | ok st1 => exact ih st1

/-- The search for an alloca from the current frames of two contexts. -/
def frameSearch (src d : Ctx) (ptr : Nat) : Except Fault Nat :=
  localSearch src d ptr d.cur.site.numLive.toNat src.cur.site.liveOffset d.cur.site.liveOffset

theorem fixupLoop_withVals {src d : Ctx}
    (hsearch : ∀ c, SameFrames d c → ∀ ptr, frameSearch (src.withVals f) (c.withVals g) ptr = frameSearch src c ptr) (fs : List Fixup) :
    ∀ {found : Bool} {kept : List Fixup} {st : Dst}, SameFrames d st.ctx →
    fixupLoop (src.withVals f) found kept fs (st.withVals g) = (fixupLoop src found kept fs st).map (Dst.withVals · g) := by
  induction fs with
  | nil => exact fun _ => rfl
  | cons p fs ih =>
    intro found kept st hs
    unfold fixupLoop
    show (if p.srcAddr ≤ src.cur.cfa then _ else _) = Except.map _ (if p.srcAddr ≤ src.cur.cfa then _ else _)
    split
    · show (if p.act ≠ src.act then _ else _) = Except.map _ (if p.act ≠ src.act then _ else _)
      split
      · exact ih hs
      · show (frameSearch (src.withVals f) (st.ctx.withVals g) p.srcAddr >>= _) = Except.map _ (frameSearch src st.ctx p.srcAddr >>= _)
        rw [hsearch _ hs]
        cases frameSearch src st.ctx p.srcAddr with
        | error e => rfl
        | ok addr =>
          show (if addr ≠ 0 then _ else _) = Except.map _ (if addr ≠ 0 then _ else _)
          split
          · rw [putValData_withVals]
            cases hput : putValData st p.destLoc p.act addr with
            | error e => rfl
            | ok st1 =>
              apply ih
              exact put_rule (P := fun s => SameFrames d s.ctx) (fun s l c bs h => h.trans (writeBoth_same s l c bs))
                (putValData_cases hput) hs
          · exact ih hs
    · split
      · rfl
      · exact ih hs

end

/-! ## Slices -/

/-- The slice of a call site is the records of `gs`, from `i` on; a record after it is the first
    of another slice. -/
structure SliceAt (h : Handle) (i : Nat) (gs : List Group) : Prop where
  records : RecordsAt h i (gs.flatMap Group.records)
  inside : i + (gs.flatMap Group.records).length ≤ h.liveValsCount
  next : i + (gs.flatMap Group.records).length < h.liveValsCount →
    (h.liveVals (i + (gs.flatMap Group.records).length)).isDuplicate = false

/-- The call sites of the current frames list the values `gs`. -/
structure SitesAt (src d : Ctx) (gs : List (Group × Group)) : Prop where
  source : SliceAt src.handle src.cur.site.liveOffset (gs.map Prod.fst)
  dest : SliceAt d.handle d.cur.site.liveOffset (gs.map Prod.snd)
  numSrc : src.cur.site.numLive.toNat = ((gs.map Prod.fst).flatMap Group.records).length
  numDest : d.cur.site.numLive.toNat = ((gs.map Prod.snd).flatMap Group.records).length

/-- The current frame's slice is not the last of its table. -/
def NotLast (c : Ctx) : Prop := c.cur.site.liveOffset + c.cur.site.numLive.toNat < c.handle.liveValsCount

/-- There is nothing to walk, or neither slice is the last of its table. -/
def Walkable (src d : Ctx) (gs : List (Group × Group)) : Prop := gs = [] ∨ (NotLast src ∧ NotLast d)

theorem SliceAt.groups {h : Handle} {i : Nat} {gs : List Group} (hs : SliceAt h i gs)
    (hlt : i + (gs.flatMap Group.records).length < h.liveValsCount) : GroupsAt h i gs := ⟨hs.records, hs.inside, hs.next hlt⟩

section
variable {src d : Ctx} {gs : List (Group × Group)}

theorem SitesAt.fuel (h : SitesAt src d gs) : gs.length ≤ d.cur.site.numLive.toNat := by
  have := groups_le_records (gs.map Prod.snd)
  rw [List.length_map] at this
  rw [h.numDest]
  exact this

theorem SitesAt.groups (h : SitesAt src d gs) (hsrc : NotLast src) (hdest : NotLast d) :
    GroupsAt src.handle src.cur.site.liveOffset (gs.map Prod.fst) ∧ GroupsAt d.handle d.cur.site.liveOffset (gs.map Prod.snd) := by
  unfold NotLast at hsrc hdest
  rw [h.numSrc] at hsrc
  rw [h.numDest] at hdest
  exact ⟨h.source.groups hsrc, h.dest.groups hdest⟩

theorem SitesAt.same (h : SitesAt src d gs) {c : Ctx} (hc : SameFrames d c) : SitesAt src c gs where
  source := h.source
  dest := by
    rw [hc.handle, hc.curSite]
    exact h.dest
  numSrc := h.numSrc
  numDest := by
    rw [hc.curSite]
    exact h.numDest

theorem Walkable.same (h : Walkable src d gs) {c : Ctx} (hc : SameFrames d c) : Walkable src c gs := by
  unfold Walkable NotLast
  rw [hc.handle, hc.curSite]
  exact h

theorem SitesAt.numDest_nil (h : SitesAt src d []) : d.cur.site.numLive.toNat = 0 := h.numDest

/-- The walk of the current frames. -/
def frameVals (src d : Ctx) (s : Bool × Dst) : Except Fault (Bool × Dst) :=
  rewriteVals src d.cur.site.numLive.toNat src.cur.site.liveOffset d.cur.site.liveOffset s

theorem SitesAt.frameVals_eq {st : Dst} (h : SitesAt src st.ctx gs) (hw : Walkable src st.ctx gs) :
    frameVals src st.ctx (false, st) = rewriteGroups src src.cur.site.liveOffset gs (false, st) := by
  obtain rfl | ⟨hsrc, hdest⟩ := hw
  · unfold frameVals
    rw [h.numDest_nil]
    rfl
  · obtain ⟨hs, hd⟩ := h.groups hsrc hdest
    exact rewriteVals_groups (s := (false, st)) gs rfl rfl hs hd (by rw [h.numDest]) h.fuel

theorem SitesAt.frameSearch_eq (h : SitesAt src d gs) (hw : Walkable src d gs) (ptr : Nat) :
    frameSearch src d ptr = searchGroups src d ptr gs := by
  obtain rfl | ⟨hsrc, hdest⟩ := hw
  · unfold frameSearch
    rw [h.numDest_nil]
    rfl
  · obtain ⟨hs, hd⟩ := h.groups hsrc hdest
    exact localSearch_groups gs hs hd (by rw [h.numDest]) h.fuel

/-- Rewriting a frame takes nothing from the tables but the records of its own slices. -/
theorem rewriteFrame_withVals {f g : Nat → LiveValue} {st : Dst} (h : SitesAt src st.ctx gs)
    (h' : SitesAt (src.withVals f) (st.ctx.withVals g) gs) (hw : Walkable src st.ctx gs)
    (hn : ∀ p ∈ gs, ∀ w ∈ p.2.records, ConstantFits p.1.first w) (found : Bool) :
    rewriteFrame (src.withVals f) found (st.withVals g) = (rewriteFrame src found st).map (Dst.withVals · g) := by
  have hsearch : ∀ c, SameFrames st.ctx c → ∀ ptr, frameSearch (src.withVals f) (c.withVals g) ptr = frameSearch src c ptr := by
    intro c hc ptr
    have hc' : SameFrames (st.ctx.withVals g) (c.withVals g) :=
      ⟨congrArg (Handle.withVals · g) hc.handle, hc.stackBase, hc.stack, hc.numActs, hc.act, hc.pool, hc.site, hc.cfa, hc.calleeSaved⟩
    have hwc := hw.same hc
    have hw' : Walkable (src.withVals f) (c.withVals g) gs := hwc
    rw [(h.same hc).frameSearch_eq hwc, (h'.same hc').frameSearch_eq hw', searchGroups_withVals]
  have hvals : frameVals (src.withVals f) (st.ctx.withVals g) (false, st.withVals g) =
      (frameVals src st.ctx (false, st)).map fun r => (r.1, r.2.withVals g) := by
    have hs' : SitesAt (src.withVals f) (st.withVals g).ctx gs := h'
    rw [h.frameVals_eq hw]
    refine (hs'.frameVals_eq hw).trans ?_
    exact rewriteGroups_withVals (s := (false, st)) gs h.source.records h'.source.records hn
  unfold rewriteFrame
  show (frameVals (src.withVals f) (st.ctx.withVals g) (false, st.withVals g) >>= _) =
    Except.map _ (frameVals src st.ctx (false, st) >>= _)
  rw [hvals]
  cases hr : frameVals src st.ctx (false, st) with
  | error e => rfl
  | ok r =>
    have hsame : SameFrames st.ctx r.2.ctx :=
      rewriteVals_rule (P := fun s => SameFrames st.ctx s.ctx) (fun s l c bs hs => hs.trans (writeBoth_same s l c bs))
        (fun s fs hs => hs.trans (setFixups_same s fs)) _ hr (SameFrames.refl _)
    have harch := rewriteArchVals_withVals (g := g) (List.range' st.ctx.cur.site.archLiveOffset st.ctx.cur.site.numArchLive.toNat) r.2
    show (List.foldlM rewriteArchVal (r.2.withVals g) (List.range' st.ctx.cur.site.archLiveOffset st.ctx.cur.site.numArchLive.toNat)
      >>= _) = Except.map _ (List.foldlM rewriteArchVal r.2 _ >>= _)
    rw [harch]
    cases ha : List.foldlM rewriteArchVal r.2 (List.range' st.ctx.cur.site.archLiveOffset st.ctx.cur.site.numArchLive.toNat) with
    | error e => rfl
    | ok st2 =>
      show (if r.1 = true then _ else _) = Except.map _ (if r.1 = true then _ else _)
      split
      · have hsame2 : SameFrames st.ctx st2.ctx :=
          foldlM_inv (P := fun _ (s : Dst) => SameFrames st.ctx s.ctx)
            (fun _ _ _ _ hp h => rewriteArchVal_rule (P := fun s => SameFrames st.ctx s.ctx)
              (fun s l c bs hs => hs.trans (writeBoth_same s l c bs)) h hp) _ [] _ _ hsame ha
        exact fixupLoop_withVals hsearch _ hsame2
      · rfl

end

/-! ## Reads inside the tables -/

/-- `live_vals[i]` of an array of `live_vals_count` records. -/
def checkedValAt (h : Handle) (i : Nat) : Except Fault LiveValue :=
  if i < h.liveValsCount then .ok (h.liveVals i) else .error .outOfBounds

/-- The walk of `rewrite_frame` and where its cursors end. -/
def checkedVals (src d : Ctx) (s : Bool × Dst) : Except Fault (Nat × Nat × Bool × Dst) :=
  lockstep (checkedValAt src.handle) (checkedValAt d.handle) LiveValue.isDuplicate .outOfBounds (sectionFuel src.handle)
    (sectionFuel d.handle) (d.cur.site.liveOffset + d.cur.site.numLive.toNat) (rewriteOne src) d.cur.site.numLive.toNat
    src.cur.site.liveOffset d.cur.site.liveOffset s

/-- The walk of `fixup_local_pointers`. -/
def checkedSearch (src d : Ctx) (ptr : Nat) : Except Fault Nat :=
  (lockfind (checkedValAt src.handle) (checkedValAt d.handle) LiveValue.isDuplicate .outOfBounds (sectionFuel src.handle)
    (sectionFuel d.handle) (d.cur.site.liveOffset + d.cur.site.numLive.toNat) (searchTest src d ptr) d.cur.site.numLive.toNat
    src.cur.site.liveOffset d.cur.site.liveOffset).map fun r => r.getD 0

theorem SliceAt.chunks {h : Handle} {i : Nat} {gs : List Group} (hs : SliceAt h i gs) :
    ChunksAt (checkedValAt h) LiveValue.isDuplicate i (gs.map Group.chunk) := by
  apply hs.records.chunks gs
  intro k hk
  exact if_pos (Nat.lt_of_lt_of_le hk hs.inside)

theorem SliceAt.fresh {h : Handle} {i : Nat} {gs : List Group} (hs : SliceAt h i gs)
    (hlt : i + (gs.flatMap Group.records).length < h.liveValsCount) :
    FirstAt (checkedValAt h) LiveValue.isDuplicate (i + (gs.flatMap Group.records).length) := ⟨_, if_pos hlt, hs.next hlt⟩

section
variable {src d : Ctx} {gs : List (Group × Group)}

/-- The two slices as chunks, and where they end. -/
theorem SitesAt.chunks (h : SitesAt src d gs) :
    let cs := gs.map fun g => (g.1.chunk, g.2.chunk)
    (ChunksAt (checkedValAt src.handle) LiveValue.isDuplicate src.cur.site.liveOffset (cs.map Prod.fst) ∧
      chunksEnd src.cur.site.liveOffset (cs.map Prod.fst) = src.cur.site.liveOffset + src.cur.site.numLive.toNat) ∧
    ChunksAt (checkedValAt d.handle) LiveValue.isDuplicate d.cur.site.liveOffset (cs.map Prod.snd) ∧
      chunksEnd d.cur.site.liveOffset (cs.map Prod.snd) = d.cur.site.liveOffset + d.cur.site.numLive.toNat := by
  dsimp only
  rw [chunks_fst, chunks_snd, h.numSrc, h.numDest]
  exact ⟨⟨h.source.chunks, chunksEnd_groups _ _⟩, h.dest.chunks, chunksEnd_groups _ _⟩

theorem SitesAt.dups_lt (h : SitesAt src d gs) :
    ∀ c ∈ gs.map fun g => (g.1.chunk, g.2.chunk), c.1.2.length < sectionFuel src.handle ∧ c.2.2.length < sectionFuel d.handle := by
  intro c hc
  obtain ⟨g, hg, rfl⟩ := List.mem_map.mp hc
  exact ⟨Popcorn.Runtime.dups_lt h.source.inside (List.mem_map_of_mem hg), Popcorn.Runtime.dups_lt h.dest.inside (List.mem_map_of_mem hg)⟩

theorem SitesAt.inStep (h : SitesAt src d gs) (hw : Walkable src d gs) :
    InStep (checkedValAt src.handle) (checkedValAt d.handle) LiveValue.isDuplicate (sectionFuel src.handle) (sectionFuel d.handle)
      (d.cur.site.liveOffset + d.cur.site.numLive.toNat) src.cur.site.liveOffset d.cur.site.liveOffset
      (gs.map fun g => (g.1.chunk, g.2.chunk)) := by
  obtain ⟨⟨hl, hle⟩, hr, hre⟩ := h.chunks
  refine ⟨hl, hr, hre, ?_, h.dups_lt⟩
  intro hne
  obtain ⟨hsrc, hdest⟩ := hw.resolve_left fun he => hne (he ▸ rfl)
  unfold NotLast at hsrc hdest
  rw [hle]
  rw [h.numSrc] at hsrc ⊢
  rw [h.numDest] at hdest ⊢
  exact ⟨h.source.fresh hsrc, h.dest.fresh hdest⟩

theorem SitesAt.checkedVals_eq {st : Dst} (h : SitesAt src st.ctx gs) (hw : Walkable src st.ctx gs) :
    checkedVals src st.ctx (false, st) = (do
      let s ← rewriteGroups src src.cur.site.liveOffset gs (false, st)
      pure (src.cur.site.liveOffset + src.cur.site.numLive.toNat, st.ctx.cur.site.liveOffset + st.ctx.cur.site.numLive.toNat, s)) := by
  unfold checkedVals
  rw [lockstep_chunks _ (h.inStep hw) (by rw [List.length_map]; exact h.fuel), visitChunks_groups, h.chunks.1.2]

theorem SitesAt.checkedSearch_eq (h : SitesAt src d gs) (hw : Walkable src d gs) (ptr : Nat) :
    checkedSearch src d ptr = searchGroups src d ptr gs := by
  unfold checkedSearch
  rw [lockfind_chunks _ (h.inStep hw) (by rw [List.length_map]; exact h.fuel), findChunk_groups]

/-- At the end of a table, the walk over checked tables fails. -/
theorem SitesAt.checkedVals_fails {st : Dst} (h : SitesAt src st.ctx gs) (hw : ¬ Walkable src st.ctx gs) {s : Bool × Dst}
    (hok : rewriteGroups src src.cur.site.liveOffset gs (false, st) = .ok s) : ∃ e, checkedVals src st.ctx (false, st) = .error e := by
  obtain ⟨⟨hl, hle⟩, hr, hre⟩ := h.chunks
  have hne : gs.map (fun g => (g.1.chunk, g.2.chunk)) ≠ [] := by
    intro he
    exact hw (.inl (List.map_eq_nil_iff.mp he))
  refine lockstep_fails _ hl hr hre hne ?_ h.dups_lt (by rw [List.length_map]; exact h.fuel) ((visitChunks_groups ..).trans hok)
  rw [hle]
  by_cases hdest : NotLast st.ctx
  · refine .inl ⟨.outOfBounds, if_neg fun hsrc => hw (.inr ⟨hsrc, hdest⟩), ?_⟩
    unfold NotLast at hdest
    rw [h.numDest] at hdest ⊢
    exact h.dest.fresh hdest
  · exact .inr ⟨.outOfBounds, if_neg hdest⟩

end

/-! ## The walk stays inside -/

/-- What the walks of a frame are to do: visit the values of the two sites group by group, read
    nothing past the tables, and depend on no other site's records. -/
structure PairedInside (src : Ctx) (st : Dst) (gs : List (Group × Group)) : Prop where
  pairs : frameVals src st.ctx (false, st) = rewriteGroups src src.cur.site.liveOffset gs (false, st)
  inside : checkedVals src st.ctx (false, st) = (do
    let s ← rewriteGroups src src.cur.site.liveOffset gs (false, st)
    pure (src.cur.site.liveOffset + src.cur.site.numLive.toNat, st.ctx.cur.site.liveOffset + st.ctx.cur.site.numLive.toNat, s))
  search : ∀ d, SameFrames st.ctx d → ∀ ptr,
    frameSearch src d ptr = searchGroups src d ptr gs ∧ checkedSearch src d ptr = searchGroups src d ptr gs
  own : ∀ f g, SitesAt (src.withVals f) (st.ctx.withVals g) gs →
    ∀ found, rewriteFrame (src.withVals f) found (st.withVals g) = (rewriteFrame src found st).map (Dst.withVals · g)

theorem paired_inside_iff (src : Ctx) (st : Dst) (gs : List (Group × Group)) (h : SitesAt src st.ctx gs)
    (hn : ∀ p ∈ gs, ∀ w ∈ p.2.records, ConstantFits p.1.first w)
    (hok : ∃ s, rewriteGroups src src.cur.site.liveOffset gs (false, st) = .ok s) :
    PairedInside src st gs ↔ gs = [] ∨ (NotLast src ∧ NotLast st.ctx) := by
  constructor
  · intro hp
    obtain ⟨s, hs⟩ := hok
    by_contra hw
    obtain ⟨e, he⟩ := h.checkedVals_fails hw hs
    have hin := hp.inside
    rw [hs] at hin
    cases he.symm.trans hin
  · intro (hw : Walkable src st.ctx gs)
    refine ⟨h.frameVals_eq hw, h.checkedVals_eq hw, ?_, ?_⟩
    · intro d hd ptr
      exact ⟨(h.same hd).frameSearch_eq (hw.same hd) ptr, (h.same hd).checkedSearch_eq (hw.same hd) ptr⟩
    · intro f g h' found
      exact rewriteFrame_withVals h h' hw hn found

/-! ## One value in a table of `n` records -/

/-- The frame of `localFrame`, whose slice is the first record of a table. -/
def tableFrame (n : Nat) : Dst :=
  { localFrame [] with ctx := { (localFrame []).ctx with handle := { localHandle with liveValsCount := n } } }

theorem tableFrame_slice {n : Nat} (hn : 1 ≤ n) : SliceAt (tableFrame n).ctx.handle 0 [localGroup] := ⟨localGroup_at.records, hn, fun _ => rfl⟩

theorem tableFrame_sites {n : Nat} (hn : 1 ≤ n) : SitesAt (tableFrame n).ctx (tableFrame n).ctx [(localGroup, localGroup)] :=
  ⟨tableFrame_slice hn, tableFrame_slice hn, rfl, rfl⟩

theorem tableFrame_fits : ∀ p ∈ [(localGroup, localGroup)], ∀ w ∈ p.2.records, ConstantFits p.1.first w := by
  intro p hp w _
  obtain rfl := List.mem_singleton.mp hp
  exact fun h => nomatch h

theorem tableFrame_ok (n : Nat) :
    ∃ s, rewriteGroups (tableFrame n).ctx (tableFrame n).ctx.cur.site.liveOffset [(localGroup, localGroup)] (false, tableFrame n) = .ok s :=
  ⟨_, rfl⟩

/-- Another slice follows. -/
theorem paired_inside_iff_followed : PairedInside (tableFrame 2).ctx (tableFrame 2) [(localGroup, localGroup)] :=
  (paired_inside_iff _ _ _ (tableFrame_sites (by decide)) tableFrame_fits (tableFrame_ok 2)).mpr
    (.inr ⟨by unfold NotLast; decide, by unfold NotLast; decide⟩)

/-- In the last slice the look-ahead reads the record `live_vals_count`. -/
theorem last_slice_reads_past : SitesAt (tableFrame 1).ctx (tableFrame 1).ctx [(localGroup, localGroup)] ∧
    checkedVals (tableFrame 1).ctx (tableFrame 1).ctx (false, tableFrame 1) = .error .outOfBounds ∧
    ¬ PairedInside (tableFrame 1).ctx (tableFrame 1) [(localGroup, localGroup)] := by
  have hread : checkedVals (tableFrame 1).ctx (tableFrame 1).ctx (false, tableFrame 1) = .error .outOfBounds := rfl
  refine ⟨tableFrame_sites (by decide), hread, ?_⟩
  intro hp
  obtain ⟨s, hs⟩ := tableFrame_ok 1
  have hin := hp.inside
  rw [hs] at hin
  cases hread.symm.trans hin

end Popcorn.Runtime
