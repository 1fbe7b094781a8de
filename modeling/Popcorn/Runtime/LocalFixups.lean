/-
  Popcorn.Runtime.LocalFixups — the fixups within a frame
  (lib/stack_transformation/src/rewrite.c, `fixup_local_pointers`).

  The walk over the pending fixups resolves those of the current activation that point into
  an alloca of the frame. It goes on to the next fixup unless `found_fixup` says that it
  already stands at it. The flag is set at the current activation's fixups only: at a fixup
  above the frame it is that of an earlier one, and before the first it is whatever the stack
  held.

  Proved: `local_fixups_iff`: the walk ends, with one outcome for every first value of the
  flag and every fixup dealt with once, exactly when each fixup above the frame comes after
  one of the current activation, the last of which was not resolved.
-/

import Popcorn.Runtime.Aborts
import Popcorn.Runtime.ArchValues

namespace Popcorn.Runtime

open Popcorn.Lib Popcorn.Metadata

/-! ## The outcome -/

/-- The address of a value of the current frame that is in memory. -/
def blockOf (c : Ctx) (v : LiveValue) : Option Nat :=
  match getValLoc c v.type v.regnum v.offsetOrConstant.toInt c.act with
  | .ok (.mem a) => some a
  | _ => none

def isAllocaPair (g : Group × Group) : Bool := g.1.first.isAlloca && g.2.first.isAlloca

/-- Where the byte at `ptr` of an alloca is in the destination. -/
def movedTo (src dest : Ctx) (ptr : Nat) (g : Group × Group) : Option Nat :=
  if isAllocaPair g then
    match blockOf src g.1.first, blockOf dest g.2.first with
    | some a, some b => if a ≤ ptr ∧ ptr < a + g.1.first.valSize then some (b + (ptr - a)) else none
    | _, _ => none
  else none

/-- What a fixup of the current activation is resolved to, if it falls in a live alloca. -/
def resolvedTo (src dest : Ctx) (gs : List (Group × Group)) (f : Fixup) : Option Nat :=
  if f.act = src.act then gs.findSome? (movedTo src dest f.srcAddr) else none

/-- One visit of a fixup. -/
def visitFixup (src dest : Ctx) (gs : List (Group × Group)) (st : Dst) (f : Fixup) : Except Fault Dst :=
  match resolvedTo src dest gs f with
  | some addr => putValData st f.destLoc f.act addr
  | none => .ok st

/-- Every pending fixup is visited once, in order; the resolved ones are written and removed, the
    others stay as they were. -/
def FixupsResolved (src : Ctx) (gs : List (Group × Group)) (st out : Dst) : Prop :=
  ∃ st', st.ctx.stackPointers.foldlM (visitFixup src st.ctx gs) st = .ok st' ∧
    out = st'.setFixups (st.ctx.stackPointers.filter fun f => (resolvedTo src st.ctx gs f).isNone)

/-- A fixup of the current activation at or below the CFA: one the flag is set at. -/
def ownFixup (src : Ctx) (f : Fixup) : Bool := decide (f.srcAddr ≤ src.cur.cfa) && decide (f.act = src.act)

/-- Each fixup above the CFA comes after an own one, and the last of these is not resolved. -/
def FlagReset (src dest : Ctx) (gs : List (Group × Group)) (fs : List Fixup) : Prop :=
  ∀ pre f post, fs = pre ++ f :: post → src.cur.cfa < f.srcAddr →
    ∃ g, (pre.filter (ownFixup src)).getLast? = some g ∧ resolvedTo src dest gs g = none

/-- An alloca is in the frame, and its copy in the destination is no null pointer. -/
structure AllocaInFrame (src dest : Ctx) (g : Group × Group) : Prop where
  source : ∃ a, blockOf src g.1.first = some a ∧ a + g.1.first.valSize ≤ src.cur.cfa
  dest : ∃ b, blockOf dest g.2.first = some b ∧ 0 < b ∧ b + g.1.first.valSize ≤ 18446744073709551616

/-- The current call sites list the same values `gs`, and the pending pointers of the frame can
    be written, none of them to a register an alloca is addressed by. -/
structure LocalFrame (src : Ctx) (st : Dst) (gs : List (Group × Group)) : Prop where
  act : st.ctx.act = src.act
  source : GroupsAt src.handle src.cur.site.liveOffset (gs.map Prod.fst)
  dest : GroupsAt st.ctx.handle st.ctx.cur.site.liveOffset (gs.map Prod.snd)
  count : ((gs.map Prod.snd).flatMap Group.records).length = st.ctx.cur.site.numLive.toNat
  cfa : src.cur.cfa < 18446744073709551616
  allocas : ∀ g ∈ gs, isAllocaPair g = true → AllocaInFrame src st.ctx g
  places : ∀ f ∈ st.ctx.stackPointers, f.act = src.act → Placeable st.ctx.regops f.destLoc ∧
    ∃ s, calleeAddr st.ctx f.destLoc.type f.destLoc.regnum f.act = .ok s
  apart : ∀ f ∈ st.ctx.stackPointers, f.act = src.act → LocationType.ofCode f.destLoc.type = some .register →
    ∀ g ∈ gs, isAllocaPair g = true → f.destLoc.regnum ≠ g.2.first.regnum

/-! ## The search -/

theorem blockOf_eq {c : Ctx} {v : LiveValue} {a : Nat} (h : blockOf c v = some a) :
    getValLoc c v.type v.regnum v.offsetOrConstant.toInt c.act = .ok (.mem a) := by
  unfold blockOf at h
  split at h
  · rename_i hl
    cases h
    exact hl
  · cases h

section
variable {src dest : Ctx}

theorem movedTo_ne_zero {g : Group × Group} {ptr addr : Nat} (h : AllocaInFrame src dest g)
    (hm : movedTo src dest ptr g = some addr) : addr ≠ 0 ∧ ptr < src.cur.cfa := by
  obtain ⟨⟨a, ha, hcfa⟩, b, hb, hpos, -⟩ := h
  unfold movedTo at hm
  rw [ha, hb] at hm
  split at hm
  · dsimp only at hm
    split at hm
    · cases hm
      omega
    · cases hm
  · cases hm

/-- The search for the alloca of a pointer. -/
theorem pointsToData_moved {g : Group × Group} (h : AllocaInFrame src dest g) (hg : isAllocaPair g = true)
    (hcfa : src.cur.cfa < 18446744073709551616) (ptr : Nat) :
    pointsToData src g.1.first dest g.2.first ptr = .ok ((movedTo src dest ptr g).getD 0) := by
  obtain ⟨⟨a, ha, hin⟩, b, hb, hpos, hroom⟩ := h
  have hend : padd a g.1.first.valSize = a + g.1.first.valSize := padd_eq (by omega) (by omega)
  unfold pointsToData movedTo
  rw [blockOf_eq ha, blockOf_eq hb, ha, hb, if_pos hg]
  show (if a ≤ ptr ∧ ptr < padd a g.1.first.valSize then _ else _) = _
  rw [hend]
  dsimp only
  split
  · rename_i hptr
    have hmove : padd b (ptr - a : Nat) = b + (ptr - a) := padd_eq (by omega) (by omega)
    exact congrArg Except.ok hmove
  · rfl

theorem movedTo_congr {dest' : Ctx} {ptr : Nat} {g : Group × Group}
    (h : isAllocaPair g = true → blockOf dest' g.2.first = blockOf dest g.2.first) : movedTo src dest' ptr g = movedTo src dest ptr g := by
  unfold movedTo
  split
  · rename_i hg
    rw [h hg]
  · rfl

theorem searchGroups_moved {dest' : Ctx} (hcfa : src.cur.cfa < 18446744073709551616) (ptr : Nat) (gs : List (Group × Group))
    (h : ∀ g ∈ gs, isAllocaPair g = true → AllocaInFrame src dest g)
    (hb : ∀ g ∈ gs, isAllocaPair g = true → blockOf dest' g.2.first = blockOf dest g.2.first) :
    searchGroups src dest' ptr gs = .ok ((gs.findSome? (movedTo src dest ptr)).getD 0) := by
  induction gs with
  | nil => rfl
  | cons g gs ih =>
    have hrest := ih (fun g' hg' => h g' (List.mem_cons_of_mem g hg')) (fun g' hg' => hb g' (List.mem_cons_of_mem g hg'))
    unfold searchGroups
    rw [List.findSome?_cons]
    by_cases hg : isAllocaPair g = true
    · have hin := h g List.mem_cons_self hg
      have hin' : AllocaInFrame src dest' g := ⟨hin.source, by rw [hb g List.mem_cons_self hg]; exact hin.dest⟩
      rw [show (g.1.first.isAlloca && g.2.first.isAlloca) = true from hg, if_pos rfl, pointsToData_moved hin' hg hcfa,
        movedTo_congr (hb g List.mem_cons_self)]
      cases hm : movedTo src dest ptr g with
      | none => exact hrest
      | some addr => exact if_pos (movedTo_ne_zero hin hm).1
    · have hnone : movedTo src dest ptr g = none := if_neg hg
      rw [if_neg (show ¬ (g.1.first.isAlloca && g.2.first.isAlloca) = true from hg), hnone]
      exact hrest

end

/-! ## Writing a pointer -/

theorem saveLocLoop_ok {h : Handle} {fbp fbp' a : Nat} {r : UInt16} {is : List Nat} (hok : saveLocLoop h fbp r is = .ok a) :
    ∃ a', saveLocLoop h fbp' r is = .ok a' := by
  induction is with
  | nil => exact ⟨_, rfl⟩
  | cons i is ih =>
    unfold saveLocLoop at hok ⊢
    obtain ⟨l, hl, hok⟩ := bind_ok.mp hok
    rw [hl]
    change (if l.reg = r then _ else _) = _ at hok
    show ∃ a', (if l.reg = r then _ else _) = _
    split at hok
    · rename_i heq
      rw [if_pos heq]
      exact ⟨_, rfl⟩
    · rename_i hne
      rw [if_neg hne]
      exact ih hok

/-- Where a register is saved may change with the FBPs; that it is found does not. -/
theorem savedLocLoop_ok {c c' : Ctx} {r : UInt16} (hs : SameFrames c c') : ∀ {k : Nat} {s : Option Loc},
    savedLocLoop c r k = .ok s → ∃ s', savedLocLoop c' r k = .ok s' := by
  intro k
  induction k with
  | zero =>
    intro s h
    unfold savedLocLoop Ctx.regops at h ⊢
    rw [hs.handle]
    exact ⟨s, h⟩
  | succ k ih =>
    intro s h
    unfold savedLocLoop at h ⊢
    rw [hs.handle, hs.pool, hs.calleeSaved]
    obtain ⟨b, hb, h⟩ := bind_ok.mp h
    rw [hb]
    cases b with
    | false => exact ih h
    | true =>
      obtain ⟨a, ha, -⟩ := bind_ok.mp h
      obtain ⟨a', ha'⟩ : ∃ a', getRegisterSaveLoc c' (c'.acts k) r = .ok a' := by
        unfold getRegisterSaveLoc at ha ⊢
        rw [hs.handle, hs.site]
        exact saveLocLoop_ok ha
      show ∃ s', (getRegisterSaveLoc c' (c'.acts k) r >>= _) = _
      rw [ha']
      exact ⟨_, rfl⟩

theorem calleeAddr_ok {c c' : Ctx} {type : Fin 16} {r : UInt16} {k : Nat} {s : Option Loc} (hs : SameFrames c c')
    (h : calleeAddr c type r k = .ok s) : ∃ s', calleeAddr c' type r k = .ok s' := by
  unfold calleeAddr calleeSavedLoc Ctx.props at h ⊢
  rw [hs.handle]
  split at h
  · rename_i hc
    rw [if_pos hc]
    split at h
    · rename_i h0
      rw [if_pos h0]
      exact ⟨_, rfl⟩
    · rename_i h0
      rw [if_neg h0]
      exact savedLocLoop_ok hs h
  · rename_i hc
    rw [if_neg hc]
    exact ⟨_, rfl⟩

section
variable {st st' : Dst} {w : LiveValue} {data : Nat}

theorem rget_read (st : Dst) (k off : Nat) : rget (st.ctx.acts k).regs off = leVal (st.read (.reg k off) 8) := rfl

theorem blockOf_congr {v : LiveValue} (hs : SameFrames st.ctx st'.ctx)
    (hread : ∀ off, st.ctx.regops.reg v.regnum = .ok off → st'.read (.reg st.ctx.act off) 8 = st.read (.reg st.ctx.act off) 8) :
    blockOf st'.ctx v = blockOf st.ctx v := by
  have hrops : st'.ctx.regops = st.ctx.regops := by
    unfold Ctx.regops
    rw [hs.handle]
  unfold blockOf getValLoc
  rw [hrops, hs.act]
  have hplace : (do
      let off ← st.ctx.regops.reg v.regnum
      pure (Loc.mem (padd (rget (st'.ctx.acts st.ctx.act).regs off) v.offsetOrConstant.toInt))) = (do
      let off ← st.ctx.regops.reg v.regnum
      pure (Loc.mem (padd (rget (st.ctx.acts st.ctx.act).regs off) v.offsetOrConstant.toInt))) := by
    cases hr : st.ctx.regops.reg v.regnum with
    | error e => exact (rfl : (Except.error e : Except Fault Loc) = .error e)
    | ok off =>
      show Except.ok (Loc.mem (padd (rget (st'.ctx.acts st.ctx.act).regs off) _)) =
        Except.ok (Loc.mem (padd (rget (st.ctx.acts st.ctx.act).regs off) _))
      rw [rget_read, hread off hr, ← rget_read]
  rw [hplace]

/-- A pointer of the current activation is written beside the registers other values are in. -/
theorem putValData_reg (hput : putValData st w st.ctx.act data = .ok st') {r : UInt16} {off : Nat}
    (hne : LocationType.ofCode w.type = some .register → w.regnum ≠ r) (hr : st.ctx.regops.reg r = .ok off) :
    st'.read (.reg st.ctx.act off) 8 = st.read (.reg st.ctx.act off) 8 := by
  unfold putValData at hput
  split at hput
  · cases hput
    rfl
  · obtain ⟨l, hl, hput⟩ := bind_ok.mp hput
    obtain ⟨s, hs, hput⟩ := bind_ok.mp hput
    cases hput
    have hfirst : Loc.Disj (.reg st.ctx.act off) 8 l (leBytes 8 data).length := by
      rw [leBytes_length]
      unfold getValLoc at hl
      split at hl
      · rename_i htype
        obtain ⟨off', hoff, hl⟩ := bind_ok.mp hl
        cases hl
        exact .inr (reg_disj hr hoff (hne htype).symm)
      · obtain ⟨_, -, hl⟩ := bind_ok.mp hl
        cases hl
        trivial
      · obtain ⟨_, -, hl⟩ := bind_ok.mp hl
        cases hl
        trivial
      all_goals cases hl
    have hsecond : ∀ l' ∈ s, Loc.Disj (.reg st.ctx.act off) 8 l' (leBytes 8 data).length := by
      intro l' hl'
      obtain h | ⟨-, hact, ⟨a, h⟩ | ⟨off', h, -⟩⟩ := saved_cases (c := st.ctx) (d := ⟨w.type, w.regnum, 0⟩) hs
      · rw [h] at hl'
        cases hl'
      · rw [h] at hl'
        cases hl'
        trivial
      · rw [h] at hl'
        cases hl'
        exact .inl hact
    unfold writeBoth
    cases s with
    | none => exact read_writeLoc_disj st hfirst
    | some l' => exact (read_writeLoc_disj _ (hsecond l' rfl)).trans (read_writeLoc_disj st hfirst)

theorem putValData_same {k : Nat} (hput : putValData st w k data = .ok st') : SameFrames st.ctx st'.ctx := by
  obtain rfl | ⟨l, c, bs, rfl⟩ := putValData_cases hput
  · exact SameFrames.refl _
  · exact writeBoth_same st l c bs

theorem putValData_ok {k : Nat} {st0 : Dst} (hs : SameFrames st0.ctx st.ctx) (hw : Placeable st0.ctx.regops w)
    (hc : ∃ s, calleeAddr st0.ctx w.type w.regnum k = .ok s) : ∃ st', putValData st w k data = .ok st' := by
  have hrops : st.ctx.regops = st0.ctx.regops := by
    unfold Ctx.regops
    rw [hs.handle]
  unfold putValData
  split
  · exact ⟨st, rfl⟩
  · rename_i hconst
    obtain ⟨l, hl⟩ := Located.ok (c := st.ctx) (hrops ▸ hw.resolve_left hconst) w.offsetOrConstant.toInt k
    obtain ⟨s, hs0⟩ := hc
    obtain ⟨s', hs'⟩ := calleeAddr_ok hs hs0
    rw [hl, hs']
    exact ⟨_, rfl⟩

end

/-! ## The walk -/

/-- A state of the walk: nothing an alloca is found by has changed. -/
structure Walking (gs : List (Group × Group)) (st0 st : Dst) : Prop where
  same : SameFrames st0.ctx st.ctx
  blocks : ∀ g ∈ gs, isAllocaPair g = true → blockOf st.ctx g.2.first = blockOf st0.ctx g.2.first

/-- The flag after a walk over `fs`. -/
def flagAfter (src dest : Ctx) (gs : List (Group × Group)) (found : Bool) (fs : List Fixup) : Bool :=
  match (fs.filter (ownFixup src)).getLast? with
  | some g => (resolvedTo src dest gs g).isSome
  | none => found

theorem flagAfter_concat (src dest : Ctx) (gs : List (Group × Group)) (found : Bool) (fs : List Fixup) (f : Fixup) :
    flagAfter src dest gs found (fs ++ [f]) =
      if ownFixup src f then (resolvedTo src dest gs f).isSome else flagAfter src dest gs found fs := by
  unfold flagAfter
  rw [List.filter_append]
  by_cases h : ownFixup src f = true
  · rw [List.filter_cons_of_pos h, List.filter_nil, List.getLast?_concat, if_pos h]
  · rw [List.filter_cons_of_neg h, List.filter_nil, List.append_nil, if_neg h]

theorem flagAfter_false {src dest : Ctx} {gs : List (Group × Group)} {found : Bool} {fs : List Fixup} {g : Fixup}
    (hlast : (fs.filter (ownFixup src)).getLast? = some g) (hg : resolvedTo src dest gs g = none) :
    flagAfter src dest gs found fs = false := by
  unfold flagAfter
  rw [hlast]
  exact Option.isSome_eq_false_iff.mpr (Option.isNone_iff_eq_none.mpr hg)

section
variable {src : Ctx} {st0 st : Dst} {gs : List (Group × Group)} (h : LocalFrame src st0 gs) (hw : Walking gs st0 st)

include h hw in
theorem localSearch_moved (ptr : Nat) : localSearch src st.ctx ptr st.ctx.cur.site.numLive.toNat src.cur.site.liveOffset
    st.ctx.cur.site.liveOffset = .ok ((gs.findSome? (movedTo src st0.ctx ptr)).getD 0) := by
  have hfuel := groups_le_records (gs.map Prod.snd)
  rw [List.length_map, h.count, ← hw.same.curSite] at hfuel
  have hcount : st.ctx.cur.site.liveOffset + ((gs.map Prod.snd).flatMap Group.records).length =
      st.ctx.cur.site.liveOffset + st.ctx.cur.site.numLive.toNat := by
    rw [hw.same.curSite, h.count]
  have hdest : GroupsAt st.ctx.handle st.ctx.cur.site.liveOffset (gs.map Prod.snd) := by
    rw [hw.same.handle, hw.same.curSite]
    exact h.dest
  rw [localSearch_groups gs h.source hdest hcount hfuel, searchGroups_moved h.cfa ptr gs h.allocas hw.blocks]

include h in
theorem resolvedTo_ne_zero {f : Fixup} {addr : Nat} (hr : resolvedTo src st0.ctx gs f = some addr) :
    addr ≠ 0 ∧ f.srcAddr < src.cur.cfa ∧ f.act = src.act := by
  unfold resolvedTo at hr
  split at hr
  · rename_i hact
    obtain ⟨pre, g, post, rfl, hm, -⟩ := List.findSome?_eq_some_iff.mp hr
    have hpair : isAllocaPair g = true := by
      by_contra hg
      rw [show movedTo src st0.ctx f.srcAddr g = none from if_neg hg] at hm
      cases hm
    have hin := h.allocas g (List.mem_append_right pre List.mem_cons_self) hpair
    exact ⟨(movedTo_ne_zero hin hm).1, (movedTo_ne_zero hin hm).2, hact⟩
  · cases hr

include h hw in
theorem Walking.put {f : Fixup} (hf : f ∈ st0.ctx.stackPointers) (hact : f.act = src.act) (addr : Nat) :
    ∃ st1, putValData st f.destLoc f.act addr = .ok st1 ∧ Walking gs st0 st1 := by
  obtain ⟨hplace, hcallee⟩ := h.places f hf hact
  obtain ⟨st1, hput⟩ : ∃ st1, putValData st f.destLoc f.act addr = .ok st1 := putValData_ok hw.same hplace hcallee
  refine ⟨st1, hput, hw.same.trans (putValData_same hput), ?_⟩
  intro g hg hpair
  rw [← hw.blocks g hg hpair]
  have hcur : f.act = st.ctx.act := by rw [hact, hw.same.act, h.act]
  apply blockOf_congr (putValData_same hput)
  intro off hoff
  rw [hcur] at hput
  exact putValData_reg hput (fun htype => h.apart f hf hact htype g hg hpair) hoff

theorem fixupLoop_at (found : Bool) (kept fs : List Fixup) (f : Fixup) : fixupLoop src found kept (f :: fs) st =
    if f.srcAddr ≤ src.cur.cfa then
      if f.act ≠ src.act then fixupLoop src found (kept ++ [f]) fs st
      else do
        let addr ← localSearch src st.ctx f.srcAddr st.ctx.cur.site.numLive.toNat src.cur.site.liveOffset
          st.ctx.cur.site.liveOffset
        if addr ≠ 0 then
          let st ← putValData st f.destLoc f.act addr
          fixupLoop src true kept fs st
        else fixupLoop src false (kept ++ [f]) fs st
    else if found then .error .hang
    else fixupLoop src found (kept ++ [f]) fs st := rfl

include h hw in
/-- One round of the walk, where it goes on. -/
theorem fixupLoop_cons {f : Fixup} (hf : f ∈ st0.ctx.stackPointers) (found : Bool) (kept fs : List Fixup)
    (hflag : src.cur.cfa < f.srcAddr → found = false) : ∃ st1, visitFixup src st0.ctx gs st f = .ok st1 ∧ Walking gs st0 st1 ∧
      fixupLoop src found kept (f :: fs) st =
        fixupLoop src (if ownFixup src f then (resolvedTo src st0.ctx gs f).isSome else found)
          (kept ++ [f].filter fun f => (resolvedTo src st0.ctx gs f).isNone) fs st1 := by
  -- one that is not an own fixup, or not in an alloca, stays as it is
  have hstay : resolvedTo src st0.ctx gs f = none → visitFixup src st0.ctx gs st f = .ok st ∧
      kept ++ [f].filter (fun f => (resolvedTo src st0.ctx gs f).isNone) = kept ++ [f] := by
    intro hnone
    constructor
    · unfold visitFixup
      rw [hnone]
    · rw [List.filter_cons_of_pos (by rw [hnone]; rfl), List.filter_nil]
  rw [fixupLoop_at]
  by_cases hle : f.srcAddr ≤ src.cur.cfa
  · rw [if_pos hle]
    by_cases hact : f.act = src.act
    · have hown : ownFixup src f = true := by
        unfold ownFixup
        rw [decide_eq_true hle, decide_eq_true hact]
        rfl
      have hres : resolvedTo src st0.ctx gs f = gs.findSome? (movedTo src st0.ctx f.srcAddr) := if_pos hact
      rw [if_neg (fun hne => hne hact), localSearch_moved h hw, ← hres, if_pos hown]
      cases hr : resolvedTo src st0.ctx gs f with
      | none =>
        obtain ⟨hv, hk⟩ := hstay hr
        rw [hk]
        exact ⟨st, hv, hw, rfl⟩
      | some addr =>
        obtain ⟨st1, hput, hw1⟩ := hw.put h hf hact addr
        have hv : visitFixup src st0.ctx gs st f = .ok st1 := by
          unfold visitFixup
          rw [hr]
          exact hput
        refine ⟨st1, hv, hw1, ?_⟩
        rw [List.filter_cons_of_neg (by rw [hr]; exact Bool.false_ne_true), List.filter_nil, List.append_nil]
        show (if addr ≠ 0 then putValData st f.destLoc f.act addr >>= fixupLoop src true kept fs else _) = _
        rw [if_pos (resolvedTo_ne_zero h hr).1, hput]
        rfl
    · have hown : ¬ ownFixup src f = true := by
        unfold ownFixup
        rw [decide_eq_false hact, Bool.and_false]
        exact Bool.false_ne_true
      obtain ⟨hv, hk⟩ := hstay (if_neg hact)
      rw [if_pos hact, if_neg hown, hk]
      exact ⟨st, hv, hw, rfl⟩
  · have hown : ¬ ownFixup src f = true := by
      unfold ownFixup
      rw [decide_eq_false hle, Bool.false_and]
      exact Bool.false_ne_true
    have hnone : resolvedTo src st0.ctx gs f = none := by
      cases hr : resolvedTo src st0.ctx gs f with
      | none => rfl
      | some addr => exact absurd (Nat.le_of_lt (resolvedTo_ne_zero h hr).2.1) hle
    obtain ⟨hv, hk⟩ := hstay hnone
    rw [if_neg hle, hflag (Nat.lt_of_not_le hle), if_neg hown, hk]
    exact ⟨st, hv, hw, rfl⟩

end

section
variable {src : Ctx} {st0 : Dst} {gs : List (Group × Group)} (h : LocalFrame src st0 gs)

include h in
/-- Where the flag is reset in time the walk visits every fixup that is left. -/
theorem fixupLoop_run (hreset : FlagReset src st0.ctx gs st0.ctx.stackPointers) (found : Bool) : ∀ (fs pre kept : List Fixup) {st : Dst},
    st0.ctx.stackPointers = pre ++ fs → Walking gs st0 st → ∃ st', fs.foldlM (visitFixup src st0.ctx gs) st = .ok st' ∧
      fixupLoop src (flagAfter src st0.ctx gs found pre) kept fs st =
        .ok (st'.setFixups (kept ++ fs.filter fun f => (resolvedTo src st0.ctx gs f).isNone)) := by
  intro fs
  induction fs with
  | nil =>
    intro pre kept st _ _
    refine ⟨st, rfl, ?_⟩
    rw [List.filter_nil, List.append_nil]
    rfl
  | cons f fs ih =>
    intro pre kept st hsplit hw
    have hflag : src.cur.cfa < f.srcAddr → flagAfter src st0.ctx gs found pre = false := by
      intro hlt
      obtain ⟨g, hlast, hg⟩ := hreset pre f fs hsplit hlt
      exact flagAfter_false hlast hg
    have hmem : f ∈ st0.ctx.stackPointers := hsplit ▸ List.mem_append_right pre List.mem_cons_self
    obtain ⟨st1, hvisit, hw1, hstep⟩ := fixupLoop_cons h hw hmem _ kept fs hflag
    rw [hstep, ← flagAfter_concat]
    obtain ⟨st', hrun, hloop⟩ := ih (pre ++ [f]) (kept ++ [f].filter fun f => (resolvedTo src st0.ctx gs f).isNone)
      (by rw [hsplit, List.append_assoc]; rfl) hw1
    refine ⟨st', ?_, ?_⟩
    · rw [List.foldlM_cons, hvisit]
      exact hrun
    · rw [hloop, List.append_assoc, ← List.filter_append]
      rfl

include h in
/-- A walk that ends has found the flag reset at every fixup above the frame. -/
theorem fixupLoop_reset (found : Bool) {out : Dst} : ∀ (fs pre kept : List Fixup) {st : Dst},
    st0.ctx.stackPointers = pre ++ fs → Walking gs st0 st →
    fixupLoop src (flagAfter src st0.ctx gs found pre) kept fs st = .ok out →
    ∀ p f q, fs = p ++ f :: q → src.cur.cfa < f.srcAddr → flagAfter src st0.ctx gs found (pre ++ p) = false := by
  intro fs
  induction fs with
  | nil =>
    intro _ _ _ _ _ _ p f q hf
    exact absurd (congrArg List.length hf) (by simp)
  | cons f0 fs ih =>
    intro pre kept st hsplit hw hout p f q hf hlt
    have hflag : src.cur.cfa < f0.srcAddr → flagAfter src st0.ctx gs found pre = false := by
      intro hlt0
      rw [Bool.eq_false_iff]
      intro hset
      rw [fixupLoop_at, if_neg (Nat.not_le_of_lt hlt0), if_pos hset] at hout
      cases hout
    cases p with
    | nil =>
      cases hf
      rw [List.append_nil]
      exact hflag hlt
    | cons f1 p =>
      obtain ⟨rfl, hrest⟩ := List.cons.inj hf
      have hmem : f0 ∈ st0.ctx.stackPointers := hsplit ▸ List.mem_append_right pre List.mem_cons_self
      obtain ⟨st1, -, hw1, hstep⟩ := fixupLoop_cons h hw hmem _ kept fs hflag
      rw [hstep, ← flagAfter_concat] at hout
      have hfalse := ih (pre ++ [f0]) _ (by rw [hsplit, List.append_assoc]; rfl) hw1 hout p f q hrest hlt
      rw [List.append_assoc] at hfalse
      exact hfalse

end

theorem local_fixups_iff (src : Ctx) (st : Dst) (gs : List (Group × Group)) (h : LocalFrame src st gs) :
    (∃ out, FixupsResolved src gs st out ∧ ∀ found, fixupLocalPointers src found st = .ok out) ↔
      FlagReset src st.ctx gs st.ctx.stackPointers := by
  have hw : Walking gs st st := ⟨SameFrames.refl st.ctx, fun _ _ _ => rfl⟩
  constructor
  · intro ⟨out, _, hout⟩ pre f post hsplit hlt
    have hflag := fixupLoop_reset h true st.ctx.stackPointers [] [] (List.nil_append _).symm hw (hout true) pre f post hsplit hlt
    rw [List.nil_append] at hflag
    unfold flagAfter at hflag
    cases hlast : (pre.filter (ownFixup src)).getLast? with
    | none =>
      rw [hlast] at hflag
      cases hflag
    | some g =>
      rw [hlast] at hflag
      refine ⟨g, rfl, ?_⟩
      exact Option.isNone_iff_eq_none.mp (Option.isSome_eq_false_iff.mp hflag)
  · intro hreset
    obtain ⟨st', hrun, -⟩ := fixupLoop_run h hreset true st.ctx.stackPointers [] [] (List.nil_append _).symm hw
    refine ⟨_, ⟨st', hrun, rfl⟩, ?_⟩
    intro found
    obtain ⟨st'', hrun', hloop⟩ := fixupLoop_run h hreset found st.ctx.stackPointers [] [] (List.nil_append _).symm hw
    cases hrun.symm.trans hrun'
    exact hloop

/-! ## A frame with one alloca -/

/-- The eight bytes at `%rbp - 24`. -/
def localBlock : LiveValue := ⟨false, true, true, false, 2, 8, 6, -24, 8⟩
def localPtr : LiveValue := ⟨false, false, true, false, 1, 8, 0, 0, 0⟩

def localHandle : Handle where
  arch := .x86_64
  unwindAddrs := []
  unwindLocs := []
  sitesId := []
  sitesAddr := []
  liveVals i := if i = 0 then localBlock else localPtr
  liveValsCount := 1
  archLiveVals := []
  sites_len := no_sites

/-- The frame at 0x30000 with the fixups `fs` pending. -/
def localFrame (fs : List Fixup) : Dst where
  mem := fun _ => 0
  ctx :=
    { handle := localHandle
      stackBase := 0x40000
      stack := 0x20000
      numActs := 3
      act := 1
      acts := fun _ => ⟨{ emptyCallSite with numLive := 1 }, 0x30000, rset (fun _ => 0) 56 0x2FFF0, ⟨67, 0⟩⟩
      stackPointers := fs
      pool := fun _ => 0 }

theorem localBlock_first : localBlock.isDuplicate = false := rfl
theorem none_dup : ∀ d ∈ ([] : List LiveValue), d.isDuplicate = true := nofun

def localGroup : Group := ⟨localBlock, [], localBlock_first, none_dup⟩

theorem localGroup_at : GroupsAt localHandle 0 [localGroup] where
  records t v hv := by
    match t with
    | 0 => exact Option.some.inj hv
    | t + 1 => cases hv
  inside := Nat.le_refl _
  ends := rfl

theorem localBlock_at (fs : List Fixup) : blockOf (localFrame fs).ctx localBlock = some 0x2FFD8 := by
  have hfbp : rget (rset (fun _ => 0) 56 0x2FFF0) 56 = 0x2FFF0 := rget_rset_same _ _ (by decide)
  show some (padd (rget (rset (fun _ => 0) 56 0x2FFF0) 56) (-24)) = _
  rw [hfbp]
  rfl

theorem localFrame_layout {fs : List Fixup} (hfs : ∀ f ∈ fs, f.destLoc = localPtr) :
    LocalFrame (localFrame []).ctx (localFrame fs) [(localGroup, localGroup)] where
  act := rfl
  source := localGroup_at
  dest := localGroup_at
  count := rfl
  cfa := by decide
  allocas g hg _ := by
    obtain rfl := List.mem_singleton.mp hg
    exact ⟨⟨_, localBlock_at [], by decide⟩, _, localBlock_at fs, by decide, by decide⟩
  places f hf _ := by
    rw [hfs f hf]
    exact ⟨.inr ⟨.inl rfl, 8, rfl⟩, none, rfl⟩
  apart f hf _ _ g hg _ := by
    obtain rfl := List.mem_singleton.mp hg
    rw [hfs f hf]
    decide

/-- One into the alloca, one beside it, one above the frame. -/
theorem local_fixups_iff_reset : ∃ out, FixupsResolved (localFrame []).ctx [(localGroup, localGroup)]
    (localFrame [⟨0x2FFD8, 1, localPtr⟩, ⟨0x2FF00, 1, localPtr⟩, ⟨0x31000, 1, localPtr⟩]) out ∧
    ∀ found, fixupLocalPointers (localFrame []).ctx found
      (localFrame [⟨0x2FFD8, 1, localPtr⟩, ⟨0x2FF00, 1, localPtr⟩, ⟨0x31000, 1, localPtr⟩]) = .ok out := by
  refine (local_fixups_iff (localFrame []).ctx _ [(localGroup, localGroup)] (localFrame_layout (by decide))).mpr ?_
  intro pre f post hsplit hlt
  match pre with
  | [] =>
    cases hsplit
    exact absurd hlt (by decide)
  | [_] =>
    cases hsplit
    exact absurd hlt (by decide)
  | [_, _] =>
    cases hsplit
    exact ⟨_, rfl, rfl⟩
  | _ :: _ :: _ :: pre =>
    have hlen : 3 = (pre ++ f :: post).length + 3 := congrArg List.length hsplit
    rw [List.length_append, List.length_cons] at hlen
    omega

/-- Without the second the walk stays at the third for ever. -/
theorem local_fixups_hang : LocalFrame (localFrame []).ctx (localFrame [⟨0x2FFD8, 1, localPtr⟩, ⟨0x31000, 1, localPtr⟩])
      [(localGroup, localGroup)] ∧
    ∀ found, fixupLocalPointers (localFrame []).ctx found (localFrame [⟨0x2FFD8, 1, localPtr⟩, ⟨0x31000, 1, localPtr⟩]) =
      .error .hang :=
  ⟨localFrame_layout (by decide), fun _ => rfl⟩

end Popcorn.Runtime
