/-
  Popcorn.Duplicates.Search — how far the search for duplicates gets.

  A search from a register goes over every copy between registers, but through a stack slot only where it
  records the slot: where the slot is live across the call and not in the map yet. A slot that is an
  operand of the stackmap itself, or dead, ends it.

  Proved: `findAlternateVregLocs_exhaustive_iff`: the search ends, and it records every live place a chain
  of copies connects to an operand exactly where there is such a chain through no slot of that kind.
-/

import Mathlib.Logic.Relation
import Popcorn.Duplicates.CopyLocs
import Popcorn.Lib.Run

namespace Popcorn.Duplicates

open Popcorn.Lib Relation

/-! ## Chains -/

def CopyLoc.regs (loc : CopyLoc) : List Nat := loc.defs ++ loc.uses

/-- One copy between the registers. -/
def Linked (F : MachineFunction) (v x : Nat) : Prop := ∃ p loc, F.copyAt p = some loc ∧ loc.stackSlot = none ∧ v ∈ loc.regs ∧ x ∈ loc.regs

/-- A load or store between the register and the slot. -/
def Touches (F : MachineFunction) (v : Nat) (ss : Int) : Prop := ∃ p loc, F.copyAt p = some loc ∧ loc.stackSlot = some ss ∧ v ∈ loc.regs

/-- Registers one apart: a copy, or a slot that may be passed. -/
def Adjacent (F : MachineFunction) (pass : Int → Prop) (v x : Nat) : Prop := Linked F v x ∨ ∃ ss, pass ss ∧ Touches F v ss ∧ Touches F x ss

/-- A chain of copies. -/
def Chain (F : MachineFunction) (pass : Int → Prop) : Nat → Nat → Prop := ReflTransGen (Adjacent F pass)

section
variable {V : Type} (F : MachineFunction) (SM : SMInstBundle V)

def opVregs : List Nat := (mapOpsToIR SM.ops).1.map Prod.fst

def opSlots : List Int := (mapOpsToIR SM.ops).2.map Prod.fst

/-- The slots a chain can pass: live, and no operands themselves. -/
def Open (ss : Int) : Prop := isSSLive F SM ss = true ∧ ss ∉ opSlots SM

/-- Connected to an operand. -/
def Found (pass : Int → Prop) (v : Nat) : Prop := ∃ o ∈ opVregs SM, Chain F pass o v

/-- The maps have every live place that is connected to an operand. -/
structure Exhaustive (final : State V) : Prop where
  vregs : ∀ v, Found F SM (fun _ => True) v → isVregLive F SM v = true → v ∈ final.vregs.map Prod.fst
  sslots : ∀ v ss, Found F SM (fun _ => True) v → Touches F v ss → isSSLive F SM ss = true → ss ∈ final.sslots.map Prod.fst

/-- Every live place that is connected to an operand is so without a closed slot on the way. -/
structure ChainsOpen : Prop where
  vregs : ∀ v, Found F SM (fun _ => True) v → isVregLive F SM v = true → Found F SM (Open F SM) v
  sslots : ∀ v ss, Found F SM (fun _ => True) v → Touches F v ss → isSSLive F SM ss = true → ss ∉ opSlots SM →
    ∃ w, Found F SM (Open F SM) w ∧ Touches F w ss

/-! ## The invariant -/

/-- Walked already, or waiting. -/
def Seen (done : List Nat) (s : State V) (v : Nat) : Prop := v ∈ done ∨ v ∈ s.work

/-- What is left to do: an instruction visited pays for the register it adds. -/
def left (s : State V) : Nat := s.work.length + (F.ptrs.filter fun p => !s.visited.contains p).length

/-- A copy whose registers are seen and whose slot, if it can be passed, is recorded. -/
structure Handled (done : List Nat) (s : State V) (p : InstrPtr) : Prop where
  regs : ∀ loc, F.copyAt p = some loc → ∀ r ∈ loc.regs, Seen done s r
  slot : ∀ loc ss, F.copyAt p = some loc → loc.stackSlot = some ss → Open F SM ss → ss ∈ s.sslots.map Prod.fst

structure SearchInv (done : List Nat) (s : State V) : Prop where
  found : ∀ v, Seen done s v → Found F SM (Open F SM) v
  operands : ∀ o ∈ opVregs SM, o ∈ s.vregs.map Prod.fst
  slotOperands : ∀ ss ∈ opSlots SM, ss ∈ s.sslots.map Prod.fst
  vregs : ∀ v ∈ s.vregs.map Prod.fst, v ∈ opVregs SM ∨ isVregLive F SM v = true ∧ Seen done s v
  live : ∀ v, Seen done s v → isVregLive F SM v = true → v ∈ s.vregs.map Prod.fst
  sslots : ∀ ss ∈ s.sslots.map Prod.fst, ss ∈ opSlots SM ∨ Open F SM ss ∧ ∃ w, Seen done s w ∧ Touches F w ss
  visited : ∀ p ∈ s.visited, Handled F SM done s p

/-- A recorded slot has been searched. -/
def Expanded (done : List Nat) (s : State V) (ss : Int) : Prop := ∀ v, Touches F v ss → Seen done s v

/-- Nothing is lost. -/
structure Grows (s s' : State V) : Prop where
  work : s.work ⊆ s'.work
  vregs : s.vregs.map Prod.fst ⊆ s'.vregs.map Prod.fst
  sslots : s.sslots.map Prod.fst ⊆ s'.sslots.map Prod.fst
  left : left F s' ≤ left F s

end

section
variable {V : Type} {F : MachineFunction} {SM : SMInstBundle V} {done : List Nat} {s s' s'' : State V}

theorem Grows.refl (s : State V) : Grows F s s := ⟨fun _ h => h, fun _ h => h, fun _ h => h, Nat.le_refl _⟩

theorem Grows.trans (h : Grows F s s') (h' : Grows F s' s'') : Grows F s s'' :=
  ⟨List.Subset.trans h.work h'.work, List.Subset.trans h.vregs h'.vregs, List.Subset.trans h.sslots h'.sslots, h'.left.trans h.left⟩

theorem Grows.seen (h : Grows F s s') {v : Nat} (hv : Seen done s v) : Seen done s' v := hv.imp_right fun hw => h.work hw

theorem Grows.handled (h : Grows F s s') {p : InstrPtr} (hp : Handled F SM done s p) : Handled F SM done s' p :=
  ⟨fun loc hloc r hr => h.seen (hp.regs loc hloc r hr), fun loc ss hloc hss hopen => h.sslots (hp.slot loc ss hloc hss hopen)⟩

theorem Grows.expanded (h : Grows F s s') {ss : Int} (hss : Expanded F done s ss) : Expanded F done s' ss := fun v hv => h.seen (hss v hv)

theorem mem_ptrs {p : InstrPtr} : p ∈ F.ptrs ↔ ∃ MI, F.instr p = some MI := by
  obtain ⟨b, i⟩ := p
  unfold MachineFunction.ptrs MachineFunction.instr
  simp only [List.mem_flatMap, List.mem_map, List.mem_range, Prod.mk.injEq, Prod.exists, List.mk_mem_zipIdx_iff_getElem?, Option.bind_eq_some_iff]
  constructor
  · rintro ⟨MBB, b', hb, i', hi, rfl, rfl⟩
    exact ⟨MBB.instrs[i'], MBB, hb, List.getElem?_eq_getElem hi⟩
  · rintro ⟨MI, MBB, hb, hi⟩
    exact ⟨MBB, b, hb, i, (List.getElem?_eq_some_iff.mp hi).1, rfl, rfl⟩

theorem ptr_of_copy {p : InstrPtr} {loc : CopyLoc} (h : F.copyAt p = some loc) : p ∈ F.ptrs := by
  obtain ⟨MI, hMI, -⟩ := Option.bind_eq_some_iff.mp h
  exact mem_ptrs.mpr ⟨MI, hMI⟩

theorem unvisited_lt {l visited : List InstrPtr} {p : InstrPtr} (hp : p ∈ l) (hnew : p ∉ visited) :
    (l.filter fun q => !(p :: visited).contains q).length < (l.filter fun q => !visited.contains q).length := by
  have hsplit : (l.filter fun q => !(p :: visited).contains q) = (l.filter fun q => !visited.contains q).filter fun q => !(q == p) := by
    rw [List.filter_filter]
    refine List.filter_congr fun q _ => ?_
    rw [List.contains_cons, Bool.not_or]
  rw [hsplit, List.length_filter_lt_length_iff_exists]
  exact ⟨p, List.mem_filter.mpr ⟨hp, by simpa using hnew⟩, by simp⟩

/-! ## One copy -/

theorem addVregMetadata_spec (F : MachineFunction) (SM : SMInstBundle V) (Vreg : Nat) (IRVals : ValueVec V) (s : State V) :
    ∃ vregs locations, (addVregMetadata F SM Vreg IRVals s).1 = { s with vregs := vregs, smOpLocations := locations } ∧
      ∀ v, v ∈ vregs.map Prod.fst ↔ v ∈ s.vregs.map Prod.fst ∨ v = Vreg ∧ isVregLive F SM Vreg = true := by
  unfold addVregMetadata
  split_ifs with h
  · refine ⟨_, _, rfl, fun v => ?_⟩
    rw [List.map_append, List.mem_append, List.map_singleton, List.mem_singleton]
    exact or_congr_right (and_iff_left h.2).symm
  · refine ⟨_, _, rfl, fun v => ?_⟩
    constructor
    · exact .inl
    · rintro (hv | ⟨rfl, hlive⟩)
      · exact hv
      · by_contra hnot
        exact h ⟨hnot, hlive⟩

/-- A register that is connected to an operand is put in the queue. -/
theorem SearchInv.follow (hi : SearchInv F SM done s) {p : InstrPtr} {Vreg : Nat} (IRVals : ValueVec V) (hp : p ∈ F.ptrs) (hnew : p ∉ s.visited)
    (hfound : Found F SM (Open F SM) Vreg) (hregs : ∀ loc, F.copyAt p = some loc → ∀ r ∈ loc.regs, r = Vreg ∨ Seen done s r)
    (hslot : ∀ loc ss, F.copyAt p = some loc → loc.stackSlot = some ss → Open F SM ss → ss ∈ s.sslots.map Prod.fst) :
    SearchInv F SM done (follow F SM p Vreg IRVals s) ∧ Grows F s (follow F SM p Vreg IRVals s) ∧
      Vreg ∈ (Duplicates.follow F SM p Vreg IRVals s).work ∧ (Duplicates.follow F SM p Vreg IRVals s).sslots = s.sslots := by
  obtain ⟨vregs, locations, heq, hvregs⟩ := addVregMetadata_spec F SM Vreg IRVals s
  have hfollow : Duplicates.follow F SM p Vreg IRVals s =
      { s with vregs := vregs, smOpLocations := locations, visited := p :: s.visited, work := s.work ++ [Vreg] } := by
    rw [Duplicates.follow, heq]
  rw [hfollow]
  generalize hs' : ({ s with vregs := vregs, smOpLocations := locations, visited := p :: s.visited, work := s.work ++ [Vreg] } : State V) = s'
  have hwork : s'.work = s.work ++ [Vreg] := hs' ▸ rfl
  have hsslots : s'.sslots = s.sslots := hs' ▸ rfl
  have hkeys : s'.vregs = vregs := hs' ▸ rfl
  have hvisited : s'.visited = p :: s.visited := hs' ▸ rfl
  have hseen : ∀ v, Seen done s' v ↔ Seen done s v ∨ v = Vreg := by
    intro v
    rw [Seen, Seen, hwork, List.mem_append, List.mem_singleton, or_assoc]
  have hgrows : Grows F s s' := by
    refine ⟨fun v hv => hwork ▸ List.mem_append_left _ hv, fun v hv => hkeys ▸ (hvregs v).mpr (.inl hv), fun ss hss => hsslots ▸ hss, ?_⟩
    have hlt := unvisited_lt hp hnew
    rw [left, left, hwork, hvisited, List.length_append, List.length_singleton]
    omega
  refine ⟨⟨fun v hv => ?_, fun o ho => hgrows.vregs (hi.operands o ho), fun ss hss => hgrows.sslots (hi.slotOperands ss hss), fun v hv => ?_,
    fun v hv hlive => ?_, fun ss hss => ?_, fun q hq => ?_⟩, hgrows, hwork ▸ List.mem_append_right _ (.head _), hsslots⟩
  · rcases (hseen v).mp hv with hv | rfl
    · exact hi.found v hv
    · exact hfound
  · rcases (hvregs v).mp (hkeys ▸ hv) with hv | ⟨rfl, hlive⟩
    · exact (hi.vregs v hv).imp_right fun ⟨hlive, hv⟩ => ⟨hlive, hgrows.seen hv⟩
    · exact .inr ⟨hlive, (hseen v).mpr (.inr rfl)⟩
  · rw [hkeys]
    rcases (hseen v).mp hv with hv | rfl
    · exact (hvregs v).mpr (.inl (hi.live v hv hlive))
    · exact (hvregs v).mpr (.inr ⟨rfl, hlive⟩)
  · rw [hsslots] at hss
    exact (hi.sslots ss hss).imp_right fun ⟨hopen, w, hw, ht⟩ => ⟨hopen, w, hgrows.seen hw, ht⟩
  · rw [hvisited] at hq
    rcases List.mem_cons.mp hq with rfl | hq
    · refine ⟨fun loc hloc r hr => (hseen r).mpr (hregs loc hloc r hr).symm, fun loc ss hloc hss hopen => ?_⟩
      exact hgrows.sslots (hslot loc ss hloc hss hopen)
    · exact hgrows.handled (hi.visited q hq)

/-- The copies of a slot that is being recorded. -/
theorem mem_ssUses (hF : F.Ok) {ss : Int} {p : InstrPtr} : p ∈ F.ssUses ss ↔ ∃ loc, F.copyAt p = some loc ∧ loc.stackSlot = some ss := by
  unfold MachineFunction.ssUses MachineFunction.copyAt
  rw [List.mem_filter]
  constructor
  · rintro ⟨-, h⟩
    cases hMI : F.instr p with
    | none =>
      rw [hMI] at h
      cases h
    | some MI =>
      rw [hMI] at h
      obtain ⟨-, hany⟩ := (Bool.and_eq_true _ _).mp h
      cases hloc : MI.getCopyLocation with
      | none =>
        rw [hloc] at hany
        cases hany
      | some loc =>
        rw [hloc] at hany
        exact ⟨loc, hloc, beq_iff_eq.mp hany⟩
  · rintro ⟨loc, hloc, hss⟩
    obtain ⟨MI, hMI, hcopy⟩ := Option.bind_eq_some_iff.mp hloc
    refine ⟨mem_ptrs.mpr ⟨MI, hMI⟩, ?_⟩
    have hstack : MI.isStackMap = false := by
      cases h : MI.isStackMap with
      | true =>
        rw [(hF.instrs p MI hMI).stackMap h] at hcopy
        cases hcopy
      | false => rfl
    rw [hMI]
    simp [hstack, hcopy, hss]

theorem CopyLoc.regs_of_slot {loc : CopyLoc} {ss : Int} (h : loc.stackSlot = some ss) : loc.regs = [loc.vreg] := by
  cases loc with
  | regCopy vreg srcVreg => cases h
  | stackLoad vreg ss' => rfl
  | stackStore vreg ss' => rfl

/-- All of a recorded slot's copies are followed. -/
theorem SearchInv.searchStackSlotCopies (hF : F.Ok) (hi : SearchInv F SM done s) {ss : Int} (IRVals : ValueVec V) (hrecorded : ss ∈ s.sslots.map Prod.fst)
    (hfound : ∀ v, Touches F v ss → Found F SM (Open F SM) v) :
    SearchInv F SM done (searchStackSlotCopies F SM ss IRVals s) ∧ Grows F s (searchStackSlotCopies F SM ss IRVals s) ∧
      Expanded F done (Duplicates.searchStackSlotCopies F SM ss IRVals s) ss ∧
        (Duplicates.searchStackSlotCopies F SM ss IRVals s).sslots = s.sslots := by
  have hrun := foldl_inv (f := followCopy F SM IRVals) (F.ssUses ss) (s := s)
    (P := fun copies s' => SearchInv F SM done s' ∧ Grows F s s' ∧ s'.sslots = s.sslots ∧
      ∀ p ∈ copies, ∀ loc, F.copyAt p = some loc → ∀ r ∈ loc.regs, Seen done s' r)
    ⟨hi, .refl s, rfl, fun p hp => absurd hp List.not_mem_nil⟩ ?_
  · obtain ⟨hi', hgrows, hsame, hseen⟩ := hrun
    refine ⟨hi', hgrows, ?_, hsame⟩
    rintro v ⟨p, loc, hloc, hss, hv⟩
    exact hseen p ((mem_ssUses hF).mpr ⟨loc, hloc, hss⟩) loc hloc v hv
  · rintro copies p rest s1 hsplit ⟨hi1, hgrows, hsame, hseen⟩
    obtain ⟨loc, hloc, hss⟩ := (mem_ssUses hF).mp (hsplit ▸ List.mem_append_right copies (.head rest))
    have hregs := CopyLoc.regs_of_slot hss
    have hunique : ∀ loc', F.copyAt p = some loc' → loc' = loc := fun loc' h => Option.some.inj (h.symm.trans hloc)
    have hstep : followCopy F SM IRVals s1 p = if s1.visited.contains p then s1 else Duplicates.follow F SM p loc.vreg IRVals s1 := by
      unfold followCopy
      rw [hloc]
    rw [hstep]
    by_cases hold : p ∈ s1.visited
    · rw [if_pos (List.contains_iff_mem.mpr hold)]
      refine ⟨hi1, hgrows, hsame, fun q hq loc' hloc' => ?_⟩
      rcases List.mem_append.mp hq with hq | hq
      · exact hseen q hq loc' hloc'
      · obtain rfl := List.mem_singleton.mp hq
        exact (hi1.visited q hold).regs loc' hloc'
    · rw [if_neg fun h => hold (List.contains_iff_mem.mp h)]
      obtain ⟨hi2, hgrows2, hmem, hsame2⟩ := hi1.follow IRVals (ptr_of_copy hloc) hold (hfound loc.vreg ⟨p, loc, hloc, hss, hregs ▸ .head _⟩)
        (fun loc' h r hr => .inl (by rw [hunique loc' h, hregs] at hr; exact List.mem_singleton.mp hr))
        (fun loc' ss' h hss' _ => by
          rw [hunique loc' h, hss] at hss'
          rw [← Option.some.inj hss', hsame]
          exact hrecorded)
      refine ⟨hi2, hgrows.trans hgrows2, hsame2.trans hsame, fun q hq loc' hloc' r hr => ?_⟩
      rcases List.mem_append.mp hq with hq | hq
      · exact hgrows2.seen (hseen q hq loc' hloc' r hr)
      · obtain rfl := List.mem_singleton.mp hq
        rw [hunique loc' hloc', hregs] at hr
        exact .inr (List.mem_singleton.mp hr ▸ hmem)

/-! ## One instruction -/

structure WalkInv (F : MachineFunction) (SM : SMInstBundle V) (done : List Nat) (s : State V) : Prop where
  search : SearchInv F SM done s
  expanded : ∀ ss ∈ s.sslots.map Prod.fst, ss ∈ opSlots SM ∨ Expanded F done s ss

theorem WalkInv.follow (hw : WalkInv F SM done s) {p : InstrPtr} {loc : CopyLoc} {cur Vreg : Nat} (IRVals : ValueVec V) (hcur : cur ∈ done)
    (hnew : p ∉ s.visited) (hloc : F.copyAt p = some loc) (hslot : loc.stackSlot = none) (hmem : cur ∈ loc.regs) (hmem' : Vreg ∈ loc.regs)
    (hregs : ∀ r ∈ loc.regs, r = Vreg ∨ r = cur) :
    WalkInv F SM done (follow F SM p Vreg IRVals s) ∧ Grows F s (follow F SM p Vreg IRVals s) ∧
      Handled F SM done (Duplicates.follow F SM p Vreg IRVals s) p := by
  have hunique : ∀ loc', F.copyAt p = some loc' → loc' = loc := fun loc' h => Option.some.inj (h.symm.trans hloc)
  have hfound : Found F SM (Open F SM) Vreg := by
    obtain ⟨o, ho, hchain⟩ := hw.search.found cur (.inl hcur)
    exact ⟨o, ho, hchain.tail (.inl ⟨p, loc, hloc, hslot, hmem, hmem'⟩)⟩
  obtain ⟨hi', hgrows, hwork, hsame⟩ := hw.search.follow IRVals (ptr_of_copy hloc) hnew hfound
    (fun loc' h r hr => (hregs r (hunique loc' h ▸ hr)).imp_right fun (heq : r = cur) => .inl (heq ▸ hcur))
    (fun loc' ss h hss _ => by
      rw [hunique loc' h, hslot] at hss
      cases hss)
  refine ⟨⟨hi', fun ss hss => ?_⟩, hgrows, ⟨fun loc' h r hr => ?_, fun loc' ss h hss _ => ?_⟩⟩
  · rw [hsame] at hss
    exact (hw.expanded ss hss).imp_right hgrows.expanded
  · rcases hregs r (hunique loc' h ▸ hr) with rfl | rfl
    · exact .inr hwork
    · exact .inl hcur
  · rw [hunique loc' h, hslot] at hss
    cases hss

theorem WalkInv.expandSlot (hF : F.Ok) (hw : WalkInv F SM done s) {p : InstrPtr} {loc : CopyLoc} {ss : Int} (IRVals : ValueVec V)
    (hcur : loc.vreg ∈ done) (hnew : p ∉ s.visited) (hloc : F.copyAt p = some loc) (hss : loc.stackSlot = some ss) :
    WalkInv F SM done (expandSlot F SM p ss IRVals s) ∧ Grows F s (expandSlot F SM p ss IRVals s) ∧
      Handled F SM done (Duplicates.expandSlot F SM p ss IRVals s) p := by
  have hunique : ∀ loc', F.copyAt p = some loc' → loc' = loc := fun loc' h => Option.some.inj (h.symm.trans hloc)
  have hregs : ∀ r ∈ loc.regs, r = loc.vreg := fun r hr => by
    rw [CopyLoc.regs_of_slot hss] at hr
    exact List.mem_singleton.mp hr
  have htouch : Touches F loc.vreg ss := ⟨p, loc, hloc, hss, CopyLoc.regs_of_slot hss ▸ .head _⟩
  by_cases hadd : ss ∉ s.sslots.map Prod.fst ∧ isSSLive F SM ss = true
  · have hopen : Open F SM ss := ⟨hadd.2, fun hop => hadd.1 (hw.search.slotOperands ss hop)⟩
    have hexpand : Duplicates.expandSlot F SM p ss IRVals s = searchStackSlotCopies F SM ss IRVals { s with
        sslots := s.sslots ++ [(ss, IRVals)]
        smOpLocations := s.smOpLocations ++ IRVals.vals.map fun IRVal => (IRVal, .stackSlot ss)
        visited := p :: s.visited } := by
      rw [Duplicates.expandSlot, addSSMetadata, if_pos hadd]
      rfl
    rw [hexpand]
    generalize hs1 : ({ s with
      sslots := s.sslots ++ [(ss, IRVals)]
      smOpLocations := s.smOpLocations ++ IRVals.vals.map fun IRVal => (IRVal, .stackSlot ss)
      visited := p :: s.visited } : State V) = s1
    have hkeys : ∀ ss', ss' ∈ s1.sslots.map Prod.fst ↔ ss' ∈ s.sslots.map Prod.fst ∨ ss' = ss := by
      intro ss'
      rw [← hs1, List.map_append, List.mem_append, List.map_singleton, List.mem_singleton]
    have hwork : s1.work = s.work := hs1 ▸ rfl
    have hvregs : s1.vregs = s.vregs := hs1 ▸ rfl
    have hvisited : s1.visited = p :: s.visited := hs1 ▸ rfl
    have hgrows : Grows F s s1 := by
      refine ⟨fun v hv => hwork ▸ hv, fun v hv => hvregs ▸ hv, fun ss' hss' => (hkeys ss').mpr (.inl hss'), ?_⟩
      have hlt := unvisited_lt (ptr_of_copy hloc) hnew
      rw [left, left, hwork, hvisited]
      omega
    have hseen : ∀ v, Seen done s1 v ↔ Seen done s v := fun v => by rw [Seen, Seen, hwork]
    have hhandled : Handled F SM done s1 p := by
      refine ⟨fun loc' h r hr => .inl (hregs r (hunique loc' h ▸ hr) ▸ hcur), fun loc' ss' h hss' _ => (hkeys ss').mpr (.inr ?_)⟩
      rw [hunique loc' h, hss] at hss'
      exact (Option.some.inj hss').symm
    have hi1 : SearchInv F SM done s1 := by
      refine ⟨fun v hv => hw.search.found v ((hseen v).mp hv), fun o ho => hgrows.vregs (hw.search.operands o ho),
        fun ss' hss' => hgrows.sslots (hw.search.slotOperands ss' hss'), fun v hv => ?_, fun v hv hlive => ?_, fun ss' hss' => ?_, fun q hq => ?_⟩
      · exact (hw.search.vregs v (hvregs ▸ hv)).imp_right fun ⟨hlive, hv⟩ => ⟨hlive, hgrows.seen hv⟩
      · exact hgrows.vregs (hw.search.live v ((hseen v).mp hv) hlive)
      · rcases (hkeys ss').mp hss' with hss' | rfl
        · exact (hw.search.sslots ss' hss').imp_right fun ⟨hopen, w, hw, ht⟩ => ⟨hopen, w, hgrows.seen hw, ht⟩
        · exact .inr ⟨hopen, loc.vreg, .inl hcur, htouch⟩
      · rw [hvisited] at hq
        rcases List.mem_cons.mp hq with rfl | hq
        · exact hhandled
        · exact hgrows.handled (hw.search.visited q hq)
    have hfound : ∀ v, Touches F v ss → Found F SM (Open F SM) v := by
      intro v hv
      obtain ⟨o, ho, hchain⟩ := hw.search.found loc.vreg (.inl hcur)
      exact ⟨o, ho, hchain.tail (.inr ⟨ss, hopen, htouch, hv⟩)⟩
    obtain ⟨hi2, hgrows2, hexpanded, hsame⟩ := hi1.searchStackSlotCopies hF IRVals ((hkeys ss).mpr (.inr rfl)) hfound
    refine ⟨⟨hi2, fun ss' hss' => ?_⟩, hgrows.trans hgrows2, hgrows2.handled hhandled⟩
    rw [hsame] at hss'
    rcases (hkeys ss').mp hss' with hss' | rfl
    · exact (hw.expanded ss' hss').imp_right (hgrows.trans hgrows2).expanded
    · exact .inr hexpanded
  · have hexpand : Duplicates.expandSlot F SM p ss IRVals s = s := by
      rw [Duplicates.expandSlot, addSSMetadata, if_neg hadd]
      rfl
    rw [hexpand]
    refine ⟨hw, .refl s, fun loc' h r hr => .inl (hregs r (hunique loc' h ▸ hr) ▸ hcur), fun loc' ss' h hss' hopen => ?_⟩
    rw [hunique loc' h, hss] at hss'
    obtain rfl := Option.some.inj hss'
    by_contra hnot
    exact hadd ⟨hnot, hopen.1⟩

/-- What a round of a walk leaves. -/
structure Visits (F : MachineFunction) (SM : SMInstBundle V) (done : List Nat) (s s' : State V) (p : InstrPtr) : Prop where
  walk : WalkInv F SM done s'
  grows : Grows F s s'
  handled : Handled F SM done s' p

theorem Visits.stays (hw : WalkInv F SM done s) {p : InstrPtr} (h : Handled F SM done s p) : Visits F SM done s s p := ⟨hw, .refl s, h⟩

theorem visitDef_spec (hF : F.Ok) (hw : WalkInv F SM done s) {cur : Nat} (IRVals : ValueVec V) (hcur : cur ∈ done) {p : InstrPtr}
    (hp : p ∈ F.defInstrs cur) : ∃ s', visitDef F SM IRVals s p = some s' ∧ Visits F SM done s s' p := by
  unfold visitDef
  by_cases hold : p ∈ s.visited
  · rw [if_pos (List.contains_iff_mem.mpr hold)]
    exact ⟨s, rfl, .stays hw (hw.search.visited p hold)⟩
  · rw [if_neg fun h => hold (List.contains_iff_mem.mp h)]
    obtain ⟨MI, hMI, hdef⟩ := (hF.defInstrs cur p).mp hp
    cases hloc : F.copyAt p with
    | none => exact ⟨s, rfl, .stays hw ⟨fun loc h => (by rw [hloc] at h; cases h), fun loc ss h => (by rw [hloc] at h; cases h)⟩⟩
    | some loc =>
      have hcopy : MI.getCopyLocation = some loc := by rwa [MachineFunction.copyAt, hMI] at hloc
      have hmem : cur ∈ loc.defs := ((hF.instrs p MI hMI).defs loc hcopy cur).mp hdef
      cases loc with
      | regCopy vreg srcVreg =>
        obtain rfl : cur = vreg := List.mem_singleton.mp hmem
        obtain ⟨h1, h2, h3⟩ := hw.follow IRVals hcur hold hloc rfl (.head _) (.tail _ (.head _))
          (fun r hr => by
            rcases List.mem_cons.mp hr with rfl | hr
            · exact .inr rfl
            · exact .inl (List.mem_singleton.mp hr))
        exact ⟨_, rfl, h1, h2, h3⟩
      | stackLoad vreg ss =>
        obtain rfl : cur = vreg := List.mem_singleton.mp hmem
        obtain ⟨h1, h2, h3⟩ := hw.expandSlot hF IRVals (show (CopyLoc.stackLoad cur ss).vreg ∈ done from hcur) hold hloc rfl
        exact ⟨_, rfl, h1, h2, h3⟩
      | stackStore vreg ss => exact absurd hmem List.not_mem_nil

theorem visitUse_spec (hF : F.Ok) (hw : WalkInv F SM done s) {cur : Nat} (IRVals : ValueVec V) (hcur : cur ∈ done) {p : InstrPtr}
    (hp : p ∈ F.useInstrs cur) : ∃ s', visitUse F SM IRVals s p = some s' ∧ Visits F SM done s s' p := by
  unfold visitUse
  by_cases hold : p ∈ s.visited
  · rw [if_pos (List.contains_iff_mem.mpr hold)]
    exact ⟨s, rfl, .stays hw (hw.search.visited p hold)⟩
  · rw [if_neg fun h => hold (List.contains_iff_mem.mp h)]
    obtain ⟨MI, hMI, huse⟩ := (hF.useInstrs cur p).mp hp
    cases hloc : F.copyAt p with
    | none => exact ⟨s, rfl, .stays hw ⟨fun loc h => (by rw [hloc] at h; cases h), fun loc ss h => (by rw [hloc] at h; cases h)⟩⟩
    | some loc =>
      have hcopy : MI.getCopyLocation = some loc := by rwa [MachineFunction.copyAt, hMI] at hloc
      have hmem : cur ∈ loc.uses := ((hF.instrs p MI hMI).uses loc hcopy cur).mp huse
      cases loc with
      | regCopy vreg srcVreg =>
        obtain rfl : cur = srcVreg := List.mem_singleton.mp hmem
        obtain ⟨h1, h2, h3⟩ := hw.follow IRVals hcur hold hloc rfl (.tail _ (.head _)) (.head _)
          (fun r hr => by
            rcases List.mem_cons.mp hr with rfl | hr
            · exact .inl rfl
            · exact .inr (List.mem_singleton.mp hr))
        exact ⟨_, rfl, h1, h2, h3⟩
      | stackLoad vreg ss => exact absurd hmem List.not_mem_nil
      | stackStore vreg ss =>
        obtain rfl : cur = vreg := List.mem_singleton.mp hmem
        obtain ⟨h1, h2, h3⟩ := hw.expandSlot hF IRVals (show (CopyLoc.stackStore cur ss).vreg ∈ done from hcur) hold hloc rfl
        exact ⟨_, rfl, h1, h2, h3⟩

/-! ## The loops -/

/-- All copies of the register have been handled. -/
def Closed (F : MachineFunction) (SM : SMInstBundle V) (done : List Nat) (s : State V) (v : Nat) : Prop :=
  ∀ p loc, F.copyAt p = some loc → v ∈ loc.regs → Handled F SM done s p

theorem walk_chain {f : State V → InstrPtr → Option (State V)} (chain : List InstrPtr) (hw : WalkInv F SM done s)
    (hf : ∀ s p, WalkInv F SM done s → p ∈ chain → ∃ s', f s p = some s' ∧ Visits F SM done s s' p) :
    ∃ s', chain.foldlM f s = some s' ∧ WalkInv F SM done s' ∧ Grows F s s' ∧ ∀ p ∈ chain, Handled F SM done s' p := by
  refine foldlM_total (P := fun ps s' => WalkInv F SM done s' ∧ Grows F s s' ∧ ∀ p ∈ ps, Handled F SM done s' p) chain
    ⟨hw, .refl s, fun p hp => absurd hp List.not_mem_nil⟩ ?_
  rintro ps p rest s1 hsplit ⟨hw1, hgrows, hhandled⟩
  obtain ⟨s2, hs2, hvisits⟩ := hf s1 p hw1 (hsplit ▸ List.mem_append_right ps (.head rest))
  refine ⟨s2, hs2, hvisits.walk, hgrows.trans hvisits.grows, fun q hq => ?_⟩
  rcases List.mem_append.mp hq with hq | hq
  · exact hvisits.grows.handled (hhandled q hq)
  · exact List.mem_singleton.mp hq ▸ hvisits.handled

theorem walk_spec (hF : F.Ok) (hw : WalkInv F SM done s) {cur : Nat} (IRVals : ValueVec V) (hcur : cur ∈ done) :
    ∃ s', walk F SM IRVals cur s = some s' ∧ WalkInv F SM done s' ∧ Grows F s s' ∧ Closed F SM done s' cur := by
  obtain ⟨s1, hs1, hw1, hgrows1, hdefs⟩ := walk_chain (F.defInstrs cur) hw fun s p hw hp => visitDef_spec hF hw IRVals hcur hp
  obtain ⟨s2, hs2, hw2, hgrows2, huses⟩ := walk_chain (F.useInstrs cur) hw1 fun s p hw hp => visitUse_spec hF hw IRVals hcur hp
  refine ⟨s2, ?_, hw2, hgrows1.trans hgrows2, fun p loc hloc hmem => ?_⟩
  · rw [walk, hs1]
    exact hs2
  · obtain ⟨MI, hMI, hcopy⟩ := Option.bind_eq_some_iff.mp hloc
    rcases List.mem_append.mp hmem with hdef | huse
    · exact hgrows2.handled (hdefs p ((hF.defInstrs cur p).mpr ⟨MI, hMI, ((hF.instrs p MI hMI).defs loc hcopy cur).mpr hdef⟩))
    · exact huses p ((hF.useInstrs cur p).mpr ⟨MI, hMI, ((hF.instrs p MI hMI).uses loc hcopy cur).mpr huse⟩)

theorem SearchInv.mem_vregs (hi : SearchInv F SM done s) {v : Nat} (hv : v ∈ s.vregs.map Prod.fst) : Found F SM (Open F SM) v := by
  rcases hi.vregs v hv with ho | ⟨-, hseen⟩
  · exact ⟨v, ho, .refl⟩
  · exact hi.found v hseen

/-- Between the walks the queue changes: no register seen is lost, and one that is new is in the map. -/
theorem WalkInv.transfer {done' : List Nat} (hw : WalkInv F SM done s) (hvregs : s'.vregs = s.vregs) (hsslots : s'.sslots = s.sslots)
    (hvisited : s'.visited ⊆ s.visited) (hseen : ∀ v, Seen done s v → Seen done' s' v)
    (hnew : ∀ v, Seen done' s' v → Seen done s v ∨ v ∈ s.vregs.map Prod.fst) : WalkInv F SM done' s' := by
  have hhandled : ∀ p, Handled F SM done s p → Handled F SM done' s' p := fun p h =>
    ⟨fun loc hloc r hr => hseen r (h.regs loc hloc r hr), fun loc ss hloc hss hopen => hsslots ▸ h.slot loc ss hloc hss hopen⟩
  refine ⟨⟨fun v hv => ?_, hvregs ▸ hw.search.operands, hsslots ▸ hw.search.slotOperands, fun v hv => ?_, fun v hv hlive => ?_, fun ss hss => ?_,
    fun p hp => hhandled p (hw.search.visited p (hvisited hp))⟩, fun ss hss => ?_⟩
  · rcases hnew v hv with hv | hv
    · exact hw.search.found v hv
    · exact hw.search.mem_vregs hv
  · exact (hw.search.vregs v (hvregs ▸ hv)).imp_right fun ⟨hlive, hv⟩ => ⟨hlive, hseen v hv⟩
  · rw [hvregs]
    rcases hnew v hv with hv | hv
    · exact hw.search.live v hv hlive
    · exact hv
  · exact (hw.search.sslots ss (hsslots ▸ hss)).imp_right fun ⟨hopen, w, hw, ht⟩ => ⟨hopen, w, hseen w hw, ht⟩
  · exact (hw.expanded ss (hsslots ▸ hss)).imp_right fun h v hv => hseen v (h v hv)

/-- What a search from a register leaves: nothing waits, and all that is done is closed. -/
structure Searched (F : MachineFunction) (SM : SMInstBundle V) (done : List Nat) (s : State V) : Prop where
  walk : WalkInv F SM done s
  empty : s.work = []
  closed : ∀ v ∈ done, Closed F SM done s v

theorem search_spec (hF : F.Ok) (IRVals : ValueVec V) {fuel : Nat} (hfuel : left F s < fuel) (hw : WalkInv F SM done s)
    (hclosed : ∀ v ∈ done, Closed F SM done s v) :
    ∃ s' done', search F SM IRVals fuel s = some s' ∧ Searched F SM done' s' ∧ ∀ v, Seen done s v → v ∈ done' := by
  induction fuel generalizing s done with
  | zero => exact absurd hfuel (Nat.not_lt_zero _)
  | succ fuel ih =>
    unfold search
    cases hwork : s.work with
    | nil =>
      refine ⟨s, done, rfl, ⟨hw, hwork, hclosed⟩, fun v hv => hv.resolve_right ?_⟩
      rw [hwork]
      exact List.not_mem_nil
    | cons cur rest =>
      have hseen : ∀ v, Seen (cur :: done) { s with work := rest } v ↔ Seen done s v := by
        intro v
        simp only [Seen, hwork, List.mem_cons]
        tauto
      have hw1 : WalkInv F SM (cur :: done) { s with work := rest } := hw.transfer rfl rfl (fun _ h => h) (fun v => (hseen v).mpr) fun v hv => .inl ((hseen v).mp hv)
      obtain ⟨s2, hs2, hw2, hgrows, hcur⟩ := walk_spec hF hw1 IRVals (.head done)
      have hleft : left F s2 < fuel := by
        have := hgrows.left
        have hpop : left F s = left F { s with work := rest } + 1 := by
          simp only [left, hwork, List.length_cons]
          omega
        omega
      have hclosed2 : ∀ v ∈ cur :: done, Closed F SM (cur :: done) s2 v := by
        intro v hv
        rcases List.mem_cons.mp hv with rfl | hv
        · exact hcur
        · intro p loc hloc hmem
          have hp := hclosed v hv p loc hloc hmem
          exact hgrows.handled ⟨fun loc' h r hr => (hseen r).mpr (hp.regs loc' h r hr), hp.slot⟩
      obtain ⟨s', done', hs', hsearched, hsub⟩ := ih hleft hw2 hclosed2
      refine ⟨s', done', ?_, hsearched, fun v hv => hsub v (hgrows.seen ((hseen v).mpr hv))⟩
      dsimp only
      rw [hs2]
      exact hs'

/-- The registers the search can meet. -/
def candidates (F : MachineFunction) (SM : SMInstBundle V) : List Nat :=
  opVregs SM ++ F.ptrs.flatMap fun p => ((F.copyAt p).map CopyLoc.regs).getD []

theorem mem_candidates {pass : Int → Prop} {v : Nat} (h : Found F SM pass v) : v ∈ candidates F SM := by
  have hcopy : ∀ p loc, F.copyAt p = some loc → v ∈ loc.regs → v ∈ candidates F SM := by
    intro p loc hloc hmem
    refine List.mem_append_right _ (List.mem_flatMap.mpr ⟨p, ptr_of_copy hloc, ?_⟩)
    rw [hloc]
    exact hmem
  obtain ⟨o, ho, hchain⟩ := h
  rcases ReflTransGen.cases_tail hchain with rfl | ⟨w, -, ⟨p, loc, hloc, -, -, hmem⟩ | ⟨ss, -, -, p, loc, hloc, -, hmem⟩⟩
  · exact List.mem_append_left _ ho
  · exact hcopy p loc hloc hmem
  · exact hcopy p loc hloc hmem

/-- Enough for the loop over the entries from a register on. -/
def enough (F : MachineFunction) (SM : SMInstBundle V) (first : Nat) : Nat :=
  ((candidates F SM).filter fun v => first ≤ v).length + F.ptrs.length + 3

theorem filter_above_lt {l : List Nat} {first v : Nat} (hv : v ∈ l) (hle : first ≤ v) :
    (l.filter fun w => v + 1 ≤ w).length < (l.filter fun w => first ≤ w).length := by
  have hsplit : (l.filter fun w => v + 1 ≤ w) = (l.filter fun w => first ≤ w).filter fun w => v + 1 ≤ w := by
    rw [List.filter_filter]
    refine List.filter_congr fun w _ => ?_
    rw [← Bool.decide_and]
    exact decide_eq_decide.mpr ⟨fun h => ⟨h, by omega⟩, fun h => h.1⟩
  rw [hsplit, List.length_filter_lt_length_iff_exists]
  exact ⟨v, List.mem_filter.mpr ⟨hv, by simpa using hle⟩, by simp⟩

/-- Where the loop over the entries is: the operands before the next register are done. -/
structure Iterating (F : MachineFunction) (SM : SMInstBundle V) (done : List Nat) (first : Nat) (s : State V) : Prop where
  searched : Searched F SM done s
  first : ∀ o ∈ opVregs SM, o < first → o ∈ done

/-- The state a search from a register starts in. -/
def State.from (s : State V) (origVreg : Nat) : State V := { s with visited := [], work := s.work ++ [origVreg] }

/-- The rule of the loop over the entries: it ends, and keeps what a search from the next entry keeps. -/
theorem iterate_spec (hF : F.Ok) {Q : State V → Prop}
    (hstep : ∀ done first s entry fuel s', Iterating F SM done first s → (s.vregs.filter fun entry => first ≤ entry.1).argmin Prod.fst = some entry →
      search F SM entry.2 fuel (s.from entry.1) = some s' → Q s → Q s')
    {fuel first : Nat} (hfuel : enough F SM first ≤ fuel) (hi : Iterating F SM done first s) (hq : Q s) :
    ∃ s' done', iterate F SM fuel first s = some s' ∧ Searched F SM done' s' ∧ (∀ o ∈ opVregs SM, o ∈ done') ∧ Q s' := by
  induction fuel generalizing first s done with
  | zero => exact absurd hfuel (by unfold enough; omega)
  | succ fuel ih =>
    have h := hi.searched
    unfold iterate
    cases hnext : (s.vregs.filter fun entry => first ≤ entry.1).argmin Prod.fst with
    | none =>
      refine ⟨s, done, rfl, h, fun o ho => hi.first o ho ?_, hq⟩
      have hempty := List.argmin_eq_none.mp hnext
      obtain ⟨entry, hentry, rfl⟩ := List.mem_map.mp (h.walk.search.operands o ho)
      by_contra hle
      have hmem : entry ∈ s.vregs.filter fun entry => first ≤ entry.1 := List.mem_filter.mpr ⟨hentry, by simpa using hle⟩
      rw [hempty] at hmem
      exact absurd hmem List.not_mem_nil
    | some entry =>
      obtain ⟨origVreg, IRVals⟩ := entry
      obtain ⟨hmem, hle⟩ := List.mem_filter.mp (List.argmin_mem hnext)
      have hle' : first ≤ origVreg := by simpa using hle
      have hkey : origVreg ∈ s.vregs.map Prod.fst := List.mem_map_of_mem hmem
      have hseen : ∀ v, Seen done (s.from origVreg) v ↔ Seen done s v ∨ v = origVreg := by
        intro v
        simp only [Seen, State.from, List.mem_append, List.mem_singleton]
        tauto
      have hw1 : WalkInv F SM done (s.from origVreg) :=
        h.walk.transfer rfl rfl (List.nil_subset _) (fun v hv => (hseen v).mpr (.inl hv))
          fun v hv => ((hseen v).mp hv).imp_right fun (heq : v = origVreg) => heq ▸ hkey
      have hleft : left F (s.from origVreg) < fuel := by
        have hle := List.length_filter_le (fun p => !([] : List InstrPtr).contains p) F.ptrs
        simp only [left, State.from, h.empty, List.nil_append, List.length_singleton]
        unfold enough at hfuel
        omega
      have hclosed1 : ∀ v ∈ done, Closed F SM done (s.from origVreg) v := by
        intro v hv p loc hloc hmem
        have hp := h.closed v hv p loc hloc hmem
        exact ⟨fun loc' h r hr => (hseen r).mpr (.inl (hp.regs loc' h r hr)), hp.slot⟩
      obtain ⟨s1, done1, hs1, hsearched, hsub⟩ := search_spec hF IRVals hleft hw1 hclosed1
      have hless : enough F SM (origVreg + 1) ≤ fuel := by
        have hlt := filter_above_lt (mem_candidates (h.walk.search.mem_vregs hkey)) hle'
        unfold enough at hfuel ⊢
        omega
      have hnext' : Iterating F SM done1 (origVreg + 1) s1 := ⟨hsearched, fun o ho hlt => by
        by_cases hold : o < first
        · exact hsub o ((hseen o).mpr (.inl (.inl (hi.first o ho hold))))
        · -- an operand that comes next is the entry itself
          obtain ⟨entry, hentry, rfl⟩ := List.mem_map.mp (h.walk.search.operands o ho)
          have hin : entry ∈ s.vregs.filter fun entry => first ≤ entry.1 := List.mem_filter.mpr ⟨hentry, by simpa using hold⟩
          have hmin : origVreg ≤ entry.1 := List.le_of_mem_argmin hin hnext
          exact hsub entry.1 ((hseen entry.1).mpr (.inr (Nat.le_antisymm (Nat.lt_succ_iff.mp hlt) hmin)))⟩
      obtain ⟨s', done', hs', hend, hall, hq'⟩ := ih hless hnext' (hstep done first s (origVreg, IRVals) fuel s1 hi hnext hs1 hq)
      refine ⟨s', done', ?_, hend, hall, hq'⟩
      show (search F SM IRVals fuel (s.from origVreg)).bind _ = _
      rw [hs1]
      exact hs'

/-! ## What is recorded -/

theorem initial_searched (F : MachineFunction) (SM : SMInstBundle V) : Searched F SM [] (initialState SM) := by
  have hseen : ∀ v, ¬ Seen [] (initialState SM) v := fun v hv => hv.elim List.not_mem_nil List.not_mem_nil
  refine ⟨⟨⟨fun v hv => absurd hv (hseen v), fun o ho => ho, fun ss hss => hss, fun v hv => .inl hv, fun v hv => absurd hv (hseen v),
    fun ss hss => .inl hss, fun p hp => absurd hp List.not_mem_nil⟩, fun ss hss => .inl hss⟩, rfl, fun v hv => absurd hv List.not_mem_nil⟩

theorem initial_iterating (F : MachineFunction) (SM : SMInstBundle V) : Iterating F SM [] 0 (initialState SM) :=
  ⟨initial_searched F SM, fun o _ h => absurd h (Nat.not_lt_zero o)⟩

/-- What is done contains the chains through open slots. -/
theorem Searched.chain (h : Searched F SM done s) {o v : Nat} (ho : o ∈ done) (hchain : Chain F (Open F SM) o v) : v ∈ done := by
  have hdone : ∀ v, Seen done s v → v ∈ done := by
    intro v hv
    refine hv.resolve_right ?_
    rw [h.empty]
    exact List.not_mem_nil
  induction hchain with
  | refl => exact ho
  | tail _ hadjacent ih =>
    rcases hadjacent with ⟨p, loc, hloc, -, hw, hx⟩ | ⟨ss, hopen, ⟨p, loc, hloc, hss, hw⟩, hx⟩
    · exact hdone _ ((h.closed _ ih p loc hloc hw).regs loc hloc _ hx)
    · have hrecorded := (h.closed _ ih p loc hloc hw).slot loc ss hloc hss hopen
      exact hdone _ ((h.walk.expanded ss hrecorded).resolve_left hopen.2 _ hx)

/-- The keys of the maps at the end. -/
structure Recorded (F : MachineFunction) (SM : SMInstBundle V) (final : State V) : Prop where
  vregs : ∀ v, v ∈ final.vregs.map Prod.fst ↔ v ∈ opVregs SM ∨ isVregLive F SM v = true ∧ Found F SM (Open F SM) v
  sslots : ∀ ss, ss ∈ final.sslots.map Prod.fst ↔ ss ∈ opSlots SM ∨ Open F SM ss ∧ ∃ w, Found F SM (Open F SM) w ∧ Touches F w ss

theorem Searched.recorded (h : Searched F SM done s) (hall : ∀ o ∈ opVregs SM, o ∈ done) : Recorded F SM s := by
  have hdone : ∀ v, Found F SM (Open F SM) v → v ∈ done := fun v ⟨o, ho, hchain⟩ => h.chain (hall o ho) hchain
  refine ⟨fun v => ⟨fun hv => ?_, fun hv => ?_⟩, fun ss => ⟨fun hss => ?_, fun hss => ?_⟩⟩
  · exact (h.walk.search.vregs v hv).imp_right fun ⟨hlive, hseen⟩ => ⟨hlive, h.walk.search.found v hseen⟩
  · rcases hv with ho | ⟨hlive, hfound⟩
    · exact h.walk.search.operands v ho
    · exact h.walk.search.live v (.inl (hdone v hfound)) hlive
  · exact (h.walk.search.sslots ss hss).imp_right fun ⟨hopen, w, hw, ht⟩ => ⟨hopen, w, h.walk.search.found w hw, ht⟩
  · rcases hss with hop | ⟨hopen, w, hw, p, loc, hloc, hss, hmem⟩
    · exact h.walk.search.slotOperands ss hop
    · exact (h.closed w (hdone w hw) p loc hloc hmem).slot loc ss hloc hss hopen

theorem Recorded.exhaustive_iff (h : Recorded F SM s) : Exhaustive F SM s ↔ ChainsOpen F SM := by
  constructor
  · intro he
    refine ⟨fun v hv hlive => ?_, fun v ss hv ht hlive hnot => ?_⟩
    · rcases (h.vregs v).mp (he.vregs v hv hlive) with ho | ⟨-, hfound⟩
      · exact ⟨v, ho, .refl⟩
      · exact hfound
    · exact (((h.sslots ss).mp (he.sslots v ss hv ht hlive)).resolve_left hnot).2
  · intro hc
    refine ⟨fun v hv hlive => (h.vregs v).mpr (.inr ⟨hlive, hc.vregs v hv hlive⟩), fun v ss hv ht hlive => ?_⟩
    by_cases hop : ss ∈ opSlots SM
    · exact (h.sslots ss).mpr (.inl hop)
    · exact (h.sslots ss).mpr (.inr ⟨⟨hlive, hop⟩, hc.sslots v ss hv ht hlive hop⟩)

/-- The search ends; it is exhaustive exactly where chains through open slots are enough. -/
theorem findAlternateVregLocs_exhaustive_iff (F : MachineFunction) (SM : SMInstBundle V) (hF : F.Ok) (fuel : Nat) (hfuel : enough F SM 0 ≤ fuel) :
    ∃ final, findAlternateVregLocs F SM fuel = some final ∧ (Exhaustive F SM final ↔ ChainsOpen F SM) := by
  obtain ⟨final, done, hfinal, hsearched, hall, -⟩ := iterate_spec hF (Q := fun _ => True) (fun _ _ _ _ _ _ _ _ _ h => h) hfuel
    (initial_iterating F SM) trivial
  exact ⟨final, hfinal, (hsearched.recorded hall).exhaustive_iff⟩

end

/-! ## A spilled operand -/

namespace MachineInstr

def copy (vreg srcVreg : Nat) : MachineInstr :=
  ⟨false, true, [⟨true, true, .virtual vreg⟩, ⟨true, false, .virtual srcVreg⟩], none, none, [], true⟩

def load (vreg : Nat) (ss : Int) : MachineInstr := ⟨false, false, [⟨true, true, .virtual vreg⟩], some (.virtual vreg, ss), none, [], true⟩

def store (vreg : Nat) (ss : Int) : MachineInstr := ⟨false, false, [⟨true, false, .virtual vreg⟩], none, some (.virtual vreg, ss), [ss], true⟩

/-- An instruction that defines and uses registers, and copies none. -/
def plain (isStackMap : Bool) (defs uses : List Nat) : MachineInstr :=
  ⟨isStackMap, false, (defs.map fun r => ⟨true, true, .virtual r⟩) ++ uses.map fun r => ⟨true, false, .virtual r⟩, none, none, [], false⟩

theorem ok_of_copy {MI : MachineInstr} {loc : CopyLoc} (h : MI.getCopyLocation = some loc) (hdefs : MI.vregs true = loc.defs)
    (huses : MI.vregs false = loc.uses) (hslots : MI.slotDefs = loc.slotDefs) (hstack : MI.isStackMap = false) : MI.Ok := by
  have hunique : ∀ loc', MI.getCopyLocation = some loc' → loc' = loc := fun loc' h' => Option.some.inj (h'.symm.trans h)
  refine ⟨fun loc' h' r => ?_, fun loc' h' r => ?_, fun loc' h' ss => ?_, fun hs => ?_⟩
  · rw [hunique loc' h', hdefs]
  · rw [hunique loc' h', huses]
  · rw [hunique loc' h', hslots]
  · rw [hstack] at hs
    cases hs

theorem ok_of_none {MI : MachineInstr} (h : MI.getCopyLocation = none) : MI.Ok := by
  have hno : ∀ loc, MI.getCopyLocation ≠ some loc := fun loc h' => by
    rw [h] at h'
    cases h'
  exact ⟨fun loc h' => absurd h' (hno loc), fun loc h' => absurd h' (hno loc), fun loc h' => absurd h' (hno loc), fun _ => h⟩

end MachineInstr

/-- One block; the places of live intervals are counted in instructions. -/
def straightLine (instrs : List MachineInstr) (vregs : List (Nat × Nat × Nat)) (sslots : List (Int × Nat × Nat)) : MachineFunction where
  blocks := [⟨instrs, []⟩]
  defInstrs r := ((List.range instrs.length).filter fun i => instrs[i]?.any fun MI => r ∈ MI.vregs true).map fun i => (0, i)
  useInstrs r := ((List.range instrs.length).filter fun i => instrs[i]?.any fun MI => r ∈ MI.vregs false).map fun i => (0, i)
  vregInterval r := (vregs.lookup r).map fun (first, last) => [⟨⟨first, 2⟩, ⟨last, 2⟩⟩]
  stackInterval ss := (sslots.lookup ss).map fun (first, last) => [⟨⟨first, 2⟩, ⟨last, 2⟩⟩]
  instructionIndex p := ⟨p.2, 0⟩
  getPhys r := r

theorem straightLine_ok {instrs : List MachineInstr} (h : ∀ MI ∈ instrs, MI.Ok) (vregs : List (Nat × Nat × Nat)) (sslots : List (Int × Nat × Nat)) :
    (straightLine instrs vregs sslots).Ok := by
  have hinstr : ∀ p MI, (straightLine instrs vregs sslots).instr p = some MI ↔ p.1 = 0 ∧ instrs[p.2]? = some MI := by
    rintro ⟨b, i⟩ MI
    cases b with
    | zero => exact ⟨fun h => ⟨rfl, h⟩, fun h => h.2⟩
    | succ b => exact ⟨fun h => (by cases h), fun h => (by cases h.1)⟩
  have hchain : ∀ isDef r p, p ∈ ((List.range instrs.length).filter fun i => instrs[i]?.any fun MI => r ∈ MI.vregs isDef).map (fun i => (0, i)) ↔
      ∃ MI, (straightLine instrs vregs sslots).instr p = some MI ∧ r ∈ MI.vregs isDef := by
    rintro isDef r ⟨b, i⟩
    simp only [List.mem_map, List.mem_filter, List.mem_range, hinstr, Prod.mk.injEq]
    constructor
    · rintro ⟨i', ⟨hi, hany⟩, rfl, rfl⟩
      rw [List.getElem?_eq_getElem hi] at hany ⊢
      exact ⟨_, ⟨rfl, rfl⟩, by simpa using hany⟩
    · rintro ⟨MI, ⟨rfl, hMI⟩, hr⟩
      refine ⟨i, ⟨(List.getElem?_eq_some_iff.mp hMI).1, ?_⟩, rfl, rfl⟩
      rw [hMI]
      simpa using hr
  exact ⟨hchain true, hchain false, fun p MI hMI => h MI (List.mem_of_getElem? ((hinstr p MI).mp hMI).2)⟩

open MachineInstr in
/-- A register is spilled, and the slot read again before a call. -/
def spilled : List MachineInstr := [plain false [0] [], store 0 0, load 1 0, plain false [] [], plain true [] [0], plain false [] [0, 1]]

theorem spilled_ok : ∀ MI ∈ spilled, MI.Ok := by
  intro MI h
  simp only [spilled, List.mem_cons, List.not_mem_nil, or_false] at h
  rcases h with rfl | rfl | rfl | rfl | rfl | rfl
  · exact MachineInstr.ok_of_none rfl
  · exact @MachineInstr.ok_of_copy _ (.stackStore 0 0) rfl rfl rfl rfl rfl
  · exact @MachineInstr.ok_of_copy _ (.stackLoad 1 0) rfl rfl rfl rfl rfl
  · exact MachineInstr.ok_of_none rfl
  · exact MachineInstr.ok_of_none rfl
  · exact MachineInstr.ok_of_none rfl

/-- The slot live across the call, or dead behind the load. -/
def spilledFunction (slotLive : Bool) : MachineFunction := straightLine spilled [(0, 0, 5), (1, 2, 5)] [(0, 1, if slotLive then 5 else 2)]

def spilledStackmap : SMInstBundle String := ⟨(0, 4), (0, 3), [.reg 0 "%x"]⟩

theorem spilled_vreg {pass : Int → Prop} {v : Nat} (h : Found (spilledFunction true) spilledStackmap pass v) : v = 0 ∨ v = 1 := by
  have hlist : candidates (spilledFunction true) spilledStackmap = [0, 0, 1] := by decide
  have hmem := mem_candidates h
  rw [hlist] at hmem
  simp only [List.mem_cons, List.not_mem_nil, or_false] at hmem
  tauto

theorem spilled_slot {ss : Int} (h : isSSLive (spilledFunction true) spilledStackmap ss = true) : ss = 0 := by
  by_contra hne
  have hnone : (spilledFunction true).stackInterval ss = none := by
    simp [spilledFunction, straightLine, List.lookup_cons, beq_false_of_ne hne]
  simp [isSSLive, MachineFunction.isSSLiveAcrossInstr, hnone] at h

theorem spilled_recorded : ∃ final, findAlternateVregLocs (spilledFunction true) spilledStackmap 20 = some final ∧
    Exhaustive (spilledFunction true) spilledStackmap final := by
  obtain ⟨final, hfinal, hiff⟩ :=
    findAlternateVregLocs_exhaustive_iff (spilledFunction true) spilledStackmap (straightLine_ok spilled_ok _ _) 20 (by decide)
  have hopen : Open (spilledFunction true) spilledStackmap 0 := ⟨by decide, by decide⟩
  have hstore : Touches (spilledFunction true) 0 0 := ⟨(0, 1), .stackStore 0 0, rfl, rfl, .head _⟩
  have hload : Touches (spilledFunction true) 1 0 := ⟨(0, 2), .stackLoad 1 0, rfl, rfl, .head _⟩
  have h0 : Found (spilledFunction true) spilledStackmap (Open (spilledFunction true) spilledStackmap) 0 := ⟨0, .head _, .refl⟩
  have h1 : Found (spilledFunction true) spilledStackmap (Open (spilledFunction true) spilledStackmap) 1 :=
    ⟨0, .head _, .single (.inr ⟨0, hopen, hstore, hload⟩)⟩
  refine ⟨final, hfinal, hiff.mpr ⟨fun v hv _ => ?_, fun v ss _ _ hlive _ => ?_⟩⟩
  · rcases spilled_vreg hv with rfl | rfl
    · exact h0
    · exact h1
  · exact ⟨0, h0, spilled_slot hlive ▸ hstore⟩

/-- A slot that is dead across the call ends the search: the register loaded from it keeps its old value. -/
theorem dead_slot_missed : (spilledFunction false).Ok ∧ Found (spilledFunction false) spilledStackmap (fun _ => True) 1 ∧
    isVregLive (spilledFunction false) spilledStackmap 1 = true ∧
      ∃ final, findAlternateVregLocs (spilledFunction false) spilledStackmap 20 = some final ∧ 1 ∉ final.vregs.map Prod.fst ∧
        ¬ Exhaustive (spilledFunction false) spilledStackmap final := by
  have hstore : Touches (spilledFunction false) 0 0 := ⟨(0, 1), .stackStore 0 0, rfl, rfl, .head _⟩
  have hload : Touches (spilledFunction false) 1 0 := ⟨(0, 2), .stackLoad 1 0, rfl, rfl, .head _⟩
  have hfound : Found (spilledFunction false) spilledStackmap (fun _ => True) 1 := ⟨0, .head _, .single (.inr ⟨0, trivial, hstore, hload⟩)⟩
  have hlive : isVregLive (spilledFunction false) spilledStackmap 1 = true := by decide
  have hmissed : ∃ final, findAlternateVregLocs (spilledFunction false) spilledStackmap 20 = some final ∧ 1 ∉ final.vregs.map Prod.fst :=
    ⟨_, rfl, by decide⟩
  obtain ⟨final, hfinal, hnot⟩ := hmissed
  exact ⟨straightLine_ok spilled_ok _ _, hfound, hlive, final, hfinal, hnot, fun he => hnot (he.vregs 1 hfound hlive)⟩

end Popcorn.Duplicates
