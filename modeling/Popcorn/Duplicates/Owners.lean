/-
  Popcorn.Duplicates.Owners — which operand a place is recorded for.

  The searches run from the registers of the map in ascending order. All that is connected through
  open slots is found by the first search that starts in it, and that is one from an operand; so a
  place is recorded for the least operand it is connected to.

  Proved: `recordedFor_iff`.
-/

import Popcorn.Duplicates.Search

namespace Popcorn.Duplicates

open Popcorn.Lib Relation

section
variable {V : Type} {F : MachineFunction} {SM : SMInstBundle V}

/-! ## Owners -/

theorem Adjacent.symm {pass : Int → Prop} {v x : Nat} (h : Adjacent F pass v x) : Adjacent F pass x v := by
  rcases h with ⟨p, loc, hloc, hslot, hv, hx⟩ | ⟨ss, hpass, hv, hx⟩
  · exact .inl ⟨p, loc, hloc, hslot, hx, hv⟩
  · exact .inr ⟨ss, hpass, hx, hv⟩

theorem Chain.symm {pass : Int → Prop} {v x : Nat} (h : Chain F pass v x) : Chain F pass x v := by
  induction h with
  | refl => exact .refl
  | tail _ hadjacent ih => exact ReflTransGen.head hadjacent.symm ih

variable (F SM)

/-- The least operand the register is connected to. -/
structure Owner (o v : Nat) : Prop where
  mem : o ∈ opVregs SM
  chain : Chain F (Open F SM) o v
  least : ∀ o' ∈ opVregs SM, Chain F (Open F SM) o' v → o ≤ o'

/-- The places of an operand that are not operands themselves. -/
inductive Duplicate (o : Nat) : Loc → Prop
  | vreg (v : Nat) : v ∉ opVregs SM → isVregLive F SM v = true → Owner F SM o v → Duplicate o (.vreg v)
  | stackSlot (w : Nat) (ss : Int) : Open F SM ss → Touches F w ss → Owner F SM o w → Duplicate o (.stackSlot ss)

/-- The maps have the place with the operand's IR values. -/
def RecordedFor (final : State V) (o : Nat) : Loc → Prop
  | .vreg v => v ∉ opVregs SM ∧ ∃ vec, (v, vec) ∈ final.vregs ∧ vec.operand = .vreg o
  | .stackSlot ss => ss ∉ opSlots SM ∧ ∃ vec, (ss, vec) ∈ final.sslots ∧ vec.operand = .vreg o

/-- What a search from `k` adds to the maps of `s0`. -/
structure Entries (s0 : State V) (IRVals : ValueVec V) (k : Nat) (s : State V) : Prop where
  work : ∀ v ∈ s.work, Chain F (Open F SM) k v
  vregs : ∀ e ∈ s.vregs, e ∈ s0.vregs ∨ e.2 = IRVals ∧ e.1 ∉ s0.vregs.map Prod.fst ∧ isVregLive F SM e.1 = true ∧ Chain F (Open F SM) k e.1
  keptVregs : s0.vregs.map Prod.fst ⊆ s.vregs.map Prod.fst
  sslots : ∀ e ∈ s.sslots, e ∈ s0.sslots ∨
    e.2 = IRVals ∧ e.1 ∉ s0.sslots.map Prod.fst ∧ Open F SM e.1 ∧ ∃ w, Chain F (Open F SM) k w ∧ Touches F w e.1
  keptSlots : s0.sslots.map Prod.fst ⊆ s.sslots.map Prod.fst
  slotOperands : ∀ ss ∈ opSlots SM, ss ∈ s.sslots.map Prod.fst

variable {F SM} {s0 s s' : State V} {IRVals : ValueVec V} {k : Nat}

/-! ## What one search adds -/

theorem Entries.follow (h : Entries F SM s0 IRVals k s) (p : InstrPtr) {Vreg : Nat} (hchain : Chain F (Open F SM) k Vreg) :
    Entries F SM s0 IRVals k (follow F SM p Vreg IRVals s) := by
  have hwork : ∀ v ∈ s.work ++ [Vreg], Chain F (Open F SM) k v := by
    intro v hv
    rcases List.mem_append.mp hv with hv | hv
    · exact h.work v hv
    · exact List.mem_singleton.mp hv ▸ hchain
  unfold Duplicates.follow addVregMetadata
  split_ifs with hadd
  · refine ⟨hwork, fun e he => ?_, fun v hv => ?_, h.sslots, h.keptSlots, h.slotOperands⟩
    · rcases List.mem_append.mp he with he | he
      · exact h.vregs e he
      · obtain rfl := List.mem_singleton.mp he
        exact .inr ⟨rfl, fun hold => hadd.1 (h.keptVregs hold), hadd.2, hchain⟩
    · rw [List.map_append]
      exact List.mem_append_left _ (h.keptVregs hv)
  · exact ⟨hwork, h.vregs, h.keptVregs, h.sslots, h.keptSlots, h.slotOperands⟩

theorem Entries.searchStackSlotCopies (hF : F.Ok) (h : Entries F SM s0 IRVals k s) {ss : Int} (hall : ∀ v, Touches F v ss → Chain F (Open F SM) k v) :
    Entries F SM s0 IRVals k (searchStackSlotCopies F SM ss IRVals s) := by
  refine foldl_inv (P := fun _ s => Entries F SM s0 IRVals k s) (F.ssUses ss) h fun copies p rest s hsplit h => ?_
  obtain ⟨loc, hloc, hss⟩ := (mem_ssUses hF).mp (hsplit ▸ List.mem_append_right copies (.head rest))
  have hstep : followCopy F SM IRVals s p = if s.visited.contains p then s else Duplicates.follow F SM p loc.vreg IRVals s := by
    unfold followCopy
    rw [hloc]
  rw [hstep]
  split_ifs
  · exact h
  · exact h.follow p (hall loc.vreg ⟨p, loc, hloc, hss, CopyLoc.regs_of_slot hss ▸ .head _⟩)

theorem Entries.expandSlot (hF : F.Ok) (h : Entries F SM s0 IRVals k s) (p : InstrPtr) {cur : Nat} {ss : Int} (hcur : Chain F (Open F SM) k cur)
    (ht : Touches F cur ss) : Entries F SM s0 IRVals k (expandSlot F SM p ss IRVals s) := by
  unfold Duplicates.expandSlot addSSMetadata
  by_cases hadd : ss ∉ s.sslots.map Prod.fst ∧ isSSLive F SM ss = true
  · have hopen : Open F SM ss := ⟨hadd.2, fun hop => hadd.1 (h.slotOperands ss hop)⟩
    rw [if_pos hadd]
    refine Entries.searchStackSlotCopies hF ?_ fun v hv => hcur.tail (.inr ⟨ss, hopen, ht, hv⟩)
    refine ⟨h.work, h.vregs, h.keptVregs, fun e he => ?_, fun ss' hss' => ?_, fun ss' hss' => ?_⟩
    · rcases List.mem_append.mp he with he | he
      · exact h.sslots e he
      · obtain rfl := List.mem_singleton.mp he
        exact .inr ⟨rfl, fun hold => hadd.1 (h.keptSlots hold), hopen, cur, hcur, ht⟩
    · show ss' ∈ (s.sslots ++ [(ss, IRVals)]).map Prod.fst
      rw [List.map_append]
      exact List.mem_append_left _ (h.keptSlots hss')
    · show ss' ∈ (s.sslots ++ [(ss, IRVals)]).map Prod.fst
      rw [List.map_append]
      exact List.mem_append_left _ (h.slotOperands ss' hss')
  · rw [if_neg hadd]
    exact h

theorem Entries.visitDef (hF : F.Ok) (h : Entries F SM s0 IRVals k s) {cur : Nat} (hcur : Chain F (Open F SM) k cur) {p : InstrPtr}
    (hp : p ∈ F.defInstrs cur) (hs : visitDef F SM IRVals s p = some s') : Entries F SM s0 IRVals k s' := by
  unfold Duplicates.visitDef at hs
  split_ifs at hs with hold
  · exact Option.some.inj hs ▸ h
  · obtain ⟨MI, hMI, hdef⟩ := (hF.defInstrs cur p).mp hp
    cases hloc : F.copyAt p with
    | none =>
      rw [hloc] at hs
      exact Option.some.inj hs ▸ h
    | some loc =>
      have hcopy : MI.getCopyLocation = some loc := by rwa [MachineFunction.copyAt, hMI] at hloc
      have hmem : cur ∈ loc.defs := ((hF.instrs p MI hMI).defs loc hcopy cur).mp hdef
      rw [hloc] at hs
      cases loc with
      | regCopy vreg srcVreg =>
        obtain rfl : cur = vreg := List.mem_singleton.mp hmem
        exact Option.some.inj hs ▸ h.follow p (hcur.tail (.inl ⟨p, _, hloc, rfl, .head _, .tail _ (.head _)⟩))
      | stackLoad vreg ss =>
        obtain rfl : cur = vreg := List.mem_singleton.mp hmem
        exact Option.some.inj hs ▸ h.expandSlot hF p hcur ⟨p, _, hloc, rfl, .head _⟩
      | stackStore vreg ss => exact absurd hmem List.not_mem_nil

theorem Entries.visitUse (hF : F.Ok) (h : Entries F SM s0 IRVals k s) {cur : Nat} (hcur : Chain F (Open F SM) k cur) {p : InstrPtr}
    (hp : p ∈ F.useInstrs cur) (hs : visitUse F SM IRVals s p = some s') : Entries F SM s0 IRVals k s' := by
  unfold Duplicates.visitUse at hs
  split_ifs at hs with hold
  · exact Option.some.inj hs ▸ h
  · obtain ⟨MI, hMI, huse⟩ := (hF.useInstrs cur p).mp hp
    cases hloc : F.copyAt p with
    | none =>
      rw [hloc] at hs
      exact Option.some.inj hs ▸ h
    | some loc =>
      have hcopy : MI.getCopyLocation = some loc := by rwa [MachineFunction.copyAt, hMI] at hloc
      have hmem : cur ∈ loc.uses := ((hF.instrs p MI hMI).uses loc hcopy cur).mp huse
      rw [hloc] at hs
      cases loc with
      | regCopy vreg srcVreg =>
        obtain rfl : cur = srcVreg := List.mem_singleton.mp hmem
        exact Option.some.inj hs ▸ h.follow p (hcur.tail (.inl ⟨p, _, hloc, rfl, .tail _ (.head _), .head _⟩))
      | stackLoad vreg ss => exact absurd hmem List.not_mem_nil
      | stackStore vreg ss =>
        obtain rfl : cur = vreg := List.mem_singleton.mp hmem
        exact Option.some.inj hs ▸ h.expandSlot hF p hcur ⟨p, _, hloc, rfl, .head _⟩

theorem entries_chain {f : State V → InstrPtr → Option (State V)} {chain : List InstrPtr} (h : Entries F SM s0 IRVals k s)
    (hf : ∀ s p s', Entries F SM s0 IRVals k s → p ∈ chain → f s p = some s' → Entries F SM s0 IRVals k s') (hs : chain.foldlM f s = some s') :
    Entries F SM s0 IRVals k s' := by
  induction chain generalizing s with
  | nil => exact Option.some.inj hs ▸ h
  | cons p chain ih =>
    rw [List.foldlM_cons] at hs
    obtain ⟨s1, hs1, hrest⟩ := Option.bind_eq_some_iff.mp hs
    exact ih (hf s p s1 h (.head _) hs1) (fun s q s' h hq => hf s q s' h (.tail _ hq)) hrest

theorem Entries.search (hF : F.Ok) {fuel : Nat} (h : Entries F SM s0 IRVals k s) (hs : search F SM IRVals fuel s = some s') :
    Entries F SM s0 IRVals k s' := by
  induction fuel generalizing s with
  | zero => cases hs
  | succ fuel ih =>
    unfold Duplicates.search at hs
    cases hwork : s.work with
    | nil =>
      rw [hwork] at hs
      exact Option.some.inj hs ▸ h
    | cons cur rest =>
      rw [hwork] at hs
      obtain ⟨s2, hs2, hrest⟩ := Option.bind_eq_some_iff.mp hs
      obtain ⟨s1, hs1, hs2⟩ := Option.bind_eq_some_iff.mp hs2
      have hcur : Chain F (Open F SM) k cur := h.work cur (hwork ▸ .head rest)
      have hpop : Entries F SM s0 IRVals k { s with work := rest } :=
        ⟨fun v hv => h.work v (hwork ▸ .tail _ hv), h.vregs, h.keptVregs, h.sslots, h.keptSlots, h.slotOperands⟩
      have h1 := entries_chain hpop (fun s p s' h hp hs => h.visitDef hF hcur hp hs) hs1
      exact ih (entries_chain h1 (fun s p s' h hp hs => h.visitUse hF hcur hp hs) hs2) hrest

/-! ## Over all searches -/

/-- Every entry has the IR values of its operand. -/
structure Labelled (F : MachineFunction) (SM : SMInstBundle V) (s : State V) : Prop where
  vregs : ∀ e ∈ s.vregs, e.1 ∈ opVregs SM ∧ e.2.operand = .vreg e.1 ∨
    e.1 ∉ opVregs SM ∧ isVregLive F SM e.1 = true ∧ ∃ o, e.2.operand = .vreg o ∧ Owner F SM o e.1
  sslots : ∀ e ∈ s.sslots, e.1 ∈ opSlots SM ∨
    e.1 ∉ opSlots SM ∧ Open F SM e.1 ∧ ∃ o w, e.2.operand = .vreg o ∧ Touches F w e.1 ∧ Owner F SM o w

theorem pushBack_operand {κ : Type} [DecidableEq κ] {operand : κ → Loc} {l : List (κ × ValueVec V)} (key : κ) (IRVal : V)
    (h : ∀ e ∈ l, e.2.operand = operand e.1) : ∀ e ∈ pushBack operand key IRVal l, e.2.operand = operand e.1 := by
  induction l with
  | nil => exact fun e he => List.mem_singleton.mp he ▸ rfl
  | cons entry rest ih =>
    obtain ⟨k', vec⟩ := entry
    unfold pushBack
    split_ifs with hk
    · intro e he
      rcases List.mem_cons.mp he with rfl | he
      · exact h (k', vec) (.head _)
      · exact h e (.tail _ he)
    · intro e he
      rcases List.mem_cons.mp he with rfl | he
      · exact h _ (.head _)
      · exact ih (fun e he => h e (.tail _ he)) e he

theorem mapOpsToIR_operand (ops : List (StackMapOp V)) : ∀ e ∈ (mapOpsToIR ops).1, e.2.operand = .vreg e.1 := by
  refine foldl_inv (P := fun _ (maps : List (Nat × ValueVec V) × List (Int × ValueVec V)) => ∀ e ∈ maps.1, e.2.operand = .vreg e.1) ops
    (fun e he => absurd he List.not_mem_nil) fun done op rest maps _ h => ?_
  cases op with
  | directMemRef frameIdx IRVal => exact h
  | indirectMemRef frameIdx IRVal => exact h
  | constant => exact h
  | reg vreg IRVal => exact pushBack_operand vreg IRVal h

theorem initial_labelled (F : MachineFunction) (SM : SMInstBundle V) : Labelled F SM (initialState SM) :=
  ⟨fun e he => .inl ⟨List.mem_map_of_mem he, mapOpsToIR_operand SM.ops e he⟩, fun _ he => .inl (List.mem_map_of_mem he)⟩

theorem Owner.chain_right {o k v : Nat} (h : Owner F SM o k) (hchain : Chain F (Open F SM) k v) : Owner F SM o v :=
  ⟨h.mem, h.chain.trans hchain, fun o' ho' hchain' => h.least o' ho' (hchain'.trans hchain.symm)⟩

/-- Where nothing of it was done before, what a search from the next entry finds belongs to that entry's operand. -/
theorem Iterating.owner {done : List Nat} {first : Nat} {entry : Nat × ValueVec V} (hi : Iterating F SM done first s) (hl : Labelled F SM s)
    (hnext : (s.vregs.filter fun entry => first ≤ entry.1).argmin Prod.fst = some entry) {v : Nat}
    (hchain : Chain F (Open F SM) entry.1 v) (hnew : v ∉ done) : ∃ o, entry.2.operand = .vreg o ∧ Owner F SM o v := by
  obtain ⟨hmem, -⟩ := List.mem_filter.mp (List.argmin_mem hnext)
  rcases hl.vregs entry hmem with ⟨hop, hoperand⟩ | ⟨-, -, o, hoperand, howner⟩
  · refine ⟨entry.1, hoperand, hop, hchain, fun o' ho' hchain' => ?_⟩
    by_contra hlt
    have hbefore : o' < first := by
      by_contra hge
      obtain ⟨e, he, rfl⟩ := List.mem_map.mp (hi.searched.walk.search.operands o' ho')
      have hin : e ∈ s.vregs.filter fun entry => first ≤ entry.1 := List.mem_filter.mpr ⟨he, by simpa using hge⟩
      exact hlt (List.le_of_mem_argmin hin hnext)
    exact hnew (hi.searched.chain (hi.first o' ho' hbefore) hchain')
  · exact ⟨o, hoperand, howner.chain_right hchain⟩

theorem Labelled.search (hF : F.Ok) {done : List Nat} {first fuel : Nat} {entry : Nat × ValueVec V} (hi : Iterating F SM done first s)
    (hnext : (s.vregs.filter fun entry => first ≤ entry.1).argmin Prod.fst = some entry)
    (hs : search F SM entry.2 fuel (s.from entry.1) = some s') (hl : Labelled F SM s) : Labelled F SM s' := by
  have hstart : Entries F SM s entry.2 entry.1 (s.from entry.1) := by
    refine ⟨fun v hv => ?_, fun e he => .inl he, fun _ h => h, fun e he => .inl he, fun _ h => h, hi.searched.walk.search.slotOperands⟩
    rw [State.from, hi.searched.empty] at hv
    exact List.mem_singleton.mp hv ▸ .refl
  have hend := hstart.search hF hs
  refine ⟨fun e he => ?_, fun e he => ?_⟩
  · rcases hend.vregs e he with hold | ⟨hvec, hfresh, hlive, hchain⟩
    · exact hl.vregs e hold
    · obtain ⟨o, hoperand, howner⟩ := hi.owner hl hnext hchain fun hdone => hfresh (hi.searched.walk.search.live e.1 (.inl hdone) hlive)
      exact .inr ⟨fun hop => hfresh (hi.searched.walk.search.operands e.1 hop), hlive, o, hvec ▸ hoperand, howner⟩
  · rcases hend.sslots e he with hold | ⟨hvec, hfresh, hopen, w, hchain, p, loc, hloc, hss, hw⟩
    · exact hl.sslots e hold
    · obtain ⟨o, hoperand, howner⟩ := hi.owner hl hnext hchain fun hdone =>
        hfresh ((hi.searched.closed w hdone p loc hloc hw).slot loc e.1 hloc hss hopen)
      exact .inr ⟨hopen.2, hopen, o, w, hvec ▸ hoperand, ⟨p, loc, hloc, hss, hw⟩, howner⟩

theorem Owner.unique {o o' v : Nat} (h : Owner F SM o v) (h' : Owner F SM o' v) : o = o' :=
  Nat.le_antisymm (h.least o' h'.mem h'.chain) (h'.least o h.mem h.chain)

/-- The places recorded for an operand, in terms of the function. -/
theorem recordedFor_iff {final : State V} (hr : Recorded F SM final) (hl : Labelled F SM final) (o : Nat) (l : Loc) :
    RecordedFor SM final o l ↔ Duplicate F SM o l := by
  constructor
  · cases l with
    | vreg v =>
      rintro ⟨hnot, vec, hmem, hvec⟩
      obtain ⟨-, hlive, o', hoperand, howner⟩ := (hl.vregs (v, vec) hmem).resolve_left fun h => hnot h.1
      obtain rfl : o' = o := Loc.vreg.inj (hoperand.symm.trans hvec)
      exact .vreg v hnot hlive howner
    | stackSlot ss =>
      rintro ⟨hnot, vec, hmem, hvec⟩
      obtain ⟨-, hopen, o', w, hoperand, ht, howner⟩ := (hl.sslots (ss, vec) hmem).resolve_left hnot
      obtain rfl : o' = o := Loc.vreg.inj (hoperand.symm.trans hvec)
      exact .stackSlot w ss hopen ht howner
  · intro h
    cases h with
    | vreg v hnot hlive howner =>
      obtain ⟨⟨v', vec⟩, hmem, rfl⟩ := List.mem_map.mp ((hr.vregs v).mpr (.inr ⟨hlive, o, howner.mem, howner.chain⟩))
      obtain ⟨-, -, o', hoperand, howner'⟩ := (hl.vregs (v', vec) hmem).resolve_left fun h => hnot h.1
      exact ⟨hnot, vec, hmem, howner.unique howner' ▸ hoperand⟩
    | stackSlot w ss hopen ht howner =>
      obtain ⟨⟨ss', vec⟩, hmem, rfl⟩ := List.mem_map.mp ((hr.sslots ss).mpr (.inr ⟨hopen, w, ⟨o, howner.mem, howner.chain⟩, ht⟩))
      obtain ⟨-, -, o', w', hoperand, ht', howner'⟩ := (hl.sslots (ss', vec) hmem).resolve_left hopen.2
      have hsame := howner'.chain_right (ReflTransGen.single (.inr ⟨ss', hopen, ht', ht⟩))
      exact ⟨hopen.2, vec, hmem, howner.unique hsame ▸ hoperand⟩

end

end Popcorn.Duplicates
