/-
  Popcorn.Liveness.Dag — what the post-order traversal computes.

  LLVM's analyses are assumed correct (`LlvmCorrect`) and the function's control-flow
  graph reducible (`Reducible`): an edge that does not go down in post-order goes to a
  dominator of its source, and those are the edges FindFunctionBackedges returns.

  Proved: `dagDFS` gives every reachable block exactly what is live at its end along
  paths without back edges, where phi uses over self-loop edges do not count, and at
  its start the same together with the block's phis (`dagDFS_sets`).
-/

import Popcorn.Lib.Run
import Popcorn.Liveness.Paths

namespace Popcorn.Liveness

open Popcorn.Lib

/-! ## Assumptions on LLVM -/

/-- What LLVM's FindFunctionBackedges, po_iterator, scc_iterator and LoopInfo guarantee. -/
structure LlvmCorrect (F : Function) (A : Analyses) : Prop where
  po_nodup : A.po.Nodup
  po_mem : ∀ b, b ∈ A.po ↔ F.Reach b
  backedges : ∀ b s, (b, s) ∈ A.backedges ↔ BackEdge F.Edge 0 b s
  scc_cover : ∀ b, F.Reach b → ∃ scc ∈ A.sccs, b ∈ scc
  scc_mutual : ∀ scc ∈ A.sccs, ∀ a ∈ scc, ∀ b ∈ scc, F.Reach a ∧ Relation.ReflTransGen F.Edge a b
  /-- The loops are the natural loops, one for each header. -/
  loop_blocks : ∀ L ∈ A.loopInfo.loops, F.NatLoop L.header L.header ∧ ∀ c, c ∈ L.blocks ↔ F.NatLoop L.header c
  loop_header : ∀ h, F.NatLoop h h → ∃ L ∈ A.loopInfo.loops, L.header = h
  loop_inj : ∀ L ∈ A.loopInfo.loops, ∀ M ∈ A.loopInfo.loops, L.header = M.header → L = M
  /-- `LI[b]` is the innermost loop of `b`. -/
  loop_for : ∀ b L, A.loopInfo.get b = some L → L ∈ A.loopInfo.loops ∧ F.NatLoop L.header b ∧
    ∀ M ∈ A.loopInfo.loops, F.NatLoop M.header b → F.NatLoop M.header L.header
  loop_for_none : ∀ b, A.loopInfo.get b = none → ∀ M ∈ A.loopInfo.loops, ¬ F.NatLoop M.header b
  /-- The depth of a loop counts the loops around its header. -/
  loop_depth : ∀ L ∈ A.loopInfo.loops, L.depth = A.loopInfo.loops.countP fun M => decide (L.header ∈ M.blocks)
  loop_parent : ∀ L ∈ A.loopInfo.loops, L.depth > 1 →
    ∃ M ∈ A.loopInfo.loops, (L.parent.bind fun i => A.loopInfo.loops[i]?) = some M ∧ M.depth + 1 = L.depth ∧
      F.NatLoop M.header L.header

/-- Every edge goes down in post-order or to a dominator of its source. -/
def Reducible (F : Function) (A : Analyses) : Prop :=
  ∀ b s, F.Reach b → F.Edge b s → A.po.idxOf s < A.po.idxOf b ∨ F.Dom s b

/-! ## Scanning a block -/

/-- What `includeVal` accepts and is live at a point. -/
def Incl (o : Options) (F : Function) (U P : Nat → Nat → Prop) (b i : Nat) (v : Value) : Prop :=
  includeVal o F v = true ∧ LiveAt F U P v b i

variable {o : Options} {F : Function} {A : Analyses} {U P : Nat → Nat → Prop}

theorem mem_scanInst {b i : Nat} {live : Finset Value} {v : Value} : v ∈ scanInst o F b i live ↔
    (v ∈ F.operands b i ∧ includeVal o F v = true) ∨ (v ≠ .inst b i ∧ v ∈ live) := by
  simp only [scanInst, Finset.mem_union, Finset.mem_erase, List.mem_toFinset, List.mem_filter]
  exact or_comm

/-- A backward scan from live values ends with live values. -/
theorem scanBack_sound {b k : Nat} {v : Value} : ∀ (n : Nat) (live : Finset Value), k + n ≤ F.len b →
    (v ∈ live → Incl o F U P b (k + n) v) → v ∈ scanBack o F b k n live → Incl o F U P b k v := by
  intro n
  induction n with
  | zero => intro live _ h hv; exact h hv
  | succ n ih =>
    intro live hle h hv
    refine ih _ (by omega) ?_ hv
    intro hv
    rw [Incl, liveAt_lt (by omega)]
    rcases mem_scanInst.mp hv with ⟨hop, hi⟩ | ⟨hne, hl⟩
    · exact ⟨hi, .inl hop⟩
    · exact ⟨(h hl).1, .inr ⟨hne, (h hl).2⟩⟩

/-- A backward scan from all live values ends with all of them. -/
theorem scanBack_complete {b k : Nat} {v : Value} : ∀ (n : Nat) (live : Finset Value), k + n ≤ F.len b →
    (Incl o F U P b (k + n) v → v ∈ live) → Incl o F U P b k v → v ∈ scanBack o F b k n live := by
  intro n
  induction n with
  | zero => intro live _ h hv; exact h hv
  | succ n ih =>
    intro live hle h hv
    refine ih _ (by omega) ?_ hv
    rintro ⟨hi, hl⟩
    rw [liveAt_lt (by omega)] at hl
    rw [mem_scanInst]
    rcases hl with hop | ⟨hne, hl⟩
    · exact .inl ⟨hop, hi⟩
    · exact .inr ⟨hne, h ⟨hi, hl⟩⟩

/-! ## One block -/

/-- Phi uses over self-loop edges do not count. -/
def NoSelf (b s : Nat) : Prop := s ≠ b

/-- Edges that are no back edges. -/
def Forward (A : Analyses) (b s : Nat) : Prop := (b, s) ∉ A.backedges

/-- What the traversal computes at the end of a block and at its start. -/
def DagOut (o : Options) (F : Function) (A : Analyses) (b : Nat) (v : Value) : Prop :=
  Incl o F NoSelf (Forward A) b (F.len b) v

def DagIn (o : Options) (F : Function) (A : Analyses) (b : Nat) (v : Value) : Prop :=
  includeVal o F v = true ∧ (LiveAt F NoSelf (Forward A) v b 0 ∨ v ∈ F.phiValues b)

/-- The entry of `b` holds exactly the values that satisfy `Q`. -/
def Holds (m : LiveVals) (b : Nat) (Q : Value → Prop) : Prop := ∃ s, m b = some s ∧ ∀ v, v ∈ s ↔ Q v

theorem Holds.get {m : LiveVals} {b : Nat} {Q : Value → Prop} (h : Holds m b Q) (v : Value) : v ∈ m.get b ↔ Q v := by
  obtain ⟨s, hs, hq⟩ := h
  rw [LiveVals.get, hs]
  exact hq v

theorem mem_phiUses {B S : Nat} {uses : Finset Value} {v : Value} :
    v ∈ phiUses o F B S uses ↔ v ∈ uses ∨ (v ∈ F.phiOperands B S ∧ includeVal o F v = true) := by
  simp only [phiUses, Finset.mem_union, List.mem_toFinset, List.mem_filter]

theorem mem_phiDefs {B : Nat} {uses : Finset Value} {v : Value} :
    v ∈ phiDefs o F B uses ↔ v ∈ uses ∨ (v ∈ F.phiValues B ∧ includeVal o F v = true) := by
  simp only [phiDefs, Finset.mem_union, List.mem_toFinset, List.mem_filter]

/-- What edge `b → s` contributes to the live-out set. -/
def OverEdge (o : Options) (F : Function) (A : Analyses) (b s : Nat) (v : Value) : Prop :=
  includeVal o F v = true ∧ ((NoSelf b s ∧ v ∈ F.phiOperands b s) ∨
    (Forward A b s ∧ v ∉ F.phiValues s ∧ LiveAt F NoSelf (Forward A) v s 0))

/-- The entries of `m` are right for the blocks visited, and there are no others. -/
structure DagInv (o : Options) (F : Function) (A : Analyses) (done : List Nat) (st : LiveVals × LiveVals) : Prop where
  liveIn : ∀ b ∈ done, Holds st.1 b (DagIn o F A b)
  liveOut : ∀ b ∈ done, Holds st.2 b (DagOut o F A b)
  noIn : ∀ b, b ∉ done → st.1 b = none
  noOut : ∀ b, b ∉ done → st.2 b = none

/-- One successor adds what its edge contributes. -/
theorem mem_dagSuccessor (o : Options) {b s : Nat} (st : LiveVals × Finset Value) (hself : (b, b) ∈ A.backedges ∨ s ≠ b)
    (hs : Forward A b s → Holds st.1 s (DagIn o F A s)) :
    (dagSuccessor o F A.backedges b st s).1 = st.1 ∧
      ∀ v, v ∈ (dagSuccessor o F A.backedges b st s).2 ↔ v ∈ st.2 ∨ OverEdge o F A b s v := by
  unfold dagSuccessor
  by_cases heq : s = b
  · subst heq
    rw [if_pos rfl]
    refine ⟨rfl, ?_⟩
    intro v
    constructor
    · exact .inl
    · rintro (h | ⟨-, ⟨hne, -⟩ | ⟨hf, -⟩⟩)
      · exact h
      · exact absurd rfl hne
      · rcases hself with h | h
        · exact absurd h hf
        · exact absurd rfl h
  rw [if_neg heq]
  by_cases hb : (b, s) ∈ A.backedges
  · simp only [if_pos hb, true_and]
    intro v
    rw [mem_phiUses]
    simp only [OverEdge, NoSelf, Forward, hb, not_true_eq_false, false_and, or_false, ne_eq, heq, not_false_eq_true, true_and]
    rw [and_comm]
  · obtain ⟨set, hset, hmem⟩ := hs hb
    simp only [if_neg hb]
    refine ⟨by simp [LiveVals.touch, hset], ?_⟩
    intro v
    simp only [Finset.mem_union, mem_phiUses, Finset.mem_filter, LiveVals.get, hset, Option.getD_some, hmem, DagIn,
      mem_phiDefs, Finset.notMem_empty, false_or, OverEdge, NoSelf, Forward, hb, not_false_eq_true, true_and, ne_eq, heq]
    by_cases hi : includeVal o F v = true
    · simp only [hi, and_true, true_and]
      tauto
    · simp [hi]

/-- In post-order a forward successor is visited first. -/
theorem forward_visited (hr : Reducible F A) (hc : LlvmCorrect F A) {done rest : List Nat} {b : Nat}
    (hpo : A.po = done ++ b :: rest) (hbn : b ∉ done) (hreach : F.Reach b) {s : Nat} (e : F.Edge b s) (hf : Forward A b s) :
    s ∈ done := by
  have hlt : A.po.idxOf s < A.po.idxOf b := by
    rcases hr b s hreach e with h | h
    · exact h
    · exact absurd ((hc.backedges b s).mpr ⟨hreach, e, h⟩) hf
  by_contra hs
  rw [hpo, List.idxOf_append_of_notMem hs, List.idxOf_append_of_notMem hbn, List.idxOf_cons_self] at hlt
  omega

/-- The successors together give what is live at the end of the block, and leave the sets alone. -/
theorem dagSuccessors_spec (o : Options) {b : Nat} {m : LiveVals} (hself : ∀ s, F.Edge b s → (b, b) ∈ A.backedges ∨ s ≠ b)
    (hs : ∀ s, F.Edge b s → Forward A b s → Holds m s (DagIn o F A s)) :
    ((F.block b).succs.foldl (dagSuccessor o F A.backedges b) (m, ∅)).1 = m ∧
      ∀ v, v ∈ ((F.block b).succs.foldl (dagSuccessor o F A.backedges b) (m, ∅)).2 ↔ DagOut o F A b v := by
  have hout := foldl_inv (f := dagSuccessor o F A.backedges b) (s := (m, ∅))
    (P := fun ss x => x.1 = m ∧ ∀ v, v ∈ x.2 ↔ ∃ s ∈ ss, OverEdge o F A b s v) (F.block b).succs ⟨rfl, by simp⟩ (by
      intro ss s more x hx ⟨h1, h2⟩
      have he : F.Edge b s := by rw [Function.Edge, hx]; simp
      obtain ⟨g1, g2⟩ := mem_dagSuccessor o x (hself s he) (fun hf => by rw [h1]; exact hs s he hf)
      refine ⟨g1.trans h1, ?_⟩
      intro v
      rw [g2, h2]
      simp only [List.mem_append, List.mem_singleton]
      constructor
      · rintro (⟨t, ht, hv⟩ | hv)
        · exact ⟨t, .inl ht, hv⟩
        · exact ⟨s, .inr rfl, hv⟩
      · rintro ⟨t, ht | rfl, hv⟩
        · exact .inl ⟨t, ht, hv⟩
        · exact .inr hv)
  refine ⟨hout.1, ?_⟩
  intro v
  rw [hout.2, DagOut, Incl, liveAt_end]
  simp only [OverEdge]
  constructor
  · rintro ⟨s, hs, hi, hv⟩
    exact ⟨hi, s, hs, hv⟩
  · rintro ⟨hi, s, hs, hv⟩
    exact ⟨s, hs, hi, hv⟩

/-- The scan takes what is live at the end of the block to what is live at its start. -/
theorem mem_dagStart {b : Nat} {live : Finset Value} (hdag : ∀ v, v ∈ live ↔ DagOut o F A b v) (v : Value) :
    v ∈ phiDefs o F b (scanBack o F b 0 (F.len b) live) ↔ DagIn o F A b v := by
  have hscan : v ∈ scanBack o F b 0 (F.len b) live ↔ Incl o F NoSelf (Forward A) b 0 v := by
    constructor
    · exact scanBack_sound (F.len b) _ (by omega) (by rw [Nat.zero_add]; exact (hdag v).mp)
    · exact scanBack_complete (F.len b) _ (by omega) (by rw [Nat.zero_add]; exact (hdag v).mpr)
  rw [mem_phiDefs, hscan, Incl, DagIn]
  tauto

theorem Holds.insert {m : LiveVals} {done : List Nat} {b : Nat} {live : Finset Value} {Q : Nat → Value → Prop}
    (h : ∀ c ∈ done, Holds m c (Q c)) (hlive : ∀ v, v ∈ live ↔ Q b v) :
    ∀ c ∈ done ++ [b], Holds (Function.update m b (some live)) c (Q c) := by
  intro c hcm
  by_cases hcb : c = b
  · subst hcb
    exact ⟨_, Function.update_self .., hlive⟩
  · rw [Holds, Function.update_of_ne hcb]
    exact h c (by simpa [hcb] using hcm)

theorem none_insert {m : LiveVals} {done : List Nat} {b : Nat} {live : Option (Finset Value)} (h : ∀ c, c ∉ done → m c = none) :
    ∀ c, c ∉ done ++ [b] → Function.update m b live c = none := by
  intro c hcm
  simp only [List.mem_append, List.mem_singleton, not_or] at hcm
  rw [Function.update_of_ne hcm.2]
  exact h c hcm.1

/-- The post-order visit of one block. -/
theorem dagBlock_inv (hr : Reducible F A) (hc : LlvmCorrect F A) {done rest : List Nat} {b : Nat} {st : LiveVals × LiveVals}
    (hpo : A.po = done ++ b :: rest) (h : DagInv o F A done st) : DagInv o F A (done ++ [b]) (dagBlock o F A.backedges st b) := by
  have hnd := hc.po_nodup
  rw [hpo] at hnd
  have hbn : b ∉ done := fun hb => (List.nodup_append.mp hnd).2.2 b hb b (by simp) rfl
  have hreach : F.Reach b := (hc.po_mem b).mp (by rw [hpo]; simp)
  have hself : ∀ s, F.Edge b s → (b, b) ∈ A.backedges ∨ s ≠ b := by
    intro s e
    by_cases heq : s = b
    · exact .inl ((hc.backedges b b).mpr ⟨hreach, heq ▸ e, dom_refl b⟩)
    · exact .inr heq
  obtain ⟨hin, hdag⟩ := dagSuccessors_spec o hself
    (fun s e hf => h.liveIn s (forward_visited hr hc hpo hbn hreach e hf))
  have hnone1 : (st.1 b).isSome = false := by rw [h.noIn b hbn]; rfl
  have hnone2 : (st.2 b).isSome = false := by rw [h.noOut b hbn]; rfl
  have e1 : (dagBlock o F A.backedges st b).1 = Function.update st.1 b (some (phiDefs o F b (scanBack o F b 0 (F.len b)
      ((F.block b).succs.foldl (dagSuccessor o F A.backedges b) (st.1, ∅)).2))) := by
    simp only [dagBlock, LiveVals.insertPair, hin, hnone1]
    rfl
  have e2 : (dagBlock o F A.backedges st b).2 = Function.update st.2 b
      (some ((F.block b).succs.foldl (dagSuccessor o F A.backedges b) (st.1, ∅)).2) := by
    simp only [dagBlock, LiveVals.insertPair, hnone2]
    rfl
  constructor
  case liveIn =>
    rw [e1]
    exact Holds.insert h.liveIn (mem_dagStart hdag)
  case liveOut =>
    rw [e2]
    exact Holds.insert h.liveOut hdag
  case noIn =>
    rw [e1]
    exact none_insert h.noIn
  case noOut =>
    rw [e2]
    exact none_insert h.noOut

/-- The traversal gives every reachable block its dag-live sets, and no other block any. -/
theorem dagDFS_sets (hr : Reducible F A) (hc : LlvmCorrect F A) : DagInv o F A A.po (dagDFS o F A) := by
  refine foldl_inv (P := DagInv o F A) A.po ⟨by simp, by simp, by simp, by simp⟩ ?_
  intro done b rest st hpo h
  exact dagBlock_inv hr hc hpo h

end Popcorn.Liveness
