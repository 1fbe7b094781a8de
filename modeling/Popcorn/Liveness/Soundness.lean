/-
  Popcorn.Liveness.Soundness — what `getLiveValues` returns, against liveness in the
  path sense.

  Proved:
  - `liveness_precision`: every value `getLiveValues` returns is live right after the
    instruction, and its definition dominates the instruction.
  - `liveness_sound_iff`: it returns every live value exactly when the phi operands of
    self-loop edges are live out of their block otherwise, and no block depends on a
    loop node that drops a stale phi (`NothingLost`).
  `spinFunction` is a loop of one block whose new value is lost; in `nestFunction` the
  inner loop loses the outer header's phi.
-/

import Mathlib.Tactic.IntervalCases
import Popcorn.Liveness.Propagate

namespace Popcorn.Liveness

open Popcorn.Lib

variable {o : Options} {F : Function} {A : Analyses} {v : Value} {b i : Nat}

/-! ## A loop of one block -/

/-- `for (x = a;; x = y) { y = x + 1; call(); if (c) break; }` with `y` in the loop's
    only block. -/
def spinFunction : Function where
  blocks :=
    [⟨[], [⟨.other, []⟩], [1], by decide⟩,
     ⟨[⟨[(.argument 0, 0), (.inst 1 0, 1)]⟩], [⟨.other, [.phi 1 0]⟩, ⟨.other, []⟩, ⟨.other, [.argument 1]⟩], [1, 2], by decide⟩,
     ⟨[], [⟨.other, []⟩], [], by decide⟩]

def spinAnalyses : Analyses where
  backedges := [(1, 1)]
  po := [2, 1, 0]
  sccs := [[2], [1], [0]]
  loopInfo := { loops := [⟨1, [1], 1, none⟩], loopFor := fun b => if b = 1 then some 0 else none }

theorem spin_edge {b s : Nat} : spinFunction.Edge b s ↔ (b = 0 ∧ s = 1) ∨ (b = 1 ∧ (s = 1 ∨ s = 2)) := by
  rcases b with _ | _ | _ | b
  · simp [Function.Edge, Function.block, spinFunction]
  · simp [Function.Edge, Function.block, spinFunction]
  · simp [Function.Edge, Function.block, spinFunction]
  · simp only [Function.Edge, Function.block, spinFunction, List.getD_cons_succ, List.getD_nil]
    simp [default]

theorem spin_reach {b : Nat} : spinFunction.Reach b ↔ b = 0 ∨ b = 1 ∨ b = 2 := by
  constructor
  · intro h
    induction h with
    | refl => exact .inl rfl
    | tail _ e _ =>
      rcases spin_edge.mp e with ⟨-, rfl⟩ | ⟨-, rfl | rfl⟩ <;> simp
  · have h1 : spinFunction.Reach 1 := .single (spin_edge.mpr (.inl ⟨rfl, rfl⟩))
    rintro (rfl | rfl | rfl)
    · exact .refl
    · exact h1
    · exact h1.edge (spin_edge.mpr (.inr ⟨rfl, .inr rfl⟩))

theorem spin_backEdge {b s : Nat} : BackEdge spinFunction.Edge 0 b s ↔ b = 1 ∧ s = 1 := by
  constructor
  · rintro ⟨-, e, hd⟩
    rcases spin_edge.mp e with ⟨rfl, rfl⟩ | ⟨rfl, rfl | rfl⟩
    · exact absurd (.root (by decide)) hd
    · exact ⟨rfl, rfl⟩
    · exact absurd (.step (.root (by decide)) (spin_edge.mpr (.inl ⟨rfl, rfl⟩)) (by decide)) hd
  · rintro ⟨rfl, rfl⟩
    exact ⟨spin_reach.mpr (by simp), spin_edge.mpr (.inr ⟨rfl, .inl rfl⟩), dom_refl 1⟩

theorem spin_natLoop {h c : Nat} : spinFunction.NatLoop h c ↔ h = 1 ∧ c = 1 := by
  constructor
  · rintro ⟨-, l, hb, hcase⟩
    obtain ⟨rfl, rfl⟩ := spin_backEdge.mp hb
    rcases hcase with rfl | ⟨hne, hp⟩
    · exact ⟨rfl, rfl⟩
    · rcases Relation.ReflTransGen.cases_tail hp with h | ⟨x, -, e⟩
      · exact absurd h.symm hne
      · exact absurd rfl e.2
  · rintro ⟨rfl, rfl⟩
    exact (spin_backEdge.mpr ⟨rfl, rfl⟩).header_mem

theorem spin_strictSSA : StrictSSA spinFunction where
  use := by
    intro b i v hb hi hv
    rcases spin_reach.mp hb with rfl | rfl | rfl
    · have : i = 0 := Nat.lt_one_iff.mp hi
      subst this
      exact absurd hv (by simp [Function.operands, Function.block, spinFunction])
    · have h3 : i < 3 := hi
      interval_cases i
      · obtain rfl : v = .phi 1 0 := by simpa [Function.operands, Function.block, spinFunction] using hv
        exact ⟨by decide, dom_refl 1⟩
      · exact absurd hv (by simp [Function.operands, Function.block, spinFunction])
      · obtain rfl : v = .argument 1 := by simpa [Function.operands, Function.block, spinFunction] using hv
        trivial
    · have : i = 0 := Nat.lt_one_iff.mp hi
      subst this
      exact absurd hv (by simp [Function.operands, Function.block, spinFunction])
  phiUse := by
    intro b s v _ e hv
    rcases spin_edge.mp e with ⟨rfl, rfl⟩ | ⟨rfl, rfl | rfl⟩
    · obtain rfl : v = .argument 0 := by simpa [Function.phiOperands, Function.block, spinFunction] using hv
      trivial
    · obtain rfl : v = .inst 1 0 := by simpa [Function.phiOperands, Function.block, spinFunction] using hv
      exact ⟨by decide, .inl ⟨rfl, by decide⟩⟩
    · exact absurd hv (by simp [Function.phiOperands, Function.block, spinFunction])

theorem spin_reducible : Reducible spinFunction spinAnalyses := by
  intro b s _ e
  rcases spin_edge.mp e with ⟨rfl, rfl⟩ | ⟨rfl, rfl | rfl⟩
  · exact .inl (by decide)
  · exact .inr (dom_refl 1)
  · exact .inl (by decide)

theorem spin_llvmCorrect : LlvmCorrect spinFunction spinAnalyses where
  po_nodup := by decide
  po_mem b := by
    rw [spin_reach]
    simp only [spinAnalyses, List.mem_cons, List.not_mem_nil, or_false]
    omega
  backedges b s := by
    rw [spin_backEdge]
    simp [spinAnalyses]
  scc_cover b hb := by
    rcases spin_reach.mp hb with rfl | rfl | rfl
    · exact ⟨[0], by decide, by decide⟩
    · exact ⟨[1], by decide, by decide⟩
    · exact ⟨[2], by decide, by decide⟩
  scc_mutual scc hscc a ha b hb := by
    simp only [spinAnalyses, List.mem_cons, List.not_mem_nil, or_false] at hscc
    rcases hscc with rfl | rfl | rfl <;> cases List.mem_singleton.mp ha <;> cases List.mem_singleton.mp hb <;>
      exact ⟨spin_reach.mpr (by decide), .refl⟩
  loop_blocks L hL := by
    obtain rfl := List.mem_singleton.mp hL
    refine ⟨spin_natLoop.mpr ⟨rfl, rfl⟩, fun c => ?_⟩
    rw [spin_natLoop]
    simp
  loop_header h hh := by
    obtain ⟨rfl, -⟩ := spin_natLoop.mp hh
    exact ⟨_, List.mem_singleton.mpr rfl, rfl⟩
  loop_inj L hL M hM _ := by rw [List.mem_singleton.mp hL, List.mem_singleton.mp hM]
  loop_for b L hb := by
    have hb1 : b = 1 := by
      by_contra hne
      simp [LoopInfo.get, spinAnalyses, hne] at hb
    subst hb1
    obtain rfl : ⟨1, [1], 1, none⟩ = L := by simpa [LoopInfo.get, spinAnalyses] using hb
    refine ⟨List.mem_singleton.mpr rfl, spin_natLoop.mpr ⟨rfl, rfl⟩, ?_⟩
    intro M hM _
    obtain rfl := List.mem_singleton.mp hM
    exact spin_natLoop.mpr ⟨rfl, rfl⟩
  loop_for_none b hb M hM := by
    obtain rfl := List.mem_singleton.mp hM
    rw [spin_natLoop]
    rintro ⟨-, rfl⟩
    simp [LoopInfo.get, spinAnalyses] at hb
  loop_depth L hL := by
    obtain rfl := List.mem_singleton.mp hL
    rfl
  loop_parent L hL hd := by
    obtain rfl := List.mem_singleton.mp hL
    exact absurd hd (by decide)

/-! ## Precision -/

theorem getLiveValues_total (hs : StrictSSA F) (hr : Reducible F A) (hc : LlvmCorrect F A) {k : Nat} (hb : F.Reach b) :
    getLiveValues o F A b k = some ((scanBack o F b (k + 1) (F.len b - (k + 1)) ((runOnFunction o F A).2.get b)).erase (.inst b k)) := by
  have ht := (runOnFunction_sets (o := o) hs hr hc).1.total b hb
  obtain ⟨s, hs'⟩ := Option.isSome_iff_exists.mp ht
  simp only [getLiveValues, hs', Option.map_some, LiveVals.get, Option.getD_some]

theorem defined_before {k : Nat} (hne : v ≠ .inst b k) (h : Defined F v b (k + 1)) : Defined F v b k := by
  cases v with
  | inst d j =>
    refine ⟨h.1, ?_⟩
    rcases h.2 with ⟨rfl, hj⟩ | h'
    · refine .inl ⟨rfl, Nat.lt_of_le_of_ne (Nat.le_of_lt_succ hj) ?_⟩
      rintro rfl
      exact hne rfl
    · exact .inr h'
  | phi d j => exact h
  | _ => trivial

/-- Liveness precision: what `getLiveValues` returns for an instruction is live right
    after it, and defined before it on every path. -/
theorem liveness_precision (o : Options) (F : Function) (A : Analyses) (hs : StrictSSA F) (hr : Reducible F A)
    (hc : LlvmCorrect F A) (b k : Nat) (hb : F.Reach b) (hk : k < F.len b) :
    ∃ s, getLiveValues o F A b k = some s ∧ ∀ v ∈ s, LiveAfter F v b k ∧ Defined F v b k := by
  refine ⟨_, getLiveValues_total hs hr hc hb, ?_⟩
  intro v hv
  rw [Finset.mem_erase] at hv
  obtain ⟨hne, hv⟩ := hv
  have hsets := (runOnFunction_sets (o := o) hs hr hc).1
  have hlive : Incl o F NoSelf (fun _ _ => True) b (k + 1) v := by
    refine scanBack_sound _ _ (by omega) ?_ hv
    intro hout
    obtain ⟨hi, hl, -⟩ := hsets.precOut b v hout
    rw [show k + 1 + (F.len b - (k + 1)) = F.len b by omega]
    exact ⟨hi, hl⟩
  exact ⟨⟨hne, LiveNS.live hlive.2⟩, defined_before hne (live_defined hs hlive.2 hb)⟩

theorem liveness_precision_spin :
    ∃ s, getLiveValues {} spinFunction spinAnalyses 1 1 = some s ∧
      ∀ v ∈ s, LiveAfter spinFunction v 1 1 ∧ Defined spinFunction v 1 1 :=
  liveness_precision {} spinFunction spinAnalyses spin_strictSSA spin_reducible spin_llvmCorrect 1 1
    (spin_reach.mpr (by decide)) (by decide)

/-! ## Soundness -/

theorem len_pos (F : Function) (b : Nat) : 0 < F.len b := List.length_pos_of_ne_nil (F.block b).body_ne

/-- Every included value live right after a reachable instruction is in its set. -/
def Sound (o : Options) (F : Function) (A : Analyses) : Prop :=
  ∀ (b k : Nat) v, F.Reach b → k < F.len b → includeVal o F v = true → LiveAfter F v b k →
    ∃ s, getLiveValues o F A b k = some s ∧ v ∈ s

/-- When no live value is lost. -/
structure NothingLost (o : Options) (F : Function) (A : Analyses) : Prop where
  /-- A value that a phi takes over a self-loop edge, other than the terminator's, is live
      out of the block apart from such uses. -/
  self : ∀ b v, F.Reach b → F.Edge b b → v ∈ F.phiOperands b b → includeVal o F v = true →
    v ≠ .inst b (F.len b - 1) → LiveNS F v b (F.len b)
  /-- A value live into a header that is a phi of one visited before it in the same tree
      is, in every child, live along forward edges or passed on by another node. -/
  stale : ∀ tree ∈ loopNestingForest A, ∀ (i j : Nat) m n v, i < j → tree.loopNodes[i]? = some m →
    tree.loopNodes[j]? = some n → v ∈ F.phiValues m.bb → v ∉ F.phiValues n.bb → LiveNS F v n.bb 0 →
      ∀ c ∈ n.children, LiveDag F A v c.bb (F.len c.bb) ∨ Fed F A c.bb v

/-- Liveness is liveness without self-loop phi uses, the terminator's value apart. -/
theorem live_liveNS (h : NothingLost o F A) (hi : includeVal o F v = true) (hl : Live F v b i) (hb : F.Reach b) :
    LiveNS F v b i ∨ (v = .inst b (F.len b - 1) ∧ i = F.len b) := by
  induction hl with
  | use hi hv => exact .inl (.use hi hv)
  | @step b i hlt hne _ ih =>
    rcases ih hb with hl | ⟨rfl, hlen⟩
    · exact .inl (.step hlt hne hl)
    · exact absurd (by rw [← hlen]; rfl) hne
  | @phiUse b s e _ hv =>
    by_cases hsb : s = b
    · subst hsb
      by_cases ht : v = .inst s (F.len s - 1)
      · exact .inr ⟨ht, rfl⟩
      · exact .inl (h.self s v hb e hv hi ht)
    · exact .inl (.phiUse e hsb hv)
  | @edge b s e _ hn _ ih =>
    rcases ih (hb.edge e) with hl | ⟨-, hlen⟩
    · exact .inl (.edge e trivial hn hl)
    · have := len_pos F s
      omega

/-- Under the condition, what is live out of a block is in its set. -/
theorem liveOut_complete (hs : StrictSSA F) (hr : Reducible F A) (hc : LlvmCorrect F A) (h : NothingLost o F A)
    (hb : F.Reach b) (hi : includeVal o F v = true) (hl : LiveNS F v b (F.len b)) : v ∈ (runOnFunction o F A).2.get b := by
  obtain ⟨hsets, hpassed⟩ := runOnFunction_sets (o := o) hs hr hc
  have hfed : Fed F A b v → v ∈ (runOnFunction o F A).2.get b := by
    rintro ⟨tree, ht, j, n, hn, ⟨c, hcm, rfl⟩, hln, hst⟩
    exact (hpassed tree ht j n hn v hi hln hst c hcm).2
  rcases live_split hc hl hb with hd | ⟨h0, hin, hnp, hd⟩
  · exact hsets.dagOut b v hb hi hd
  obtain ⟨M, hM, rfl⟩ := hc.loop_header h0 hin.header_mem
  obtain ⟨L, hL, hLb, hinner, tree, ht, j, n, hn, hnL, c, hcm, rfl⟩ := block_node hr hc hM hin
  -- the innermost loop's header has the value live into it
  obtain ⟨-, hl0, hnphi⟩ := liveNS_loop hs hinner hnp hd.liveNS
  rw [← hnL] at hl0 hnphi
  by_cases hst : Stale F tree j v
  · obtain ⟨i, hij, m, hm, hv⟩ := hst
    have hlt : i < j := by
      refine Nat.lt_of_le_of_ne hij ?_
      rintro rfl
      rw [hn] at hm
      cases hm
      exact hnphi hv
    rcases h.stale tree ht i j m n v hlt hm hn hv hnphi hl0 c hcm with hd | hf
    · exact hsets.dagOut _ v hb hi hd
    · exact hfed hf
  · exact (hpassed tree ht j n hn v hi hl0 hst c hcm).2

/-- A value live at the end of a block that the analysis accounts for is in its set. -/
theorem Sound.liveOut (h : Sound o F A) (hs : StrictSSA F) (hr : Reducible F A) (hc : LlvmCorrect F A) (hb : F.Reach b)
    (hi : includeVal o F v = true) (hne : v ≠ .inst b (F.len b - 1)) (hl : Live F v b (F.len b)) :
    LiveNS F v b (F.len b) ∧ (LiveDag F A v b (F.len b) ∨ Fed F A b v) := by
  have hpos := len_pos F b
  have hk : F.len b - 1 + 1 = F.len b := by omega
  obtain ⟨s, hs', hv⟩ := h b (F.len b - 1) v hb (by omega) hi ⟨hne, by rw [hk]; exact hl⟩
  rw [getLiveValues_total hs hr hc hb, hk, Nat.sub_self] at hs'
  cases hs'
  have hv := Finset.mem_of_mem_erase hv
  exact ((runOnFunction_sets (o := o) hs hr hc).1.precOut b v hv).2

/-- `getLiveValues` returns every value live right after an instruction exactly when
    nothing is lost over self-loop edges and to phis left over from earlier headers. -/
theorem liveness_sound_iff (o : Options) (F : Function) (A : Analyses) (hs : StrictSSA F) (hr : Reducible F A)
    (hc : LlvmCorrect F A) : Sound o F A ↔ NothingLost o F A := by
  constructor
  · intro h
    refine ⟨?_, ?_⟩
    · intro b v hb e hv hi hne
      exact (h.liveOut hs hr hc hb hi hne (.phiUse e trivial hv)).1
    · intro tree ht i j m n v _ hm hn hv hnp hl c hcm
      have hin := (loopNodes_good hc (tree_good hc ht) j n hn).child hc hcm
      obtain ⟨hlc, -⟩ := liveNS_loop hs hin hnp hl
      obtain ⟨p, -, rfl⟩ := mem_phiValues.mp hv
      exact (h.liveOut hs hr hc hin.reach rfl (by simp) hlc.live).2
  · intro h b k v hb hk hi ⟨hne, hl⟩
    refine ⟨_, getLiveValues_total hs hr hc hb, Finset.mem_erase.mpr ⟨hne, ?_⟩⟩
    have hns : LiveNS F v b (k + 1) := by
      rcases live_liveNS h hi hl hb with hns | ⟨rfl, hlen⟩
      · exact hns
      · exact absurd (by rw [← hlen]; rfl) hne
    refine scanBack_complete (U := NoSelf) (P := fun _ _ => True) _ _ (by omega) ?_ ⟨hi, hns⟩
    rw [show k + 1 + (F.len b - (k + 1)) = F.len b by omega]
    rintro ⟨-, hend⟩
    exact liveOut_complete hs hr hc h hb hi hend

/-- `y` is live after the call, on the path around the loop to the phi. -/
theorem spin_live : LiveAfter spinFunction (.inst 1 0) 1 1 := by
  refine ⟨by decide, .step (by decide) (by decide) ?_⟩
  exact .phiUse (b := 1) (s := 1) (spin_edge.mpr (.inr ⟨rfl, .inl rfl⟩)) trivial (by decide)

theorem spin_lost : getLiveValues {} spinFunction spinAnalyses 1 1 = some {.argument 1} := by decide

theorem spin_not_sound : ¬ Sound {} spinFunction spinAnalyses := by
  intro h
  obtain ⟨s, hs, hv⟩ := h 1 1 (.inst 1 0) (spin_reach.mpr (by decide)) (by decide) (by decide) spin_live
  rw [spin_lost] at hs
  cases hs
  exact absurd hv (by decide)

theorem liveness_sound_iff_spin : ¬ NothingLost {} spinFunction spinAnalyses := by
  rw [← liveness_sound_iff {} spinFunction spinAnalyses spin_strictSSA spin_reducible spin_llvmCorrect]
  exact spin_not_sound

/-- A strict, reducible function with correct analyses, on which a live value is lost. -/
theorem spin_live_value_lost : StrictSSA spinFunction ∧ Reducible spinFunction spinAnalyses ∧
    LlvmCorrect spinFunction spinAnalyses ∧ ¬ Sound {} spinFunction spinAnalyses :=
  ⟨spin_strictSSA, spin_reducible, spin_llvmCorrect, spin_not_sound⟩

/-- Two nested loops: block 2 heads the inner one and uses the outer header's phi. -/
def nestFunction : Function where
  blocks :=
    [⟨[], [⟨.other, []⟩], [1], by decide⟩,
     ⟨[⟨[(.argument 0, 0), (.argument 1, 4)]⟩], [⟨.other, []⟩], [2], by decide⟩,
     ⟨[], [⟨.other, [.phi 1 0]⟩], [3, 4], by decide⟩,
     ⟨[], [⟨.other, []⟩], [2], by decide⟩,
     ⟨[], [⟨.other, []⟩], [1, 5], by decide⟩,
     ⟨[], [⟨.other, []⟩], [], by decide⟩]

def nestAnalyses : Analyses where
  backedges := [(3, 2), (4, 1)]
  po := [3, 5, 4, 2, 1, 0]
  sccs := [[5], [4, 3, 2, 1], [0]]
  loopInfo :=
    { loops := [⟨1, [1, 2, 3, 4], 1, none⟩, ⟨2, [2, 3], 2, some 0⟩]
      loopFor := fun b => if b = 1 ∨ b = 4 then some 0 else if b = 2 ∨ b = 3 then some 1 else none }

-- the phi is used again in block 2 after block 3, but is not in block 3's set
example : getLiveValues {} nestFunction nestAnalyses 3 0 = some {.argument 1} := by decide

end Popcorn.Liveness
