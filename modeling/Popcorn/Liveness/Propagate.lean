/-
  Popcorn.Liveness.Propagate — the propagation through the loop-nesting forest, and
  what the sets hold in the end.

  `LiveNS` is liveness without the phi uses over self-loop edges, which the traversal
  skips. Over those the sets are exact up to one more omission: `propagateValues`
  collects the phis of every header it visits in one set that it never clears, so at a
  later header of the same tree a value that is an earlier header's phi is not passed
  on (`Stale`).

  Proved:
  - `live_split`: what is live at a point is live there along forward edges, or live
    into the header of a loop around it.
  - `runOnFunction_sets`: the final sets hold only live values, and hold every value
    that is dag-live or fed by a loop node where it is not stale.
-/

import Popcorn.Liveness.Loops

namespace Popcorn.Liveness

open Popcorn.Lib

variable {o : Options} {F : Function} {A : Analyses} {v : Value} {b i : Nat}

/-- Live at a point, where phi uses over self-loop edges do not count. -/
def LiveNS (F : Function) (v : Value) (b i : Nat) : Prop := LiveAt F NoSelf (fun _ _ => True) v b i

/-- Live along forward edges only. -/
def LiveDag (F : Function) (A : Analyses) (v : Value) (b i : Nat) : Prop := LiveAt F NoSelf (Forward A) v b i

theorem LiveDag.liveNS (h : LiveDag F A v b i) : LiveNS F v b i := LiveAt.mono (fun _ _ h => h) (fun _ _ _ => trivial) h

theorem LiveNS.live (h : LiveNS F v b i) : Live F v b i := LiveAt.mono (fun _ _ _ => trivial) (fun _ _ h => h) h

theorem live_split (hc : LlvmCorrect F A) (h : LiveNS F v b i) (hb : F.Reach b) :
    LiveDag F A v b i ∨ ∃ h, F.NatLoop h b ∧ v ∉ F.phiValues h ∧ LiveDag F A v h 0 := by
  induction h with
  | use hi hv => exact .inl (.use hi hv)
  | step hi hne _ ih =>
    rcases ih hb with h | h
    · exact .inl (.step hi hne h)
    · exact .inr h
  | phiUse e hu hv => exact .inl (.phiUse e hu hv)
  | @edge b s e _ hn _ ih =>
    by_cases hbk : (b, s) ∈ A.backedges
    · -- a back edge: the source lies in the target's loop
      have hlatch : F.NatLoop s b := ((hc.backedges b s).mp hbk).latch_mem
      rcases ih (hb.edge e) with h | ⟨h, hl, hnp, hd⟩
      · exact .inr ⟨s, hlatch, hn, h⟩
      by_cases heq : s = h
      · subst heq
        exact .inr ⟨s, hlatch, hn, hd⟩
      · exact .inr ⟨h, hl.pred heq hb e, hnp, hd⟩
    · rcases ih (hb.edge e) with h | ⟨h, hl, hnp, hd⟩
      · exact .inl (.edge e hbk hn h)
      by_cases heq : s = h
      · subst heq
        exact .inl (.edge e hbk hn hd)
      · exact .inr ⟨h, hl.pred heq hb e, hnp, hd⟩

/-- Live into a header and not one of its phis: live into every block of the loop, and
    not defined there. -/
theorem liveNS_loop (hs : StrictSSA F) {h c : Nat} (hc : F.NatLoop h c) (hn : v ∉ F.phiValues h) (hv : LiveNS F v h 0) :
    LiveNS F v c (F.len c) ∧ LiveNS F v c 0 ∧ v ∉ F.phiValues c := by
  have hout := live_loop hs hc.header_mem hn hv hc
  have hd := header_outside hs hc.header_mem hn hv hc
  exact ⟨hout, live_start hd hout, not_phi_of_not_definedIn hd⟩

/-! ## One loop node -/

theorem mem_insertAll {m : LiveVals} {s : Finset Value} {c : Nat} :
    v ∈ (m.insertAll b s).get c ↔ v ∈ m.get c ∨ (c = b ∧ v ∈ s) := by
  unfold LiveVals.insertAll
  split
  · rename_i h
    simp [h]
  · by_cases hcb : c = b
    · subst hcb
      simp [LiveVals.get]
    · simp [LiveVals.get, hcb]

theorem insertAll_isSome {m : LiveVals} {s : Finset Value} {c : Nat} (h : (m c).isSome = true) :
    (m.insertAll b s c).isSome = true := by
  unfold LiveVals.insertAll
  split
  · exact h
  · by_cases hcb : c = b
    · subst hcb
      simp
    · rwa [Function.update_of_ne hcb]

theorem get_touch (m : LiveVals) (b c : Nat) : (m.touch b).get c = m.get c := by
  unfold LiveVals.touch
  split
  · rfl
  · rename_i h
    by_cases hcb : c = b
    · subst hcb
      simp only [LiveVals.get, Function.update_self, Option.getD_some]
      rw [Option.not_isSome_iff_eq_none.mp h]
      rfl
    · simp [LiveVals.get, Function.update_of_ne hcb]

/-- The values a loop node passes on. -/
def liveLoop (o : Options) (F : Function) (st : (LiveVals × LiveVals) × Finset Value) (n : Node) : Finset Value :=
  (st.1.1.get n.bb).filter fun v => v ∉ phiDefs o F n.bb st.2 ∧ includeVal o F v = true

theorem mem_children {n : Node} {s : Finset Value} (sets : LiveVals × LiveVals) {c : Nat} :
    let r := n.children.foldl (fun (x : LiveVals × LiveVals) child => (x.1.insertAll child.bb s, x.2.insertAll child.bb s)) sets
    (v ∈ r.1.get c ↔ v ∈ sets.1.get c ∨ ((∃ ch ∈ n.children, ch.bb = c) ∧ v ∈ s)) ∧
      (v ∈ r.2.get c ↔ v ∈ sets.2.get c ∨ ((∃ ch ∈ n.children, ch.bb = c) ∧ v ∈ s)) ∧
      ((sets.2 c).isSome = true → (r.2 c).isSome = true) := by
  refine foldl_inv (P := fun (done : List Node) (r : LiveVals × LiveVals) =>
    (v ∈ r.1.get c ↔ v ∈ sets.1.get c ∨ ((∃ ch ∈ done, ch.bb = c) ∧ v ∈ s)) ∧
      (v ∈ r.2.get c ↔ v ∈ sets.2.get c ∨ ((∃ ch ∈ done, ch.bb = c) ∧ v ∈ s)) ∧
      ((sets.2 c).isSome = true → (r.2 c).isSome = true)) n.children ?_ ?_
  · simp
  · intro done x rest r _ ⟨h1, h2, h3⟩
    have hex : (∃ ch ∈ done ++ [x], ch.bb = c) ↔ (∃ ch ∈ done, ch.bb = c) ∨ c = x.bb := by
      simp only [List.mem_append, List.mem_singleton]
      constructor
      · rintro ⟨ch, hm | rfl, rfl⟩
        · exact .inl ⟨ch, hm, rfl⟩
        · exact .inr rfl
      · rintro (⟨ch, hm, rfl⟩ | rfl)
        · exact ⟨ch, .inl hm, rfl⟩
        · exact ⟨x, .inr rfl, rfl⟩
    refine ⟨?_, ?_, fun h => insertAll_isSome (h3 h)⟩
    · rw [mem_insertAll, h1, hex, or_and_right, or_assoc]
    · rw [mem_insertAll, h2, hex, or_and_right, or_assoc]

/-- A loop node adds what it passes on to its children's sets, and nothing else. -/
theorem mem_propagateNode (st : (LiveVals × LiveVals) × Finset Value) (n : Node) {c : Nat} :
    (v ∈ (propagateNode o F st n).1.1.get c ↔ v ∈ st.1.1.get c ∨ ((∃ ch ∈ n.children, ch.bb = c) ∧ v ∈ liveLoop o F st n)) ∧
      (v ∈ (propagateNode o F st n).1.2.get c ↔
        v ∈ st.1.2.get c ∨ ((∃ ch ∈ n.children, ch.bb = c) ∧ v ∈ liveLoop o F st n)) ∧
      ((st.1.2 c).isSome = true → ((propagateNode o F st n).1.2 c).isSome = true) := by
  have h := mem_children (v := v) (n := n) (s := liveLoop o F st n) (st.1.1.touch n.bb, st.1.2) (c := c)
  simp only [get_touch] at h
  exact h

/-! ## The invariant -/

/-- `v` is a phi of the header at position `j` or of one visited before it. -/
def Stale (F : Function) (tree : Node) (j : Nat) (v : Value) : Prop :=
  ∃ i ≤ j, ∃ m, tree.loopNodes[i]? = some m ∧ v ∈ F.phiValues m.bb

/-- Some loop node with `b` as a child has `v` live into it and does not drop it. -/
def Fed (F : Function) (A : Analyses) (b : Nat) (v : Value) : Prop :=
  ∃ tree ∈ loopNestingForest A, ∃ (j : Nat) (n : Node), tree.loopNodes[j]? = some n ∧ (∃ c ∈ n.children, c.bb = b) ∧
    LiveNS F v n.bb 0 ∧ ¬ Stale F tree j v

/-- The sets hold the dag-live values and only live ones. -/
structure SetsInv (o : Options) (F : Function) (A : Analyses) (sets : LiveVals × LiveVals) : Prop where
  precIn : ∀ b v, v ∈ sets.1.get b → includeVal o F v = true ∧ (v ∈ F.phiValues b ∨ LiveNS F v b 0)
  precOut : ∀ b v, v ∈ sets.2.get b → includeVal o F v = true ∧ LiveNS F v b (F.len b) ∧ (LiveDag F A v b (F.len b) ∨ Fed F A b v)
  dagIn : ∀ b v, F.Reach b → includeVal o F v = true → LiveDag F A v b 0 → v ∈ sets.1.get b
  dagOut : ∀ b v, F.Reach b → includeVal o F v = true → LiveDag F A v b (F.len b) → v ∈ sets.2.get b
  total : ∀ b, F.Reach b → (sets.2 b).isSome = true

/-- The node at position `j` has passed on what is live into it and not stale. -/
def Passed (o : Options) (F : Function) (tree : Node) (sets : LiveVals × LiveVals) (j : Nat) : Prop :=
  ∀ n, tree.loopNodes[j]? = some n → ∀ v, includeVal o F v = true → LiveNS F v n.bb 0 → ¬ Stale F tree j v →
    ∀ c ∈ n.children, v ∈ sets.1.get c.bb ∧ v ∈ sets.2.get c.bb

/-- The propagation within one tree, after the nodes `done`. -/
structure TreeInv (o : Options) (F : Function) (A : Analyses) (tree : Node) (done : List Node)
    (st : (LiveVals × LiveVals) × Finset Value) : Prop where
  sets : SetsInv o F A st.1
  phis : ∀ v, v ∈ st.2 ↔ includeVal o F v = true ∧ ∃ m ∈ done, v ∈ F.phiValues m.bb
  passed : ∀ j, j < done.length → Passed o F tree st.1 j

theorem dag_setsInv (hr : Reducible F A) (hc : LlvmCorrect F A) : SetsInv o F A (dagDFS o F A) := by
  have h := dagDFS_sets (o := o) hr hc
  have hmem : ∀ b, b ∉ A.po → (dagDFS o F A).1.get b = ∅ ∧ (dagDFS o F A).2.get b = ∅ := by
    intro b hb
    rw [LiveVals.get, LiveVals.get, h.noIn b hb, h.noOut b hb]
    exact ⟨rfl, rfl⟩
  refine ⟨?_, ?_, ?_, ?_, ?_⟩
  · intro b v hv
    by_cases hb : b ∈ A.po
    · obtain ⟨hi, hl | hp⟩ := ((h.liveIn b hb).get v).mp hv
      · exact ⟨hi, .inr (LiveDag.liveNS hl)⟩
      · exact ⟨hi, .inl hp⟩
    · rw [(hmem b hb).1] at hv
      cases hv
  · intro b v hv
    by_cases hb : b ∈ A.po
    · obtain ⟨hi, hl⟩ := ((h.liveOut b hb).get v).mp hv
      exact ⟨hi, LiveDag.liveNS hl, .inl hl⟩
    · rw [(hmem b hb).2] at hv
      cases hv
  · intro b v hb hi hl
    exact ((h.liveIn b ((hc.po_mem b).mpr hb)).get v).mpr ⟨hi, .inl hl⟩
  · intro b v hb hi hl
    exact ((h.liveOut b ((hc.po_mem b).mpr hb)).get v).mpr ⟨hi, hl⟩
  · intro b hb
    obtain ⟨s, hs, -⟩ := h.liveOut b ((hc.po_mem b).mpr hb)
    rw [hs]
    rfl

/-- What is live into a node and not stale there has arrived when the node is visited:
    it is dag-live, or its parent passed it on. -/
theorem arrived (hs : StrictSSA F) (hc : LlvmCorrect F A) {tree : Node} (ht : tree ∈ loopNestingForest A) {done : List Node}
    {st : (LiveVals × LiveVals) × Finset Value} (h : TreeInv o F A tree done st) {n c : Node}
    (hn : tree.loopNodes[done.length]? = some n) (hch : c ∈ n.children) (hi : includeVal o F v = true)
    (hl : LiveNS F v n.bb 0) (hst : ¬ Stale F tree done.length v) : v ∈ st.1.1.get n.bb := by
  have hgood := loopNodes_good hc (tree_good hc ht)
  have hself : F.NatLoop n.bb n.bb := ((hgood _ n hn).child hc hch).header_mem
  rcases live_split hc hl hself.reach with hd | ⟨h0, hin, hnp, hd⟩
  · exact h.sets.dagIn _ _ hself.reach hi hd
  obtain ⟨L0, hL0, rfl⟩ := hc.loop_header h0 hin.header_mem
  obtain ⟨Ln, hLn, hLnh⟩ := hc.loop_header n.bb hself
  by_cases heq : L0 = Ln
  · subst heq
    rw [hLnh] at hd
    exact h.sets.dagIn _ _ hself.reach hi hd
  have hdep : L0.depth < Ln.depth := depth_lt hc hL0 hLn (hLnh ▸ hin) heq
  rcases loopNodes_parent hn with rfl | ⟨i, p, hij, hp, hm, hh⟩
  · -- the root is an outermost loop's header
    rcases tree_root hc ht with hch0 | ⟨L, hL, hL1, htree⟩
    · rw [hch0] at hch
      cases hch
    · rw [htree, headerNode_bb] at hLnh
      have := hc.loop_inj Ln hLn L hL hLnh
      have := depth_pos hc hL0
      subst_vars
      omega
  · obtain ⟨-, Lp, hLp, M, hM, hLph, hMh, hMd⟩ := (hgood i p hp).nested hc hm hh
    have hMn : M = Ln := hc.loop_inj M hM Ln hLn (hMh.trans hLnh.symm)
    subst hMn
    have hpn : F.NatLoop Lp.header n.bb := hLph ▸ (hgood i p hp).child hc hm
    have hin' : F.NatLoop L0.header p.bb := hLph ▸ loop_inside hc hL0 hLp hin hpn (by omega)
    obtain ⟨-, hlp, -⟩ := liveNS_loop hs hin' hnp hd.liveNS
    refine (h.passed i hij p hp v hi hlp ?_ n hm).1
    rintro ⟨k, hk, m, hmk, hv⟩
    exact hst ⟨k, by omega, m, hmk, hv⟩

/-- One loop node keeps the invariant. -/
theorem propagateNode_inv (hs : StrictSSA F) (hc : LlvmCorrect F A) {tree : Node} (ht : tree ∈ loopNestingForest A)
    {done rest : List Node} {n : Node} (hx : tree.loopNodes = done ++ n :: rest)
    {st : (LiveVals × LiveVals) × Finset Value} (h : TreeInv o F A tree done st) :
    TreeInv o F A tree (done ++ [n]) (propagateNode o F st n) := by
  have hn : tree.loopNodes[done.length]? = some n := by rw [hx]; simp
  have hgood := loopNodes_good hc (tree_good hc ht) _ n hn
  have hphis : ∀ v, v ∈ phiDefs o F n.bb st.2 ↔ includeVal o F v = true ∧ ∃ m ∈ done ++ [n], v ∈ F.phiValues m.bb := by
    intro v
    rw [mem_phiDefs, h.phis]
    simp only [List.mem_append, List.mem_singleton]
    constructor
    · rintro (⟨hi, m, hm, hv⟩ | ⟨hv, hi⟩)
      · exact ⟨hi, m, .inl hm, hv⟩
      · exact ⟨hi, n, .inr rfl, hv⟩
    · rintro ⟨hi, m, hm | rfl, hv⟩
      · exact .inl ⟨hi, m, hm, hv⟩
      · exact .inr ⟨hv, hi⟩
  have hstale : ∀ v, includeVal o F v = true → (v ∈ phiDefs o F n.bb st.2 ↔ Stale F tree done.length v) := by
    intro v hi
    rw [hphis]
    constructor
    · rintro ⟨-, m, hm, hv⟩
      obtain ⟨i, hlt, rfl⟩ := List.getElem_of_mem hm
      refine ⟨i, ?_, _, ?_, hv⟩
      · simp only [List.length_append, List.length_singleton] at hlt
        omega
      · rw [hx, show done ++ n :: rest = (done ++ [n]) ++ rest by simp, List.getElem?_append_left hlt,
          List.getElem?_eq_getElem hlt]
    · rintro ⟨i, hle, m, hm, hv⟩
      refine ⟨hi, m, ?_, hv⟩
      rw [hx, show done ++ n :: rest = (done ++ [n]) ++ rest by simp, List.getElem?_append_left (by simp; omega)] at hm
      exact List.mem_of_getElem? hm
  -- a value passed on is live into the node, and so throughout its loop
  have hpass : ∀ v, v ∈ liveLoop o F st n → includeVal o F v = true ∧ LiveNS F v n.bb 0 ∧ ¬ Stale F tree done.length v ∧
      v ∉ F.phiValues n.bb := by
    intro v hv
    simp only [liveLoop, Finset.mem_filter] at hv
    obtain ⟨hin, hnp, hi⟩ := hv
    have hnphi : v ∉ F.phiValues n.bb := fun hp => hnp (mem_phiDefs.mpr (.inr ⟨hp, hi⟩))
    refine ⟨hi, ?_, fun hst => hnp ((hstale v hi).mpr hst), hnphi⟩
    rcases (h.sets.precIn _ _ hin).2 with hp | hl
    · exact absurd hp hnphi
    · exact hl
  refine ⟨⟨?_, ?_, ?_, ?_, ?_⟩, hphis, ?_⟩
  · intro b v hv
    rcases (mem_propagateNode st n).1.mp hv with hv | ⟨⟨c, hcm, rfl⟩, hv'⟩
    · exact h.sets.precIn b v hv
    · obtain ⟨hi, hl, -, hnp⟩ := hpass v hv'
      exact ⟨hi, .inr (liveNS_loop hs (hgood.child hc hcm) hnp hl).2.1⟩
  · intro b v hv
    rcases (mem_propagateNode st n).2.1.mp hv with hv | ⟨⟨c, hcm, rfl⟩, hv'⟩
    · exact h.sets.precOut b v hv
    · obtain ⟨hi, hl, hst, hnp⟩ := hpass v hv'
      exact ⟨hi, (liveNS_loop hs (hgood.child hc hcm) hnp hl).1, .inr ⟨tree, ht, _, n, hn, ⟨c, hcm, rfl⟩, hl, hst⟩⟩
  · intro b v hb hi hl
    exact (mem_propagateNode st n).1.mpr (.inl (h.sets.dagIn b v hb hi hl))
  · intro b v hb hi hl
    exact (mem_propagateNode st n).2.1.mpr (.inl (h.sets.dagOut b v hb hi hl))
  · intro b hb
    exact (mem_propagateNode (v := .argument 0) st n).2.2 (h.sets.total b hb)
  · intro j hj m hm v hi hl hst c hcm
    rw [(mem_propagateNode st n).1, (mem_propagateNode st n).2.1]
    simp only [List.length_append, List.length_singleton] at hj
    by_cases hjd : j < done.length
    · obtain ⟨h1, h2⟩ := h.passed j hjd m hm v hi hl hst c hcm
      exact ⟨.inl h1, .inl h2⟩
    · obtain rfl : j = done.length := by omega
      rw [hn] at hm
      cases hm
      have hv : v ∈ liveLoop o F st n := by
        simp only [liveLoop, Finset.mem_filter]
        exact ⟨arrived hs hc ht h hn hcm hi hl hst, fun hp => hst ((hstale v hi).mp hp), hi⟩
      exact ⟨.inr ⟨⟨c, hcm, rfl⟩, hv⟩, .inr ⟨⟨c, hcm, rfl⟩, hv⟩⟩

/-! ## The whole analysis -/

theorem propagateNode_grows (st : (LiveVals × LiveVals) × Finset Value) (ns : List Node) (c : Nat) :
    st.1.1.get c ⊆ (ns.foldl (propagateNode o F) st).1.1.get c ∧ st.1.2.get c ⊆ (ns.foldl (propagateNode o F) st).1.2.get c := by
  induction ns generalizing st with
  | nil => exact ⟨Finset.Subset.refl _, Finset.Subset.refl _⟩
  | cons n ns ih =>
    obtain ⟨h1, h2⟩ := ih (propagateNode o F st n)
    refine ⟨fun v hv => h1 ?_, fun v hv => h2 ?_⟩
    · exact (mem_propagateNode st n).1.mpr (.inl hv)
    · exact (mem_propagateNode st n).2.1.mpr (.inl hv)

/-- The final sets: only live values, all dag-live ones, and what every loop node passes on. -/
theorem runOnFunction_sets (hs : StrictSSA F) (hr : Reducible F A) (hc : LlvmCorrect F A) :
    SetsInv o F A (runOnFunction o F A) ∧
      ∀ tree ∈ loopNestingForest A, ∀ j, Passed o F tree (runOnFunction o F A) j := by
  refine foldl_inv (P := fun done sets => SetsInv o F A sets ∧ ∀ tree ∈ done, ∀ j, Passed o F tree sets j)
    (loopNestingForest A) ⟨dag_setsInv hr hc, by simp⟩ ?_
  intro done tree rest sets hx ⟨h1, h2⟩
  have ht : tree ∈ loopNestingForest A := by rw [hx]; simp
  have hinv : TreeInv o F A tree tree.loopNodes (tree.loopNodes.foldl (propagateNode o F) (sets, ∅)) := by
    refine foldl_inv (P := TreeInv o F A tree) tree.loopNodes ⟨h1, by simp, by simp⟩ ?_
    intro done n rest st hx h
    exact propagateNode_inv hs hc ht hx h
  refine ⟨hinv.sets, ?_⟩
  intro t htm j n hn v hi hl hst c hcm
  rcases List.mem_append.mp htm with hd | ht'
  · obtain ⟨g1, g2⟩ := h2 t hd j n hn v hi hl hst c hcm
    obtain ⟨k1, k2⟩ := propagateNode_grows (o := o) (F := F) (sets, ∅) tree.loopNodes c.bb
    exact ⟨k1 g1, k2 g2⟩
  · obtain rfl := List.mem_singleton.mp ht'
    exact hinv.passed j (List.getElem?_eq_some_iff.mp hn).1 n hn v hi hl hst c hcm

end Popcorn.Liveness
