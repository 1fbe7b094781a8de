/-
  Popcorn.Liveness.Loops — the loop-nesting forest.

  Proved, for LoopInfo's natural loops: a loop is the innermost one of its header
  (`get_header`) and loops deeper inside have greater depth (`depth_lt`). For the trees
  built from them: the children of a visited node lie in its loop and a nested header
  is one deeper (`GoodNode`); the iterator visits a node after its parent, and the
  nested headers of every node it visits (`loopNodes_parent`, `loopNodes_child`); every
  loop has a node in some tree, with the loop's own blocks as children (`loop_node`).
-/

import Popcorn.Liveness.Dag

namespace Popcorn.Liveness

open Popcorn.Lib

variable {o : Options} {F : Function} {A : Analyses}

/-! ## Loops -/

theorem countP_lt {α : Type} {p q : α → Bool} {a : α} (l : List α) (hpq : ∀ x ∈ l, p x = true → q x = true) (ha : a ∈ l)
    (hp : p a = false) (hq : q a = true) : l.countP p < l.countP q := by
  obtain ⟨xs, ys, rfl⟩ := List.append_of_mem ha
  have h1 := List.countP_mono_left (l := xs) fun x hx => hpq x (by simp [hx])
  have h2 := List.countP_mono_left (l := ys) fun x hx => hpq x (by simp [hx])
  simp only [List.countP_append, List.countP_cons, hp, hq]
  simp only [Bool.false_eq_true, if_false, if_true]
  omega

/-- A loop is the innermost loop of its header. -/
theorem get_header (hc : LlvmCorrect F A) {L : Loop} (hL : L ∈ A.loopInfo.loops) : A.loopInfo.get L.header = some L := by
  have hself := (hc.loop_blocks L hL).1
  cases hg : A.loopInfo.get L.header with
  | none => exact absurd hself (hc.loop_for_none _ hg L hL)
  | some M =>
    obtain ⟨hM, h1, h2⟩ := hc.loop_for _ M hg
    have h3 := h2 L hL hself
    rw [hc.loop_inj M hM L hL (Dom.antisymm h1.reach h1.dom h3.dom)]

theorem getLoopDepth_header (hc : LlvmCorrect F A) {L : Loop} (hL : L ∈ A.loopInfo.loops) :
    A.loopInfo.getLoopDepth L.header = L.depth := by
  simp only [LoopInfo.getLoopDepth, get_header hc hL]

theorem isLoopHeader_header (hc : LlvmCorrect F A) {L : Loop} (hL : L ∈ A.loopInfo.loops) :
    A.loopInfo.isLoopHeader L.header = true := by
  simp [LoopInfo.isLoopHeader, get_header hc hL]

theorem loop_of_isLoopHeader (hc : LlvmCorrect F A) {bb : Nat} (h : A.loopInfo.isLoopHeader bb = true) :
    ∃ L ∈ A.loopInfo.loops, L.header = bb := by
  unfold LoopInfo.isLoopHeader at h
  split at h
  · rename_i L hL
    exact ⟨L, (hc.loop_for bb L hL).1, by simpa using h⟩
  · cases h

theorem mem_blocks (hc : LlvmCorrect F A) {L : Loop} (hL : L ∈ A.loopInfo.loops) {c : Nat} :
    c ∈ L.blocks ↔ F.NatLoop L.header c := (hc.loop_blocks L hL).2 c

/-- A loop strictly inside another is deeper. -/
theorem depth_lt (hc : LlvmCorrect F A) {L M : Loop} (hL : L ∈ A.loopInfo.loops) (hM : M ∈ A.loopInfo.loops)
    (hin : F.NatLoop L.header M.header) (hne : L ≠ M) : L.depth < M.depth := by
  rw [hc.loop_depth L hL, hc.loop_depth M hM]
  refine countP_lt A.loopInfo.loops ?_ hM ?_ ?_
  · intro K hK h
    simp only [decide_eq_true_eq, mem_blocks hc hK] at h ⊢
    exact NatLoop.subset h hin
  · simp only [decide_eq_false_iff_not, mem_blocks hc hM]
    intro h
    exact hne (hc.loop_inj L hL M hM (Dom.antisymm hin.reach hin.dom h.dom))
  · simp only [decide_eq_true_eq, mem_blocks hc hM]
    exact (hc.loop_blocks M hM).1

theorem depth_pos (hc : LlvmCorrect F A) {L : Loop} (hL : L ∈ A.loopInfo.loops) : 1 ≤ L.depth := by
  rw [hc.loop_depth L hL, Nat.one_le_iff_ne_zero, Nat.ne_zero_iff_zero_lt, List.countP_pos_iff]
  exact ⟨L, hL, by simp only [decide_eq_true_eq, mem_blocks hc hL]; exact (hc.loop_blocks L hL).1⟩

theorem depth_le (hc : LlvmCorrect F A) {L : Loop} (hL : L ∈ A.loopInfo.loops) : L.depth ≤ A.loopInfo.loops.length := by
  rw [hc.loop_depth L hL]
  exact List.countP_le_length

/-- Of two loops around a block, the shallower contains the other. -/
theorem loop_inside (hc : LlvmCorrect F A) {L M : Loop} (hL : L ∈ A.loopInfo.loops) (hM : M ∈ A.loopInfo.loops) {c : Nat}
    (h1 : F.NatLoop L.header c) (h2 : F.NatLoop M.header c) (hd : L.depth ≤ M.depth) : F.NatLoop L.header M.header := by
  by_cases heq : L = M
  · exact heq ▸ (hc.loop_blocks L hL).1
  rcases NatLoop.nested h1 h2 with h | h
  · exact h
  · have := depth_lt hc hM hL h (Ne.symm heq)
    omega

/-- Two loops of the same depth around a block are one. -/
theorem loop_eq_of_depth (hc : LlvmCorrect F A) {L M : Loop} (hL : L ∈ A.loopInfo.loops) (hM : M ∈ A.loopInfo.loops) {c : Nat}
    (h1 : F.NatLoop L.header c) (h2 : F.NatLoop M.header c) (hd : L.depth = M.depth) : L = M := by
  by_contra hne
  have := depth_lt hc hL hM (loop_inside hc hL hM h1 h2 (Nat.le_of_eq hd)) hne
  omega

theorem outermost_spec (hc : LlvmCorrect F A) : ∀ (fuel : Nat) (L : Loop), L ∈ A.loopInfo.loops → L.depth ≤ fuel →
    A.loopInfo.outermost fuel L ∈ A.loopInfo.loops ∧ (A.loopInfo.outermost fuel L).depth = 1 ∧
      F.NatLoop (A.loopInfo.outermost fuel L).header L.header := by
  intro fuel
  induction fuel with
  | zero =>
    intro L hL h
    have := depth_pos hc hL
    omega
  | succ fuel ih =>
    intro L hL h
    simp only [LoopInfo.outermost]
    split
    · rename_i hd
      obtain ⟨M, hM, hp, hdep, hin⟩ := hc.loop_parent L hL hd
      rw [hp]
      obtain ⟨i1, i2, i3⟩ := ih M hM (by omega)
      exact ⟨i1, i2, NatLoop.subset i3 hin⟩
    · have := depth_pos hc hL
      exact ⟨hL, by omega, (hc.loop_blocks L hL).1⟩

/-! ## Nodes -/

theorem headerNode_bb (LI : LoopInfo) (fuel h : Nat) : (headerNode LI fuel h).bb = h := by
  cases fuel with
  | zero => rfl
  | succ fuel =>
    simp only [headerNode]
    split <;> rfl

theorem headerNode_isLoopHeader (LI : LoopInfo) (fuel h : Nat) : (headerNode LI fuel h).isLoopHeader = true := by
  cases fuel with
  | zero => rfl
  | succ fuel =>
    simp only [headerNode]
    split <;> rfl

/-- The children of a header's node: the blocks of the loop proper, and the nested headers. -/
theorem mem_headerNode_children (hc : LlvmCorrect F A) {L : Loop} (hL : L ∈ A.loopInfo.loops) {fuel : Nat} {c : Node} :
    c ∈ (headerNode A.loopInfo (fuel + 1) L.header).children ↔ ∃ bb, F.NatLoop L.header bb ∧
      ((A.loopInfo.getLoopDepth bb = L.depth ∧ c = .mk bb false []) ∨
        (A.loopInfo.getLoopDepth bb = L.depth + 1 ∧ A.loopInfo.isLoopHeader bb = true ∧
          c = headerNode A.loopInfo fuel bb)) := by
  simp only [headerNode, get_header hc hL, getLoopDepth_header hc hL, Node.children, List.mem_filterMap, mem_blocks hc hL]
  constructor
  · rintro ⟨bb, hbb, h⟩
    refine ⟨bb, hbb, ?_⟩
    split at h
    · rename_i hd
      exact .inl ⟨hd, (Option.some.inj h).symm⟩
    · split at h
      · rename_i hd
        exact .inr ⟨hd.1, hd.2, (Option.some.inj h).symm⟩
      · cases h
  · rintro ⟨bb, hbb, ⟨hd, rfl⟩ | ⟨hd, hh, rfl⟩⟩
    · exact ⟨bb, hbb, by rw [if_pos hd]⟩
    · exact ⟨bb, hbb, by rw [if_neg (by omega), if_pos ⟨hd, hh⟩]⟩

/-- A node the iterator visits: one without children, or a loop header's. -/
def GoodNode (A : Analyses) (n : Node) : Prop :=
  n.children = [] ∨ ∃ fuel L, L ∈ A.loopInfo.loops ∧ n = headerNode A.loopInfo (fuel + 1) L.header

theorem headerNode_good {fuel : Nat} {L : Loop} (hL : L ∈ A.loopInfo.loops) :
    GoodNode A (headerNode A.loopInfo fuel L.header) := by
  cases fuel with
  | zero => exact .inl rfl
  | succ fuel => exact .inr ⟨fuel, L, hL, rfl⟩

/-- Children lie in the loop. -/
theorem GoodNode.child (hc : LlvmCorrect F A) {n c : Node} (hn : GoodNode A n) (hm : c ∈ n.children) : F.NatLoop n.bb c.bb := by
  rcases hn with h | ⟨fuel, L, hL, rfl⟩
  · rw [h] at hm
    cases hm
  · rw [headerNode_bb]
    obtain ⟨bb, hbb, ⟨-, rfl⟩ | ⟨-, -, rfl⟩⟩ := (mem_headerNode_children hc hL).mp hm
    · exact hbb
    · rwa [headerNode_bb]

/-- A nested header heads a loop one deeper. -/
theorem GoodNode.nested (hc : LlvmCorrect F A) {n c : Node} (hn : GoodNode A n) (hm : c ∈ n.children)
    (hh : c.isLoopHeader = true) : GoodNode A c ∧ ∃ L ∈ A.loopInfo.loops, ∃ M ∈ A.loopInfo.loops,
      L.header = n.bb ∧ M.header = c.bb ∧ M.depth = L.depth + 1 := by
  rcases hn with h | ⟨fuel, L, hL, rfl⟩
  · rw [h] at hm
    cases hm
  · obtain ⟨bb, hbb, ⟨-, rfl⟩ | ⟨hd, hlh, rfl⟩⟩ := (mem_headerNode_children hc hL).mp hm
    · cases hh
    · obtain ⟨M, hM, rfl⟩ := loop_of_isLoopHeader hc hlh
      rw [getLoopDepth_header hc hM] at hd
      exact ⟨headerNode_good hM, L, hL, M, hM, (headerNode_bb _ _ _).symm, (headerNode_bb _ _ _).symm, hd⟩

/-! ## The iterator -/

theorem sizes_append (xs ys : List Node) : Node.sizes (xs ++ ys) = Node.sizes xs + Node.sizes ys := by
  induction xs with
  | nil => simp [Node.sizes]
  | cons x xs ih => simp only [List.cons_append, Node.sizes, ih]; omega

theorem sizes_filter_le (p : Node → Bool) (xs : List Node) : Node.sizes (xs.filter p) ≤ Node.sizes xs := by
  induction xs with
  | nil => simp [Node.sizes]
  | cons x xs ih =>
    rw [List.filter_cons]
    split
    · simp only [Node.sizes]; omega
    · simp only [Node.sizes]; omega

theorem size_eq (n : Node) : n.size = Node.sizes n.children + 1 := by
  cases n with
  | mk bb h cs => simp only [Node.size, Node.children]

/-- With enough fuel the iterator visits its queue, and after every node it visits the
    node's nested headers. -/
theorem loopIterator_visits : ∀ (fuel : Nat) (q : List Node), Node.sizes q ≤ fuel →
    (∀ n ∈ q, ∃ j : Nat, (loopIterator fuel q)[j]? = some n) ∧
      ∀ (i : Nat) n c, (loopIterator fuel q)[i]? = some n → c ∈ n.children → c.isLoopHeader = true →
        ∃ j : Nat, i < j ∧ (loopIterator fuel q)[j]? = some c := by
  intro fuel
  induction fuel with
  | zero =>
    intro q hq
    cases q with
    | nil => exact ⟨by simp, by simp [loopIterator]⟩
    | cons n q =>
      have := size_eq n
      simp only [Node.sizes] at hq
      omega
  | succ fuel ih =>
    intro q hq
    cases q with
    | nil => exact ⟨by simp, by simp [loopIterator]⟩
    | cons cur remaining =>
      have hsz : Node.sizes (remaining ++ cur.children.filter Node.isLoopHeader) ≤ fuel := by
        have h1 := sizes_filter_le Node.isLoopHeader cur.children
        have h2 := size_eq cur
        simp only [Node.sizes] at hq
        rw [sizes_append]
        omega
      obtain ⟨ih1, ih2⟩ := ih _ hsz
      simp only [loopIterator]
      refine ⟨?_, ?_⟩
      · intro n hn
        rcases List.mem_cons.mp hn with rfl | hn
        · exact ⟨0, rfl⟩
        · obtain ⟨j, hj⟩ := ih1 n (by simp [hn])
          exact ⟨j + 1, hj⟩
      · intro i n c hi hcm hch
        cases i with
        | zero =>
          cases hi
          obtain ⟨j, hj⟩ := ih1 c (by simp [hcm, hch])
          exact ⟨j + 1, by omega, hj⟩
        | succ i =>
          obtain ⟨j, hij, hj⟩ := ih2 i n c hi hcm hch
          exact ⟨j + 1, by omega, hj⟩

/-- A node visited is in the first queue or a nested header of one visited before. -/
theorem loopIterator_parent : ∀ (fuel : Nat) (q : List Node) (j : Nat) (n : Node), (loopIterator fuel q)[j]? = some n →
    n ∈ q ∨ ∃ i p, i < j ∧ (loopIterator fuel q)[i]? = some p ∧ n ∈ p.children ∧ n.isLoopHeader = true := by
  intro fuel
  induction fuel with
  | zero => intro q j n h; simp [loopIterator] at h
  | succ fuel ih =>
    intro q j n h
    cases q with
    | nil => simp [loopIterator] at h
    | cons cur remaining =>
      simp only [loopIterator] at h ⊢
      cases j with
      | zero =>
        cases h
        exact .inl (by simp)
      | succ j =>
        rcases ih _ j n h with hq | ⟨i, p, hij, hp, hcm, hch⟩
        · rcases List.mem_append.mp hq with hq | hq
          · exact .inl (by simp [hq])
          · rw [List.mem_filter] at hq
            exact .inr ⟨0, cur, by omega, rfl, hq.1, hq.2⟩
        · exact .inr ⟨i + 1, p, by omega, hp, hcm, hch⟩

theorem loopNodes_root (tree : Node) : ∃ j : Nat, tree.loopNodes[j]? = some tree :=
  (loopIterator_visits tree.size [tree] (by simp [Node.sizes])).1 tree (by simp)

theorem loopNodes_child {tree n c : Node} {i : Nat} (hn : tree.loopNodes[i]? = some n) (hm : c ∈ n.children)
    (hh : c.isLoopHeader = true) : ∃ j, i < j ∧ tree.loopNodes[j]? = some c :=
  (loopIterator_visits tree.size [tree] (by simp [Node.sizes])).2 i n c hn hm hh

theorem loopNodes_parent {tree n : Node} {j : Nat} (hn : tree.loopNodes[j]? = some n) :
    n = tree ∨ ∃ i p, i < j ∧ tree.loopNodes[i]? = some p ∧ n ∈ p.children ∧ n.isLoopHeader = true := by
  rcases loopIterator_parent tree.size [tree] j n hn with h | h
  · exact .inl (List.mem_singleton.mp h)
  · exact .inr h

/-- Every node visited is good when the root is. -/
theorem loopNodes_good (hc : LlvmCorrect F A) {tree : Node} (ht : GoodNode A tree) : ∀ (j : Nat) n,
    tree.loopNodes[j]? = some n → GoodNode A n := by
  intro j
  induction j using Nat.strongRecOn with
  | ind j ih =>
    intro n hn
    rcases loopNodes_parent hn with rfl | ⟨i, p, hij, hp, hm, hh⟩
    · exact ht
    · exact ((ih i hij p hp).nested hc hm hh).1

/-! ## The forest -/

theorem mem_forest {tree : Node} : tree ∈ loopNestingForest A ↔
    ∃ scc ∈ A.sccs, ∃ front, scc.head? = some front ∧ tree = loopNestingTree A.loopInfo front := by
  simp only [loopNestingForest, List.mem_filterMap, Option.map_eq_some_iff, @eq_comm _ _ tree]

/-- A tree is a single block or has the header of an outermost loop as its root. -/
theorem tree_root (hc : LlvmCorrect F A) {tree : Node} (ht : tree ∈ loopNestingForest A) :
    tree.children = [] ∨ ∃ L ∈ A.loopInfo.loops, L.depth = 1 ∧
      tree = headerNode A.loopInfo (A.loopInfo.loops.length + 1) L.header := by
  obtain ⟨scc, -, front, -, rfl⟩ := mem_forest.mp ht
  unfold loopNestingTree
  split
  · exact .inl rfl
  · rename_i L hL
    obtain ⟨h1, h2, -⟩ := outermost_spec hc L.depth L (hc.loop_for front L hL).1 (Nat.le_refl _)
    exact .inr ⟨_, h1, h2, rfl⟩

theorem tree_good (hc : LlvmCorrect F A) {tree : Node} (ht : tree ∈ loopNestingForest A) : GoodNode A tree := by
  rcases tree_root hc ht with h | ⟨L, hL, -, rfl⟩
  · exact .inl h
  · exact headerNode_good hL

/-- An outermost loop is the root of its component's tree. -/
theorem outermost_tree (hr : Reducible F A) (hc : LlvmCorrect F A) {L : Loop} (hL : L ∈ A.loopInfo.loops) (hd : L.depth = 1) :
    headerNode A.loopInfo (A.loopInfo.loops.length + 1) L.header ∈ loopNestingForest A := by
  have hself := (hc.loop_blocks L hL).1
  obtain ⟨scc, hscc, hm⟩ := hc.scc_cover L.header hself.reach
  cases scc with
  | nil => cases hm
  | cons front rest =>
    refine mem_forest.mpr ⟨_, hscc, front, rfl, ?_⟩
    obtain ⟨-, h1⟩ := hc.scc_mutual _ hscc front (by simp) L.header hm
    obtain ⟨-, h2⟩ := hc.scc_mutual _ hscc L.header hm front (by simp)
    -- one loop holds the header and the component's first block
    have hrank : ∀ x, Lib.Reach F.Edge 0 x → A.po.idxOf x ≤ A.po.length := fun x _ => List.idxOf_le_length
    obtain ⟨e, he1, he2⟩ := cycle_loop hrank (fun a b ha e => hr a b ha e) hself h2 h1
    obtain ⟨M, hM, rfl⟩ := hc.loop_header e he1.header_mem
    have hML : M = L := by
      by_contra hne
      have := depth_lt hc hM hL he1 hne
      have := depth_pos hc hM
      omega
    subst hML
    unfold loopNestingTree
    cases hg : A.loopInfo.get front with
    | none => exact absurd he2 (hc.loop_for_none front hg M hM)
    | some K =>
      obtain ⟨hK, hKf, -⟩ := hc.loop_for front K hg
      obtain ⟨o1, o2, o3⟩ := outermost_spec hc K.depth K hK (Nat.le_refl _)
      simp only [loop_eq_of_depth hc o1 hM (NatLoop.subset o3 hKf) he2 (by omega)]

/-- Every loop has a node in some tree, with fuel left for the loops inside it. -/
theorem loop_node (hr : Reducible F A) (hc : LlvmCorrect F A) : ∀ (d : Nat) (L : Loop), L ∈ A.loopInfo.loops → L.depth = d + 1 →
    ∃ tree ∈ loopNestingForest A, ∃ j : Nat,
      tree.loopNodes[j]? = some (headerNode A.loopInfo (A.loopInfo.loops.length + 1 - d) L.header) := by
  intro d
  induction d with
  | zero =>
    intro L hL hd
    exact ⟨_, outermost_tree hr hc hL hd, loopNodes_root _⟩
  | succ d ih =>
    intro L hL hd
    obtain ⟨M, hM, -, hdep, hin⟩ := hc.loop_parent L hL (by omega)
    obtain ⟨tree, ht, i, hi⟩ := ih M hM (by omega)
    have hle := depth_le hc hL
    obtain ⟨fuel, hf⟩ : ∃ fuel, A.loopInfo.loops.length + 1 - d = fuel + 1 := ⟨A.loopInfo.loops.length - d, by omega⟩
    rw [hf] at hi
    have hchild : headerNode A.loopInfo fuel L.header ∈ (headerNode A.loopInfo (fuel + 1) M.header).children := by
      rw [mem_headerNode_children hc hM]
      refine ⟨L.header, hin, .inr ⟨?_, isLoopHeader_header hc hL, rfl⟩⟩
      rw [getLoopDepth_header hc hL]
      omega
    obtain ⟨j, -, hj⟩ := loopNodes_child hi hchild (headerNode_isLoopHeader _ _ _)
    rw [show A.loopInfo.loops.length + 1 - (d + 1) = fuel by omega]
    exact ⟨tree, ht, j, hj⟩

/-- Every block of a loop is a child of the node of its innermost loop. -/
theorem block_node (hr : Reducible F A) (hc : LlvmCorrect F A) {M : Loop} (hM : M ∈ A.loopInfo.loops) {b : Nat}
    (hb : F.NatLoop M.header b) : ∃ L ∈ A.loopInfo.loops, F.NatLoop L.header b ∧ F.NatLoop M.header L.header ∧
      ∃ tree ∈ loopNestingForest A, ∃ (j : Nat) (n : Node), tree.loopNodes[j]? = some n ∧ n.bb = L.header ∧
        ∃ c ∈ n.children, c.bb = b := by
  cases hg : A.loopInfo.get b with
  | none => exact absurd hb (hc.loop_for_none b hg M hM)
  | some L =>
    obtain ⟨hL, hLb, hinner⟩ := hc.loop_for b L hg
    have hpos := depth_pos hc hL
    have hle := depth_le hc hL
    obtain ⟨tree, ht, j, hj⟩ := loop_node hr hc (L.depth - 1) L hL (by omega)
    obtain ⟨fuel, hf⟩ : ∃ fuel, A.loopInfo.loops.length + 1 - (L.depth - 1) = fuel + 1 :=
      ⟨A.loopInfo.loops.length - (L.depth - 1), by omega⟩
    rw [hf] at hj
    refine ⟨L, hL, hLb, hinner M hM hb, tree, ht, j, _, hj, headerNode_bb _ _ _, .mk b false [], ?_, rfl⟩
    rw [mem_headerNode_children hc hL]
    exact ⟨b, hLb, .inl ⟨by simp only [LoopInfo.getLoopDepth, hg], rfl⟩⟩

end Popcorn.Liveness
