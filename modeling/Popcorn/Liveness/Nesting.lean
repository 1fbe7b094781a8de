/-
  Popcorn.Liveness.Nesting — the loop-nesting tree of a strongly connected component.

  A component of a reducible function with correct LoopInfo either has no loop or lies
  in one outermost loop, the tree's root. The headers of the loops below a loop, each
  with the headers of the loops immediately inside, form a tree (`nested_isTree`), so
  the constructor's worklist and the iterator visit each once and outer ones first.

  Proved: the constructor returns and the iterator ends; the iterator yields the header
  of every loop of the component once, after the headers of the loops around it; the
  children of a header are the blocks whose innermost loop is its loop, the header
  included, and the headers of the loops immediately inside, each once; `depth()` is
  the greatest loop depth of a block of the component (`nestingTree_faithful`). The
  depth is never 0: a component without a loop is a lone node of depth 1
  (`depth_of_no_loop`). Read from their roots the trees are those the liveness analysis
  goes through (`loopNestingForest_eq`).
-/

import Popcorn.Liveness.NestingTree
import Popcorn.Liveness.Soundness

namespace Popcorn.Liveness

open Popcorn.Lib Relation

variable {F : Function} {A : Analyses} {scc : List Nat}

/-! ## Components -/

/-- A strongly connected component of the reachable blocks. -/
structure Component (F : Function) (scc : List Nat) : Prop where
  ne_nil : scc ≠ []
  reach : ∀ a ∈ scc, F.Reach a
  mutual_iff : ∀ a ∈ scc, ∀ b, b ∈ scc ↔ ReflTransGen F.Edge a b ∧ ReflTransGen F.Edge b a

/-- A block and the header of a loop around it are in one component. -/
theorem Component.header_iff (hs : Component F scc) {h c : Nat} (hl : F.NatLoop h c) : h ∈ scc ↔ c ∈ scc := by
  constructor
  · intro hm
    exact (hs.mutual_iff h hm c).mpr ⟨hl.header_reach, hl.reach_header⟩
  · intro hm
    exact (hs.mutual_iff c hm h).mpr ⟨hl.reach_header, hl.header_reach⟩

/-- A loop of a component shares a loop with every block of it. -/
theorem Component.shared_loop (hr : Reducible F A) (hc : LlvmCorrect F A) (hs : Component F scc) {L : Loop}
    (hL : L ∈ A.loopInfo.loops) (hm : L.header ∈ scc) {b : Nat} (hb : b ∈ scc) :
    ∃ M ∈ A.loopInfo.loops, F.NatLoop M.header L.header ∧ F.NatLoop M.header b := by
  have hself := (hc.loop_blocks L hL).1
  obtain ⟨h1, h2⟩ := (hs.mutual_iff _ hm b).mp hb
  have hrank : ∀ x, Lib.Reach F.Edge 0 x → A.po.idxOf x ≤ A.po.length := fun x _ => List.idxOf_le_length
  obtain ⟨e, he1, he2⟩ := cycle_loop hrank (fun a b ha e => hr a b ha e) hself h1 h2
  obtain ⟨M, hM, rfl⟩ := hc.loop_header e he1.header_mem
  exact ⟨M, hM, he1, he2⟩

/-- The loops of a component are those inside the outermost loop of any block of it. -/
theorem Component.loop_iff (hr : Reducible F A) (hc : LlvmCorrect F A) (hs : Component F scc) {R L : Loop} {b : Nat}
    (hR : R ∈ A.loopInfo.loops) (hd : R.depth = 1) (hb : b ∈ scc) (hRb : F.NatLoop R.header b) (hL : L ∈ A.loopInfo.loops) :
    L.header ∈ scc ↔ F.NatLoop R.header L.header := by
  constructor
  · intro hm
    obtain ⟨M, hM, h1, h2⟩ := hs.shared_loop hr hc hL hm hb
    have hpos := depth_pos hc hM
    exact NatLoop.subset (loop_inside hc hR hM hRb h2 (by omega)) h1
  · intro hl
    exact (hs.header_iff hl).mp ((hs.header_iff hRb).mpr hb)

/-! ## Nested loops -/

/-- `M` is inside `L` and no other loop is between them. -/
structure Immediate (F : Function) (A : Analyses) (L M : Loop) : Prop where
  mem : M ∈ A.loopInfo.loops
  ne : M ≠ L
  inside : F.NatLoop L.header M.header
  between : ∀ K ∈ A.loopInfo.loops, F.NatLoop L.header K.header → F.NatLoop K.header M.header → K = L ∨ K = M

/-- A loop inside another has a parent inside it or equal to it. -/
theorem parent_inside (hc : LlvmCorrect F A) {L M : Loop} (hL : L ∈ A.loopInfo.loops) (hM : M ∈ A.loopInfo.loops)
    (hin : F.NatLoop L.header M.header) (hne : L ≠ M) : ∃ P ∈ A.loopInfo.loops, P.depth + 1 = M.depth ∧
      F.NatLoop P.header M.header ∧ F.NatLoop L.header P.header := by
  have hlt := depth_lt hc hL hM hin hne
  have hpos := depth_pos hc hL
  obtain ⟨P, hP, -, hdep, hPM⟩ := hc.loop_parent M hM (by omega)
  exact ⟨P, hP, hdep, hPM, loop_inside hc hL hP hin hPM (by omega)⟩

/-- Immediately nested loops are those one deeper. -/
theorem immediate_iff (hc : LlvmCorrect F A) {L M : Loop} (hL : L ∈ A.loopInfo.loops) :
    Immediate F A L M ↔ M ∈ A.loopInfo.loops ∧ F.NatLoop L.header M.header ∧ M.depth = L.depth + 1 := by
  constructor
  · intro h
    obtain ⟨P, hP, hdep, hPM, hLP⟩ := parent_inside hc hL h.mem h.inside (Ne.symm h.ne)
    refine ⟨h.mem, h.inside, ?_⟩
    rcases h.between P hP hLP hPM with rfl | rfl
    · exact hdep.symm
    · omega
  · rintro ⟨hM, hin, hd⟩
    refine ⟨hM, ?_, hin, ?_⟩
    · rintro rfl
      omega
    · intro K hK h1 h2
      by_contra hne
      rw [not_or] at hne
      have := depth_lt hc hL hK h1 (Ne.symm hne.1)
      have := depth_lt hc hK hM h2 hne.2
      omega

/-! ## Children -/

theorem kids_header (hc : LlvmCorrect F A) {L : Loop} (hL : L ∈ A.loopInfo.loops) :
    kids A.loopInfo L.header = L.blocks.filterMap (kid A.loopInfo L.depth) := by
  simp only [kids, get_header hc hL, getLoopDepth_header hc hL]

/-- The regular children are the blocks whose innermost loop is the header's. -/
theorem mem_kids_block (hc : LlvmCorrect F A) {L : Loop} (hL : L ∈ A.loopInfo.loops) {c : Nat} :
    (c, false) ∈ kids A.loopInfo L.header ↔ A.loopInfo.get c = some L := by
  simp only [kids_header hc hL, List.mem_filterMap, kid_block, mem_blocks hc hL]
  constructor
  · rintro ⟨_, hin, rfl, hd⟩
    cases hg : A.loopInfo.get _ with
    | none => exact absurd hin (hc.loop_for_none _ hg L hL)
    | some K =>
      obtain ⟨hK, hKc, -⟩ := hc.loop_for _ K hg
      simp only [LoopInfo.getLoopDepth, hg] at hd
      rw [loop_eq_of_depth hc hK hL hKc hin hd]
  · intro hg
    refine ⟨c, (hc.loop_for c L hg).2.1, rfl, ?_⟩
    simp only [LoopInfo.getLoopDepth, hg]

/-- The header children are the headers of the loops immediately inside. -/
theorem mem_kids_header (hc : LlvmCorrect F A) {L : Loop} (hL : L ∈ A.loopInfo.loops) {c : Nat} :
    (c, true) ∈ kids A.loopInfo L.header ↔ ∃ M, Immediate F A L M ∧ M.header = c := by
  simp only [kids_header hc hL, List.mem_filterMap, kid_header, mem_blocks hc hL, immediate_iff hc hL]
  constructor
  · rintro ⟨_, hin, rfl, hd, hh⟩
    obtain ⟨M, hM, rfl⟩ := loop_of_isLoopHeader hc hh
    rw [getLoopDepth_header hc hM] at hd
    exact ⟨M, ⟨hM, hin, hd⟩, rfl⟩
  · rintro ⟨M, ⟨hM, hin, hd⟩, rfl⟩
    exact ⟨M.header, hin, rfl, by rw [getLoopDepth_header hc hM, hd], isLoopHeader_header hc hM⟩

/-- A header has a child for a block at most once. -/
theorem kids_nodup (hc : LlvmCorrect F A) {L : Loop} (hL : L ∈ A.loopInfo.loops) (hnd : L.blocks.Nodup) :
    ((kids A.loopInfo L.header).map (·.1)).Nodup := by
  rw [kids_header hc hL, List.map_filterMap]
  refine List.Nodup.filterMap ?_ hnd
  intro b b' c hb hb'
  simp only [Option.mem_def, Option.map_eq_some_iff] at hb hb'
  obtain ⟨k, hk, rfl⟩ := hb
  obtain ⟨k', hk', he⟩ := hb'
  rw [kid_fst hk, kid_fst hk', he]

/-- The blocks a header's children are. -/
theorem mem_kids (hc : LlvmCorrect F A) {L : Loop} (hL : L ∈ A.loopInfo.loops) {c : Nat} :
    c ∈ (kids A.loopInfo L.header).map (·.1) ↔ A.loopInfo.get c = some L ∨ ∃ M, Immediate F A L M ∧ M.header = c := by
  rw [← mem_kids_block hc hL, ← mem_kids_header hc hL, List.mem_map]
  constructor
  · rintro ⟨⟨c, h⟩, hk, rfl⟩
    cases h with
    | false => exact .inl hk
    | true => exact .inr hk
  · rintro (hk | hk)
    · exact ⟨_, hk, rfl⟩
    · exact ⟨_, hk, rfl⟩

/-! ## The tree of headers -/

theorem mem_nested (hc : LlvmCorrect F A) {L : Loop} (hL : L ∈ A.loopInfo.loops) {c : Nat} :
    c ∈ nested A.loopInfo L.header ↔ ∃ M, Immediate F A L M ∧ M.header = c := by
  rw [← mem_kids_header hc hL]
  simp [nested]

/-- Below a loop's header are the headers of the loops inside it. -/
theorem under_iff (hc : LlvmCorrect F A) {R : Loop} (hR : R ∈ A.loopInfo.loops) {h : Nat} :
    Under (nested A.loopInfo) R.header h ↔ ∃ M ∈ A.loopInfo.loops, M.header = h ∧ F.NatLoop R.header M.header := by
  constructor
  · intro hu
    induction hu with
    | refl => exact ⟨R, hR, rfl, (hc.loop_blocks R hR).1⟩
    | tail _ hch ih =>
      obtain ⟨L, hL, rfl, hin⟩ := ih
      obtain ⟨M, hM, rfl⟩ := (mem_nested hc hL).mp hch
      exact ⟨M, hM.mem, rfl, NatLoop.subset hin hM.inside⟩
  · rintro ⟨M, hM, rfl, hin⟩
    induction hd : M.depth generalizing M with
    | zero =>
      have := depth_pos hc hM
      omega
    | succ d ih =>
      by_cases hne : R = M
      · rw [hne]
        exact .refl
      obtain ⟨P, hP, hdep, hPM, hRP⟩ := parent_inside hc hR hM hin hne
      refine .tail (ih P hP hRP (by omega)) ((mem_nested hc hP).mpr ⟨M, ?_, rfl⟩)
      exact (immediate_iff hc hP).mpr ⟨hM, hPM, hdep.symm⟩

theorem nested_isTree (hc : LlvmCorrect F A) (hnd : ∀ L ∈ A.loopInfo.loops, L.blocks.Nodup) {R : Loop}
    (hR : R ∈ A.loopInfo.loops) : IsTree (nested A.loopInfo) R.header := by
  refine ⟨?_, ?_, ?_⟩
  · intro x hx
    obtain ⟨L, hL, rfl, -⟩ := (under_iff hc hR).mp hx
    exact (List.filter_sublist.map _).nodup (kids_nodup hc hL (hnd L hL))
  · intro x y c hx hy hcx hcy
    obtain ⟨L, hL, rfl, -⟩ := (under_iff hc hR).mp hx
    obtain ⟨L', hL', rfl, -⟩ := (under_iff hc hR).mp hy
    obtain ⟨M, hM, rfl⟩ := (mem_nested hc hL).mp hcx
    obtain ⟨M', hM', he⟩ := (mem_nested hc hL').mp hcy
    obtain rfl := hc.loop_inj M' hM'.mem M hM.mem he
    obtain ⟨-, h1, hd1⟩ := (immediate_iff hc hL).mp hM
    obtain ⟨-, h2, hd2⟩ := (immediate_iff hc hL').mp hM'
    rw [loop_eq_of_depth hc hL hL' h1 h2 (by omega)]
  · intro x hx hm
    obtain ⟨L, hL, rfl, hin⟩ := (under_iff hc hR).mp hx
    obtain ⟨M, hM, he⟩ := (mem_nested hc hL).mp hm
    obtain rfl := hc.loop_inj M hM.mem R hR he
    -- the root would be inside a loop inside it
    have := depth_lt hc hL hR hM.inside (Ne.symm hM.ne)
    have := depth_lt hc hR hL hin hM.ne
    omega

/-- A list with every header before its nested headers has outer headers first. -/
theorem outer_before (hc : LlvmCorrect F A) {R : Loop} (hR : R ∈ A.loopInfo.loops) {hs : List Nat}
    (hmem : ∀ h, h ∈ hs ↔ Under (nested A.loopInfo) R.header h)
    (hord : ∀ h ∈ hs, ∀ c ∈ nested A.loopInfo h, hs.idxOf h < hs.idxOf c) :
    ∀ (d : Nat) (L M : Loop), M.depth = d → L ∈ A.loopInfo.loops → M ∈ A.loopInfo.loops → L ≠ M →
      F.NatLoop R.header L.header → F.NatLoop L.header M.header → hs.idxOf L.header < hs.idxOf M.header := by
  intro d
  induction d with
  | zero =>
    intro L M hd _ hM
    have := depth_pos hc hM
    omega
  | succ d ih =>
    intro L M hd hL hM hne hRL hin
    obtain ⟨P, hP, hdep, hPM, hLP⟩ := parent_inside hc hL hM hin hne
    have hPin : P.header ∈ hs := (hmem _).mpr ((under_iff hc hR).mpr ⟨P, hP, rfl, NatLoop.subset hRL hLP⟩)
    have hlast : hs.idxOf P.header < hs.idxOf M.header :=
      hord _ hPin _ ((mem_nested hc hP).mpr ⟨M, (immediate_iff hc hP).mpr ⟨hM, hPM, hdep.symm⟩, rfl⟩)
    by_cases hLP' : L = P
    · rwa [hLP']
    · exact Nat.lt_trans (ih L P (by omega) hL hP hLP' hRL hLP) hlast

/-! ## The tree of a component -/

/-- The greatest loop depth of a block of the component. -/
def greatestDepth (LI : LoopInfo) (scc : List Nat) : Nat := (scc.map LI.getLoopDepth).foldr max 0

theorem greatestDepth_le {LI : LoopInfo} {n : Nat} : ∀ {scc : List Nat},
    greatestDepth LI scc ≤ n ↔ ∀ b ∈ scc, LI.getLoopDepth b ≤ n := by
  intro scc
  induction scc with
  | nil => simp [greatestDepth]
  | cons b scc ih =>
    simp only [greatestDepth, List.map_cons, List.foldr_cons, Nat.max_le, List.forall_mem_cons]
    exact and_congr Iff.rfl ih

theorem foldl_max_le {f : Nat → Nat} {n : Nat} : ∀ (hs : List Nat) (d : Nat),
    hs.foldl (fun d h => max d (f h)) d ≤ n ↔ d ≤ n ∧ ∀ h ∈ hs, f h ≤ n := by
  intro hs
  induction hs with
  | nil => simp
  | cons h hs ih =>
    intro d
    rw [List.foldl_cons, ih, Nat.max_le, List.forall_mem_cons, and_assoc]

/-- What the iterator and the children of its nodes say about a component's loops. -/
structure Nests (F : Function) (A : Analyses) (scc : List Nat) (t : LoopNestingTree) (ps : List Nat) : Prop where
  once : ∀ L ∈ A.loopInfo.loops, L.header ∈ scc → (ps.map fun p => (t.node p).bb).count L.header = 1
  outer_first : ∀ L ∈ A.loopInfo.loops, ∀ M ∈ A.loopInfo.loops, L.header ∈ scc → M.header ∈ scc → L ≠ M →
    F.NatLoop L.header M.header → (ps.map fun p => (t.node p).bb).idxOf L.header < (ps.map fun p => (t.node p).bb).idxOf M.header
  children : ∀ p ∈ ps, ∀ L ∈ A.loopInfo.loops, L.header = (t.node p).bb → (t.childBlocks p).Nodup ∧
    ∀ c, c ∈ t.childBlocks p ↔ A.loopInfo.get c = some L ∨ ∃ M, Immediate F A L M ∧ M.header = c

/-- The tree of a component whose first block is in a loop. -/
theorem new_of_loop (hc : LlvmCorrect F A) (hnd : ∀ L ∈ A.loopInfo.loops, L.blocks.Nodup) {front : Nat} {loop : Loop}
    (hf : scc.head? = some front) (hg : A.loopInfo.get front = some loop) :
    ∃ t ps hs, LoopNestingTree.new A.loopInfo scc = some t ∧ Built A.loopInfo hs t ps ∧
      (t.node t.root).bb = (A.loopInfo.outermost loop.depth loop).header ∧
      t.depth = hs.foldl (fun d h => max d (A.loopInfo.getLoopDepth h)) 1 ∧ hs.Nodup ∧
      (∀ h, h ∈ hs ↔ Under (nested A.loopInfo) (A.loopInfo.outermost loop.depth loop).header h) ∧
      ∀ h ∈ hs, ∀ c ∈ nested A.loopInfo h, hs.idxOf h < hs.idxOf c := by
  obtain ⟨hR, -, -⟩ := outermost_spec hc loop.depth loop (hc.loop_for front loop hg).1 (Nat.le_refl _)
  generalize hRdef : A.loopInfo.outermost loop.depth loop = R at hR
  have huniv : ∀ h, Under (nested A.loopInfo) R.header h → h ∈ A.loopInfo.loops.map (·.header) := by
    intro h hu
    obtain ⟨M, hM, rfl, -⟩ := (under_iff hc hR).mp hu
    exact List.mem_map.mpr ⟨M, hM, rfl⟩
  obtain ⟨hs, hbfs, hsnd, hmem, hord⟩ := bfs_tree (nested_isTree hc hnd hR) huniv (Nat.le_of_eq (List.length_map _))
  have hloops : ∀ h ∈ hs, (A.loopInfo.get h).isSome := by
    intro h hh
    obtain ⟨M, hM, rfl, -⟩ := (under_iff hc hR).mp ((hmem h).mp hh)
    rw [get_header hc hM]
    rfl
  obtain ⟨t, ps, ht, hb, hroot, hdepth⟩ := LoopNestingTree.new_spec hf hg (hRdef ▸ hbfs) hsnd hloops
  exact ⟨t, ps, hs, ht, hb, hRdef ▸ hroot, hdepth, hsnd, hmem, hord⟩

/-- In a component whose first block is in no loop no block is. -/
theorem Component.no_loop (hr : Reducible F A) (hc : LlvmCorrect F A) (hs : Component F scc) {front : Nat}
    (hf : scc.head? = some front) (hg : A.loopInfo.get front = none) : ∀ b ∈ scc, A.loopInfo.get b = none := by
  intro b hb
  have hfront : front ∈ scc := List.mem_of_head? hf
  cases hgb : A.loopInfo.get b with
  | none => rfl
  | some L =>
    obtain ⟨hL, hLb, -⟩ := hc.loop_for b L hgb
    obtain ⟨M, hM, -, hMf⟩ := hs.shared_loop hr hc hL ((hs.header_iff hLb).mpr hb) hfront
    exact absurd hMf (hc.loop_for_none front hg M hM)

/-- The tree of a component whose first block is in a loop nests the component's loops. -/
theorem nests_of_loop (hr : Reducible F A) (hc : LlvmCorrect F A) (hnd : ∀ L ∈ A.loopInfo.loops, L.blocks.Nodup)
    (hs : Component F scc) {front : Nat} {loop : Loop} (hf : scc.head? = some front) (hg : A.loopInfo.get front = some loop) :
    ∃ t ps, LoopNestingTree.new A.loopInfo scc = some t ∧ t.loopNodes = some ps ∧ Nests F A scc t ps ∧
      t.depth = max 1 (greatestDepth A.loopInfo scc) ∧
      ∀ p ∈ ps, ∃ L ∈ A.loopInfo.loops, L.header ∈ scc ∧ L.header = (t.node p).bb := by
  obtain ⟨t, ps, hds, ht, hb, -, hdepth, hdnd, hmem, hord⟩ := new_of_loop hc hnd hf hg
  obtain ⟨hloop, hlf, -⟩ := hc.loop_for front loop hg
  obtain ⟨hR, hR1, hRl⟩ := outermost_spec hc loop.depth loop hloop (Nat.le_refl _)
  generalize A.loopInfo.outermost loop.depth loop = R at hR hR1 hRl hmem
  -- the headers visited are those of the component's loops
  have hiff : ∀ L ∈ A.loopInfo.loops, L.header ∈ scc ↔ F.NatLoop R.header L.header := by
    intro L hL
    exact hs.loop_iff hr hc hR hR1 (List.mem_of_head? hf) (NatLoop.subset hRl hlf) hL
  have hheads : ∀ h, h ∈ hds ↔ ∃ L ∈ A.loopInfo.loops, L.header ∈ scc ∧ L.header = h := by
    intro h
    rw [hmem, under_iff hc hR]
    constructor
    · rintro ⟨L, hL, he, hin⟩
      exact ⟨L, hL, (hiff L hL).mpr hin, he⟩
    · rintro ⟨L, hL, hm, he⟩
      exact ⟨L, hL, he, (hiff L hL).mp hm⟩
  refine ⟨t, ps, ht, hb.nodes, ⟨?_, ?_, ?_⟩, ?_, ?_⟩
  · intro L hL hm
    rw [hb.headers]
    exact List.count_eq_one_of_mem hdnd ((hheads _).mpr ⟨L, hL, hm, rfl⟩)
  · intro L hL M hM hLm _ hne hin
    rw [hb.headers]
    exact outer_before hc hR hmem hord M.depth L M rfl hL hM hne ((hiff L hL).mp hLm) hin
  · intro p hp L hL he
    have hkids : t.childBlocks p = (kids A.loopInfo L.header).map (·.1) := by
      rw [he, ← (hb.complete p hp).entries, List.map_map]
      rfl
    rw [hkids]
    exact ⟨kids_nodup hc hL (hnd L hL), fun c => mem_kids hc hL⟩
  · refine eq_of_forall_ge_iff fun n => ?_
    rw [hdepth, foldl_max_le, Nat.max_le, greatestDepth_le]
    refine and_congr Iff.rfl ⟨?_, ?_⟩
    · intro h b hbm
      cases hgb : A.loopInfo.get b with
      | none => simp [LoopInfo.getLoopDepth, hgb]
      | some L =>
        obtain ⟨hL, hLb, -⟩ := hc.loop_for b L hgb
        have := h L.header ((hheads _).mpr ⟨L, hL, (hs.header_iff hLb).mpr hbm, rfl⟩)
        rw [getLoopDepth_header hc hL] at this
        simpa only [LoopInfo.getLoopDepth, hgb] using this
    · intro h b hbm
      obtain ⟨L, -, hm, rfl⟩ := (hheads b).mp hbm
      exact h _ hm
  · intro p hp
    exact (hheads _).mp (hb.headers ▸ List.mem_map.mpr ⟨p, hp, rfl⟩)

/-- The tree of a component without a loop is its first block's node. -/
theorem new_of_no_loop {LI : LoopInfo} {front : Nat} (hf : scc.head? = some front) (hg : LI.get front = none) :
    LoopNestingTree.new LI scc = some ⟨[.new front none true], 1, 1, 0⟩ := by
  rw [LoopNestingTree.new, hf]
  simp only [Option.bind_eq_bind, Option.bind_some, hg]

/-- Read from its root the constructor's tree is `loopNestingTree`. -/
theorem new_reads (hc : LlvmCorrect F A) (hnd : ∀ L ∈ A.loopInfo.loops, L.blocks.Nodup) {front : Nat} (hf : scc.head? = some front) :
    ∃ t, LoopNestingTree.new A.loopInfo scc = some t ∧
      t.read (A.loopInfo.loops.length + 1) t.root = loopNestingTree A.loopInfo front := by
  unfold loopNestingTree
  cases hg : A.loopInfo.get front with
  | none => exact ⟨_, new_of_no_loop hf hg, rfl⟩
  | some loop =>
    obtain ⟨t, ps, hs, ht, hb, hroot, -⟩ := new_of_loop hc hnd hf hg
    refine ⟨t, ht, ?_⟩
    rw [hb.read_header _ _ hb.root_mem, hroot]

/-- The trees the liveness analysis goes through are those the constructor builds. -/
theorem loopNestingForest_eq (hc : LlvmCorrect F A) (hnd : ∀ L ∈ A.loopInfo.loops, L.blocks.Nodup) :
    loopNestingForest A = A.sccs.filterMap fun scc =>
      (LoopNestingTree.new A.loopInfo scc).map fun t => t.read (A.loopInfo.loops.length + 1) t.root := by
  unfold loopNestingForest
  congr 1
  funext scc
  cases hf : scc.head? with
  | none =>
    rw [LoopNestingTree.new, hf]
    rfl
  | some front =>
    obtain ⟨t, ht, hread⟩ := new_reads hc hnd hf
    rw [ht, Option.map_some, Option.map_some, hread]

/-- The loop-nesting tree of a component: the iterator yields every loop's header once,
    outer ones first; a header's children are its loop's own blocks and the headers
    immediately inside, each once; the depth is the greatest of a block, and at least 1.
    The iterator yields nothing else, except in a component without a loop, whose tree is
    its first block's node. -/
theorem nestingTree_faithful (hr : Reducible F A) (hc : LlvmCorrect F A) (hnd : ∀ L ∈ A.loopInfo.loops, L.blocks.Nodup)
    (hs : Component F scc) :
    ∃ t ps, LoopNestingTree.new A.loopInfo scc = some t ∧ t.loopNodes = some ps ∧ Nests F A scc t ps ∧
      t.depth = max 1 (greatestDepth A.loopInfo scc) ∧
      ∀ p ∈ ps, (∃ L ∈ A.loopInfo.loops, L.header ∈ scc ∧ L.header = (t.node p).bb) ∨
        ((∀ L ∈ A.loopInfo.loops, L.header ∉ scc) ∧ ps = [p] ∧ scc.head? = some (t.node p).bb ∧ t.childBlocks p = []) := by
  obtain ⟨front, hf⟩ : ∃ front, scc.head? = some front := by
    cases hh : scc.head? with
    | none => exact absurd (List.head?_eq_none_iff.mp hh) hs.ne_nil
    | some front => exact ⟨front, rfl⟩
  cases hg : A.loopInfo.get front with
  | some loop =>
    obtain ⟨t, ps, ht, hps, hn, hd, ho⟩ := nests_of_loop hr hc hnd hs hf hg
    exact ⟨t, ps, ht, hps, hn, hd, fun p hp => .inl (ho p hp)⟩
  | none =>
    have hnone := hs.no_loop hr hc hf hg
    have hnoheader : ∀ L ∈ A.loopInfo.loops, L.header ∉ scc := by
      intro L hL hm
      have := hnone _ hm
      rw [get_header hc hL] at this
      cases this
    refine ⟨_, [0], new_of_no_loop hf hg, rfl, ⟨?_, ?_, ?_⟩, ?_, ?_⟩
    · intro L hL hm
      exact absurd hm (hnoheader L hL)
    · intro L hL _ _ hm
      exact absurd hm (hnoheader L hL)
    · intro p hp L hL he
      obtain rfl := List.mem_singleton.mp hp
      exact absurd (he ▸ List.mem_of_head? hf) (hnoheader L hL)
    · have : greatestDepth A.loopInfo scc ≤ 0 := by
        rw [greatestDepth_le]
        intro b hb
        simp [LoopInfo.getLoopDepth, hnone b hb]
      rw [Nat.le_zero.mp this]
      rfl
    · intro p hp
      obtain rfl := List.mem_singleton.mp hp
      exact .inr ⟨hnoheader, rfl, hf, rfl⟩

theorem spin_component {b : Nat} (hb : spinFunction.Reach b) : Component spinFunction [b] where
  ne_nil := by simp
  reach a ha := by
    obtain rfl := List.mem_singleton.mp ha
    exact hb
  mutual_iff a ha c := by
    obtain rfl := List.mem_singleton.mp ha
    have hup : ∀ {x y : Nat}, ReflTransGen spinFunction.Edge x y → x ≤ y := by
      intro x y h
      induction h with
      | refl => exact Nat.le_refl _
      | tail _ e ih =>
        rcases spin_edge.mp e with ⟨rfl, rfl⟩ | ⟨rfl, rfl | rfl⟩ <;> omega
    rw [List.mem_singleton]
    constructor
    · rintro rfl
      exact ⟨.refl, .refl⟩
    · rintro ⟨h1, h2⟩
      exact Nat.le_antisymm (hup h2) (hup h1)

theorem spin_blocks_nodup : ∀ L ∈ spinAnalyses.loopInfo.loops, L.blocks.Nodup := by decide

theorem nestingTree_faithful_spin : ∃ t ps, LoopNestingTree.new spinAnalyses.loopInfo [1] = some t ∧ t.loopNodes = some ps ∧
    Nests spinFunction spinAnalyses [1] t ps ∧ t.depth = max 1 (greatestDepth spinAnalyses.loopInfo [1]) ∧
    ∀ p ∈ ps, (∃ L ∈ spinAnalyses.loopInfo.loops, L.header ∈ [1] ∧ L.header = (t.node p).bb) ∨
      ((∀ L ∈ spinAnalyses.loopInfo.loops, L.header ∉ [1]) ∧ ps = [p] ∧ [1].head? = some (t.node p).bb ∧
        t.childBlocks p = []) :=
  nestingTree_faithful spin_reducible spin_llvmCorrect spin_blocks_nodup (spin_component (spin_reach.mpr (by decide)))

/-- The entry block of `spinFunction` is in no loop: its depth is 0, its tree's 1. -/
theorem depth_of_no_loop : ¬ ∀ (F : Function) (A : Analyses) (scc : List Nat), Reducible F A → LlvmCorrect F A →
    (∀ L ∈ A.loopInfo.loops, L.blocks.Nodup) → Component F scc →
      ∃ t ps, LoopNestingTree.new A.loopInfo scc = some t ∧ t.loopNodes = some ps ∧ Nests F A scc t ps ∧
        t.depth = greatestDepth A.loopInfo scc := by
  intro h
  obtain ⟨t, ps, ht, -, -, hd⟩ := h _ _ [0] spin_reducible spin_llvmCorrect spin_blocks_nodup (spin_component .refl)
  cases ht
  exact absurd hd (by decide)

end Popcorn.Liveness
