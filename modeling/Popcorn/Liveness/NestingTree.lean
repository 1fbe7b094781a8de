/-
  Popcorn.Liveness.NestingTree — the loop-nesting tree as the constructor builds it
  (patches/llvm/src/lib/Analysis/LoopNestingTree.cpp, LoopNestingTree.h).

  The nodes `new` allocates are a list and a pointer is a place in it. The constructor
  takes loop headers from a worklist, makes a child for every block of the header's loop
  that is no deeper than the loop, and one for the header of every loop one deeper,
  which also goes on the worklist. The iterator holds a current node and the headers
  still to visit; it puts a header's nested headers in its queue on arriving there.

  Proved: the constructor's worklist and the iterator's queue are one breadth-first
  traversal of the loop headers (`parseHeaders_spec`, `walk_eq_bfs`); every node the
  iterator visits has the children its loop gives (`kids`); read below one of them the
  tree is its `headerNode` (`Built.read_header`).
-/

import Popcorn.Lib.BreadthFirst
import Popcorn.Liveness.LiveValues

namespace Popcorn.Liveness

open Popcorn.Lib

/-! ## Nodes -/

/-- `LoopNestingTree::Node`. -/
structure TreeNode where
  bb : Nat
  parent : Option Nat
  isLoopHeader : Bool
  children : List Nat
  deriving DecidableEq, Repr

/-- `Node::Node`. -/
def TreeNode.new (bb : Nat) (parent : Option Nat) (isLoopHeader : Bool) : TreeNode := ⟨bb, parent, isLoopHeader, []⟩

/-- `Node::addChild`. -/
def TreeNode.addChild (n : TreeNode) (child : Nat) : TreeNode := { n with children := n.children ++ [child] }

structure LoopNestingTree where
  nodes : List TreeNode
  size : Nat
  depth : Nat
  root : Nat
  deriving DecidableEq, Repr

namespace LoopNestingTree

variable (t : LoopNestingTree)

/-- What a pointer refers to. -/
def node (p : Nat) : TreeNode := t.nodes.getD p (.new 0 none false)

/-- `p->addChild(new Node(bb, p, isLoopHeader)); _size++`. -/
def addNode (p bb : Nat) (isLoopHeader : Bool) : LoopNestingTree :=
  { t with
    nodes := t.nodes.modify p (·.addChild t.nodes.length) ++ [.new bb (some p) isLoopHeader]
    size := t.size + 1 }

/-- `_depth = (depth > _depth ? depth : _depth)`. -/
def deepen (depth : Nat) : LoopNestingTree := { t with depth := if depth > t.depth then depth else t.depth }

end LoopNestingTree

/-! ## The constructor -/

section Constructor

variable (LI : LoopInfo)

/-- One block of a loop, with the nodes still to parse. -/
def parseBlock (loopHeader depth : Nat) (s : LoopNestingTree × List Nat) (bb : Nat) : LoopNestingTree × List Nat :=
  let nodeDepth := LI.getLoopDepth bb
  if nodeDepth = depth then (s.1.addNode loopHeader bb false, s.2)
  else if nodeDepth = depth + 1 ∧ LI.isLoopHeader bb = true then
    (s.1.addNode loopHeader bb true, s.2 ++ [s.1.nodes.length])
  else s

/-- `while(work.size())`; `none` when the fuel runs out or `LI[bb]` is null. The block
    iterator starts at the header (`block_begin()++` returns its old value). -/
def parseHeaders : Nat → LoopNestingTree × List Nat → Option LoopNestingTree
  | _, (t, []) => some t
  | 0, (_, _ :: _) => none
  | fuel + 1, (t, loopHeader :: work) => do
    let loop ← LI.get (t.node loopHeader).bb
    let depth := LI.getLoopDepth (t.node loopHeader).bb
    parseHeaders fuel (loop.blocks.foldl (parseBlock LI loopHeader depth) (t.deepen depth, work))

/-- `LoopNestingTree::LoopNestingTree`; `front()` needs a block. -/
def LoopNestingTree.new (SCC : List Nat) : Option LoopNestingTree := do
  let front ← SCC.head?
  match LI.get front with
  | none => some ⟨[.new front none true], 1, 1, 0⟩
  | some loop =>
    let root := (LI.outermost loop.depth loop).header
    parseHeaders LI LI.loops.length (⟨[.new root none true], 1, 1, 0⟩, [0])

end Constructor

/-! ## The iterator -/

structure LoopIterator where
  cur : Option Nat
  remaining : List Nat
  deriving DecidableEq, Repr

namespace LoopNestingTree

variable (t : LoopNestingTree)

/-- The children of a node that are loop headers. -/
def nestedHeaders (p : Nat) : List Nat := (t.node p).children.filter fun c => (t.node c).isLoopHeader

/-- `loop_iterator::addLoopHeaders`. -/
def addLoopHeaders (it : LoopIterator) : LoopIterator :=
  match it.cur with
  | some cur => { it with remaining := it.remaining ++ t.nestedHeaders cur }
  | none => it

def loopBegin : LoopIterator := t.addLoopHeaders ⟨some t.root, []⟩

/-- `loop_iterator::operator++`. -/
def next (it : LoopIterator) : LoopIterator :=
  match it.remaining with
  | front :: remaining => t.addLoopHeaders ⟨some front, remaining⟩
  | [] => { it with cur := none }

/-- The nodes an iterator is at until it equals `loop_end()`. -/
def walk : Nat → LoopIterator → Option (List Nat)
  | _, ⟨none, _⟩ => some []
  | 0, ⟨some _, _⟩ => none
  | fuel + 1, ⟨some cur, remaining⟩ => (walk fuel (t.next ⟨some cur, remaining⟩)).map (cur :: ·)

/-- The nodes from `loop_begin()` to `loop_end()`; no node is visited twice. -/
def loopNodes : Option (List Nat) := t.walk t.nodes.length t.loopBegin

/-- The blocks from `children_begin()` to `children_end()`. -/
def childBlocks (p : Nat) : List Nat := (t.node p).children.map fun c => (t.node c).bb

/-- The iterator walks breadth first. -/
theorem walk_eq_bfs : ∀ (fuel cur : Nat) (remaining : List Nat),
    t.walk fuel (t.addLoopHeaders ⟨some cur, remaining⟩) = bfs t.nestedHeaders fuel (cur :: remaining) := by
  intro fuel
  induction fuel with
  | zero => intro cur remaining; rfl
  | succ fuel ih =>
    intro cur remaining
    simp only [addLoopHeaders, walk, next, bfs]
    cases hr : remaining ++ t.nestedHeaders cur with
    | nil => simp only [bfs_nil]; cases fuel <;> rfl
    | cons front rest =>
      have := ih front rest
      simp only [addLoopHeaders] at this
      simp only [this]

/-! ## Growing the tree -/

variable {t}

@[simp] theorem length_addNode {p bb : Nat} {h : Bool} : (t.addNode p bb h).nodes.length = t.nodes.length + 1 := by
  simp [addNode]

@[simp] theorem node_addNode_new {p bb : Nat} {h : Bool} : (t.addNode p bb h).node t.nodes.length = .new bb (some p) h := by
  simp [node, addNode, List.getD_eq_getElem?_getD]

theorem node_addNode_parent {p bb : Nat} {h : Bool} (hp : p < t.nodes.length) :
    (t.addNode p bb h).node p = (t.node p).addChild t.nodes.length := by
  simp [node, addNode, List.getD_eq_getElem?_getD, List.getElem?_append, hp]

theorem node_addNode_of_ne {p q bb : Nat} {h : Bool} (hq : q < t.nodes.length) (hne : q ≠ p) :
    (t.addNode p bb h).node q = t.node q := by
  simp [node, addNode, List.getD_eq_getElem?_getD, List.getElem?_append, hq, Ne.symm hne]

end LoopNestingTree

/-- One child of a header, its block and whether it is a header, with the nodes still to
    parse. -/
def addKid (p : Nat) (s : LoopNestingTree × List Nat) (k : Nat × Bool) : LoopNestingTree × List Nat :=
  (s.1.addNode p k.1 k.2, if k.2 then s.2 ++ [s.1.nodes.length] else s.2)

/-- What the children `ks` of node `p` make of a tree and a worklist. -/
structure Grown (p : Nat) (ks : List (Nat × Bool)) (s s' : LoopNestingTree × List Nat) : Prop where
  length : s'.1.nodes.length = s.1.nodes.length + ks.length
  depth : s'.1.depth = s.1.depth
  root : s'.1.root = s.1.root
  old : ∀ q, q < s.1.nodes.length → q ≠ p → s'.1.node q = s.1.node q
  parent : s'.1.node p =
    { s.1.node p with children := (s.1.node p).children ++ List.range' s.1.nodes.length ks.length }
  new : ∀ i k, ks[i]? = some k → s'.1.node (s.1.nodes.length + i) = .new k.1 (some p) k.2
  work : s'.2 = s.2 ++ (List.range' s.1.nodes.length ks.length).filter fun c => (s'.1.node c).isLoopHeader

theorem addKids_grown {p : Nat} : ∀ (ks : List (Nat × Bool)) (s : LoopNestingTree × List Nat), p < s.1.nodes.length →
    Grown p ks s (ks.foldl (addKid p) s) := by
  intro ks
  induction ks with
  | nil =>
    intro s _
    exact ⟨rfl, rfl, rfl, fun _ _ _ => rfl, by simp, by simp, by simp⟩
  | cons k ks ih =>
    intro s hp
    have hlen : (addKid p s k).1.nodes.length = s.1.nodes.length + 1 := LoopNestingTree.length_addNode
    have h := ih (addKid p s k) (by omega)
    have hnew : ((k :: ks).foldl (addKid p) s).1.node s.1.nodes.length = .new k.1 (some p) k.2 := by
      rw [List.foldl_cons, h.old _ (by omega) (by omega)]
      exact LoopNestingTree.node_addNode_new
    refine ⟨?_, h.depth, h.root, ?_, ?_, ?_, ?_⟩
    · rw [List.foldl_cons, h.length, hlen, List.length_cons]
      omega
    · intro q hq hne
      rw [List.foldl_cons, h.old q (by omega) hne]
      exact LoopNestingTree.node_addNode_of_ne hq hne
    · rw [List.foldl_cons, h.parent, hlen, List.length_cons, List.range'_succ]
      simp only [addKid, LoopNestingTree.node_addNode_parent hp, TreeNode.addChild, List.append_assoc, List.singleton_append]
    · intro i c hc
      cases i with
      | zero =>
        cases hc
        exact hnew
      | succ i =>
        have := h.new i c hc
        rw [hlen] at this
        rw [List.foldl_cons, show s.1.nodes.length + (i + 1) = s.1.nodes.length + 1 + i by omega]
        exact this
    · have hw := h.work
      rw [hlen] at hw
      rw [List.length_cons, List.range'_succ, List.filter_cons, hnew, List.foldl_cons, hw]
      simp only [addKid, TreeNode.new]
      split <;> simp

theorem mem_range'_new {p : Nat} {ks : List (Nat × Bool)} {s s' : LoopNestingTree × List Nat} (h : Grown p ks s s') {c : Nat}
    (hc : c ∈ List.range' s.1.nodes.length ks.length) :
    s.1.nodes.length ≤ c ∧ c < s'.1.nodes.length ∧ ∃ k ∈ ks, s'.1.node c = .new k.1 (some p) k.2 := by
  have hr := List.mem_range'_1.mp hc
  obtain ⟨i, rfl⟩ := Nat.exists_eq_add_of_le hr.1
  have hi : i < ks.length := by omega
  have hlen := h.length
  exact ⟨hr.1, by omega, ks[i], List.getElem_mem hi, h.new i _ (List.getElem?_eq_getElem hi)⟩

/-! ## One header -/

/-- The child a block makes for a header whose loop has a given depth. -/
def kid (LI : LoopInfo) (depth bb : Nat) : Option (Nat × Bool) :=
  if LI.getLoopDepth bb = depth then some (bb, false)
  else if LI.getLoopDepth bb = depth + 1 ∧ LI.isLoopHeader bb = true then some (bb, true)
  else none

/-- A regular child is a block as deep as the header's loop. -/
theorem kid_block {LI : LoopInfo} {depth bb c : Nat} :
    kid LI depth bb = some (c, false) ↔ bb = c ∧ LI.getLoopDepth c = depth := by
  unfold kid
  split
  · rename_i h
    simp only [Option.some.injEq, Prod.mk.injEq, and_true]
    exact ⟨fun e => ⟨e, e ▸ h⟩, And.left⟩
  · rename_i h
    have hno : ¬ (bb = c ∧ LI.getLoopDepth c = depth) := fun hd => h (hd.1 ▸ hd.2)
    split <;> simp [hno]

/-- A header child is a loop header one deeper. -/
theorem kid_header {LI : LoopInfo} {depth bb c : Nat} :
    kid LI depth bb = some (c, true) ↔ bb = c ∧ LI.getLoopDepth c = depth + 1 ∧ LI.isLoopHeader c = true := by
  unfold kid
  split
  · rename_i h
    have hno : ¬ (bb = c ∧ LI.getLoopDepth c = depth + 1 ∧ LI.isLoopHeader c = true) := by
      rintro ⟨rfl, hd, -⟩
      omega
    simp [hno]
  · split
    · rename_i h
      simp only [Option.some.injEq, Prod.mk.injEq, and_true]
      exact ⟨fun e => ⟨e, e ▸ h⟩, And.left⟩
    · rename_i h
      have hno : ¬ (bb = c ∧ LI.getLoopDepth c = depth + 1 ∧ LI.isLoopHeader c = true) := fun hd => h (hd.1 ▸ hd.2)
      simp [hno]

theorem kid_fst {LI : LoopInfo} {depth bb : Nat} {k : Nat × Bool} (h : kid LI depth bb = some k) : bb = k.1 := by
  obtain ⟨c, hd⟩ := k
  cases hd with
  | false => exact (kid_block.mp h).1
  | true => exact (kid_header.mp h).1

/-- The children of a header. -/
def kids (LI : LoopInfo) (h : Nat) : List (Nat × Bool) :=
  match LI.get h with
  | some loop => loop.blocks.filterMap (kid LI (LI.getLoopDepth h))
  | none => []

/-- The headers among them. -/
def nested (LI : LoopInfo) (h : Nat) : List Nat := ((kids LI h).filter (·.2)).map (·.1)

/-- A node's block and whether it is a header. -/
def LoopNestingTree.entry (t : LoopNestingTree) (p : Nat) : Nat × Bool := ((t.node p).bb, (t.node p).isLoopHeader)

variable {LI : LoopInfo}

theorem parseBlock_eq (p depth bb : Nat) (s : LoopNestingTree × List Nat) :
    parseBlock LI p depth s bb = ((kid LI depth bb).map (addKid p s)).getD s := by
  unfold parseBlock kid
  by_cases h1 : LI.getLoopDepth bb = depth
  · simp [h1, addKid]
  by_cases h2 : LI.getLoopDepth bb = depth + 1 ∧ LI.isLoopHeader bb = true
  · simp [h2, addKid]
  · simp [h1, h2]

theorem foldl_parseBlock (p depth : Nat) : ∀ (bs : List Nat) (s : LoopNestingTree × List Nat),
    bs.foldl (parseBlock LI p depth) s = (bs.filterMap (kid LI depth)).foldl (addKid p) s := by
  intro bs
  induction bs with
  | nil => intro s; rfl
  | cons bb bs ih =>
    intro s
    rw [List.foldl_cons, ih, List.filterMap_cons, parseBlock_eq]
    cases kid LI depth bb <;> rfl

theorem Grown.entries {p : Nat} {ks : List (Nat × Bool)} {s s' : LoopNestingTree × List Nat} (h : Grown p ks s s') :
    (List.range' s.1.nodes.length ks.length).map s'.1.entry = ks := by
  refine List.ext_getElem (by simp) ?_
  intro i h1 h2
  rw [List.getElem_map, List.getElem_range', LoopNestingTree.entry, Nat.one_mul, h.new i _ (List.getElem?_eq_getElem h2)]
  rfl

/-! ## The worklist -/

/-- The nodes still to parse. -/
structure Work (t : LoopNestingTree) (work : List Nat) : Prop where
  nodup : work.Nodup
  node : ∀ p ∈ work, p < t.nodes.length ∧ (t.node p).isLoopHeader = true ∧ (t.node p).children = []

/-- A header's node with all its children. -/
structure CompleteNode (LI : LoopInfo) (t : LoopNestingTree) (p : Nat) : Prop where
  valid : p < t.nodes.length
  header : (t.node p).isLoopHeader = true
  entries : (t.node p).children.map t.entry = kids LI (t.node p).bb
  child : ∀ c ∈ (t.node p).children, c < t.nodes.length ∧ (t.node c).parent = some p ∧
    ((t.node c).isLoopHeader = false → (t.node c).children = [])

/-- What parsing the headers `hs`, the first of them those of the worklist, makes of a
    tree: the iterator's queue, started with the worklist, goes through the same headers. -/
structure Parsed (LI : LoopInfo) (fuel : Nat) (work hs : List Nat) (t t' : LoopNestingTree) : Prop where
  length : t.nodes.length ≤ t'.nodes.length
  root : t'.root = t.root
  depth : t'.depth = hs.foldl (fun d h => max d (LI.getLoopDepth h)) t.depth
  kept : ∀ q, q < t.nodes.length → q ∉ work → t'.node q = t.node q
  named : ∀ q, q < t.nodes.length → t'.entry q = t.entry q ∧ (t'.node q).parent = (t.node q).parent
  order : ∃ ps, bfs t'.nestedHeaders fuel work = some ps ∧ ps.map (fun p => (t'.node p).bb) = hs ∧ ∀ p ∈ ps, CompleteNode LI t' p

theorem Parsed.refl (fuel : Nat) (t : LoopNestingTree) : Parsed LI fuel [] [] t t :=
  ⟨Nat.le_refl _, rfl, rfl, fun _ _ _ => rfl, fun _ _ => ⟨rfl, rfl⟩, [], by simp, rfl, by simp⟩

/-- The worklist after one header. -/
theorem Work.next {t s : LoopNestingTree} {p : Nat} {work work' : List Nat} {ks : List (Nat × Bool)} (hw : Work t (p :: work))
    (h : Grown p ks (t, work) (s, work')) : Work s work' := by
  have hwork : work' = work ++ _ := h.work
  have hlen : s.nodes.length = t.nodes.length + ks.length := h.length
  rw [hwork]
  refine ⟨?_, ?_⟩
  · refine List.Nodup.append hw.nodup.of_cons (List.Nodup.filter _ List.nodup_range') ?_
    intro q hq hn
    have := (hw.node q (by simp [hq])).1
    have := (mem_range'_new h (List.mem_of_mem_filter hn)).1
    simp only at this
    omega
  · intro q hq
    rcases List.mem_append.mp hq with hq | hq
    · obtain ⟨hlt, hh, hc⟩ := hw.node q (by simp [hq])
      have hne : q ≠ p := fun e => (List.nodup_cons.mp hw.nodup).1 (e ▸ hq)
      have hold : s.node q = t.node q := h.old q hlt hne
      rw [hold]
      exact ⟨by omega, hh, hc⟩
    · rw [List.mem_filter] at hq
      obtain ⟨-, hlt, k, -, hk⟩ := mem_range'_new h hq.1
      have hk : s.node q = _ := hk
      exact ⟨hlt, hq.2, by rw [hk]; rfl⟩

/-- The blocks of that worklist. -/
theorem Work.queue {t s : LoopNestingTree} {p : Nat} {work work' : List Nat} (hw : Work t (p :: work))
    (h : Grown p (kids LI (t.node p).bb) (t, work) (s, work')) :
    work'.map (fun q => (s.node q).bb) = work.map (fun q => (t.node q).bb) ++ nested LI (t.node p).bb := by
  have hwork : work' = work ++ _ := h.work
  have hold : ∀ q ∈ work, (s.node q).bb = (t.node q).bb := by
    intro q hq
    have hne : q ≠ p := fun e => (List.nodup_cons.mp hw.nodup).1 (e ▸ hq)
    exact congrArg TreeNode.bb (h.old q (hw.node q (by simp [hq])).1 hne)
  have hnew : nested LI (t.node p).bb =
      ((((List.range' t.nodes.length (kids LI (t.node p).bb).length).map s.entry).filter (·.2)).map (·.1)) := by
    rw [nested]
    exact congrArg (fun ks : List (Nat × Bool) => (ks.filter (·.2)).map (·.1)) h.entries.symm
  rw [hwork, List.map_append, List.map_congr_left hold, hnew, List.filter_map, List.map_map]
  rfl

/-- One header, then the rest. -/
theorem Parsed.step {fuel p : Nat} {work work' hs : List Nat} {t s t' : LoopNestingTree} (hw : Work t (p :: work))
    (hd : LI.getLoopDepth (t.node p).bb ≤ t.depth) (h : Grown p (kids LI (t.node p).bb) (t, work) (s, work'))
    (hp : Parsed LI fuel work' hs s t') : Parsed LI (fuel + 1) (p :: work) ((t.node p).bb :: hs) t t' := by
  have hlen : s.nodes.length = t.nodes.length + (kids LI (t.node p).bb).length := h.length
  have hwork : work' = work ++ _ := h.work
  obtain ⟨hplt, hph, hpc⟩ := hw.node p (by simp)
  have hpw : p ∉ work := (List.nodup_cons.mp hw.nodup).1
  have hold : ∀ q, q < t.nodes.length → q ∉ work → q ∉ work' := by
    intro q hq hqw hm
    rw [hwork] at hm
    rcases List.mem_append.mp hm with hm | hm
    · exact hqw hm
    · have : t.nodes.length ≤ q := (mem_range'_new h (List.mem_of_mem_filter hm)).1
      omega
  -- the header's own node is done
  have hsp : s.node p = { t.node p with children := List.range' t.nodes.length (kids LI (t.node p).bb).length } := by
    have := h.parent
    simp only [hpc, List.nil_append] at this
    exact this
  have hp' : t'.node p = s.node p := hp.kept p (by omega) (hold p hplt hpw)
  have hbb : (t'.node p).bb = (t.node p).bb := by rw [hp', hsp]
  have hchild : (t'.node p).children = List.range' t.nodes.length (kids LI (t.node p).bb).length := by rw [hp', hsp]
  have hentry : ∀ c ∈ (t'.node p).children, c < s.nodes.length ∧ t'.entry c = s.entry c := by
    intro c hc
    rw [hchild] at hc
    have hlt : c < s.nodes.length := (mem_range'_new h hc).2.1
    exact ⟨hlt, (hp.named c hlt).1⟩
  have hents : (t'.node p).children.map t'.entry = kids LI (t'.node p).bb := by
    rw [List.map_congr_left fun c hc => (hentry c hc).2, hchild, hbb]
    exact h.entries
  have hheaders : work ++ t'.nestedHeaders p = work' := by
    rw [hwork, LoopNestingTree.nestedHeaders, hchild]
    congr 1
    refine List.filter_congr fun c hc => ?_
    exact congrArg Prod.snd (hentry c (hchild ▸ hc)).2
  have hcomplete : CompleteNode LI t' p := by
    refine ⟨Nat.lt_of_lt_of_le (by omega) hp.length, by rw [hp', hsp]; exact hph, hents, ?_⟩
    intro c hc
    have hr := hc
    rw [hchild] at hr
    obtain ⟨hge, hlt, k, -, hk⟩ := mem_range'_new h hr
    have hk : s.node c = .new k.1 (some p) k.2 := hk
    have hge : t.nodes.length ≤ c := hge
    have hlt : c < s.nodes.length := hlt
    obtain ⟨hent, hpar⟩ := hp.named c hlt
    refine ⟨Nat.lt_of_lt_of_le hlt hp.length, by rw [hpar, hk]; rfl, ?_⟩
    intro hreg
    have hreg' : (s.node c).isLoopHeader = false := by rw [← hreg]; exact (congrArg Prod.snd hent).symm
    have hcw : c ∉ work' := by
      intro hm
      rw [((hw.next h).node c hm).2.1] at hreg'
      cases hreg'
    rw [hp.kept c hlt hcw, hk]
    rfl
  obtain ⟨ps, hps, hmap, hall⟩ := hp.order
  refine ⟨?_, hp.root.trans h.root, ?_, ?_, ?_, p :: ps, ?_, ?_, ?_⟩
  · have := hp.length
    omega
  · rw [hp.depth, h.depth, List.foldl_cons, Nat.max_eq_left hd]
  · intro q hq hqw
    simp only [List.mem_cons, not_or] at hqw
    rw [hp.kept q (by omega) (hold q hq hqw.2)]
    exact h.old q hq hqw.1
  · intro q hq
    obtain ⟨h1, h2⟩ := hp.named q (by omega)
    rw [h1, h2, LoopNestingTree.entry, LoopNestingTree.entry]
    by_cases hqp : q = p
    · rw [hqp, hsp]
      exact ⟨rfl, rfl⟩
    · have : s.node q = t.node q := h.old q hq hqp
      rw [this]
      exact ⟨rfl, rfl⟩
  · rw [bfs, hheaders, hps]
    rfl
  · rw [List.map_cons, hbb, hmap]
  · intro q hq
    rcases List.mem_cons.mp hq with rfl | hq
    · exact hcomplete
    · exact hall q hq

theorem Work.deepen {t : LoopNestingTree} {work : List Nat} (d : Nat) (h : Work t work) : Work (t.deepen d) work :=
  ⟨h.nodup, h.node⟩

theorem Parsed.deepen {fuel h : Nat} {work hs : List Nat} {t t' : LoopNestingTree}
    (hp : Parsed LI fuel work (h :: hs) (t.deepen (LI.getLoopDepth h)) t') : Parsed LI fuel work (h :: hs) t t' := by
  refine ⟨hp.length, hp.root, ?_, hp.kept, hp.named, hp.order⟩
  have hmax : max (t.deepen (LI.getLoopDepth h)).depth (LI.getLoopDepth h) = max t.depth (LI.getLoopDepth h) := by
    simp only [LoopNestingTree.deepen]
    split <;> omega
  rw [hp.depth, List.foldl_cons, List.foldl_cons, hmax]

/-- Parsing follows the breadth-first traversal of the loop headers. -/
theorem parseHeaders_spec : ∀ (fuel : Nat) (t : LoopNestingTree) (work hs : List Nat), Work t work →
    bfs (nested LI) fuel (work.map fun p => (t.node p).bb) = some hs → (∀ h ∈ hs, (LI.get h).isSome) →
      ∃ t', parseHeaders LI fuel (t, work) = some t' ∧ Parsed LI fuel work hs t t' := by
  intro fuel
  induction fuel with
  | zero =>
    intro t work hs hw hbfs _
    cases work with
    | nil =>
      cases hbfs
      exact ⟨t, rfl, Parsed.refl 0 t⟩
    | cons p work => cases hbfs
  | succ fuel ih =>
    intro t work hs hw hbfs hloops
    cases work with
    | nil =>
      cases hbfs
      exact ⟨t, rfl, Parsed.refl _ t⟩
    | cons p work =>
      obtain ⟨_, ys, hf, hys, rfl⟩ := bfs_cons hbfs
      cases hf
      obtain ⟨loop, hloop⟩ := Option.isSome_iff_exists.mp (hloops (t.node p).bb (by simp))
      have hkids : kids LI (t.node p).bb = loop.blocks.filterMap (kid LI (LI.getLoopDepth (t.node p).bb)) := by
        simp only [kids, hloop]
      have hw' := hw.deepen (LI.getLoopDepth (t.node p).bb)
      obtain ⟨s, work', hs⟩ : ∃ s work', (kids LI (t.node p).bb).foldl (addKid p)
          (t.deepen (LI.getLoopDepth (t.node p).bb), work) = (s, work') := ⟨_, _, rfl⟩
      have hg : Grown p (kids LI (t.node p).bb) (t.deepen (LI.getLoopDepth (t.node p).bb), work) (s, work') :=
        hs ▸ addKids_grown _ _ (hw.node p (by simp)).1
      obtain ⟨t', ht', hp⟩ := ih s work' ys (hw'.next hg) (by rw [hw'.queue hg]; exact hys) fun h hh => hloops h (by simp [hh])
      refine ⟨t', ?_, (hp.step hw' ?_ hg).deepen⟩
      · rw [parseHeaders, hloop]
        simp only [Option.bind_eq_bind, Option.bind_some]
        rw [foldl_parseBlock, ← hkids, hs]
        exact ht'
      · simp only [LoopNestingTree.deepen]
        split
        · exact Nat.le_refl _
        · rename_i h
          exact Nat.le_of_not_lt h

/-! ## The tree -/

section Tree

variable {t : LoopNestingTree} {ps hs : List Nat}

/-- A tree whose iterator goes through the headers `hs`, all of them with their children. -/
structure Built (LI : LoopInfo) (hs : List Nat) (t : LoopNestingTree) (ps : List Nat) : Prop where
  nodes : t.loopNodes = some ps
  headers : ps.map (fun p => (t.node p).bb) = hs
  complete : ∀ p ∈ ps, CompleteNode LI t p
  root_mem : t.root ∈ ps
  closed : ∀ p ∈ ps, ∀ c ∈ t.nestedHeaders p, c ∈ ps

/-- The constructor returns, and the iterator goes through its worklist. -/
theorem LoopNestingTree.new_spec {SCC : List Nat} {front : Nat} {loop : Loop} (hfront : SCC.head? = some front)
    (hget : LI.get front = some loop)
    (hbfs : bfs (nested LI) LI.loops.length [(LI.outermost loop.depth loop).header] = some hs) (hnd : hs.Nodup)
    (hloops : ∀ h ∈ hs, (LI.get h).isSome) :
    ∃ t ps, LoopNestingTree.new LI SCC = some t ∧ Built LI hs t ps ∧ (t.node t.root).bb = (LI.outermost loop.depth loop).header ∧
      t.depth = hs.foldl (fun d h => max d (LI.getLoopDepth h)) 1 := by
  have hw : Work ⟨[.new (LI.outermost loop.depth loop).header none true], 1, 1, 0⟩ [0] := by
    refine ⟨by simp, ?_⟩
    intro p hp
    obtain rfl := List.mem_singleton.mp hp
    exact ⟨by simp, rfl, rfl⟩
  obtain ⟨t, ht, hp⟩ := parseHeaders_spec LI.loops.length _ [0] hs hw hbfs hloops
  obtain ⟨ps, hps, hmap, hall⟩ := hp.order
  have hroot : t.root = 0 := hp.root
  obtain ⟨hc1, hc2⟩ := bfs_closed hps
  -- the nodes visited are distinct places of the node list
  have hlen : ps.length ≤ t.nodes.length := by
    have hpnd : ps.Nodup := List.Nodup.of_map _ (hmap ▸ hnd)
    have := (hpnd.subperm fun p hp => List.mem_range.mpr (hall p hp).valid).length_le
    rwa [List.length_range] at this
  refine ⟨t, ps, ?_, ⟨?_, hmap, hall, hroot ▸ hc1 0 (by simp), hc2⟩, ?_, hp.depth⟩
  · rw [LoopNestingTree.new, hfront]
    simp only [Option.bind_eq_bind, Option.bind_some, hget]
    exact ht
  · rw [LoopNestingTree.loopNodes, LoopNestingTree.loopBegin, t.walk_eq_bfs, hroot]
    exact bfs_fuel hps hlen
  · rw [hroot]
    exact congrArg Prod.fst (hp.named 0 (by simp)).1

/-- The tree below a node. -/
def LoopNestingTree.read (t : LoopNestingTree) : Nat → Nat → Node
  | 0, p => .mk (t.node p).bb (t.node p).isLoopHeader []
  | fuel + 1, p => .mk (t.node p).bb (t.node p).isLoopHeader ((t.node p).children.map (t.read fuel))

theorem headerNode_kids (fuel h : Nat) : headerNode LI (fuel + 1) h =
    .mk h true ((kids LI h).map fun k => if k.2 then headerNode LI fuel k.1 else .mk k.1 false []) := by
  rw [headerNode, kids]
  cases LI.get h with
  | none => rfl
  | some loop =>
    simp only [List.map_filterMap, kid]
    congr 2
    funext bb
    split
    · rfl
    · split <;> rfl

theorem Built.read_header (h : Built LI hs t ps) : ∀ (fuel p : Nat), p ∈ ps →
    t.read fuel p = headerNode LI fuel (t.node p).bb := by
  intro fuel
  induction fuel with
  | zero =>
    intro p hp
    simp [LoopNestingTree.read, headerNode, (h.complete p hp).header]
  | succ fuel ih =>
    intro p hp
    have hc := h.complete p hp
    rw [LoopNestingTree.read, headerNode_kids, ← hc.entries, List.map_map, hc.header]
    congr 1
    refine List.map_congr_left fun c hcm => ?_
    rw [Function.comp_apply]
    by_cases hh : (t.entry c).2 = true
    · rw [if_pos hh]
      exact ih c (h.closed p hp c (List.mem_filter.mpr ⟨hcm, hh⟩))
    · rw [if_neg hh]
      have hreg : (t.node c).isLoopHeader = false := by simpa [LoopNestingTree.entry] using hh
      have hleaf := (hc.child c hcm).2.2 hreg
      cases fuel <;> simp [LoopNestingTree.read, LoopNestingTree.entry, hreg, hleaf]

end Tree

end Popcorn.Liveness
