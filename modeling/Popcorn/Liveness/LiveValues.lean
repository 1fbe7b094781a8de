/-
  Popcorn.Liveness.LiveValues — the live-value analysis
  (patches/llvm/src/lib/Analysis/LiveValues.cpp, LoopNestingTree.cpp).

  A function is a list of blocks, the first the entry; a block is its phi nodes, its
  other instructions (the last is the terminator) and its successors. An instruction's
  value is named by its place, so each value has one definition.

  `dagDFS` visits the blocks in post-order and computes partial live-in and live-out
  sets, ignoring back edges and the phi uses of self-loop edges. `propagateValues`
  walks a loop-nesting tree breadth first and adds what is live into a loop header,
  less the phis collected so far, to every child of its node. `getLiveValues` scans a
  block backwards from its live-out set.

  FindFunctionBackedges, po_iterator, scc_iterator and LoopInfo are LLVM's: their
  results are the fields of `Analyses`. The tree's node list is built from a worklist
  in C++, which fixes only the order the nodes are allocated in.
-/

import Mathlib.Data.Finset.Basic
import Mathlib.Data.Finset.Image

namespace Popcorn.Liveness

/-! ## Functions -/

/-- `llvm::Value`, with an instruction named by its block and place. -/
inductive Value where
  | argument (n : Nat)
  | phi (b i : Nat)
  | inst (b i : Nat)
  | basicBlock (n : Nat)
  | inlineAsm (n : Nat)
  | constant (n : Nat)
  | metadata (n : Nat)
  deriving DecidableEq, Repr

/-- The instruction classes `includeVal` tells apart. -/
inductive InstClass where
  | bitCast
  | cmp
  | other
  deriving DecidableEq, Repr

structure Inst where
  cls : InstClass
  operands : List Value
  deriving Repr

structure PHINode where
  incoming : List (Value × Nat)
  deriving Repr

/-- Phi nodes come first in a block, and a block has a terminator. -/
structure BasicBlock where
  phis : List PHINode
  body : List Inst
  succs : List Nat
  body_ne : body ≠ []

theorem terminator_ne_nil : [(⟨.other, []⟩ : Inst)] ≠ [] := by decide

instance : Inhabited BasicBlock := ⟨⟨[], [⟨.other, []⟩], [], terminator_ne_nil⟩⟩

structure Function where
  blocks : List BasicBlock

def Function.block (F : Function) (b : Nat) : BasicBlock := F.blocks.getD b default

/-- The number of instructions after the phis. -/
def Function.len (F : Function) (b : Nat) : Nat := (F.block b).body.length

def Function.operands (F : Function) (b i : Nat) : List Value := ((F.block b).body[i]?.map (·.operands)).getD []

/-- The values the phis of `s` take from `b`. -/
def Function.phiOperands (F : Function) (b s : Nat) : List Value :=
  (F.block s).phis.flatMap fun phi => (phi.incoming.filter (·.2 == b)).map (·.1)

def Function.phiValues (F : Function) (b : Nat) : List Value := (List.range (F.block b).phis.length).map (.phi b)

/-- The analysis's flags, and their defaults. -/
structure Options where
  inlineasm : Bool := false
  bitcasts : Bool := false
  comparisons : Bool := true
  constants : Bool := false
  metadata : Bool := false
  deriving Repr

def includeVal (o : Options) (F : Function) : Value → Bool
  | .basicBlock _ => false
  | .inlineAsm _ => o.inlineasm
  | .inst b i =>
    match (F.block b).body[i]? with
    | some ⟨.bitCast, _⟩ => o.bitcasts
    | some ⟨.cmp, _⟩ => o.comparisons
    | _ => true
  | .constant _ => o.constants
  | .metadata _ => o.metadata
  | .argument _ => true
  | .phi _ _ => true

/-! ## Loop-nesting trees -/

structure Loop where
  header : Nat
  /-- `block_begin()` to `block_end()`; the header comes first. -/
  blocks : List Nat
  depth : Nat
  parent : Option Nat
  deriving Repr

structure LoopInfo where
  loops : List Loop
  /-- The innermost loop of a block. -/
  loopFor : Nat → Option Nat

/-- `LI[bb]`. -/
def LoopInfo.get (LI : LoopInfo) (bb : Nat) : Option Loop := (LI.loopFor bb).bind fun i => LI.loops[i]?

def LoopInfo.getLoopDepth (LI : LoopInfo) (bb : Nat) : Nat :=
  match LI.get bb with
  | some loop => loop.depth
  | none => 0

def LoopInfo.isLoopHeader (LI : LoopInfo) (bb : Nat) : Bool :=
  match LI.get bb with
  | some loop => loop.header == bb
  | none => false

/-- `while(loop->getLoopDepth() > 1) loop = loop->getParentLoop()`; the depth goes down
    by one each time. -/
def LoopInfo.outermost (LI : LoopInfo) : Nat → Loop → Loop
  | 0, loop => loop
  | fuel + 1, loop =>
    if loop.depth > 1 then
      match loop.parent.bind fun i => LI.loops[i]? with
      | some p => LI.outermost fuel p
      | none => loop
    else loop

inductive Node where
  | mk (bb : Nat) (isLoopHeader : Bool) (children : List Node)

def Node.bb : Node → Nat
  | .mk bb _ _ => bb

def Node.isLoopHeader : Node → Bool
  | .mk _ h _ => h

def Node.children : Node → List Node
  | .mk _ _ cs => cs

mutual
def Node.size : Node → Nat
  | .mk _ _ cs => Node.sizes cs + 1
def Node.sizes : List Node → Nat
  | [] => 0
  | n :: ns => n.size + Node.sizes ns
end

/-- A loop header's node. The block iterator starts at the header itself
    (`block_begin()++` returns its old value), so the header is its own first child.
    A nested loop is one deeper, so the number of loops bounds the recursion. -/
def headerNode (LI : LoopInfo) : Nat → Nat → Node
  | 0, h => .mk h true []
  | fuel + 1, h =>
    match LI.get h with
    | none => .mk h true []
    | some loop =>
      let depth := LI.getLoopDepth h
      .mk h true (loop.blocks.filterMap fun bb =>
        let nodeDepth := LI.getLoopDepth bb
        if nodeDepth = depth then some (.mk bb false [])
        else if nodeDepth = depth + 1 ∧ LI.isLoopHeader bb then some (headerNode LI fuel bb)
        else none)

/-- `LoopNestingTree::LoopNestingTree` for the strongly-connected component that starts
    with `front`. -/
def loopNestingTree (LI : LoopInfo) (front : Nat) : Node :=
  match LI.get front with
  | none => .mk front true []
  | some loop => headerNode LI (LI.loops.length + 1) (LI.outermost loop.depth loop).header

/-- The loop iterator: breadth first, with the queue of headers still to visit. -/
def loopIterator : Nat → List Node → List Node
  | 0, _ => []
  | _, [] => []
  | fuel + 1, cur :: remaining => cur :: loopIterator fuel (remaining ++ cur.children.filter Node.isLoopHeader)

/-- The loop nodes of a tree, in the order `loop_begin()` to `loop_end()` gives them. -/
def Node.loopNodes (tree : Node) : List Node := loopIterator tree.size [tree]

/-! ## The analysis -/

/-- What LLVM's own analyses return for a function. -/
structure Analyses where
  /-- `FindFunctionBackedges`. -/
  backedges : List (Nat × Nat)
  /-- `po_iterator` from the entry block. -/
  po : List Nat
  /-- `scc_iterator`. -/
  sccs : List (List Nat)
  loopInfo : LoopInfo

/-- `std::map<const BasicBlock *, std::set<const Value *>>`. -/
abbrev LiveVals := Nat → Option (Finset Value)

/-- What `m[b]` refers to. -/
def LiveVals.get (m : LiveVals) (b : Nat) : Finset Value := (m b).getD ∅

/-- `m[b]` creates an empty set when there is none. -/
def LiveVals.touch (m : LiveVals) (b : Nat) : LiveVals := if (m b).isSome then m else Function.update m b (some ∅)

/-- `m.insert(pair(b, s))` keeps an existing entry. -/
def LiveVals.insertPair (m : LiveVals) (b : Nat) (s : Finset Value) : LiveVals :=
  if (m b).isSome then m else Function.update m b (some s)

/-- `m[b].insert(v)` for every `v` of `s`. -/
def LiveVals.insertAll (m : LiveVals) (b : Nat) (s : Finset Value) : LiveVals :=
  if s = ∅ then m else Function.update m b (some (m.get b ∪ s))

section Analysis

variable (o : Options) (F : Function)

def phiUses (B S : Nat) (uses : Finset Value) : Finset Value :=
  uses ∪ ((F.phiOperands B S).filter (includeVal o F)).toFinset

def phiDefs (B : Nat) (uses : Finset Value) : Finset Value := uses ∪ ((F.phiValues B).filter (includeVal o F)).toFinset

/-- One instruction of a backward scan. -/
def scanInst (b i : Nat) (live : Finset Value) : Finset Value :=
  live.erase (.inst b i) ∪ ((F.operands b i).filter (includeVal o F)).toFinset

/-- The backward scan over instructions `k + n - 1` down to `k`. -/
def scanBack (b k : Nat) : Nat → Finset Value → Finset Value
  | 0, live => live
  | n + 1, live => scanBack b k n (scanInst o F b (k + n) live)

/-- One successor in the computation of a block's live-out set. -/
def dagSuccessor (loopEdges : List (Nat × Nat)) (B : Nat) (st : LiveVals × Finset Value) (S : Nat) : LiveVals × Finset Value :=
  if S = B then st
  else
    let live := phiUses o F B S st.2
    if (B, S) ∈ loopEdges then (st.1, live)
    else
      let phiDefined := phiDefs o F S ∅
      (st.1.touch S, live ∪ (st.1.get S).filter fun v => v ∉ phiDefined ∧ includeVal o F v = true)

/-- One block of the post-order traversal. -/
def dagBlock (loopEdges : List (Nat × Nat)) (st : LiveVals × LiveVals) (B : Nat) : LiveVals × LiveVals :=
  let (liveIn, live) := (F.block B).succs.foldl (dagSuccessor o F loopEdges B) (st.1, ∅)
  let liveOut := st.2.insertPair B live
  let live := phiDefs o F B (scanBack o F B 0 (F.len B) live)
  (liveIn.insertPair B live, liveOut)

def dagDFS (A : Analyses) : LiveVals × LiveVals :=
  A.po.foldl (dagBlock o F A.backedges) (fun _ => none, fun _ => none)

/-- One loop node of `propagateValues`: the sets and the phis collected so far. -/
def propagateNode (st : (LiveVals × LiveVals) × Finset Value) (loop : Node) : (LiveVals × LiveVals) × Finset Value :=
  let phiDefined := phiDefs o F loop.bb st.2
  let liveLoop := (st.1.1.get loop.bb).filter fun v => v ∉ phiDefined ∧ includeVal o F v = true
  let sets := loop.children.foldl
    (fun (s : LiveVals × LiveVals) child => (s.1.insertAll child.bb liveLoop, s.2.insertAll child.bb liveLoop))
    (st.1.1.touch loop.bb, st.1.2)
  (sets, phiDefined)

def propagateValues (sets : LiveVals × LiveVals) (loopNest : Node) : LiveVals × LiveVals :=
  (loopNest.loopNodes.foldl (propagateNode o F) (sets, ∅)).1

/-- `constructLoopNestingForest`. -/
def loopNestingForest (A : Analyses) : List Node := A.sccs.filterMap fun scc => scc.head?.map (loopNestingTree A.loopInfo)

/-- `runOnFunction`: the live-in and live-out sets. -/
def runOnFunction (A : Analyses) : LiveVals × LiveVals :=
  (loopNestingForest A).foldl (propagateValues o F) (dagDFS o F A)

/-- `getLiveValues` of instruction `k` of block `b`; `none` is `at()`'s exception. -/
def getLiveValues (A : Analyses) (b k : Nat) : Option (Finset Value) :=
  ((runOnFunction o F A).2 b).map fun liveOut =>
    (scanBack o F b (k + 1) (F.len b - (k + 1)) liveOut).erase (.inst b k)

end Analysis

end Popcorn.Liveness
