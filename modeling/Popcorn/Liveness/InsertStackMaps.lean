/-
  Popcorn.Liveness.InsertStackMaps — the pass that records live values at calls
  (patches/llvm/src/lib/Transforms/Instrumentation/InsertStackMaps.cpp).

  Every call gets a stackmap whose operands are the values live after it and the values
  hidden behind them. The pass gathers both in sets ordered by address and copies them to
  one ordered by `ValueComp`: named values come first, by name, and unnamed ones after
  them, by address. A `Heap` is where the values of a module lie in one run.

  A function is as `removeOldStackmaps` leaves it: the stackmaps of an earlier run are gone
  when the live values are computed. The dominator tree is LLVM's.

  Proved:
  - `runOnFunction_isSome`: `getLiveValues` knows every block the traversal visits.
  - `sortedLive_members`: the operands of a call whose values have no name in common.
  - `sortedLive_eq`: they are the same on every heap when at most one is unnamed.
  - `operands_stable_iff`: every run gives the same operands, each value once, exactly when
    no two values of a call are both unnamed or have the same name.
  - `operands_depend_on_heap`: two unnamed values that are live across a call.
-/

import Mathlib.Data.Finset.Sort
import Mathlib.Data.List.Lex
import Mathlib.Data.Nat.Pairing
import Mathlib.Data.Sum.Order
import Mathlib.Logic.Equiv.Basic
import Popcorn.Lib.OrderedSet
import Popcorn.Liveness.Propagate

namespace Popcorn.Liveness

open Popcorn.Lib

/-! ## Functions -/

/-- The instructions the pass tells apart, next to the comparisons of `InstClass`. -/
inductive Opcode where
  | call (isInlineAsm isIntrinsic : Bool)
  | extractElement
  | insertElement
  | extractValue
  | insertValue
  | getElementPtr
  | other
  deriving DecidableEq, Repr

/-- The bytes of a name, in the order `StringRef::compare` has on them. -/
abbrev Name := List (Fin 256)

structure IRFunction where
  body : Function
  opcode : Nat → Nat → Opcode
  name : Value → Option Name
  analyses : Analyses
  /-- `DominatorTree::dominates` of a value and an instruction. -/
  dominates : Value → Nat → Nat → Bool
  /-- The code generator has removed unreachable blocks, so the traversal visits all. -/
  visited : ∀ b < body.blocks.length, b ∈ analyses.po

/-- The addresses of the values of a module's functions. -/
structure Heap where
  addr : Nat → Value → Nat
  inj : ∀ f, Function.Injective (addr f)

/-! ## The pass -/

/-- The order of `std::set<const Value *>`. -/
def Heap.le (h : Heap) (f : Nat) (a b : Value) : Prop := h.addr f a ≤ h.addr f b

instance (h : Heap) (f : Nat) : DecidableRel (h.le f) := fun a b => inferInstanceAs (Decidable (h.addr f a ≤ h.addr f b))
instance (h : Heap) (f : Nat) : IsTrans Value (h.le f) := ⟨fun _ _ _ => Nat.le_trans⟩
instance (h : Heap) (f : Nat) : Std.Antisymm (h.le f) := ⟨fun _ _ h1 h2 => h.inj f (Nat.le_antisymm h1 h2)⟩
instance (h : Heap) (f : Nat) : Std.Total (h.le f) := ⟨fun a b => Nat.le_total (h.addr f a) (h.addr f b)⟩

/-- A walk over a set of pointers. -/
def Heap.iterate (h : Heap) (f : Nat) (s : Finset Value) : List Value := s.sort (h.le f)

namespace IRFunction

variable (fn : IRFunction)

def valueComp (addr : Value → Nat) (a b : Value) : Bool :=
  match fn.name a, fn.name b with
  | some x, some y => decide (x < y)
  | some _, none => true
  | none, some _ => false
  | none, none => decide (addr a < addr b)

def hidesValues (b i : Nat) : Bool :=
  (match fn.opcode b i with
    | .extractElement | .insertElement | .extractValue | .insertValue | .getElementPtr => true
    | .call _ _ | .other => false) ||
  (fn.body.block b).body[i]?.any fun inst => inst.cls == .cmp

/-- The instructions after the phis, in order. -/
def insts : List (Nat × Nat) :=
  (List.range fn.body.blocks.length).flatMap fun b => (List.range (fn.body.len b)).map fun i => (b, i)

/-- The operands `getHiddenVals` looks at. -/
def hiddenOperands : List Value :=
  (fn.insts.filter fun p => fn.hidesValues p.1 p.2).flatMap fun p => fn.body.operands p.1 p.2

def isInstruction : Value → Bool
  | .phi _ _ | .inst _ _ => true
  | _ => false

def isArgument : Value → Bool
  | .argument _ => true
  | _ => false

def hiddenInst : Finset Value := (fn.hiddenOperands.filter isInstruction).toFinset
def hiddenArgs : Finset Value := (fn.hiddenOperands.filter isArgument).toFinset

/-- The users of a value: the phis and instructions with it as an operand. -/
def users (v : Value) : List Value :=
  ((List.range fn.body.blocks.length).flatMap fun b =>
    ((List.range (fn.body.block b).phis.length).filter fun j =>
      (fn.body.block b).phis[j]?.any fun phi => phi.incoming.any fun p => p.1 == v).map (.phi b)) ++
  (fn.insts.filter fun p => (fn.body.operands p.1 p.2).contains v).map fun p => .inst p.1 p.2

def hasLiveUser (v : Value) (live : Finset Value) : Bool := (fn.users v).any fun u => decide (u ∈ live)

/-- The calls that get a stackmap. -/
def isInstrumented (b i : Nat) : Bool :=
  match fn.opcode b i with
  | .call isInlineAsm isIntrinsic => !isInlineAsm && !isIntrinsic
  | _ => false

def calls : List (Nat × Nat) := fn.insts.filter fun p => fn.isInstrumented p.1 p.2

variable (h : Heap) (f : Nat)

/-- `sortedLive` when the stackmap of the call `i` of block `b` is created. -/
def sortedLive (b i : Nat) (live : Finset Value) : List Value :=
  let lt := fn.valueComp (h.addr f)
  let s := insertAll lt [] (h.iterate f live)
  let s := (h.iterate f fn.hiddenInst).foldl
    (fun s v => if fn.dominates v b i && fn.hasLiveUser v live then setInsert lt v s else s) s
  (h.iterate f fn.hiddenArgs).foldl (fun s v => if fn.hasLiveUser v live then setInsert lt v s else s) s

end IRFunction

/-- A stackmap, and the call it follows. -/
structure StackMap where
  id : Nat
  block : Nat
  call : Nat
  operands : List Value
  deriving DecidableEq, Repr

/-- The stackmaps of a function; `none` where `getLiveValues` throws. -/
def insertStackMaps (o : Options) (noLiveVals : Bool) (h : Heap) (f : Nat) (fn : IRFunction) : Option (List StackMap) :=
  fn.calls.zipIdx.mapM fun ((b, i), callSiteID) =>
    if noLiveVals then some ⟨callSiteID, b, i, []⟩
    else do
      let live ← getLiveValues o fn.body fn.analyses b i
      some ⟨callSiteID, b, i, fn.sortedLive h f b i live⟩

/-- `InsertStackMaps::runOnModule`: the stackmaps of each function. A declaration has no calls. -/
def runOnModule (o : Options) (noLiveVals : Bool) (h : Heap) (M : List IRFunction) : Option (List (List StackMap)) :=
  M.zipIdx.mapM fun (fn, f) => insertStackMaps o noLiveVals h f fn

/-! ## What a stackmap records -/

/-- The values to be recorded at a call: those live after it, and the hidden values that
    dominate it and have a live user. -/
def IRFunction.IsRecorded (fn : IRFunction) (o : Options) (b i : Nat) (v : Value) : Prop :=
  ∃ live, getLiveValues o fn.body fn.analyses b i = some live ∧
    (v ∈ live ∨ (v ∈ fn.hiddenInst ∧ fn.dominates v b i = true ∧ fn.hasLiveUser v live = true) ∨
      (v ∈ fn.hiddenArgs ∧ fn.hasLiveUser v live = true))

/-- A function's stackmaps: one for each call in order, with every value to be recorded in it
    once and no others. -/
structure Complete (o : Options) (fn : IRFunction) (sms : List StackMap) : Prop where
  calls : sms.map (fun sm => (sm.block, sm.call)) = fn.calls
  nodup : ∀ sm ∈ sms, sm.operands.Nodup
  members : ∀ sm ∈ sms, ∀ v, v ∈ sm.operands ↔ fn.IsRecorded o sm.block sm.call v

/-- Every run of the pass gives the calls of a module the same complete stackmaps. -/
structure OperandsStable (o : Options) (M : List IRFunction) : Prop where
  runs : ∀ h h' : Heap, runOnModule o false h M = runOnModule o false h' M
  complete : ∀ h : Heap, ∃ out, runOnModule o false h M = some out ∧ List.Forall₂ (Complete o) M out

/-- No two values to be recorded at a call are both unnamed or have the same name. -/
def IRFunction.NamesApart (fn : IRFunction) (o : Options) : Prop :=
  ∀ p ∈ fn.calls, ∀ v w, fn.IsRecorded o p.1 p.2 v → fn.IsRecorded o p.1 p.2 w → fn.name v = fn.name w → v = w

/-! ## Every block has live values -/

theorem insertPair_isSome {m : LiveVals} {b c : Nat} {s : Finset Value} (h : c = b ∨ (m c).isSome = true) :
    (m.insertPair b s c).isSome = true := by
  unfold LiveVals.insertPair
  split
  · rename_i hb
    obtain rfl | h := h
    · exact hb
    · exact h
  · by_cases hcb : c = b
    · rw [hcb, Function.update_self]
      rfl
    · rw [Function.update_of_ne hcb]
      exact h.resolve_left hcb

theorem dagDFS_isSome {o : Options} {F : Function} {A : Analyses} {b : Nat} (hb : b ∈ A.po) :
    ((dagDFS o F A).2 b).isSome = true := by
  unfold dagDFS
  refine foldl_inv (P := fun done (st : LiveVals × LiveVals) => b ∈ done → (st.2 b).isSome = true) A.po ?_ ?_ hb
  · intro h
    cases h
  · intro done x rest st _ ih hmem
    obtain h | h := List.mem_append.mp hmem
    · exact insertPair_isSome (.inr (ih h))
    · exact insertPair_isSome (.inl (List.mem_singleton.mp h))

theorem propagateValues_isSome {o : Options} {F : Function} {b : Nat} {sets : LiveVals × LiveVals} (tree : Node)
    (h : (sets.2 b).isSome = true) : ((propagateValues o F sets tree).2 b).isSome = true := by
  unfold propagateValues
  refine foldl_inv (P := fun _ (st : (LiveVals × LiveVals) × Finset Value) => (st.1.2 b).isSome = true) tree.loopNodes h ?_
  intro _ n _ st _ ih
  exact (mem_propagateNode (v := .argument 0) st n).2.2 ih

theorem runOnFunction_isSome {o : Options} {F : Function} {A : Analyses} {b : Nat} (hb : b ∈ A.po) :
    ((runOnFunction o F A).2 b).isSome = true := by
  unfold runOnFunction
  refine foldl_inv (P := fun _ (sets : LiveVals × LiveVals) => (sets.2 b).isSome = true) (loopNestingForest A) (dagDFS_isSome hb) ?_
  intro _ tree _ sets _ ih
  exact propagateValues_isSome tree ih

namespace IRFunction

variable {fn : IRFunction} {o : Options} {h h' : Heap} {f b i : Nat}

theorem mem_insts {p : Nat × Nat} (hp : p ∈ fn.insts) : p.1 < fn.body.blocks.length := by
  unfold insts at hp
  simp only [List.mem_flatMap, List.mem_map, List.mem_range] at hp
  obtain ⟨b, hb, i, -, rfl⟩ := hp
  exact hb

/-- The live values after a call. -/
def callLive (fn : IRFunction) (o : Options) (p : Nat × Nat) : Finset Value := (getLiveValues o fn.body fn.analyses p.1 p.2).getD ∅

theorem getLiveValues_call {p : Nat × Nat} (hp : p ∈ fn.calls) :
    getLiveValues o fn.body fn.analyses p.1 p.2 = some (fn.callLive o p) := by
  have hb := fn.visited p.1 (mem_insts (List.mem_filter.mp hp).1)
  obtain ⟨s, hs⟩ := Option.isSome_iff_exists.mp (runOnFunction_isSome (o := o) (F := fn.body) hb)
  unfold callLive getLiveValues
  rw [hs]
  rfl

/-! ## The order of the operands -/

/-- What `ValueComp` compares: names come before addresses. -/
def key (fn : IRFunction) (addr : Value → Nat) (v : Value) : Name ⊕ₗ Nat :=
  match fn.name v with
  | some x => toLex (.inl x)
  | none => toLex (.inr (addr v))

theorem valueComp_iff (fn : IRFunction) (addr : Value → Nat) (a b : Value) :
    fn.valueComp addr a b = true ↔ fn.key addr a < fn.key addr b := by
  unfold valueComp key
  cases fn.name a <;> cases fn.name b
  · simp only [decide_eq_true_eq, Sum.Lex.inr_lt_inr_iff]
  · simp only [Bool.false_eq_true, Sum.Lex.not_inr_lt_inl]
  · simp only [Sum.Lex.inl_lt_inr]
  · simp only [decide_eq_true_eq, Sum.Lex.inl_lt_inl_iff]

/-- Two values with one key have one name, or one address. -/
theorem key_inj {addr : Value → Nat} {v w : Value} (hk : fn.key addr v = fn.key addr w) :
    fn.name v = fn.name w ∧ (fn.name v = none → addr v = addr w) := by
  unfold key at hk
  cases hv : fn.name v <;> cases hw : fn.name w <;> rw [hv, hw] at hk
  · simpa using hk
  · simp at hk
  · simp at hk
  · simpa using hk

/-- Everything the pass inserts into `sortedLive`, in order. -/
def gathered (fn : IRFunction) (h : Heap) (f b i : Nat) (live : Finset Value) : List Value :=
  h.iterate f live ++ (h.iterate f fn.hiddenInst).filter (fun v => fn.dominates v b i && fn.hasLiveUser v live) ++
    (h.iterate f fn.hiddenArgs).filter fun v => fn.hasLiveUser v live

theorem sortedLive_eq_insertAll (live : Finset Value) :
    fn.sortedLive h f b i live = insertAll (fn.valueComp (h.addr f)) [] (fn.gathered h f b i live) := by
  unfold sortedLive gathered insertAll
  rw [List.foldl_append, List.foldl_append, List.foldl_filter, List.foldl_filter]

theorem mem_gathered {p : Nat × Nat} (hp : p ∈ fn.calls) (v : Value) :
    v ∈ fn.gathered h f p.1 p.2 (fn.callLive o p) ↔ fn.IsRecorded o p.1 p.2 v := by
  unfold gathered IsRecorded Heap.iterate
  rw [getLiveValues_call hp]
  simp only [List.mem_append, List.mem_filter, Finset.mem_sort, Bool.and_eq_true, Option.some.injEq, exists_eq_left', or_assoc]

theorem sortedLive_inOrder (live : Finset Value) :
    InOrder (fn.valueComp (h.addr f)) (fn.sortedLive h f b i live) := by
  rw [sortedLive_eq_insertAll]
  exact insertAll_inOrder (valueComp_iff fn _) List.Pairwise.nil _

/-- Every value to be recorded is an operand, where no two of them have the same name. -/
theorem sortedLive_members {p : Nat × Nat} (hp : p ∈ fn.calls) (hn : ∀ v w, fn.IsRecorded o p.1 p.2 v →
    fn.IsRecorded o p.1 p.2 w → fn.name v = fn.name w → fn.name v ≠ none → v = w) (v : Value) :
    v ∈ fn.sortedLive h f p.1 p.2 (fn.callLive o p) ↔ fn.IsRecorded o p.1 p.2 v := by
  rw [sortedLive_eq_insertAll, insertAll_members (valueComp_iff fn _), mem_gathered hp]
  · simp
  · intro v hv w hw hk
    rw [List.nil_append, mem_gathered hp] at hv hw
    obtain ⟨hname, haddr⟩ := key_inj hk
    by_cases hnone : fn.name v = none
    · exact h.inj f (haddr hnone)
    · exact hn v w hv hw hname hnone

theorem NamesApart.members (hn : fn.NamesApart o) {p : Nat × Nat} (hp : p ∈ fn.calls) (v : Value) :
    v ∈ fn.sortedLive h f p.1 p.2 (fn.callLive o p) ↔ fn.IsRecorded o p.1 p.2 v :=
  sortedLive_members hp (fun v w hv hw hname _ => hn p hp v w hv hw hname) v

/-- With names apart, the operands do not depend on the heap. -/
theorem sortedLive_eq (hn : fn.NamesApart o) {p : Nat × Nat} (hp : p ∈ fn.calls) :
    fn.sortedLive h f p.1 p.2 (fn.callLive o p) = fn.sortedLive h' f p.1 p.2 (fn.callLive o p) := by
  apply sorted_ext (valueComp_iff fn _) (sortedLive_inOrder _) (sortedLive_inOrder _)
  · intro v hv w hw hlt
    rw [hn.members hp] at hv hw
    unfold valueComp at hlt ⊢
    cases hnv : fn.name v <;> cases hnw : fn.name w <;> rw [hnv, hnw] at hlt
    · -- the only unnamed value is not below itself
      rw [hn p hp v w hv hw (hnv.trans hnw.symm)] at hlt
      simp at hlt
    all_goals exact hlt
  · intro v
    rw [hn.members hp, hn.members hp]

/-- The stackmap of a call with the given ID. -/
def stackMap (fn : IRFunction) (o : Options) (h : Heap) (f : Nat) (q : (Nat × Nat) × Nat) : StackMap :=
  ⟨q.2, q.1.1, q.1.2, fn.sortedLive h f q.1.1 q.1.2 (fn.callLive o q.1)⟩

theorem mem_calls_of_zipIdx {q : (Nat × Nat) × Nat} (hq : q ∈ fn.calls.zipIdx) : q.1 ∈ fn.calls :=
  List.fst_mem_of_mem_zipIdx hq

end IRFunction

/-! ## The runs of the pass -/

section
variable {o : Options} {M : List IRFunction}

/-- The stackmaps of a function in a run. -/
def stackMaps (o : Options) (h : Heap) (q : IRFunction × Nat) : List StackMap := q.1.calls.zipIdx.map (q.1.stackMap o h q.2)

theorem insertStackMaps_eq (h : Heap) (q : IRFunction × Nat) : insertStackMaps o false h q.2 q.1 = some (stackMaps o h q) := by
  apply mapM_some
  intro c hc
  simp only [Bool.false_eq_true, if_false]
  rw [IRFunction.getLiveValues_call (IRFunction.mem_calls_of_zipIdx hc)]
  rfl

/-- The pass never throws. -/
theorem runOnModule_eq (h : Heap) : runOnModule o false h M = some (M.zipIdx.map (stackMaps o h)) := by
  apply mapM_some
  intro q _
  exact insertStackMaps_eq h q

theorem stackMaps_complete {fn : IRFunction} (hn : fn.NamesApart o) (h : Heap) (f : Nat) :
    Complete o fn (stackMaps o h (fn, f)) := by
  constructor
  · unfold stackMaps
    rw [List.map_map]
    exact List.zipIdx_map_fst 0 fn.calls
  · intro sm hsm
    obtain ⟨q, -, rfl⟩ := List.mem_map.mp hsm
    exact (IRFunction.sortedLive_inOrder _).nodup (fn.valueComp_iff _)
  · intro sm hsm
    obtain ⟨q, hq, rfl⟩ := List.mem_map.mp hsm
    exact hn.members (IRFunction.mem_calls_of_zipIdx hq)

theorem stackMaps_eq {fn : IRFunction} (hn : fn.NamesApart o) (h h' : Heap) (f : Nat) :
    stackMaps o h (fn, f) = stackMaps o h' (fn, f) := by
  apply List.map_congr_left
  intro q hq
  unfold IRFunction.stackMap
  rw [IRFunction.sortedLive_eq hn (IRFunction.mem_calls_of_zipIdx hq)]

theorem namesApart_stable (hn : ∀ fn ∈ M, fn.NamesApart o) : OperandsStable o M := by
  constructor
  · intro h h'
    rw [runOnModule_eq, runOnModule_eq]
    congr 1
    apply List.map_congr_left
    intro q hq
    exact stackMaps_eq (hn q.1 (List.fst_mem_of_mem_zipIdx hq)) h h' q.2
  · intro h
    refine ⟨_, runOnModule_eq h, ?_⟩
    have hfst : List.Forall₂ (Complete o) (M.zipIdx.map Prod.fst) (M.zipIdx.map (stackMaps o h)) := by
      rw [List.forall₂_map_left_iff, List.forall₂_map_right_iff, List.forall₂_same]
      intro q hq
      exact stackMaps_complete (hn q.1 (List.fst_mem_of_mem_zipIdx hq)) h q.2
    rwa [List.zipIdx_map_fst] at hfst

theorem zipIdx_stackMaps {fn : IRFunction} {f : Nat} (hf : M[f]? = some fn) (h : Heap) :
    (M.zipIdx.map (stackMaps o h))[f]? = some (stackMaps o h (fn, f)) := by
  rw [List.getElem?_map, List.getElem?_zipIdx, hf, Nat.zero_add]
  rfl

theorem stackMaps_call {fn : IRFunction} {p : Nat × Nat} {j : Nat} (hj : fn.calls[j]? = some p) (h : Heap) (f : Nat) :
    (stackMaps o h (fn, f))[j]? = some (fn.stackMap o h f (p, j)) := by
  unfold stackMaps
  rw [List.getElem?_map, List.getElem?_zipIdx, hj, Nat.zero_add]
  rfl

/-- Two runs with the same stackmaps have the same operands at a call. -/
theorem sortedLive_of_run_eq {h h' : Heap} (hrun : runOnModule o false h M = runOnModule o false h' M) {fn : IRFunction} {f : Nat}
    (hf : M[f]? = some fn) {p : Nat × Nat} (hp : p ∈ fn.calls) :
    fn.sortedLive h f p.1 p.2 (fn.callLive o p) = fn.sortedLive h' f p.1 p.2 (fn.callLive o p) := by
  obtain ⟨j, hj⟩ := List.getElem?_of_mem hp
  rw [runOnModule_eq, runOnModule_eq, Option.some.injEq] at hrun
  have hfun := zipIdx_stackMaps (o := o) hf h
  rw [hrun, zipIdx_stackMaps hf h', Option.some.injEq] at hfun
  have hsm := stackMaps_call (o := o) hj h f
  rw [← hfun, stackMaps_call hj h' f, Option.some.injEq] at hsm
  exact (congrArg StackMap.operands hsm).symm

/-- Complete stackmaps have the values to be recorded at a call as its operands. -/
theorem OperandsStable.members (hs : OperandsStable o M) {fn : IRFunction} {f : Nat} (hf : M[f]? = some fn) {p : Nat × Nat}
    (hp : p ∈ fn.calls) (h : Heap) (v : Value) :
    v ∈ fn.sortedLive h f p.1 p.2 (fn.callLive o p) ↔ fn.IsRecorded o p.1 p.2 v := by
  obtain ⟨j, hj⟩ := List.getElem?_of_mem hp
  obtain ⟨out, hout, hall⟩ := hs.complete h
  rw [runOnModule_eq] at hout
  cases hout
  have hc : Complete o fn (stackMaps o h (fn, f)) := by
    obtain ⟨-, hget⟩ := List.forall₂_iff_get.mp hall
    obtain ⟨h1, hfn⟩ := List.getElem?_eq_some_iff.mp hf
    obtain ⟨h2, hsm⟩ := List.getElem?_eq_some_iff.mp (zipIdx_stackMaps (o := o) hf h)
    have := hget f h1 h2
    rwa [List.get_eq_getElem, List.get_eq_getElem, hfn, hsm] at this
  exact hc.members _ (List.mem_of_getElem? (stackMaps_call hj h f)) v

/-! ## Two heaps -/

/-- A heap with the addresses of two values exchanged. -/
def Heap.swap (h : Heap) (v w : Value) : Heap where
  addr f u := h.addr f (Equiv.swap v w u)
  inj f := (h.inj f).comp (Equiv.swap v w).injective

def packedAddr : Value → Nat
  | .argument n => 7 * n
  | .phi b i => 7 * Nat.pair b i + 1
  | .inst b i => 7 * Nat.pair b i + 2
  | .basicBlock n => 7 * n + 3
  | .inlineAsm n => 7 * n + 4
  | .constant n => 7 * n + 5
  | .metadata n => 7 * n + 6

/-- A heap: one address for each value. -/
def Heap.packed : Heap where
  addr _ := packedAddr
  inj _ := by
    intro a b hab
    have hpair : ∀ {b i b' i' : Nat} {k : Nat}, 7 * Nat.pair b i + k = 7 * Nat.pair b' i' + k → b = b' ∧ i = i' := by
      intro b i b' i' k h
      exact Nat.pair_eq_pair.mp (by omega)
    cases a <;> cases b <;> simp only [packedAddr] at hab <;>
      first | omega | (congr 1; omega) | (obtain ⟨rfl, rfl⟩ := hpair hab; rfl)

/-- Two unnamed operands change places when their addresses do. -/
theorem IRFunction.sortedLive_swap {fn : IRFunction} {h : Heap} {f b i : Nat} {live : Finset Value} {v w : Value}
    (hnv : fn.name v = none) (hnw : fn.name w = none) (hv : v ∈ fn.sortedLive h f b i live) (hw : w ∈ fn.sortedLive h f b i live)
    (heq : fn.sortedLive h f b i live = fn.sortedLive (h.swap v w) f b i live) : v = w := by
  by_contra hne
  have hswap : InOrder (fn.valueComp ((h.swap v w).addr f)) (fn.sortedLive h f b i live) := by
    rw [heq]
    exact sortedLive_inOrder live
  have hagree := (sortedLive_inOrder live).agree hswap hv hw hne
  simp only [valueComp, hnv, hnw, Heap.swap, Equiv.swap_apply_left, Equiv.swap_apply_right, decide_eq_true_eq] at hagree
  omega

theorem OperandsStable.namesApart (hs : OperandsStable o M) {fn : IRFunction} (hfn : fn ∈ M) : fn.NamesApart o := by
  intro p hp v w hv hw hname
  obtain ⟨f, hf⟩ := List.getElem?_of_mem hfn
  have hv' := (hs.members hf hp Heap.packed v).mpr hv
  have hw' := (hs.members hf hp Heap.packed w).mpr hw
  cases hnv : fn.name v with
  | some x =>
    -- the set keeps one of two values with the same name
    have hk : fn.key (Heap.packed.addr f) v = fn.key (Heap.packed.addr f) w := by
      unfold IRFunction.key
      rw [← hname, hnv]
    exact (IRFunction.sortedLive_inOrder _).key_inj (fn.valueComp_iff _) hv' hw' hk
  | none => exact IRFunction.sortedLive_swap hnv (hname.symm.trans hnv) hv' hw' (sortedLive_of_run_eq (hs.runs _ _) hf hp)

/-- Every run of InsertStackMaps on a module gives each call the same operands, with each
    live and each qualifying hidden value once, exactly when at every call no two of these
    values are both unnamed or have the same name. -/
theorem operands_stable_iff (o : Options) (M : List IRFunction) :
    OperandsStable o M ↔ ∀ fn ∈ M, fn.NamesApart o :=
  ⟨fun hs _ hfn => hs.namesApart hfn, namesApart_stable⟩

end

/-! ## Two temporaries -/

/-- `define @f(%a, %b) { %0 = ..%a; %1 = ..%b; call @g(); use %0, %1 }`. -/
def tempsFunction : IRFunction where
  body := ⟨[⟨[], [⟨.other, [.argument 0]⟩, ⟨.other, [.argument 1]⟩, ⟨.other, []⟩, ⟨.other, [.inst 0 0, .inst 0 1]⟩], [], by decide⟩]⟩
  opcode _ i := if i = 2 then .call false false else .other
  name v := if v = .argument 0 then some [97] else if v = .argument 1 then some [98] else none
  analyses := ⟨[], [0], [[0]], ⟨[], fun _ => none⟩⟩
  dominates v _ i :=
    match v with
    | .argument _ => true
    | .inst _ j => decide (j < i)
    | _ => false
  visited b hb := by
    obtain rfl : b = 0 := Nat.lt_one_iff.mp hb
    decide

theorem temps_live : getLiveValues {} tempsFunction.body tempsFunction.analyses 0 2 = some {.inst 0 0, .inst 0 1} := by decide

/-- With the addresses of `%0` and `%1` exchanged, the pass orders them the other way. -/
theorem operands_depend_on_heap : runOnModule {} false Heap.packed [tempsFunction] ≠
    runOnModule {} false (Heap.packed.swap (.inst 0 0) (.inst 0 1)) [tempsFunction] := by
  intro hrun
  have hp : ((0, 2) : Nat × Nat) ∈ tempsFunction.calls := by decide
  have heq := sortedLive_of_run_eq (f := 0) hrun rfl hp
  have hnames : ∀ v w, tempsFunction.name v = tempsFunction.name w → tempsFunction.name v ≠ none → v = w := by
    intro v w
    unfold tempsFunction
    dsimp only
    split_ifs <;> simp_all
  have hmem : ∀ v ∈ ({.inst 0 0, .inst 0 1} : Finset Value),
      v ∈ tempsFunction.sortedLive Heap.packed 0 0 2 (tempsFunction.callLive {} (0, 2)) := by
    intro v hv
    exact (IRFunction.sortedLive_members hp (fun v w _ _ => hnames v w) v).mpr ⟨_, temps_live, .inl hv⟩
  have := IRFunction.sortedLive_swap rfl rfl (hmem (.inst 0 0) (by decide)) (hmem (.inst 0 1) (by decide)) heq
  exact absurd this (by decide)

end Popcorn.Liveness
