/-
  Popcorn.Runtime.FixupList — the linked list of fixups
  (lib/stack_transformation/include/list.h, and the walks over it in src/rewrite.c).

  A node is a heap block with two links; `ListMem` is the heap and one list object. Any
  access through NULL or to a block that is not allocated faults. `malloc` and `free` are
  the allocation and release of a block: `list_add` takes the block `malloc` returned,
  which may be one freed before.

  `traverse` is the loop of the walks: at each node either `list_next`, or `list_remove`,
  whose result replaces the cursor.

  Proved:
  - `listAdd_shape`, `listRemove_shape`, `ListMem.Holds.clear`: what each operation does to
    the nodes of a well-formed list.
  - `list_well_formed`: after any sequence of operations the list is well formed, and a walk
    visits each node once and keeps those it does not remove.
  - `traverse_resolveFixups`: the walk over the list is the one over a plain list of fixups
    that the model of `rewrite_val` makes.
-/

import Mathlib.Data.Fintype.Card
import Popcorn.Lib.Linked
import Popcorn.Runtime.Rewrite

namespace Popcorn.Runtime

open Popcorn.Lib Popcorn.Metadata

/-! ## Model -/

/-- Addresses; NULL is 0. -/
abbrev Ptr := UInt64

/-- `node_t(type)`. -/
structure ListNode (δ : Type) where
  prev : Ptr
  next : Ptr
  data : δ
  deriving DecidableEq, Repr

/-- The heap and a `list_t(type)`. -/
structure ListMem (δ : Type) where
  heap : Ptr → Option (ListNode δ)
  size : UInt64
  head : Ptr
  tail : Ptr

section Operations

variable {δ : Type}

/-- `*p`. -/
def ListMem.node (m : ListMem δ) (p : Ptr) : Except Fault (ListNode δ) :=
  if p = 0 then .error .outOfBounds
  else
    match m.heap p with
    | some n => .ok n
    | none => .error .outOfBounds

/-- A write to the block at `p`. -/
def ListMem.write (m : ListMem δ) (p : Ptr) (f : ListNode δ → ListNode δ) : Except Fault (ListMem δ) := do
  let n ← m.node p
  pure { m with heap := Function.update m.heap p (some (f n)) }

/-- `list_init`. -/
def listInit (m : ListMem δ) : ListMem δ := { m with size := 0, head := 0, tail := 0 }

/-- The cases of `list_add`: the list is empty, or the node goes behind the last. -/
def listLink (m : ListMem δ) (node : Ptr) : Except Fault (ListMem δ) :=
  if m.head = 0 then ListMem.write { m with head := node, tail := node } node fun n => { n with prev := 0 }
  else do
    let m ← m.write m.tail fun n => { n with next := node }
    let m ← m.write node fun n => { n with prev := m.tail }
    pure { m with tail := node }

/-- `list_add`; `node` is what `malloc` returned, and `junk` the `prev` found in the block. -/
def listAdd (m : ListMem δ) (node junk : Ptr) (data : δ) : Except Fault (ListMem δ × Ptr) :=
  if node = 0 then .error .outOfBounds
  else do
    let m ← listLink { m with heap := Function.update m.heap node (some ⟨junk, 0, data⟩) } node
    pure ({ m with size := m.size + 1 }, node)

/-- The cases of `list_remove`: the only node, the head, the tail, one in the middle. -/
def listUnlink (m : ListMem δ) (node : Ptr) : Except Fault (ListMem δ) :=
  if m.size = 1 then pure { m with head := 0, tail := 0 }
  else if node = m.head then do
    let n ← m.node node
    let m := { m with head := n.next }
    m.write n.next fun n => { n with prev := 0 }
  else if node = m.tail then do
    let n ← m.node node
    let m := { m with tail := n.prev }
    m.write n.prev fun n => { n with next := 0 }
  else do
    let n ← m.node node
    let m ← m.write n.prev fun p => { p with next := n.next }
    let n ← m.node node
    m.write n.next fun q => { q with prev := n.prev }

/-- `list_remove`. -/
def listRemove (m : ListMem δ) (node : Ptr) : Except Fault (ListMem δ × Ptr) := do
  let m ← listUnlink m node
  let ret := (← m.node node).next
  pure ({ m with heap := Function.update m.heap node none, size := m.size - 1 }, ret)

/-- `list_clear`. -/
def listClear : Nat → ListMem δ → Except Fault (ListMem δ)
  | 0, m => if m.head = 0 then .ok m else .error .hang
  | fuel + 1, m =>
    if m.head = 0 then .ok m
    else do
      let (m, _) ← listRemove m m.head
      listClear fuel m

/-- `list_next`. -/
def listNext (m : ListMem δ) (node : Ptr) : Except Fault Ptr := return (← m.node node).next

/-- `while(fixup_node)`: `visit` looks at the node's data, may change the state of the loop
    and says whether the node is removed. Returns the nodes visited too. -/
def traverse {σ : Type} (visit : σ → δ → Except Fault (Bool × σ)) :
    Nat → Ptr → ListMem δ → σ → Except Fault (List Ptr × ListMem δ × σ)
  | 0, cursor, m, s => if cursor = 0 then .ok ([], m, s) else .error .hang
  | fuel + 1, cursor, m, s =>
    if cursor = 0 then .ok ([], m, s)
    else do
      let n ← m.node cursor
      let (removed, s) ← visit s n.data
      let (m, next) ←
        if removed then listRemove m cursor
        else do
          let next ← listNext m cursor
          pure (m, next)
      let (visited, m, s) ← traverse visit fuel next m s
      pure (cursor :: visited, m, s)

end Operations

/-! ## Links -/

section Links

variable {δ : Type} {heap : Ptr → Option (ListNode δ)} {p q y : Ptr}

def nextOf (heap : Ptr → Option (ListNode δ)) (p : Ptr) : Option Ptr := (heap p).map ListNode.next
def prevOf (heap : Ptr → Option (ListNode δ)) (p : Ptr) : Option Ptr := (heap p).map ListNode.prev
def dataOf (heap : Ptr → Option (ListNode δ)) (p : Ptr) : Option δ := (heap p).map ListNode.data

/-- Write one link of the node at `p`, where there is one. -/
def setNext (heap : Ptr → Option (ListNode δ)) (p v : Ptr) : Ptr → Option (ListNode δ) :=
  if p = 0 then heap else Function.update heap p ((heap p).map fun n => { n with next := v })
def setPrev (heap : Ptr → Option (ListNode δ)) (p v : Ptr) : Ptr → Option (ListNode δ) :=
  if p = 0 then heap else Function.update heap p ((heap p).map fun n => { n with prev := v })

theorem setNext_ne (v : Ptr) (h : p ≠ 0 → y ≠ p) : setNext heap p v y = heap y := by
  unfold setNext
  split
  · rfl
  · rename_i hp
    rw [Function.update_of_ne (h hp)]

theorem setPrev_ne (v : Ptr) (h : p ≠ 0 → y ≠ p) : setPrev heap p v y = heap y := by
  unfold setPrev
  split
  · rfl
  · rename_i hp
    rw [Function.update_of_ne (h hp)]

theorem nextOf_setNext (v : Ptr) (hp : p ≠ 0) (hn : ∃ n, heap p = some n) : nextOf (setNext heap p v) p = some v := by
  obtain ⟨n, hn⟩ := hn
  rw [nextOf, setNext, if_neg hp, Function.update_self, hn]
  rfl

theorem prevOf_setPrev (v : Ptr) (hp : p ≠ 0) (hn : ∃ n, heap p = some n) : prevOf (setPrev heap p v) p = some v := by
  obtain ⟨n, hn⟩ := hn
  rw [prevOf, setPrev, if_neg hp, Function.update_self, hn]
  rfl

theorem setNext_allocated (v : Ptr) (hn : ∃ n, heap y = some n) : ∃ n, setNext heap p v y = some n := by
  obtain ⟨n, hn⟩ := hn
  by_cases h : p ≠ 0 → y ≠ p
  · exact ⟨n, by rw [setNext_ne v h, hn]⟩
  · obtain ⟨hp, hy⟩ := Classical.not_imp.mp h
    rw [Decidable.not_not] at hy
    exact ⟨{ n with next := v }, by rw [setNext, if_neg hp, hy, Function.update_self, ← hy, hn]; rfl⟩

theorem nextOf_setNext_ne (v : Ptr) (h : y ≠ p) : nextOf (setNext heap p v) y = nextOf heap y := by
  rw [nextOf, setNext_ne v fun _ => h, nextOf]

theorem prevOf_setPrev_ne (v : Ptr) (h : y ≠ p) : prevOf (setPrev heap p v) y = prevOf heap y := by
  rw [prevOf, setPrev_ne v fun _ => h, prevOf]

/-- A write to one link keeps the other and the data. -/
theorem prevOf_setNext (v : Ptr) : prevOf (setNext heap p v) y = prevOf heap y := by
  unfold prevOf setNext
  split
  · rfl
  · by_cases h : y = p
    · rw [h, Function.update_self, Option.map_map]
      rfl
    · rw [Function.update_of_ne h]

theorem nextOf_setPrev (v : Ptr) : nextOf (setPrev heap p v) y = nextOf heap y := by
  unfold nextOf setPrev
  split
  · rfl
  · by_cases h : y = p
    · rw [h, Function.update_self, Option.map_map]
      rfl
    · rw [Function.update_of_ne h]

theorem dataOf_setNext (v : Ptr) : dataOf (setNext heap p v) y = dataOf heap y := by
  unfold dataOf setNext
  split
  · rfl
  · by_cases h : y = p
    · rw [h, Function.update_self, Option.map_map]
      rfl
    · rw [Function.update_of_ne h]

theorem dataOf_setPrev (v : Ptr) : dataOf (setPrev heap p v) y = dataOf heap y := by
  unfold dataOf setPrev
  split
  · rfl
  · by_cases h : y = p
    · rw [h, Function.update_self, Option.map_map]
      rfl
    · rw [Function.update_of_ne h]

/-- The other nodes, after one has been freed. -/
theorem nextOf_freed (h : y ≠ p) : nextOf (Function.update heap p none) y = nextOf heap y := by
  rw [nextOf, Function.update_of_ne h, nextOf]

theorem prevOf_freed (h : y ≠ p) : prevOf (Function.update heap p none) y = prevOf heap y := by
  rw [prevOf, Function.update_of_ne h, prevOf]

theorem dataOf_freed (h : y ≠ p) : dataOf (Function.update heap p none) y = dataOf heap y := by
  rw [dataOf, Function.update_of_ne h, dataOf]

variable {m : ListMem δ} {n : ListNode δ}

theorem node_ok (hp : p ≠ 0) (h : m.heap p = some n) : m.node p = .ok n := by
  unfold ListMem.node
  rw [if_neg hp, h]

theorem write_next (v : Ptr) (hp : p ≠ 0) (h : m.heap p = some n) :
    (m.write p fun n => { n with next := v }) = .ok { m with heap := setNext m.heap p v } := by
  unfold ListMem.write setNext
  rw [node_ok hp h, if_neg hp, h]
  rfl

theorem write_prev (v : Ptr) (hp : p ≠ 0) (h : m.heap p = some n) :
    (m.write p fun n => { n with prev := v }) = .ok { m with heap := setPrev m.heap p v } := by
  unfold ListMem.write setPrev
  rw [node_ok hp h, if_neg hp, h]
  rfl

end Links

/-! ## Well-formed lists -/

section Shapes

variable {δ : Type}

/-- Distinct addresses other than NULL. -/
theorem nodes_length_lt {xs : List Ptr} (hnd : xs.Nodup) (h0 : 0 ∉ xs) : xs.length < 18446744073709551616 := by
  have hall : ((0 :: xs).map UInt64.toFin).Nodup :=
    (List.nodup_cons.mpr ⟨h0, hnd⟩).map fun _ _ e => UInt64.toFin_inj.mp e
  have := hall.length_le_card
  rw [List.length_map, List.length_cons, Fintype.card_fin] at this
  exact this

/-- The list object and the heap hold a list with the nodes `xs`. -/
structure ListMem.Shape (m : ListMem δ) (xs : List Ptr) : Prop where
  nodup : xs.Nodup
  notNull : 0 ∉ xs
  linked : Linked 0 (prevOf m.heap) (nextOf m.heap) xs
  head : m.head = xs.headD 0
  tail : m.tail = xs.getLastD 0
  size : m.size.toNat = xs.length

namespace ListMem.Shape

variable {m : ListMem δ} {xs pre post : List Ptr} {x : Ptr}

theorem init (m : ListMem δ) : (listInit m).Shape [] where
  nodup := .nil
  notNull := by simp
  linked := by
    refine List.isChain_pair.mpr ⟨fun h => absurd rfl h, fun h => absurd rfl h⟩
  head := rfl
  tail := rfl
  size := rfl

/-- A node of the list, and what its links are. -/
theorem get (h : m.Shape (pre ++ x :: post)) : x ≠ 0 ∧ ∃ n, m.heap x = some n ∧ n.next = post.headD 0 ∧ n.prev = pre.getLastD 0 := by
  have hx : x ≠ 0 := fun e => h.notNull (e ▸ by simp)
  obtain ⟨h1, h2⟩ := h.linked.links hx
  obtain ⟨n, hn, hnext⟩ := Option.map_eq_some_iff.mp h1
  obtain ⟨n', hn', hprev⟩ := Option.map_eq_some_iff.mp h2
  rw [hn, Option.some.injEq] at hn'
  subst hn'
  exact ⟨hx, n, hn, hnext, hprev⟩

theorem mem (h : m.Shape xs) (hx : x ∈ xs) : x ≠ 0 ∧ ∃ n, m.heap x = some n := by
  obtain ⟨pre, post, rfl⟩ := List.append_of_mem hx
  obtain ⟨h0, n, hn, -, -⟩ := h.get
  exact ⟨h0, n, hn⟩

theorem length_lt (h : m.Shape xs) : xs.length < 18446744073709551616 := nodes_length_lt h.nodup h.notNull

theorem one_iff (h : m.Shape xs) : m.size = 1 ↔ xs.length = 1 := by
  rw [← UInt64.toNat_inj, h.size]
  rfl

theorem head_eq_iff (h : m.Shape (pre ++ x :: post)) : x = m.head ↔ pre = [] := by
  rw [h.head]
  cases pre with
  | nil => simp
  | cons y pre =>
    have hnd := (List.nodup_cons.mp h.nodup).1
    simp only [List.cons_append, List.headD_cons, reduceCtorEq, iff_false]
    rintro rfl
    exact hnd (by simp)

theorem tail_eq_iff (h : m.Shape (pre ++ x :: post)) : x = m.tail ↔ post = [] := by
  rw [h.tail]
  cases post using List.reverseRecOn with
  | nil => simp
  | append_singleton post y =>
    have hnd := (List.nodup_cons.mp (List.nodup_append.mp h.nodup).2.1).1
    rw [← List.cons_append, ← List.append_assoc, List.getLastD_concat]
    simp only [List.append_eq_nil_iff, List.cons_ne_self, and_false, iff_false]
    rintro rfl
    exact hnd (by simp)

end ListMem.Shape

/-- The heap after `pre` and `post` are joined over the node between them. -/
def joinOver (heap : Ptr → Option (ListNode δ)) (pre post : List Ptr) : Ptr → Option (ListNode δ) :=
  setPrev (setNext heap (pre.getLastD 0) (post.headD 0)) (post.headD 0) (pre.getLastD 0)

variable {m : ListMem δ} {xs pre post : List Ptr} {x : Ptr}

theorem joinOver_ne {heap : Ptr → Option (ListNode δ)} {y : Ptr} (hp : pre.getLastD 0 ≠ 0 → y ≠ pre.getLastD 0)
    (hq : post.headD 0 ≠ 0 → y ≠ post.headD 0) : joinOver heap pre post y = heap y := by
  unfold joinOver
  rw [setPrev_ne _ hq, setNext_ne _ hp]

/-- The neighbours of a node are other nodes. -/
theorem ListMem.Shape.apart (h : m.Shape (pre ++ x :: post)) : x ≠ pre.getLastD 0 ∧ x ≠ post.headD 0 := by
  have hx := h.get.1
  have hnd := List.nodup_append.mp h.nodup
  constructor
  · intro e
    exact hnd.2.2 x (e ▸ getLastD_mem (e ▸ hx)) x List.mem_cons_self rfl
  · intro e
    exact (List.nodup_cons.mp hnd.2.1).1 (e ▸ headD_mem (e ▸ hx))

/-- In every case the neighbours are joined. -/
theorem listUnlink_eq (h : m.Shape (pre ++ x :: post)) : listUnlink m x =
    .ok { m with heap := joinOver m.heap pre post, head := (pre ++ post).headD 0, tail := (pre ++ post).getLastD 0 } := by
  obtain ⟨hx, n, hn, hnext, hprev⟩ := h.get
  obtain ⟨hp, hq⟩ := h.apart
  unfold listUnlink
  rw [node_ok hx hn]
  by_cases h1 : m.size = 1
  · have hlen := h.one_iff.mp h1
    simp only [List.length_append, List.length_cons] at hlen
    obtain rfl : pre = [] := List.length_eq_zero_iff.mp (by omega)
    obtain rfl : post = [] := List.length_eq_zero_iff.mp (by omega)
    rw [if_pos h1]
    rfl
  rw [if_neg h1]
  by_cases h2 : x = m.head
  · obtain rfl := h.head_eq_iff.mp h2
    cases post with
    | nil => exact absurd (h.one_iff.mpr rfl) h1
    | cons q post =>
      obtain ⟨hq0, r, hr⟩ := h.mem (x := q) (by simp)
      rw [if_pos h2]
      show ListMem.write { m with head := n.next } n.next _ = _
      rw [hnext]
      refine (write_prev (m := { m with head := q }) 0 hq0 hr).trans ?_
      rw [h.tail]
      rfl
  rw [if_neg h2]
  have hpre : pre ≠ [] := fun e => h2 (h.head_eq_iff.mpr e)
  obtain ⟨front, p, rfl⟩ := (List.eq_nil_or_concat' pre).resolve_left hpre
  obtain ⟨hp0, r, hr⟩ := h.mem (x := p) (by simp)
  rw [List.getLastD_concat] at hp hprev
  by_cases h3 : x = m.tail
  · obtain rfl := h.tail_eq_iff.mp h3
    rw [if_pos h3]
    show ListMem.write { m with tail := n.prev } n.prev _ = _
    rw [hprev]
    refine (write_next (m := { m with tail := p }) 0 hp0 hr).trans ?_
    rw [h.head, headD_append _ hpre, List.append_nil, List.getLastD_concat, joinOver, List.getLastD_concat]
    rfl
  · rw [if_neg h3]
    have hpost : post ≠ [] := fun e => h3 (h.tail_eq_iff.mpr e)
    obtain ⟨q, rest, rfl⟩ := List.exists_cons_of_ne_nil hpost
    obtain ⟨hq0, r', hr'⟩ := h.mem (x := q) (by simp)
    have hpq : q ≠ p := fun e => (List.nodup_append.mp h.nodup).2.2 p (by simp) q (by simp) e.symm
    show (do
      let m ← m.write n.prev fun p => { p with next := n.next }
      let n ← m.node x
      m.write n.next fun q => { q with prev := n.prev }) = _
    rw [hnext, hprev, List.headD_cons, write_next q hp0 hr]
    show (do
      let n ← ListMem.node { m with heap := setNext m.heap p q } x
      ListMem.write { m with heap := setNext m.heap p q } n.next fun q => { q with prev := n.prev }) = _
    rw [node_ok (n := n) hx (by show setNext m.heap p q x = _; rw [setNext_ne _ fun _ => hp, hn])]
    show ListMem.write { m with heap := setNext m.heap p q } n.next (fun r => { r with prev := n.prev }) = _
    rw [hnext, hprev]
    refine (write_prev (m := { m with heap := setNext m.heap p q }) (n := r') p hq0 ?_).trans ?_
    · show setNext m.heap p q q = _
      rw [setNext_ne _ fun _ => hpq, hr']
    · have htail : (front ++ [p] ++ x :: q :: rest).getLastD 0 = (front ++ [p] ++ q :: rest).getLastD 0 := by
        rw [List.append_cons, getLastD_append _ hpost, getLastD_append _ hpost]
      rw [h.head, h.tail, htail, headD_append _ hpre, headD_append _ hpre, joinOver, List.getLastD_concat]
      rfl

/-- What `list_remove` does. -/
theorem listRemove_eq (h : m.Shape (pre ++ x :: post)) : listRemove m x = .ok (
    { heap := Function.update (joinOver m.heap pre post) x none, size := m.size - 1,
      head := (pre ++ post).headD 0, tail := (pre ++ post).getLastD 0 }, post.headD 0) := by
  obtain ⟨hx, n, hn, hnext, -⟩ := h.get
  obtain ⟨hp, hq⟩ := h.apart
  have hkept : joinOver m.heap pre post x = some n := by rw [joinOver_ne (fun _ => hp) fun _ => hq, hn]
  unfold listRemove
  refine bind_ok.mpr ⟨_, listUnlink_eq h, bind_ok.mpr ⟨n, node_ok hx hkept, ?_⟩⟩
  rw [hnext]
  rfl

/-- Of a list the nodes other than `x` and their data, and the rest of the heap, after an operation. -/
structure KeptBut (m m' : ListMem δ) (xs : List Ptr) (x : Ptr) : Prop where
  data : ∀ y, y ≠ x → dataOf m'.heap y = dataOf m.heap y
  outside : ∀ y, y ∉ xs → y ≠ x → m'.heap y = m.heap y

/-- `list_remove` takes out the given node and returns the one after it. -/
theorem listRemove_shape (h : m.Shape (pre ++ x :: post)) : ∃ m', listRemove m x = .ok (m', post.headD 0) ∧
    m'.Shape (pre ++ post) ∧ m'.heap x = none ∧ KeptBut m m' (pre ++ x :: post) x := by
  have hne : ∀ y ∈ pre ++ post, y ≠ x := by
    rintro y hy rfl
    have hnd := h.nodup
    rw [List.nodup_middle, List.nodup_cons] at hnd
    exact hnd.1 hy
  refine ⟨_, listRemove_eq h, ⟨?_, ?_, ?_, rfl, rfl, ?_⟩, Function.update_self .., ?_, ?_⟩
  · exact h.nodup.sublist ((List.Sublist.refl pre).append (List.sublist_cons_self x post))
  · intro hm
    refine h.notNull ?_
    rw [List.mem_append] at hm ⊢
    exact hm.imp_right (List.mem_cons_of_mem x)
  · -- the neighbours are allocated nodes other than `x`
    obtain ⟨hp, hq⟩ := h.apart
    refine h.linked.remove h.nodup ?_ ?_ ?_ ?_
    · intro hp0
      have hn := (h.mem (List.mem_append_left _ (getLastD_mem hp0))).2
      rw [nextOf_freed (Ne.symm hp), joinOver, nextOf_setPrev, nextOf_setNext _ hp0 hn]
    · intro hq0
      have hn := (h.mem (List.mem_append_right _ (List.mem_cons_of_mem _ (headD_mem hq0)))).2
      rw [prevOf_freed (Ne.symm hq), joinOver, prevOf_setPrev _ hq0 (setNext_allocated _ hn)]
    · intro y hy _ hyp
      rw [nextOf_freed (hne y hy), joinOver, nextOf_setPrev, nextOf_setNext_ne _ hyp]
    · intro y hy _ hyq
      rw [prevOf_freed (hne y hy), joinOver, prevOf_setPrev_ne _ hyq, prevOf_setNext]
  · have hsize := h.size
    have hlt := h.length_lt
    rw [List.length_append, List.length_cons] at hsize hlt
    show (m.size - 1).toNat = _
    rw [List.length_append, UInt64.toNat_sub_of_le _ _ (UInt64.le_iff_toNat_le.mpr ?_), hsize]
    · show _ - 1 = _
      omega
    · show 1 ≤ _
      omega
  · intro y hy
    rw [dataOf_freed hy, joinOver, dataOf_setPrev, dataOf_setNext]
  · intro y hy hyx
    show Function.update (joinOver m.heap pre post) x none y = m.heap y
    rw [Function.update_of_ne hyx, joinOver_ne]
    · rintro hp0 rfl
      exact hy (List.mem_append_left _ (getLastD_mem hp0))
    · rintro hq0 rfl
      exact hy (List.mem_append_right _ (List.mem_cons_of_mem _ (headD_mem hq0)))

/-- In both cases the node comes to stand behind the last. -/
theorem listLink_eq {a junk : Ptr} {d : δ} (h : m.Shape xs) (ha : a ≠ 0) (hout : a ∉ xs) :
    listLink { m with heap := Function.update m.heap a (some ⟨junk, 0, d⟩) } a = .ok
      { heap := setNext (Function.update m.heap a (some ⟨xs.getLastD 0, 0, d⟩)) (xs.getLastD 0) a, size := m.size,
        head := (xs ++ [a]).headD 0, tail := a } := by
  have hprev : ∀ (heap : Ptr → Option (ListNode δ)) (p : Ptr), heap a = some ⟨junk, 0, d⟩ →
      setPrev heap a p = Function.update heap a (some ⟨p, 0, d⟩) := by
    intro heap p hheap
    rw [setPrev, if_neg ha, hheap]
    rfl
  unfold listLink
  by_cases hxs : xs = []
  · subst hxs
    have h0 : m.head = 0 := h.head
    rw [if_pos h0]
    refine (write_prev (n := ⟨junk, 0, d⟩) 0 ha (Function.update_self ..)).trans ?_
    rw [hprev _ _ (Function.update_self ..), Function.update_idem]
    rfl
  · have hhead : m.head ≠ 0 := by
      obtain ⟨x, rest, rfl⟩ := List.exists_cons_of_ne_nil hxs
      rw [h.head]
      exact (h.mem List.mem_cons_self).1
    have hlast : m.tail = xs.getLastD 0 := h.tail
    rw [if_neg hhead]
    obtain ⟨front, p, rfl⟩ := (List.eq_nil_or_concat' xs).resolve_left hxs
    rw [List.getLastD_concat] at hlast ⊢
    subst hlast
    obtain ⟨hp0, n, hn⟩ := h.mem (x := m.tail) (by simp)
    have hpa : m.tail ≠ a := fun e => hout (e ▸ by simp)
    have hfirst : Function.update m.heap a (some ⟨junk, 0, d⟩) m.tail = some n := by rw [Function.update_of_ne hpa, hn]
    have hnew : setNext (Function.update m.heap a (some ⟨junk, 0, d⟩)) m.tail a a = some ⟨junk, 0, d⟩ := by
      rw [setNext_ne _ fun _ => Ne.symm hpa, Function.update_self]
    refine bind_ok.mpr ⟨_, write_next (m := { m with heap := Function.update m.heap a (some ⟨junk, 0, d⟩) }) a hp0 hfirst,
      bind_ok.mpr ⟨_, write_prev _ ha hnew, ?_⟩⟩
    show Except.ok _ = _
    rw [hprev _ _ hnew, h.head, headD_append _ hxs]
    congr 2
    rw [setNext, if_neg hp0, setNext, if_neg hp0, Function.update_of_ne hpa, Function.update_of_ne hpa]
    rw [Function.update_comm (Ne.symm hpa), Function.update_idem]
    exact Function.update_comm hpa _ _ _

/-- What `list_add` does. -/
theorem listAdd_eq {a junk : Ptr} {d : δ} (h : m.Shape xs) (ha : a ≠ 0) (hout : a ∉ xs) : listAdd m a junk d = .ok (
    { heap := setNext (Function.update m.heap a (some ⟨xs.getLastD 0, 0, d⟩)) (xs.getLastD 0) a, size := m.size + 1,
      head := (xs ++ [a]).headD 0, tail := a }, a) := by
  unfold listAdd
  rw [if_neg ha, listLink_eq h ha hout]
  rfl

/-- `list_add` appends a node with the data. -/
theorem listAdd_shape {a : Ptr} (junk : Ptr) (d : δ) (h : m.Shape xs) (ha : a ≠ 0) (hfree : m.heap a = none) : ∃ m',
    listAdd m a junk d = .ok (m', a) ∧ m'.Shape (xs ++ [a]) ∧ dataOf m'.heap a = some d ∧ KeptBut m m' xs a := by
  have hout : a ∉ xs := by
    intro hm
    obtain ⟨-, n, hn⟩ := h.mem hm
    rw [hfree] at hn
    cases hn
  have hne : ∀ y ∈ xs, y ≠ a := fun y hy e => hout (e ▸ hy)
  have hlast : xs.getLastD 0 ≠ 0 → a ≠ xs.getLastD 0 := fun h0 => Ne.symm (hne _ (getLastD_mem h0))
  have hnd : (xs ++ [a]).Nodup := by
    rw [List.nodup_append]
    refine ⟨h.nodup, List.nodup_singleton a, fun x hx b hb => ?_⟩
    rw [List.mem_singleton.mp hb]
    exact hne x hx
  have hnull : 0 ∉ xs ++ [a] := by
    rw [List.mem_append, List.mem_singleton, not_or]
    exact ⟨h.notNull, Ne.symm ha⟩
  have hlen := nodes_length_lt hnd hnull
  rw [List.length_append] at hlen
  refine ⟨_, listAdd_eq h ha hout, ⟨hnd, hnull, ?_, rfl, ?_, ?_⟩, ?_, ?_, ?_⟩
  · refine h.linked.append h.nodup ?_ ?_ ?_ ?_ ?_
    · intro h0
      exact nextOf_setNext a h0 ⟨_, (Function.update_of_ne (hlast h0).symm ..).trans (h.mem (getLastD_mem h0)).2.choose_spec⟩
    · rw [prevOf_setNext, prevOf, Function.update_self]
      rfl
    · by_cases h0 : xs.getLastD 0 = 0
      · show nextOf (setNext (Function.update m.heap a (some ⟨xs.getLastD 0, 0, d⟩)) (xs.getLastD 0) a) a = some 0
        rw [h0, nextOf, setNext, if_pos rfl, Function.update_self]
        rfl
      · rw [nextOf_setNext_ne _ (hlast h0), nextOf, Function.update_self]
        rfl
    · intro y hy _ hyp
      rw [nextOf_setNext_ne _ hyp, nextOf, Function.update_of_ne (hne y hy), nextOf]
    · intro y hy _
      rw [prevOf_setNext, prevOf, Function.update_of_ne (hne y hy), prevOf]
  · rw [List.getLastD_concat]
  · show (m.size + 1).toNat = _
    rw [UInt64.toNat_add, h.size, List.length_append]
    exact Nat.mod_eq_of_lt hlen
  · rw [dataOf_setNext, dataOf, Function.update_self]
    rfl
  · intro y hy
    rw [dataOf_setNext, dataOf, Function.update_of_ne hy, dataOf]
  · intro y hy hya
    have hyp : xs.getLastD 0 ≠ 0 → y ≠ xs.getLastD 0 := by
      rintro h0 rfl
      exact hy (getLastD_mem h0)
    exact (setNext_ne a hyp).trans (Function.update_of_ne hya ..)

/-! ## Lists with their data -/

/-- The list holds the elements `es`: nodes with their data, in order. -/
structure ListMem.Holds (m : ListMem δ) (es : List (Ptr × δ)) : Prop where
  shape : m.Shape (es.map Prod.fst)
  data : ∀ e ∈ es, dataOf m.heap e.1 = some e.2

/-- Where a cursor at the first of the elements points. -/
def cursorAt (es : List (Ptr × δ)) : Ptr := (es.map Prod.fst).headD 0

namespace ListMem.Holds

variable {es front rest : List (Ptr × δ)} {e : Ptr × δ}

theorem init (m : ListMem δ) : (listInit m).Holds [] := ⟨.init m, by simp⟩

theorem add (h : m.Holds es) {a : Ptr} (junk : Ptr) (d : δ) (ha : a ≠ 0) (hfree : m.heap a = none) :
    ∃ m', listAdd m a junk d = .ok (m', a) ∧ m'.Holds (es ++ [(a, d)]) ∧ KeptBut m m' (es.map Prod.fst) a := by
  obtain ⟨m', hadd, hshape, hd, hkept⟩ := listAdd_shape junk d h.shape ha hfree
  refine ⟨m', hadd, ⟨by rw [List.map_append]; exact hshape, fun e he => ?_⟩, hkept⟩
  rw [List.mem_append, List.mem_singleton] at he
  obtain he | rfl := he
  · have hne : e.1 ≠ a := by
      rintro rfl
      obtain ⟨-, n, hn⟩ := h.shape.mem (List.mem_map_of_mem he)
      rw [hfree] at hn
      cases hn
    rw [hkept.data _ hne]
    exact h.data e he
  · exact hd

theorem remove (h : m.Holds (front ++ e :: rest)) : ∃ m', listRemove m e.1 = .ok (m', cursorAt rest) ∧ m'.Holds (front ++ rest) ∧
    m'.heap e.1 = none ∧ KeptBut m m' ((front ++ e :: rest).map Prod.fst) e.1 := by
  have hs := h.shape
  have hmap : (front ++ e :: rest).map Prod.fst = front.map Prod.fst ++ e.1 :: rest.map Prod.fst := by simp
  rw [hmap] at hs ⊢
  obtain ⟨m', hrem, hshape, hfree, hkept⟩ := listRemove_shape hs
  refine ⟨m', hrem, ⟨by rw [List.map_append]; exact hshape, fun f hf => ?_⟩, hfree, hkept⟩
  have hne : f.1 ≠ e.1 := by
    intro heq
    obtain ⟨-, n, hn⟩ := hshape.mem (x := e.1) (by rw [← heq, ← List.map_append]; exact List.mem_map_of_mem hf)
    rw [hfree] at hn
    cases hn
  rw [hkept.data _ hne]
  refine h.data f ?_
  rw [List.mem_append] at hf ⊢
  exact hf.imp_right (List.mem_cons_of_mem e)

/-- The node of an element. -/
theorem node (h : m.Holds (front ++ e :: rest)) : ∃ n, m.node e.1 = .ok n ∧ n.data = e.2 ∧ n.next = cursorAt rest := by
  have hs := h.shape
  rw [List.map_append, List.map_cons] at hs
  obtain ⟨h0, n, hn, hnext, -⟩ := hs.get
  have hd := h.data e (by simp)
  rw [dataOf, hn] at hd
  exact ⟨n, node_ok h0 hn, Option.some.inj hd, hnext⟩

theorem cursor_ne (h : m.Holds (front ++ e :: rest)) : cursorAt (e :: rest) ≠ 0 :=
  (h.shape.mem (x := e.1) (List.mem_map_of_mem (by simp))).1

/-- `list_clear` frees every node; its loop goes round once for each. -/
theorem clear : ∀ (es : List (Ptr × δ)) {m : ListMem δ} (fuel : Nat), m.Holds es → es.length ≤ fuel →
    ∃ m', listClear fuel m = .ok m' ∧ m'.Holds [] ∧ ∀ y, y ∉ es.map Prod.fst → m'.heap y = m.heap y := by
  intro es
  induction es with
  | nil =>
    intro m fuel h _
    have h0 : m.head = 0 := h.shape.head
    refine ⟨m, ?_, h, fun _ _ => rfl⟩
    cases fuel with
    | zero => exact if_pos h0
    | succ fuel => exact if_pos h0
  | cons e es ih =>
    intro m fuel h hf
    cases fuel with
    | zero => simp at hf
    | succ fuel =>
      have hsplit : m.Holds ([] ++ e :: es) := h
      have hhead : m.head = e.1 := h.shape.head
      have hne : m.head ≠ 0 := hhead ▸ hsplit.cursor_ne
      obtain ⟨m1, hrem, hrest, -, hkept⟩ := hsplit.remove
      obtain ⟨m', hclear, hnil, hout⟩ := ih fuel hrest (by simpa using hf)
      refine ⟨m', ?_, hnil, fun y hy => ?_⟩
      · rw [listClear, if_neg hne, hhead, hrem]
        exact hclear
      · rw [List.map_cons, List.mem_cons, not_or] at hy
        rw [hout y hy.2]
        exact hkept.outside y (by simpa using hy) hy.1

/-- With fewer rounds than nodes it is not done. -/
theorem clear_short : ∀ (fuel : Nat) {es : List (Ptr × δ)} {m : ListMem δ}, m.Holds es → fuel < es.length →
    listClear fuel m = .error .hang := by
  intro fuel
  induction fuel with
  | zero =>
    intro es m h hf
    cases es with
    | nil => simp at hf
    | cons e es =>
      have hsplit : m.Holds ([] ++ e :: es) := h
      have hhead : m.head = e.1 := h.shape.head
      exact if_neg (hhead ▸ hsplit.cursor_ne)
  | succ fuel ih =>
    intro es m h hf
    cases es with
    | nil => simp at hf
    | cons e es =>
      have hsplit : m.Holds ([] ++ e :: es) := h
      have hhead : m.head = e.1 := h.shape.head
      obtain ⟨m1, hrem, hrest, -, -⟩ := hsplit.remove
      rw [listClear, if_neg (hhead ▸ hsplit.cursor_ne), hhead, hrem]
      exact ih hrest (by simpa using hf)

end ListMem.Holds

/-! ## Walks -/

section Walks

variable {σ : Type}

/-- The decisions of a walk over the data: which elements it removes. -/
def decisions (visit : σ → δ → Except Fault (Bool × σ)) : List δ → σ → Except Fault (List Bool × σ)
  | [], s => .ok ([], s)
  | d :: ds, s => do
    let (removed, s) ← visit s d
    let (rest, s) ← decisions visit ds s
    pure (removed :: rest, s)

/-- What is left of a list when the elements decided on are taken out. -/
def keepBy {α : Type} : List Bool → List α → List α
  | removed :: flags, x :: xs => if removed then keepBy flags xs else x :: keepBy flags xs
  | _, _ => []

theorem keepBy_map {α β : Type} (f : α → β) : ∀ (flags : List Bool) (xs : List α), (keepBy flags xs).map f = keepBy flags (xs.map f)
  | [], [] => rfl
  | [], _ :: _ => rfl
  | _ :: _, [] => rfl
  | true :: flags, _ :: xs => keepBy_map f flags xs
  | false :: flags, x :: xs => congrArg (f x :: ·) (keepBy_map f flags xs)

/-- One round of a walk. -/
theorem traverse_succ (visit : σ → δ → Except Fault (Bool × σ)) {front rest : List (Ptr × δ)} {e : Ptr × δ} {m : ListMem δ}
    (h : m.Holds (front ++ e :: rest)) (s : σ) (fuel : Nat) :
    traverse visit (fuel + 1) (cursorAt (e :: rest)) m s = (do
      let r ← visit s e.2
      let p ← if r.1 then listRemove m e.1 else pure (m, cursorAt rest)
      let t ← traverse visit fuel p.2 p.1 r.2
      pure (e.1 :: t.1, t.2)) := by
  obtain ⟨n, hn, hd, hnext⟩ := h.node
  have hstep : listNext m e.1 = .ok (cursorAt rest) := by
    unfold listNext
    rw [hn, ← hnext]
    rfl
  rw [traverse, if_neg h.cursor_ne]
  refine (congrArg (· >>= _) hn).trans ?_
  show visit s n.data >>= _ = _
  rw [hd]
  congr 1
  funext r
  obtain ⟨removed, s1⟩ := r
  cases removed with
  | true => rfl
  | false =>
    exact (congrArg (· >>= _) hstep).trans rfl

/-- A walk goes through the list in order, whichever elements it removes. -/
theorem traverse_ok (visit : σ → δ → Except Fault (Bool × σ)) : ∀ (rest front : List (Ptr × δ)) (m : ListMem δ) (s s' : σ)
    (fuel : Nat) (flags : List Bool), rest.length ≤ fuel → m.Holds (front ++ rest) →
    decisions visit (rest.map Prod.snd) s = .ok (flags, s') →
    ∃ m', traverse visit fuel (cursorAt rest) m s = .ok (rest.map Prod.fst, m', s') ∧ m'.Holds (front ++ keepBy flags rest) := by
  intro rest
  induction rest with
  | nil =>
    intro front m s s' fuel flags _ h hd
    cases hd
    refine ⟨m, ?_, h⟩
    cases fuel with
    | zero => rfl
    | succ fuel => rfl
  | cons e rest ih =>
    intro front m s s' fuel flags hf h hd
    cases fuel with
    | zero => simp at hf
    | succ fuel =>
      have hf' : rest.length ≤ fuel := by simpa using hf
      obtain ⟨⟨removed, s1⟩, hv, hd⟩ := bind_ok.mp hd
      obtain ⟨⟨flags', s2⟩, hrec, hd⟩ := bind_ok.mp hd
      cases hd
      rw [traverse_succ visit h, hv]
      cases removed with
      | true =>
        obtain ⟨m1, hrem, hrest, -, -⟩ := h.remove
        obtain ⟨m', hwalk, hholds⟩ := ih front m1 s1 _ fuel flags' hf' hrest hrec
        refine ⟨m', ?_, hholds⟩
        exact bind_ok.mpr ⟨_, rfl, bind_ok.mpr ⟨_, hrem, bind_ok.mpr ⟨_, hwalk, rfl⟩⟩⟩
      | false =>
        rw [List.append_cons] at h
        obtain ⟨m', hwalk, hholds⟩ := ih (front ++ [e]) m s1 _ fuel flags' hf' h hrec
        rw [List.append_assoc] at hholds
        exact ⟨m', bind_ok.mpr ⟨_, rfl, bind_ok.mpr ⟨_, rfl, bind_ok.mpr ⟨_, hwalk, rfl⟩⟩⟩, hholds⟩

/-- A walk fails only where the body of its loop does. -/
theorem traverse_error (visit : σ → δ → Except Fault (Bool × σ)) : ∀ (rest front : List (Ptr × δ)) (m : ListMem δ) (s : σ)
    (fuel : Nat) (err : Fault), rest.length ≤ fuel → m.Holds (front ++ rest) →
    decisions visit (rest.map Prod.snd) s = .error err → traverse visit fuel (cursorAt rest) m s = .error err := by
  intro rest
  induction rest with
  | nil =>
    intro front m s fuel err _ h hd
    cases hd
  | cons e rest ih =>
    intro front m s fuel err hf h hd
    cases fuel with
    | zero => simp at hf
    | succ fuel =>
      have hf' : rest.length ≤ fuel := by simpa using hf
      rw [traverse_succ visit h]
      rw [List.map_cons, decisions] at hd
      cases hv : visit s e.2 with
      | error err' =>
        rw [hv] at hd
        obtain rfl : err' = err := Except.error.inj hd
        rfl
      | ok r =>
        obtain ⟨removed, s1⟩ := r
        rw [hv] at hd
        have hrec : decisions visit (rest.map Prod.snd) s1 = .error err := by
          cases hrec : decisions visit (rest.map Prod.snd) s1 with
          | error err' =>
            change (decisions visit (rest.map Prod.snd) s1 >>= _) = _ at hd
            rw [hrec] at hd
            exact hd
          | ok r' =>
            change (decisions visit (rest.map Prod.snd) s1 >>= _) = _ at hd
            rw [hrec] at hd
            cases hd
        cases removed with
        | true =>
          obtain ⟨m1, hrem, hrest, -, -⟩ := h.remove
          show (listRemove m e.1 >>= _) = _
          rw [hrem]
          show (traverse visit fuel (cursorAt rest) m1 s1 >>= _) = _
          rw [ih front m1 s1 fuel err hf' hrest hrec]
          rfl
        | false =>
          rw [List.append_cons] at h
          show (traverse visit fuel (cursorAt rest) m s1 >>= _) = _
          rw [ih (front ++ [e]) m s1 fuel err hf' h hrec]
          rfl

/-- The choices of a body that does not fail. -/
def choices (visit : σ → δ → Bool × σ) : List δ → σ → List Bool
  | [], _ => []
  | d :: ds, s => (visit s d).1 :: choices visit ds (visit s d).2

theorem decisions_choices (visit : σ → δ → Bool × σ) : ∀ (ds : List δ) (s : σ),
    ∃ s', decisions (fun s d => .ok (visit s d)) ds s = .ok (choices visit ds s, s') := by
  intro ds
  induction ds with
  | nil => intro s; exact ⟨s, rfl⟩
  | cons d ds ih =>
    intro s
    obtain ⟨s', hs⟩ := ih (visit s d).2
    exact ⟨s', bind_ok.mpr ⟨_, rfl, bind_ok.mpr ⟨_, hs, rfl⟩⟩⟩

end Walks

/-! ## Sequences of operations -/

/-- One operation: `malloc` returns a block that is not in use, and the node removed is one
    that is reached from the head. -/
inductive ListStep : ListMem δ → ListMem δ → Prop
  | add {m m' : ListMem δ} {a junk r : Ptr} {d : δ} : a ≠ 0 → m.heap a = none → listAdd m a junk d = .ok (m', r) → ListStep m m'
  | remove {m m' : ListMem δ} {xs : List Ptr} {x r : Ptr} : Follows 0 (nextOf m.heap) m.head xs → x ∈ xs →
      listRemove m x = .ok (m', r) → ListStep m m'
  | clear {m m' : ListMem δ} {fuel : Nat} : listClear fuel m = .ok m' → ListStep m m'

/-- A consistent list with the elements `es`. -/
structure WellFormed (m : ListMem δ) (es : List (Ptr × δ)) : Prop where
  forward : Follows 0 (nextOf m.heap) m.head (es.map Prod.fst)
  backward : Follows 0 (prevOf m.heap) m.tail (es.map Prod.fst).reverse
  distinct : (es.map Prod.fst).Nodup
  data : ∀ e ∈ es, dataOf m.heap e.1 = some e.2
  size : m.size.toNat = es.length
  head_null : m.head = 0 ↔ es = []
  tail_null : m.tail = 0 ↔ es = []

/-- What each operation, and a walk with any choice of removals, does to the list. -/
structure ListWorks (m : ListMem δ) (es : List (Ptr × δ)) : Prop where
  wellFormed : WellFormed m es
  add : ∀ a junk d, a ≠ 0 → m.heap a = none → ∃ m', listAdd m a junk d = .ok (m', a) ∧ WellFormed m' (es ++ [(a, d)]) ∧
    KeptBut m m' (es.map Prod.fst) a
  remove : ∀ front e rest, es = front ++ e :: rest → ∃ m', listRemove m e.1 = .ok (m', cursorAt rest) ∧
    WellFormed m' (front ++ rest) ∧ m'.heap e.1 = none ∧ KeptBut m m' (es.map Prod.fst) e.1
  clear : ∀ fuel, es.length ≤ fuel → ∃ m', listClear fuel m = .ok m' ∧ WellFormed m' []
  traverse : ∀ (σ : Type) (visit : σ → δ → Bool × σ) (s : σ) fuel, es.length ≤ fuel → ∃ m' s',
    traverse (fun s d => .ok (visit s d)) fuel m.head m s = .ok (es.map Prod.fst, m', s') ∧
      WellFormed m' (keepBy (choices visit (es.map Prod.snd) s) es)

theorem ListMem.Holds.wellFormed {es : List (Ptr × δ)} (h : m.Holds es) : WellFormed m es where
  forward := h.shape.head ▸ h.shape.linked.follows_next h.shape.notNull
  backward := h.shape.tail ▸ h.shape.linked.follows_prev h.shape.notNull
  distinct := h.shape.nodup
  data := h.data
  size := by rw [h.shape.size, List.length_map]
  head_null := by
    rw [h.shape.head]
    cases es with
    | nil => simp
    | cons e es => simpa using (h.shape.mem List.mem_cons_self).1
  tail_null := by
    rw [h.shape.tail]
    cases es using List.reverseRecOn with
    | nil => simp
    | append_singleton es e => simpa using (h.shape.mem (x := e.1) (by simp)).1

theorem ListMem.Holds.step {m' : ListMem δ} {es : List (Ptr × δ)} (h : m.Holds es) (hs : ListStep m m') : ∃ es', m'.Holds es' := by
  cases hs with
  | add ha hfree hadd =>
    obtain ⟨m1, hm1, hholds, -⟩ := h.add _ _ ha hfree
    rw [hm1] at hadd
    cases hadd
    exact ⟨_, hholds⟩
  | remove hf hx hrem =>
    cases h.wellFormed.forward.unique hf
    obtain ⟨e, he, rfl⟩ := List.mem_map.mp hx
    obtain ⟨front, rest, rfl⟩ := List.append_of_mem he
    obtain ⟨m1, hm1, hholds, -, -⟩ := h.remove
    rw [hm1] at hrem
    cases hrem
    exact ⟨_, hholds⟩
  | @clear fuel hclear =>
    by_cases hf : es.length ≤ fuel
    · obtain ⟨m1, hm1, hholds, -⟩ := ListMem.Holds.clear es fuel h hf
      rw [hm1] at hclear
      cases hclear
      exact ⟨_, hholds⟩
    · rw [ListMem.Holds.clear_short fuel h (by omega)] at hclear
      cases hclear

theorem ListMem.Holds.works {es : List (Ptr × δ)} (h : m.Holds es) : ListWorks m es where
  wellFormed := h.wellFormed
  add a junk d ha hfree := by
    obtain ⟨m', hadd, hholds, hkept⟩ := h.add junk d ha hfree
    exact ⟨m', hadd, hholds.wellFormed, hkept⟩
  remove front e rest he := by
    subst he
    obtain ⟨m', hrem, hholds, hfree, hkept⟩ := h.remove
    exact ⟨m', hrem, hholds.wellFormed, hfree, hkept⟩
  clear fuel hf := by
    obtain ⟨m', hclear, hholds, -⟩ := ListMem.Holds.clear es fuel h hf
    exact ⟨m', hclear, hholds.wellFormed⟩
  traverse σ visit s fuel hf := by
    obtain ⟨s', hd⟩ := decisions_choices visit (es.map Prod.snd) s
    obtain ⟨m', hwalk, hholds⟩ := traverse_ok _ es [] m s s' fuel _ hf h hd
    refine ⟨m', s', ?_, hholds.wellFormed⟩
    rw [show m.head = cursorAt es from h.shape.head]
    exact hwalk

/-- After any sequence of operations the list is consistent and every operation does its work. -/
theorem list_well_formed (m₀ m : ListMem δ) (h : Relation.ReflTransGen ListStep (listInit m₀) m) : ∃ es, ListWorks m es := by
  have hholds : ∃ es, m.Holds es := by
    induction h with
    | refl => exact ⟨[], .init m₀⟩
    | tail _ hs ih =>
      obtain ⟨es, hes⟩ := ih
      exact hes.step hs
  obtain ⟨es, hes⟩ := hholds
  exact ⟨es, hes.works⟩

end Shapes

/-! ## The walk of `rewrite_val` -/

/-- The body of the loop over the fixups at an alloca. -/
def resolveVisit (src : Ctx) (v w : LiveValue) (st : Dst) (f : Fixup) : Except Fault (Bool × Dst) := do
  let addr ← pointsToData src v st.ctx w f.srcAddr
  if addr ≠ 0 then
    let st ← putValData st f.destLoc f.act addr
    pure (true, st)
  else pure (false, st)

theorem resolveFixups_eq (src : Ctx) (v w : LiveValue) : ∀ (fs : List Fixup) (st : Dst),
    resolveFixups src v w fs st = decisions (resolveVisit src v w) fs st >>= fun r => pure (keepBy r.1 fs, r.2) := by
  intro fs
  induction fs with
  | nil => intro st; rfl
  | cons f fs ih =>
    intro st
    rw [resolveFixups, decisions, resolveVisit]
    cases pointsToData src v st.ctx w f.srcAddr with
    | error e => rfl
    | ok addr =>
      simp only [bind, Except.bind, pure, Except.pure]
      by_cases h0 : addr ≠ 0
      · rw [if_pos h0, if_pos h0]
        cases putValData st f.destLoc f.act addr with
        | error e => rfl
        | ok st1 =>
          dsimp only
          rw [ih]
          cases decisions (resolveVisit src v w) fs st1 with
          | error e => rfl
          | ok r => rfl
      · rw [if_neg h0, if_neg h0, ih]
        dsimp only
        cases decisions (resolveVisit src v w) fs st with
        | error e => rfl
        | ok r => rfl

/-- The walk over the linked list is the walk over the fixups it holds. -/
theorem traverse_resolveFixups (src : Ctx) (v w : LiveValue) {m : ListMem Fixup} {es : List (Ptr × Fixup)} (h : m.Holds es)
    {fuel : Nat} (hf : es.length ≤ fuel) (st : Dst) :
    (∀ kept st', resolveFixups src v w (es.map Prod.snd) st = .ok (kept, st') → ∃ m' es',
      traverse (resolveVisit src v w) fuel m.head m st = .ok (es.map Prod.fst, m', st') ∧ m'.Holds es' ∧
        es'.map Prod.snd = kept) ∧
      ∀ e, resolveFixups src v w (es.map Prod.snd) st = .error e →
        traverse (resolveVisit src v w) fuel m.head m st = .error e := by
  rw [show m.head = cursorAt es from h.shape.head, resolveFixups_eq]
  constructor
  · intro kept st' hr
    obtain ⟨⟨flags, s'⟩, hd, hk⟩ := bind_ok.mp hr
    cases hk
    obtain ⟨m', hwalk, hholds⟩ := traverse_ok _ es [] m st s' fuel flags hf h hd
    exact ⟨m', _, hwalk, hholds, keepBy_map ..⟩
  · intro e hr
    cases hd : decisions (resolveVisit src v w) (es.map Prod.snd) st with
    | error e' =>
      rw [hd] at hr
      obtain rfl : e' = e := Except.error.inj hr
      exact traverse_error _ es [] m st fuel e' hf h hd
    | ok r =>
      rw [hd] at hr
      cases hr

/-! ## A run -/

/-- A heap with nothing in it, and a list object that has not been initialised. -/
def emptyMem : ListMem Nat := ⟨fun _ => none, 7, 7, 7⟩

/-- Three nodes are added and the middle one is removed. -/
theorem list_well_formed_removed : ∃ m : ListMem Nat, m.size = 2 ∧ m.head = 16 ∧ m.tail = 48 ∧ ∃ es, ListWorks m es := by
  have h1 := Relation.ReflTransGen.refl.tail (ListStep.add (show (16 : Ptr) ≠ 0 by decide) rfl
    (show listAdd (listInit emptyMem) 16 0 1 = .ok _ from rfl))
  have h2 := h1.tail (ListStep.add (show (32 : Ptr) ≠ 0 by decide) rfl (show listAdd _ 32 5 2 = .ok _ from rfl))
  have h3 := h2.tail (ListStep.add (show (48 : Ptr) ≠ 0 by decide) rfl (show listAdd _ 48 0 3 = .ok _ from rfl))
  have h4 := h3.tail (ListStep.remove (show Follows 0 (nextOf _) _ [16, 32, 48] from
    ⟨rfl, by decide, 32, rfl, rfl, by decide, 48, rfl, rfl, by decide, 0, rfl, rfl⟩) (x := 32) (by decide) rfl)
  exact ⟨_, rfl, rfl, rfl, list_well_formed emptyMem _ h4⟩

end Popcorn.Runtime
