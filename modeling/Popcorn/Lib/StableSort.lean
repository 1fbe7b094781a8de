/-
  Popcorn.Lib.StableSort — what stands before an entry of a sorted list.

  `insertionSort` by a key keeps the order of entries with equal keys. So the entries
  before a given one in the sorted list are, up to order, those that sort before it in
  the unsorted list (`sortsBefore`): the ones with a lower key, and those with its own key
  that precede it. `sortBy_before_iff` carries a property of each entry and of what
  stands before it from the sorted list back to the unsorted one.
-/

import Mathlib.Data.List.Sort
import Mathlib.Data.Prod.Lex

namespace Popcorn.Lib

variable {α κ : Type} [LinearOrder κ] (key : α → κ)

/-- `p` sorts before `q`; the tags are positions in the unsorted list. -/
def TaggedLt (p q : α × Nat) : Prop := key p.1 < key q.1 ∨ (key p.1 = key q.1 ∧ p.2 < q.2)

instance (p q : α × Nat) : Decidable (TaggedLt key p q) := inferInstanceAs (Decidable (_ ∨ _))

/-- The entries of `l` that sort before its `i`-th entry `e`. -/
def sortsBefore (l : List α) (i : Nat) (e : α) : List α := (l.zipIdx.filter fun q => TaggedLt key q (e, i)).map (·.1)

def sortBy (l : List α) : List α := l.insertionSort fun a b => key a ≤ key b

/-- A tagged entry's place in the order of keys and positions. -/
def tag (p : α × Nat) : Lex (κ × Nat) := toLex (key p.1, p.2)

def sortTagged (l : List (α × Nat)) : List (α × Nat) := l.insertionSort fun p q => tag key p ≤ tag key q

variable {key}

theorem taggedLt_iff (p q : α × Nat) : TaggedLt key p q ↔ tag key p < tag key q := by
  unfold TaggedLt tag
  rw [Prod.Lex.toLex_lt_toLex]

theorem orderedInsert_tagged (a : α) (i : Nat) : ∀ l : List (α × Nat), (∀ q ∈ l, i < q.2) →
    (l.orderedInsert (fun p q => tag key p ≤ tag key q) (a, i)).map (·.1) =
      (l.map (·.1)).orderedInsert (fun a b => key a ≤ key b) a := by
  intro l
  induction l with
  | nil => intro _; rfl
  | cons q l ih =>
    intro h
    have hq := h q (by simp)
    have hle : tag key (a, i) ≤ tag key q ↔ key a ≤ key q.1 := by
      rw [← not_lt, ← not_lt, ← taggedLt_iff]
      unfold TaggedLt
      constructor
      · intro hn hlt
        exact hn (.inl hlt)
      · intro hn hor
        obtain hlt | ⟨_, hlt⟩ := hor
        · exact hn hlt
        · exact absurd hlt (by show ¬ q.2 < i; omega)
    rw [List.orderedInsert_cons, List.map_cons, List.orderedInsert_cons]
    by_cases hk : key a ≤ key q.1
    · rw [if_pos (hle.mpr hk), if_pos hk]
      rfl
    · rw [if_neg (fun hn => hk (hle.mp hn)), if_neg hk, List.map_cons, ih (fun r hr => h r (by simp [hr]))]

/-- Sorting by key is sorting with the positions as tie-breakers. -/
theorem sortTagged_zipIdx (l : List α) : ∀ i, (sortTagged key (l.zipIdx i)).map (·.1) = sortBy key l := by
  unfold sortTagged sortBy
  induction l with
  | nil => intro i; rfl
  | cons a l ih =>
    intro i
    rw [List.zipIdx_cons, List.insertionSort_cons, List.insertionSort_cons, orderedInsert_tagged, ih]
    intro q hq
    rw [(List.perm_insertionSort _ _).mem_iff] at hq
    exact (List.mem_zipIdx_iff_le_and_getElem?_sub.mp hq).1

theorem sortTagged_perm (l : List (α × Nat)) : (sortTagged key l).Perm l := List.perm_insertionSort _ _

/-- The tags are positions, so no two entries have the same place. -/
theorem sortTagged_pairwise (l : List α) : (sortTagged key l.zipIdx).Pairwise (TaggedLt key) := by
  have hle : (sortTagged key l.zipIdx).Pairwise fun p q => tag key p ≤ tag key q :=
    List.pairwise_insertionSort _ _
  have hne : (sortTagged key l.zipIdx).Pairwise fun p q => p.2 ≠ q.2 := by
    rw [(sortTagged_perm l.zipIdx).pairwise_iff (fun h => h.symm), ← List.pairwise_map, List.zipIdx_map_snd]
    exact List.nodup_range'
  refine hle.imp₂ ?_ hne
  intro p q hpq hn
  rw [taggedLt_iff]
  apply lt_of_le_of_ne hpq
  intro heq
  exact hn (congrArg (fun x => (ofLex x).2) heq)

/-- In a strictly ascending list, what stands before an entry is what is below it. -/
theorem take_eq_filter {R : α → α → Prop} [DecidableRel R] (hirr : ∀ a, ¬ R a a) (hasymm : ∀ a b, R a b → ¬ R b a) :
    ∀ (l : List α) (p : Nat) (e : α), l.Pairwise R → l[p]? = some e → l.take p = l.filter fun x => R x e := by
  intro l
  induction l with
  | nil => intro p e _ h; simp at h
  | cons a l ih =>
    intro p e hp h
    rw [List.pairwise_cons] at hp
    cases p with
    | zero =>
      simp only [List.getElem?_cons_zero, Option.some.injEq] at h
      subst h
      rw [List.take_zero, List.filter_cons_of_neg (by simpa using hirr a), eq_comm, List.filter_eq_nil_iff]
      intro b hb
      simpa using hasymm a b (hp.1 b hb)
    | succ p =>
      rw [List.getElem?_cons_succ] at h
      rw [List.take_succ_cons, List.filter_cons_of_pos (by simpa using hp.1 e (List.mem_of_getElem? h)), ih p e hp.2 h]

/-- A property of every entry and of what stands before it, in the sorted list and in the
    unsorted one. -/
theorem sortBy_before_iff {P : α → List α → Prop} (hP : ∀ e xs ys, xs.Perm ys → (P e xs ↔ P e ys)) (l : List α) :
    (∀ p e, (sortBy key l)[p]? = some e → P e ((sortBy key l).take p)) ↔
      ∀ i e, l[i]? = some e → P e (sortsBefore key l i e) := by
  have hirr : ∀ q : α × Nat, ¬ TaggedLt key q q := by
    intro q
    rw [taggedLt_iff]
    exact lt_irrefl _
  have hasymm : ∀ q r : α × Nat, TaggedLt key q r → ¬ TaggedLt key r q := by
    intro q r
    rw [taggedLt_iff, taggedLt_iff]
    exact lt_asymm
  -- what stands before the entry tagged `i` in the sorted list
  have hbefore : ∀ p e i, (sortTagged key l.zipIdx)[p]? = some (e, i) →
      ((sortBy key l).take p).Perm (sortsBefore key l i e) := by
    intro p e i h
    rw [← sortTagged_zipIdx l 0, ← List.map_take, take_eq_filter hirr hasymm _ p _ (sortTagged_pairwise l) h]
    exact ((sortTagged_perm l.zipIdx).filter _).map _
  constructor
  · intro h i e hi
    have hmem : (e, i) ∈ sortTagged key l.zipIdx := by
      rw [(sortTagged_perm l.zipIdx).mem_iff]
      exact List.mk_mem_zipIdx_iff_getElem?.mpr hi
    obtain ⟨p, hp⟩ := List.getElem?_of_mem hmem
    rw [← hP e _ _ (hbefore p e i hp)]
    apply h p e
    rw [← sortTagged_zipIdx l 0, List.getElem?_map, hp]
    rfl
  · intro h p e hp
    rw [← sortTagged_zipIdx l 0, List.getElem?_map, Option.map_eq_some_iff] at hp
    obtain ⟨⟨e', i⟩, hq, rfl⟩ := hp
    rw [hP _ _ _ (hbefore p _ i hq)]
    apply h i
    have hmem := (sortTagged_perm l.zipIdx).mem_iff.mp (List.mem_of_getElem? hq)
    exact List.mk_mem_zipIdx_iff_getElem?.mp hmem

end Popcorn.Lib
