/-
  Popcorn.Lib.OrderedSet — sets kept in the order of a comparator, as `std::set` does.

  A set is the list of its elements in ascending order. The comparator compares keys, and
  two elements with the same key are one to the set: the first inserted stays. Where keys
  tell the elements apart, inserting them in any order gives the same set
  (`insertAll_members`, `insertAll_inOrder` and `sorted_ext`).
-/

import Mathlib.Data.List.Pairwise
import Mathlib.Data.List.Sort
import Mathlib.Order.Basic

namespace Popcorn.Lib

variable {α κ : Type} (lt : α → α → Bool)

/-- `std::set::insert`. -/
def setInsert (x : α) : List α → List α
  | [] => [x]
  | y :: l => if lt x y then x :: y :: l else if lt y x then y :: setInsert x l else y :: l

def insertAll (s xs : List α) : List α := xs.foldl (fun s x => setInsert lt x s) s

/-- InOrder in the order of the comparator. -/
def InOrder (l : List α) : Prop := l.Pairwise fun a b => lt a b = true

theorem mem_of_mem_setInsert {x y : α} : ∀ {l : List α}, y ∈ setInsert lt x l → y = x ∨ y ∈ l := by
  intro l
  induction l with
  | nil =>
    intro h
    exact .inl (List.mem_singleton.mp h)
  | cons z l ih =>
    intro h
    unfold setInsert at h
    split at h
    · exact List.mem_cons.mp h
    · split at h
      · obtain rfl | h := List.mem_cons.mp h
        · exact .inr List.mem_cons_self
        · exact (ih h).imp id (List.mem_cons_of_mem z)
      · exact .inr h

/-- Nothing leaves a set by an insertion. -/
theorem mem_setInsert_of_mem {x y : α} {l : List α} (h : y ∈ l) : y ∈ setInsert lt x l := by
  induction l with
  | nil => cases h
  | cons z l ih =>
    unfold setInsert
    split
    · exact List.mem_cons_of_mem x h
    · split
      · obtain rfl | h := List.mem_cons.mp h
        · exact List.mem_cons_self
        · exact List.mem_cons_of_mem z (ih h)
      · exact h

/-- Two comparators a list is in order for put two of its elements the same way round. -/
theorem InOrder.agree {lt lt' : α → α → Bool} {l : List α} (h : InOrder lt l) (h' : InOrder lt' l) {v w : α} (hv : v ∈ l)
    (hw : w ∈ l) (hne : v ≠ w) : (lt v w = true ∧ lt' v w = true) ∨ (lt w v = true ∧ lt' w v = true) := by
  let R (a b : α) : Prop := (lt a b = true ∧ lt' a b = true) ∨ (lt b a = true ∧ lt' b a = true)
  have hsym : Std.Symm R := ⟨fun _ _ h => h.symm⟩
  have hboth : l.Pairwise R := (List.pairwise_and_iff.mpr ⟨h, h'⟩).imp Or.inl
  exact hboth.forall hv hw hne

section
variable [LinearOrder κ] {key : α → κ} {lt} (hlt : ∀ a b, lt a b = true ↔ key a < key b)
include hlt

/-- An element is in the set after its insertion, or one with its key is. -/
theorem setInsert_key (x : α) (l : List α) : ∃ y ∈ setInsert lt x l, key y = key x := by
  induction l with
  | nil => exact ⟨x, List.mem_singleton.mpr rfl, rfl⟩
  | cons z l ih =>
    unfold setInsert
    split
    · exact ⟨x, List.mem_cons_self, rfl⟩
    · rename_i h1
      split
      · obtain ⟨y, hy, hk⟩ := ih
        exact ⟨y, List.mem_cons_of_mem z hy, hk⟩
      · rename_i h2
        rw [hlt, not_lt] at h1 h2
        exact ⟨z, List.mem_cons_self, le_antisymm h1 h2⟩

theorem setInsert_inOrder (x : α) {l : List α} (h : InOrder lt l) : InOrder lt (setInsert lt x l) := by
  induction l with
  | nil => exact List.pairwise_singleton _ _
  | cons z l ih =>
    obtain ⟨hz, hl⟩ := List.pairwise_cons.mp h
    unfold setInsert
    split
    · rename_i h1
      refine List.pairwise_cons.mpr ⟨?_, h⟩
      intro y hy
      obtain rfl | hy := List.mem_cons.mp hy
      · exact h1
      · exact (hlt x y).mpr (lt_trans ((hlt x z).mp h1) ((hlt z y).mp (hz y hy)))
    · split
      · rename_i h2
        refine List.pairwise_cons.mpr ⟨?_, ih hl⟩
        intro y hy
        obtain rfl | hy := mem_of_mem_setInsert lt hy
        · exact h2
        · exact hz y hy
      · exact h

theorem insertAll_inOrder {s : List α} (h : InOrder lt s) (xs : List α) : InOrder lt (insertAll lt s xs) := by
  induction xs generalizing s with
  | nil => exact h
  | cons x xs ih => exact ih (setInsert_inOrder hlt x h)

/-- Where keys tell the elements apart, all of them are in the set. -/
theorem insertAll_members (xs : List α) : ∀ s : List α, (∀ v ∈ s ++ xs, ∀ w ∈ s ++ xs, key v = key w → v = w) →
    ∀ v, v ∈ insertAll lt s xs ↔ v ∈ s ∨ v ∈ xs := by
  induction xs with
  | nil =>
    intro s _ v
    simp [insertAll]
  | cons x xs ih =>
    intro s hinj v
    have hmem : ∀ w, w ∈ setInsert lt x s ↔ w = x ∨ w ∈ s := by
      intro w
      refine ⟨mem_of_mem_setInsert lt, ?_⟩
      intro hw
      obtain rfl | hw := hw
      · obtain ⟨y, hy, hk⟩ := setInsert_key hlt w s
        have hys : y ∈ s ++ w :: xs := by
          obtain rfl | h := mem_of_mem_setInsert lt hy
          · simp
          · simp [h]
        rwa [hinj y hys w (by simp) hk] at hy
      · exact mem_setInsert_of_mem lt hw
    have hsub : ∀ w, w ∈ setInsert lt x s ++ xs → w ∈ s ++ x :: xs := by
      intro w hw
      rw [List.mem_append, hmem] at hw
      rw [List.mem_append, List.mem_cons]
      tauto
    show v ∈ insertAll lt (setInsert lt x s) xs ↔ _
    rw [ih _ (fun v hv w hw => hinj v (hsub v hv) w (hsub w hw)), hmem, List.mem_cons]
    tauto

/-- Two different elements of a set have different keys. -/
theorem InOrder.key_inj {l : List α} (h : InOrder lt l) {v w : α} (hv : v ∈ l) (hw : w ∈ l) (hk : key v = key w) : v = w := by
  by_contra hne
  have hsym : Std.Symm fun a b : α => key a ≠ key b := ⟨fun _ _ h => h.symm⟩
  exact (h.imp fun hab => ((hlt _ _).mp hab).ne).forall hv hw hne hk

theorem InOrder.nodup {l : List α} (h : InOrder lt l) : l.Nodup := by
  apply h.imp
  intro a b hab he
  rw [he, hlt] at hab
  exact lt_irrefl _ hab

/-- A set is determined by its elements, also when it was kept by another comparator that
    agrees on them. -/
theorem sorted_ext {lt' : α → α → Bool} {l l' : List α} (h : InOrder lt l) (h' : InOrder lt' l')
    (hagree : ∀ v ∈ l', ∀ w ∈ l', lt' v w = true → lt v w = true) (hmem : ∀ v, v ∈ l ↔ v ∈ l') : l = l' := by
  have hanti : Std.Antisymm fun a b => lt a b = true :=
    ⟨fun a b hab hba => absurd ((hlt b a).mp hba) (lt_asymm ((hlt a b).mp hab))⟩
  have hirr : Std.Irrefl fun a b => lt a b = true := ⟨fun a haa => lt_irrefl _ ((hlt a a).mp haa)⟩
  have h'' : l'.Pairwise fun a b => lt a b = true := h'.imp_of_mem fun {a b} ha hb hab => hagree a ha b hb hab
  exact List.Pairwise.eq_of_mem_iff h h'' hmem

end

end Popcorn.Lib
