/-
  Popcorn.Lib.Delete — every occurrence of a pattern deleted.

  `deleteAll` reads a list from the left; where the pattern starts it is left out, and the
  search goes on behind it. The pattern is not empty. What is deleted is seen by counting an
  element: one that the pattern has not keeps its count (`count_deleteAll_of_notMem`), one that
  it has loses from it where the pattern occurs (`count_deleteAll_lt`).
-/

import Mathlib.Data.List.Basic
import Mathlib.Data.List.Infix
import Mathlib.Tactic.Common

namespace Popcorn.Lib

variable {α : Type} [DecidableEq α]

/-- `skip` elements of an occurrence are still to be left out. -/
def deleteFrom (pat : List α) : Nat → List α → List α
  | _, [] => []
  | skip + 1, _ :: s => deleteFrom pat skip s
  | 0, c :: s => if pat.isPrefixOf (c :: s) then deleteFrom pat (pat.length - 1) s else c :: deleteFrom pat 0 s

def deleteAll (pat s : List α) : List α := deleteFrom pat 0 s

variable {pat : List α}

/-- No occurrence of the pattern overlaps another one. -/
def Unbordered (pat : List α) : Prop := ∀ s, s ≠ [] → s <+: pat → s <:+ pat → s = pat

instance (pat : List α) : Decidable (Unbordered pat) :=
  decidable_of_iff (∀ s ∈ pat.inits, s ≠ [] → s ∈ pat.tails → s = pat) (by simp only [Unbordered, List.mem_inits, List.mem_tails]; exact
    ⟨fun h s hs hp hsuf => h s hp hs hsuf, fun h s hp hs hsuf => h s hs hp hsuf⟩)

theorem deleteFrom_skip (pat : List α) (skip : Nat) (s : List α) : deleteFrom pat skip s = deleteAll pat (s.drop skip) := by
  induction skip generalizing s with
  | zero => rfl
  | succ skip ih =>
    cases s with
    | nil => rfl
    | cons c s => exact ih s

@[simp] theorem deleteAll_nil (pat : List α) : deleteAll pat [] = [] := rfl

theorem deleteAll_cons_kept {c : α} {s : List α} (h : ¬ pat <+: c :: s) : deleteAll pat (c :: s) = c :: deleteAll pat s := by
  unfold deleteAll
  rw [deleteFrom, if_neg (by rwa [List.isPrefixOf_iff_prefix])]

theorem deleteAll_append (hne : pat ≠ []) (s : List α) : deleteAll pat (pat ++ s) = deleteAll pat s := by
  cases pat with
  | nil => exact absurd rfl hne
  | cons c pat =>
    have hp : (c :: pat).isPrefixOf (c :: (pat ++ s)) = true := List.isPrefixOf_iff_prefix.mpr (List.prefix_append (c :: pat) s)
    show deleteFrom (c :: pat) 0 (c :: (pat ++ s)) = _
    rw [deleteFrom, if_pos hp, deleteFrom_skip]
    show deleteAll (c :: pat) ((pat ++ s).drop pat.length) = _
    rw [List.drop_left]

/-- By cases: nothing is left, the list starts with the pattern, or it does not. -/
theorem deleteAll_induct {P : List α → Prop} (hne : pat ≠ []) (hnil : P []) (hat : ∀ s, P s → P (pat ++ s))
    (hcons : ∀ c s, ¬ pat <+: c :: s → P s → P (c :: s)) (s : List α) : P s := by
  induction hlen : s.length using Nat.strongRecOn generalizing s with
  | ind n ih =>
    cases s with
    | nil => exact hnil
    | cons c s =>
      by_cases h : pat <+: c :: s
      · obtain ⟨rest, hrest⟩ := h
        rw [← hrest] at hlen ⊢
        have hpos := List.length_pos_iff.mpr hne
        rw [List.length_append] at hlen
        exact hat rest (ih rest.length (by omega) rest rfl)
      · exact hcons c s h (ih s.length (by rw [← hlen]; exact Nat.lt_succ_self _) s rfl)

/-- Without an occurrence nothing is deleted. -/
theorem deleteAll_of_absent {s : List α} (h : ¬ pat <:+: s) : deleteAll pat s = s := by
  induction s with
  | nil => rfl
  | cons c s ih =>
    rw [deleteAll_cons_kept fun hp => h hp.isInfix, ih fun hi => h (hi.trans (List.suffix_cons c s).isInfix)]

theorem count_deleteAll_of_notMem (hne : pat ≠ []) {a : α} (ha : a ∉ pat) (s : List α) : (deleteAll pat s).count a = s.count a := by
  induction s using deleteAll_induct hne with
  | hnil => rfl
  | hat s ih => rw [deleteAll_append hne, ih, List.count_append, List.count_eq_zero_of_not_mem ha, Nat.zero_add]
  | hcons c s h ih => rw [deleteAll_cons_kept h, List.count_cons, List.count_cons, ih]

theorem count_deleteAll_le (hne : pat ≠ []) (a : α) (s : List α) : (deleteAll pat s).count a ≤ s.count a := by
  induction s using deleteAll_induct hne with
  | hnil => exact Nat.le_refl _
  | hat s ih =>
    rw [deleteAll_append hne, List.count_append]
    omega
  | hcons c s h ih =>
    rw [deleteAll_cons_kept h, List.count_cons, List.count_cons]
    omega

theorem count_deleteAll_lt {a : α} (ha : a ∈ pat) {s : List α} (h : pat <:+: s) : (deleteAll pat s).count a < s.count a := by
  have hne : pat ≠ [] := List.ne_nil_of_mem ha
  have hpos := List.count_pos_iff.mpr ha
  induction s using deleteAll_induct hne with
  | hnil => exact absurd (List.infix_nil.mp h) hne
  | hat s ih =>
    have := count_deleteAll_le hne a s
    rw [deleteAll_append hne, List.count_append]
    omega
  | hcons c s hnot ih =>
    rw [deleteAll_cons_kept hnot, List.count_cons, List.count_cons]
    have := ih ((List.infix_cons_iff.mp h).resolve_left hnot)
    omega

/-- An occurrence at the end is deleted with the others. -/
theorem deleteAll_snoc (hne : pat ≠ []) (hborder : Unbordered pat) (s : List α) :
    deleteAll pat (s ++ pat) = deleteAll pat s := by
  induction s using deleteAll_induct hne with
  | hnil =>
    have h := deleteAll_append hne []
    rwa [List.append_nil] at h
  | hat s ih => rw [List.append_assoc, deleteAll_append hne, deleteAll_append hne, ih]
  | hcons c s h ih =>
    have hnot : ¬ pat <+: c :: (s ++ pat) := by
      rintro ⟨rest, hrest⟩
      rw [← List.cons_append] at hrest
      rcases List.append_eq_append_iff.mp hrest with ⟨more, hmore, -⟩ | ⟨tail, htail, hpat⟩
      · exact h (hmore ▸ List.prefix_append pat more)
      · -- the pattern would start in `s` and end in its own copy
        by_cases hempty : tail = []
        · rw [hempty, List.append_nil] at htail
          exact h (htail ▸ List.prefix_refl _)
        · have heq := hborder tail hempty (hpat ▸ List.prefix_append tail rest) (htail ▸ List.suffix_append (c :: s) tail)
          have hlen := congrArg List.length htail
          rw [heq, List.length_append, List.length_cons] at hlen
          omega
    rw [List.cons_append, deleteAll_cons_kept hnot, deleteAll_cons_kept h, ih]

end Popcorn.Lib
