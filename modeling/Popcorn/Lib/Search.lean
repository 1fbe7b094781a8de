/-
  Popcorn.Lib.Search — binary search over an indexed table.

  The loop keeps an inclusive window `[min, max]` of signed indices, as C code with
  `long` bounds does: an empty table starts with `max = -1`. `fuel` bounds the number
  of rounds; the size of the window is always enough, so the results below never
  mention it.

  Proved: an index found is in the table and holds the key, whatever the order of the
  table (`bsearch_sound`); over a strictly ascending table a key that is present is
  found (`bsearch_complete`), so the search decides membership (`bsearch_list_iff`).

  A search for the interval around a key looks at the next entry as well. Its window
  (`Window`) holds the greatest entry not above the key, unless all entries are above it;
  the lemmas say how the window moves and what an empty one means.
-/

import Mathlib.Data.List.GetD
import Mathlib.Order.Lattice
import Mathlib.Tactic.Common

namespace Popcorn.Lib

variable {κ : Type} [LinearOrder κ]

def bsearchLoop (key : Nat → κ) (k : κ) : Nat → Int → Int → Option Nat
  | 0, _, _ => none
  | fuel + 1, min, max =>
    if max ≥ min then
      let mid := (max + min) / 2
      if key mid.toNat = k then some mid.toNat
      else if k > key mid.toNat then bsearchLoop key k fuel (mid + 1) max
      else bsearchLoop key k fuel min (mid - 1)
    else none

def bsearch (n : Nat) (key : Nat → κ) (k : κ) : Option Nat := bsearchLoop key k n 0 ((n : Int) - 1)

theorem bsearchLoop_sound (key : Nat → κ) (k : κ) : ∀ (fuel : Nat) (min max : Int) (i : Nat), 0 ≤ min →
    bsearchLoop key k fuel min max = some i → min ≤ i ∧ (i : Int) ≤ max ∧ key i = k := by
  intro fuel
  induction fuel with
  | zero => intro min max i _ h; cases h
  | succ fuel ih =>
    intro min max i h0 h
    simp only [bsearchLoop] at h
    split at h
    · rename_i hle
      split at h
      · rename_i he
        cases h
        exact ⟨by omega, by omega, he⟩
      · split at h
        · obtain ⟨h1, h2, h3⟩ := ih _ _ _ (by omega) h
          exact ⟨by omega, h2, h3⟩
        · obtain ⟨h1, h2, h3⟩ := ih _ _ _ h0 h
          exact ⟨h1, by omega, h3⟩
    · cases h

/-- An index found lies in the table and holds the key. No order is needed. -/
theorem bsearch_sound {n : Nat} {key : Nat → κ} {k : κ} {i : Nat} (h : bsearch n key k = some i) : i < n ∧ key i = k := by
  obtain ⟨h1, h2, h3⟩ := bsearchLoop_sound key k n 0 _ i (by omega) h
  exact ⟨by omega, h3⟩

/-- A strictly ascending table: `key` is strictly increasing below `n`. -/
def Ascending (n : Nat) (key : Nat → κ) : Prop := ∀ i j, i < j → j < n → key i < key j

theorem Ascending.inj {n : Nat} {key : Nat → κ} (h : Ascending n key) {i j : Nat} (hi : i < n) (hj : j < n)
    (e : key i = key j) : i = j := by
  rcases Nat.lt_trichotomy i j with hlt | rfl | hlt
  · exact absurd e (ne_of_lt (h i j hlt hj))
  · rfl
  · exact absurd e.symm (ne_of_lt (h j i hlt hi))

theorem bsearchLoop_complete {n : Nat} {key : Nat → κ} (hs : Ascending n key) : ∀ (fuel : Nat) (min max : Int) (i : Nat),
    0 ≤ min → max < n → max - min < fuel → min ≤ i → (i : Int) ≤ max → bsearchLoop key (key i) fuel min max = some i := by
  intro fuel
  induction fuel with
  | zero => intro min max i _ _ _ _ _; omega
  | succ fuel ih =>
    intro min max i h0 hn hf h1 h2
    simp only [bsearchLoop]
    rw [if_pos (by omega)]
    by_cases he : key ((max + min) / 2).toNat = key i
    · rw [if_pos he, hs.inj (by omega) (by omega) he]
    rw [if_neg he]
    by_cases hgt : key i > key ((max + min) / 2).toNat
    · -- Everything up to the middle is below the key, so it lies to the right.
      have hlt : ((max + min) / 2).toNat < i := by
        by_contra hc
        rcases Nat.lt_or_eq_of_le (Nat.le_of_not_lt hc) with hlt | rfl
        · exact absurd (hs _ _ hlt (by omega)) (not_lt_of_gt hgt)
        · exact he rfl
      rw [if_pos hgt]
      exact ih _ _ i (by omega) hn (by omega) (by omega) h2
    · have hlt : i < ((max + min) / 2).toNat := by
        by_contra hc
        rcases Nat.lt_or_eq_of_le (Nat.le_of_not_lt hc) with hlt | hlt
        · exact hgt (hs _ _ hlt (by omega))
        · exact he (by rw [hlt])
      rw [if_neg hgt]
      exact ih _ _ i h0 (by omega) (by omega) h1 (by omega)

theorem bsearch_complete {n : Nat} {key : Nat → κ} (hs : Ascending n key) {i : Nat} (hi : i < n) :
    bsearch n key (key i) = some i :=
  bsearchLoop_complete hs n 0 _ i (by omega) (by omega) (by omega) (by omega) (by omega)

/-! ## Tables as lists -/

section Lists

variable {α : Type} {xs : List α} {d : α} (key : α → κ) {k : κ} {x : α}

theorem bsearch_list_mem (h : (bsearch xs.length (fun i => key (xs.getD i d)) k).map (xs.getD · d) = some x) :
    x ∈ xs ∧ key x = k := by
  rw [Option.map_eq_some_iff] at h
  obtain ⟨i, hi, rfl⟩ := h
  obtain ⟨hlt, hk⟩ := bsearch_sound hi
  refine ⟨?_, hk⟩
  rw [List.getD_eq_getElem _ _ hlt]
  exact List.getElem_mem hlt

theorem ascending_of_pairwise (hs : xs.Pairwise (key · < key ·)) : Ascending xs.length (fun i => key (xs.getD i d)) := by
  intro i j hij hj
  simp only [List.getD_eq_getElem _ _ hj, List.getD_eq_getElem _ _ (Nat.lt_trans hij hj)]
  exact List.pairwise_iff_getElem.mp hs i j _ hj hij

/-- In an ascending table the search finds exactly the element with the key. -/
theorem bsearch_list_iff (hs : xs.Pairwise (key · < key ·)) :
    (bsearch xs.length (fun i => key (xs.getD i d)) k).map (xs.getD · d) = some x ↔ x ∈ xs ∧ key x = k := by
  constructor
  · exact bsearch_list_mem key
  · rintro ⟨hx, rfl⟩
    obtain ⟨i, hi, rfl⟩ := List.getElem_of_mem hx
    rw [Option.map_eq_some_iff]
    refine ⟨i, ?_, List.getD_eq_getElem _ _ hi⟩
    have := bsearch_complete (ascending_of_pairwise (d := d) key hs) hi
    rwa [List.getD_eq_getElem _ _ hi] at this

end Lists

/-! ## Interval search -/

/-- The window `[min, max]` of a search for the greatest entry not above `k`. -/
structure Window (n : Nat) (key : Nat → κ) (k : κ) (min max : Int) : Prop where
  nonneg : 0 ≤ min
  lt : max < n
  succ_le : min ≤ max + 1
  left : 0 < min → min < n ∧ key min.toNat ≤ k
  right : max + 1 < n → k < key (max + 1).toNat

section Window

variable {n : Nat} {key : Nat → κ} {k : κ} {min max mid : Int}

theorem Window.start (n : Nat) (key : Nat → κ) (k : κ) : Window n key k 0 ((n : Int) - 1) where
  nonneg := Int.le_refl 0
  lt := by omega
  succ_le := by omega
  left h := absurd h (Int.lt_irrefl 0)
  right h := absurd h (by omega)

/-- The key is above the interval of `mid`. -/
theorem Window.goRight (h : Window n key k min max) (h0 : min ≤ mid) (h1 : mid ≤ max) (hn : mid + 1 < n)
    (hk : key (mid + 1).toNat ≤ k) : Window n key k (mid + 1) max where
  nonneg := by have := h.nonneg; omega
  lt := h.lt
  succ_le := by omega
  left _ := ⟨hn, hk⟩
  right := h.right

/-- The key is below the interval of `mid`. -/
theorem Window.goLeft (h : Window n key k min max) (h0 : min ≤ mid) (h1 : mid ≤ max) (hk : k < key mid.toNat) :
    Window n key k min (mid - 1) where
  nonneg := h.nonneg
  lt := by have := h.lt; omega
  succ_le := by omega
  left := h.left
  right _ := by rwa [Int.sub_add_cancel]

/-- An empty window: all entries are above the key. -/
theorem Window.empty (h : Window n key k min max) (hs : Ascending n key) (he : max < min) : ∀ i < n, k < key i := by
  have hmin : min = 0 := by
    by_contra hne
    have h0 := h.nonneg
    obtain ⟨hlt, hle⟩ := h.left (by omega)
    have hgt := h.right (by have := h.succ_le; omega)
    rw [show max + 1 = min by have := h.succ_le; omega] at hgt
    exact absurd hle (not_le_of_gt hgt)
  intro i hi
  have hmax : max + 1 = 0 := by
    have := h.succ_le
    omega
  have hgt := h.right (by omega)
  rw [hmax] at hgt
  cases i with
  | zero => exact hgt
  | succ i => exact lt_trans hgt (hs 0 (i + 1) (Nat.succ_pos i) hi)

/-- The last entry is in the window only if the key is not below it, or if it is the only one. -/
theorem Window.last (h : Window n key k min max) (h0 : min ≤ mid) (h1 : mid ≤ max)
    (hmid : mid = (max + min) / 2) (hlast : mid + 1 = n) (hk : k < key mid.toNat) : ∀ i < n, k < key i := by
  have hmin : min = mid := by have := h.lt; omega
  have hzero : ¬ 0 < min := by
    intro hpos
    have := (h.left hpos).2
    rw [hmin] at this
    exact absurd this (not_le_of_gt hk)
  intro i hi
  obtain rfl : i = mid.toNat := by
    have := h.nonneg
    omega
  exact hk

end Window

end Popcorn.Lib
