/-
  Popcorn.Lib.Concat — the slices of a concatenation.

  A table made by appending one list per element keeps, for each element, the offset
  its list starts at. `sliceStart f xs k` is that offset for the `k`-th element: the slice
  there is the element's own list (`slice_eq`), every position of the table lies in
  some slice (`slice_cover`) and in no other (`slice_unique`), and what follows a slice is the
  start of another one (`slice_next`). Covering and uniqueness hold of any ascending sequence
  of starts (`block_cover`, `block_unique`).
-/

import Mathlib.Data.List.Basic
import Mathlib.Tactic.Common

namespace Popcorn.Lib

/-! ## Blocks between ascending starts -/

theorem block_cover {s : Nat → Nat} {i n : Nat} (h0 : s 0 ≤ i) (hi : i < s n) : ∃ k < n, s k ≤ i ∧ i < s (k + 1) := by
  induction n with
  | zero => omega
  | succ n ih =>
    by_cases hlt : i < s n
    · obtain ⟨k, hk, hb⟩ := ih hlt
      exact ⟨k, by omega, hb⟩
    · exact ⟨n, by omega, by omega, hi⟩

theorem block_unique {s : Nat → Nat} (hs : ∀ j k, j ≤ k → s j ≤ s k) {i k l : Nat} (hk : s k ≤ i ∧ i < s (k + 1))
    (hl : s l ≤ i ∧ i < s (l + 1)) : k = l := by
  rcases Nat.lt_trichotomy k l with h | h | h
  · have := hs (k + 1) l h
    omega
  · exact h
  · have := hs (l + 1) k h
    omega

/-! ## Slices -/

variable {α β : Type} (f : α → List β) (xs : List α)

def sliceStart (k : Nat) : Nat := ((xs.take k).flatMap f).length

theorem sliceStart_mono {k l : Nat} (h : k ≤ l) : sliceStart f xs k ≤ sliceStart f xs l := by
  obtain ⟨d, rfl⟩ := Nat.exists_eq_add_of_le h
  rw [sliceStart, sliceStart, List.take_add, List.flatMap_append, List.length_append]
  exact Nat.le_add_right _ _

variable {f xs}

theorem sliceStart_succ {k : Nat} {x : α} (h : xs[k]? = some x) : sliceStart f xs (k + 1) = sliceStart f xs k + (f x).length := by
  simp [sliceStart, List.take_add_one, h]

theorem sliceStart_length : sliceStart f xs xs.length = (xs.flatMap f).length := by rw [sliceStart, List.take_length]

theorem slice_le {k : Nat} {x : α} (h : xs[k]? = some x) : sliceStart f xs k + (f x).length ≤ (xs.flatMap f).length := by
  rw [← sliceStart_succ h, ← sliceStart_length]
  exact sliceStart_mono f xs (List.getElem?_eq_some_iff.mp h).1

theorem slice_eq {k : Nat} {x : α} (h : xs[k]? = some x) :
    ((xs.flatMap f).drop (sliceStart f xs k)).take (f x).length = f x := by
  obtain ⟨hk, rfl⟩ := List.getElem?_eq_some_iff.mp h
  have hsplit : xs.flatMap f = (xs.take k).flatMap f ++ (f xs[k] ++ (xs.drop (k + 1)).flatMap f) := by
    conv_lhs => rw [← List.take_append_drop k xs, List.drop_eq_getElem_cons hk]
    rw [List.flatMap_append, List.flatMap_cons]
  rw [hsplit, sliceStart, List.drop_left, List.take_left]

theorem slice_cover (i : Nat) (hi : i < (xs.flatMap f).length) :
    ∃ k x, xs[k]? = some x ∧ sliceStart f xs k ≤ i ∧ i < sliceStart f xs k + (f x).length := by
  rw [← sliceStart_length] at hi
  obtain ⟨k, hk, h1, h2⟩ := block_cover (s := sliceStart f xs) (Nat.zero_le i) hi
  have hx := List.getElem?_eq_getElem hk
  rw [sliceStart_succ hx] at h2
  exact ⟨k, _, hx, h1, h2⟩

theorem slice_unique {i k l : Nat} {x y : α} (hx : xs[k]? = some x) (hy : xs[l]? = some y)
    (hk : sliceStart f xs k ≤ i ∧ i < sliceStart f xs k + (f x).length) (hl : sliceStart f xs l ≤ i ∧ i < sliceStart f xs l + (f y).length) :
    k = l := by
  rw [← sliceStart_succ hx] at hk
  rw [← sliceStart_succ hy] at hl
  exact block_unique (fun _ _ => sliceStart_mono f xs) hk hl

/-- Behind a slice another one starts, if anything does. -/
theorem slice_next {k : Nat} {x : α} (hx : xs[k]? = some x) (hlt : sliceStart f xs k + (f x).length < (xs.flatMap f).length) :
    ∃ y ∈ xs, ∃ z zs, f y = z :: zs ∧ (xs.flatMap f)[sliceStart f xs k + (f x).length]? = some z := by
  obtain ⟨l, y, hy, h1, h2⟩ := slice_cover _ hlt
  rw [← sliceStart_succ hx] at h1 h2 ⊢
  have hl : k + 1 ≤ l := by
    by_contra hc
    have := sliceStart_mono f xs (show l + 1 ≤ k + 1 by omega)
    rw [sliceStart_succ hy] at this
    omega
  have hstart := sliceStart_mono f xs hl
  have hslice := slice_eq (f := f) hy
  cases hf : f y with
  | nil =>
    rw [hf, List.length_nil] at h2
    omega
  | cons z zs =>
    refine ⟨y, List.mem_of_getElem? hy, z, zs, hf, ?_⟩
    have hget := congrArg (·[0]?) hslice
    rw [hf] at hget
    rw [show sliceStart f xs (k + 1) = sliceStart f xs l by omega]
    simpa [List.getElem?_take, List.getElem?_drop] using hget

end Popcorn.Lib
