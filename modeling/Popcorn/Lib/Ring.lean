/-
  Popcorn.Lib.Ring — circular buffers.

  `ring q size head n` is what a circular buffer of `size` slots holds: `n` entries from
  slot `head` on. A push writes the slot after the last entry, a pop moves the head.
-/

import Mathlib.Data.List.Basic
import Mathlib.Logic.Function.Basic
import Mathlib.Tactic.Common

namespace Popcorn.Lib

variable {α : Type} {q : Nat → α} {size head n : Nat}

def ring (q : Nat → α) (size head n : Nat) : List α := (List.range n).map fun i => q ((head + i) % size)

/-- Two entries of a ring that is not longer than the buffer are in different slots. -/
theorem ring_slot_ne {i j : Nat} (hij : i < j) (hj : j < size) : (head + i) % size ≠ (head + j) % size := by
  intro he
  have hd : size ∣ (head + j) - (head + i) := Nat.dvd_of_mod_eq_zero (Nat.sub_mod_eq_zero_of_mod_eq he.symm)
  have := Nat.le_of_dvd (by omega) hd
  omega

theorem ring_push (v : α) (hn : n < size) :
    ring (Function.update q ((head + n) % size) v) size head (n + 1) = ring q size head n ++ [v] := by
  unfold ring
  rw [List.range_succ, List.map_append]
  congr 1
  · apply List.map_congr_left
    intro i hi
    exact Function.update_of_ne (ring_slot_ne (List.mem_range.mp hi) hn) _ _
  · simp

theorem ring_pop : ring q size head (n + 1) = q (head % size) :: ring q size ((head + 1) % size) n := by
  unfold ring
  rw [List.range_succ_eq_map, List.map_cons, List.map_map]
  congr 1
  apply List.map_congr_left
  intro i _
  show q ((head + (i + 1)) % size) = q (((head + 1) % size + i) % size)
  rw [Nat.mod_add_mod, Nat.add_assoc, Nat.add_comm 1]

end Popcorn.Lib
