/-
  Popcorn.Lib.Ranges — byte ranges that stay apart, and writes to them.

  A range is where it starts and how long it is; an empty one is apart from every other.
  Writes to ranges that are pairwise apart keep each other's bytes, in any order
  (`load_storeAll`).
-/

import Popcorn.Lib.Bytes

namespace Popcorn.Lib

abbrev Range := Nat × Nat

def Range.Apart (a b : Range) : Prop := a.2 = 0 ∨ b.2 = 0 ∨ a.1 + a.2 ≤ b.1 ∨ b.1 + b.2 ≤ a.1

instance (a b : Range) : Decidable (a.Apart b) := inferInstanceAs (Decidable (_ ∨ _))

theorem Range.Apart.symm {a b : Range} (h : a.Apart b) : b.Apart a := by
  unfold Apart at *
  omega

/-- Ranges that change their length in place stay apart just when what each gains at its end is
    apart from the other. -/
theorem Range.Apart.resize_iff {a b s s' t t' : Nat} (h : Range.Apart (a, s) (b, t)) :
    Range.Apart (a, s') (b, t') ↔ Range.Apart (a + s, s' - s) (b, t') ∧ Range.Apart (b + t, t' - t) (a, s') := by
  unfold Apart at *
  dsimp only at *
  omega

/-! ## Writes -/

abbrev Write := Nat × List UInt8

def Write.range (w : Write) : Range := (w.1, w.2.length)

def storeAll (m : Mem) (ws : List Write) : Mem := ws.foldl (fun m w => store m w.1 w.2) m

theorem storeAll_cons (m : Mem) (w : Write) (ws : List Write) : storeAll m (w :: ws) = storeAll (store m w.1 w.2) ws := rfl

/-- Writes elsewhere leave a range as it is. -/
theorem load_storeAll_apart {m : Mem} {a n : Nat} {ws : List Write} (h : ∀ w ∈ ws, Range.Apart (a, n) w.range) :
    load (storeAll m ws) a n = load m a n := by
  induction ws generalizing m with
  | nil => rfl
  | cons w ws ih =>
    rw [storeAll_cons, ih fun w' hw' => h w' (List.mem_cons_of_mem _ hw')]
    have hw := h w (by simp)
    by_cases hn : n = 0
    · simp [hn, load]
    by_cases hl : w.2.length = 0
    · have hnil : w.2 = [] := List.length_eq_zero_iff.mp hl
      congr 1
      funext x
      simp only [store, hnil, List.length_nil]
      rw [if_neg (by omega)]
    · apply load_store_disj
      simp only [Range.Apart, Write.range] at hw
      omega

/-- Each of several writes to ranges that are pairwise apart can be read back. -/
theorem load_storeAll {m : Mem} {ws : List Write} (h : ws.Pairwise fun a b => a.range.Apart b.range) {w : Write} (hw : w ∈ ws) :
    load (storeAll m ws) w.1 w.2.length = w.2 := by
  induction ws generalizing m with
  | nil => cases hw
  | cons v ws ih =>
    obtain ⟨hv, hws⟩ := List.pairwise_cons.mp h
    rw [storeAll_cons]
    rcases List.mem_cons.mp hw with rfl | hw
    · rw [load_storeAll_apart hv, load_store_same]
    · exact ih hws hw

end Popcorn.Lib
