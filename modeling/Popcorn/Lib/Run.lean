/-
  Popcorn.Lib.Run — runs of fallible code.

  A loop of C code that can fail is a monadic fold in `Except`. `bind_ok` peels a
  sequence of steps apart; `foldlM_inv` is the invariant rule of the loop, with the
  invariant indexed by the elements consumed so far, `foldlM_range` the one of a counting
  loop and `foldlM_total` the one of a loop that does not fail; `foldlM_flatMap` turns two
  nested loops into one. `Ends` says how a run may end: with a value that has a property, or
  with an error of an allowed kind.
-/

import Mathlib.Data.List.Basic
import Mathlib.Tactic.Common

namespace Popcorn.Lib

variable {ε α β γ σ : Type}

theorem bind_ok {x : Except ε α} {f : α → Except ε β} {b : β} : (x >>= f) = .ok b ↔ ∃ a, x = .ok a ∧ f a = .ok b := by
  cases x with
  | error e =>
    constructor
    · intro h; cases h
    · rintro ⟨a, h, -⟩; cases h
  | ok a =>
    constructor
    · intro h; exact ⟨a, rfl, h⟩
    · rintro ⟨a', h, hf⟩; cases h; exact hf

/-- The invariant rule of a loop that consumes a list from the left. -/
theorem foldlM_inv {f : σ → α → Except ε σ} {P : List α → σ → Prop}
    (hstep : ∀ done x s s', P done s → f s x = .ok s' → P (done ++ [x]) s') :
    ∀ (rest done : List α) (s s' : σ), P done s → rest.foldlM f s = .ok s' → P (done ++ rest) s' := by
  intro rest
  induction rest with
  | nil =>
    intro done s s' hp h
    cases h
    rwa [List.append_nil]
  | cons x rest ih =>
    intro done s s' hp h
    rw [List.foldlM_cons, bind_ok] at h
    obtain ⟨s1, h1, h2⟩ := h
    have := ih _ _ _ (hstep done x s s1 hp h1) h2
    rwa [List.append_assoc] at this

/-- The invariant rule of a loop over a list, with the invariant indexed by the round. -/
theorem foldlM_index {f : σ → α → Except ε σ} {P : Nat → σ → Prop} {xs : List α} {s s' : σ}
    (hstep : ∀ i x s s', xs[i]? = some x → P i s → f s x = .ok s' → P (i + 1) s') (h0 : P 0 s) (h : xs.foldlM f s = .ok s') :
    P xs.length s' := by
  induction xs generalizing P s with
  | nil =>
    cases h
    exact h0
  | cons x xs ih =>
    rw [List.foldlM_cons, bind_ok] at h
    obtain ⟨s1, h1, h2⟩ := h
    exact ih (P := fun i => P (i + 1)) (fun i y s s' hy => hstep (i + 1) y s s' hy) (hstep 0 x s s1 rfl h0 h1) h2

/-- Every round of a loop that ends was carried out in some state. -/
theorem foldlM_each {f : σ → α → Except ε σ} {xs : List α} {s s' : σ} (h : xs.foldlM f s = .ok s') :
    ∀ x ∈ xs, ∃ s1 s2, f s1 x = .ok s2 := by
  induction xs generalizing s with
  | nil => exact fun x hx => absurd hx List.not_mem_nil
  | cons x xs ih =>
    rw [List.foldlM_cons, bind_ok] at h
    obtain ⟨s1, h1, h2⟩ := h
    intro y hy
    obtain rfl | hy := List.mem_cons.mp hy
    · exact ⟨s, s1, h1⟩
    · exact ih h2 y hy

/-- The invariant rule of a counting loop. -/
theorem foldlM_range {f : σ → Nat → Except ε σ} {P : Nat → σ → Prop} (len start : Nat) {s s' : σ}
    (hstep : ∀ k s s', start ≤ k → k < start + len → P k s → f s k = .ok s' → P (k + 1) s')
    (h : (List.range' start len).foldlM f s = .ok s') (h0 : P start s) : P (start + len) s' := by
  induction len generalizing start s with
  | zero =>
    cases h
    exact h0
  | succ len ih =>
    rw [List.range'_succ, List.foldlM_cons, bind_ok] at h
    obtain ⟨s1, h1, h2⟩ := h
    have hs1 := hstep start s s1 (Nat.le_refl _) (by omega) h0 h1
    have := ih (start + 1) (fun k s s' hk hlt => hstep k s s' (by omega) (by omega)) h2 hs1
    rwa [show start + 1 + len = start + (len + 1) by omega] at this

/-- The invariant rule of a loop that cannot fail; a round knows where in the list it is. -/
theorem foldl_inv {f : σ → α → σ} {P : List α → σ → Prop} (xs : List α) {s : σ} (h0 : P [] s)
    (hstep : ∀ done x rest s, xs = done ++ x :: rest → P done s → P (done ++ [x]) (f s x)) : P xs (xs.foldl f s) := by
  have key : ∀ (rest done : List α) (s : σ), xs = done ++ rest → P done s → P (done ++ rest) (rest.foldl f s) := by
    intro rest
    induction rest with
    | nil => intro done s _ hp; rwa [List.append_nil]
    | cons x rest ih =>
      intro done s hxs hp
      have := ih (done ++ [x]) (f s x) (by rw [hxs, List.append_assoc]; rfl) (hstep done x rest s hxs hp)
      rwa [List.append_assoc] at this
  exact key xs [] s rfl h0

/-- A loop none of whose rounds can fail does not fail. -/
theorem foldlM_ok {f : σ → α → Except ε σ} {xs : List α} (h : ∀ x ∈ xs, ∀ s, ∃ s', f s x = .ok s') :
    ∀ s, ∃ s', xs.foldlM f s = .ok s' := by
  induction xs with
  | nil => intro s; exact ⟨s, rfl⟩
  | cons x xs ih =>
    intro s
    obtain ⟨s1, h1⟩ := h x (by simp) s
    obtain ⟨s2, h2⟩ := ih (fun y hy => h y (by simp [hy])) s1
    exact ⟨s2, by rw [List.foldlM_cons, bind_ok]; exact ⟨s1, h1, h2⟩⟩

/-- The rule of a loop that could fail and does not. -/
theorem foldlM_total {f : σ → α → Option σ} {P : List α → σ → Prop} (xs : List α) {s : σ} (h0 : P [] s)
    (hstep : ∀ done x rest s, xs = done ++ x :: rest → P done s → ∃ s', f s x = some s' ∧ P (done ++ [x]) s') :
    ∃ s', xs.foldlM f s = some s' ∧ P xs s' := by
  have key : ∀ (rest done : List α) (s : σ), xs = done ++ rest → P done s → ∃ s', rest.foldlM f s = some s' ∧ P (done ++ rest) s' := by
    intro rest
    induction rest with
    | nil => intro done s _ hp; exact ⟨s, rfl, by rwa [List.append_nil]⟩
    | cons x rest ih =>
      intro done s hxs hp
      obtain ⟨s1, h1, hp1⟩ := hstep done x rest s hxs hp
      obtain ⟨s2, h2, hp2⟩ := ih (done ++ [x]) s1 (by rw [hxs, List.append_assoc]; rfl) hp1
      refine ⟨s2, ?_, by rwa [List.append_assoc] at hp2⟩
      rw [List.foldlM_cons, h1]
      exact h2
  exact key xs [] s rfl h0

/-- Two nested loops visit the flattened list. -/
theorem foldlM_flatMap {f : σ → β → Except ε σ} {g : α → List β} (xs : List α) :
    ∀ s, (xs.flatMap g).foldlM f s = xs.foldlM (fun s x => (g x).foldlM f s) s := by
  induction xs with
  | nil => intro s; rfl
  | cons x xs ih =>
    intro s
    rw [List.flatMap_cons, List.foldlM_append, List.foldlM_cons]
    exact congrArg _ (funext ih)

/-- A traversal in which no step fails. -/
theorem mapM_some {f : α → Option β} {g : α → β} {l : List α} (h : ∀ x ∈ l, f x = some (g x)) : l.mapM f = some (l.map g) := by
  induction l with
  | nil => rfl
  | cons x l ih =>
    rw [List.mapM_cons, h x List.mem_cons_self, ih fun y hy => h y (List.mem_cons_of_mem x hy)]
    rfl

/-! ## Runs that may fail -/

/-- The run returns a value with `P`, or fails with an error that `E` allows. -/
def Ends (E : ε → Prop) (P : α → Prop) : Except ε α → Prop
  | .ok a => P a
  | .error e => E e

theorem Ends.bind {E : ε → Prop} {P : α → Prop} {Q : β → Prop} {x : Except ε α} {f : α → Except ε β} (h : Ends E P x)
    (hf : ∀ a, P a → Ends E Q (f a)) : Ends E Q (x >>= f) := by
  cases x with
  | error e => exact h
  | ok a => exact hf a h

theorem Ends.mono {E : ε → Prop} {P Q : α → Prop} {x : Except ε α} (h : Ends E P x) (hq : ∀ a, P a → Q a) : Ends E Q x := by
  cases x with
  | error e => exact h
  | ok a => exact hq a h

/-- The invariant rule of a loop over a list; each round that returns shows `Q` of its element. -/
theorem ends_foldlM {E : ε → Prop} {P : σ → Prop} {Q : α → Prop} {f : σ → α → Except ε σ} {l : List α} {s : σ}
    (hstep : ∀ s, ∀ x ∈ l, P s → Ends E (fun s' => P s' ∧ Q x) (f s x)) (h : P s) :
    Ends E (fun s' => P s' ∧ ∀ x ∈ l, Q x) (l.foldlM f s) := by
  induction l generalizing s with
  | nil => exact ⟨h, fun x hx => absurd hx List.not_mem_nil⟩
  | cons x l ih =>
    rw [List.foldlM_cons]
    apply (hstep s x List.mem_cons_self h).bind
    intro s' ⟨hs', hx⟩
    apply (ih (fun s y hy => hstep s y (List.mem_cons_of_mem x hy)) hs').mono
    intro s'' ⟨hs'', hl⟩
    refine ⟨hs'', ?_⟩
    intro y hy
    obtain rfl | hy := List.mem_cons.mp hy
    · exact hx
    · exact hl y hy

end Popcorn.Lib
