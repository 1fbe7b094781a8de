/-
  Popcorn.Lib.Machine — machines, clients and simulations.

  A machine starts in a state and takes labelled steps; a step with the label `none` is one
  of its own that nobody sees. A device and its client take the visible steps together
  (`ParStep`). A simulation keeps the labels, so that a device can be replaced by what it
  simulates: what holds of a client of the abstract device holds of one of the concrete
  (`Simulates.client`).
-/

import Mathlib.Logic.Relation
import Mathlib.Data.List.Basic

namespace Popcorn.Lib

variable {σ τ ρ ℓ : Type}

structure Machine (σ ℓ : Type) where
  init : σ
  Step : σ → Option ℓ → σ → Prop

namespace Machine

/-- A run with the labels seen. -/
inductive Run (M : Machine σ ℓ) (s : σ) : List ℓ → σ → Prop
  | refl : Run M s [] s
  | tail {ls : List ℓ} {t u : σ} {l : Option ℓ} (h : Run M s ls t) (hs : M.Step t l u) : Run M s (ls ++ l.toList) u

/-- What every step keeps, a run keeps. -/
theorem Run.inv {M : Machine σ ℓ} {P : σ → Prop} (hstep : ∀ s l t, P s → M.Step s l t → P t) {s t : σ} {ls : List ℓ}
    (h : M.Run s ls t) (hs : P s) : P t := by
  induction h with
  | refl => exact hs
  | tail _ ht ih => exact hstep _ _ _ ih ht

/-- A property of the labels that every step has. -/
theorem Run.labels {M : Machine σ ℓ} {P : σ → Prop} {Q : ℓ → Prop} (hstep : ∀ s l t, P s → M.Step s l t → P t ∧ ∀ a ∈ l, Q a)
    {s t : σ} {ls : List ℓ} (h : M.Run s ls t) (hs : P s) : ∀ a ∈ ls, Q a := by
  induction h with
  | refl => exact fun _ ha => absurd ha List.not_mem_nil
  | tail hrun ht ih =>
    have hp := Run.inv (fun s l t hp hst => (hstep s l t hp hst).1) hrun hs
    intro a ha
    obtain ha | ha := List.mem_append.mp ha
    · exact ih a ha
    · exact (hstep _ _ _ hp ht).2 a (Option.mem_toList.mp ha)

theorem Run.trans {M : Machine σ ℓ} {s t u : σ} {ls ls' : List ℓ} (h : M.Run s ls t) (h' : M.Run t ls' u) : M.Run s (ls ++ ls') u := by
  induction h' with
  | refl => rwa [List.append_nil]
  | tail _ hs ih =>
    rw [← List.append_assoc]
    exact ih.tail hs

/-- A run can be cut between two labels. -/
theorem Run.split {M : Machine σ ℓ} {s u : σ} {ls ls' : List ℓ} (h : M.Run s (ls ++ ls') u) : ∃ t, M.Run s ls t ∧ M.Run t ls' u := by
  generalize hall : ls ++ ls' = all at h
  induction h generalizing ls' with
  | refl =>
    obtain ⟨rfl, rfl⟩ := List.append_eq_nil_iff.mp hall
    exact ⟨s, .refl, .refl⟩
  | @tail all v w l hr hs ih =>
    cases l with
    | none =>
      rw [Option.toList_none, List.append_nil] at hall
      obtain ⟨t, h1, h2⟩ := ih hall
      have h3 := h2.tail hs
      rw [Option.toList_none, List.append_nil] at h3
      exact ⟨t, h1, h3⟩
    | some a =>
      obtain rfl | ⟨rest, b, rfl⟩ := List.eq_nil_or_concat' ls'
      · rw [List.append_nil] at hall
        subst hall
        exact ⟨w, hr.tail hs, .refl⟩
      · rw [← List.append_assoc] at hall
        obtain ⟨hrest, hlast⟩ := List.append_inj' hall rfl
        obtain ⟨t, h1, h2⟩ := ih hrest
        rw [hlast]
        exact ⟨t, h1, h2.tail hs⟩

/-- The first label of a run. -/
theorem Run.uncons {M : Machine σ ℓ} {s u : σ} {a : ℓ} {ls : List ℓ} (h : M.Run s (a :: ls) u) :
    ∃ v w, M.Run s [] v ∧ M.Step v (some a) w ∧ M.Run w ls u := by
  generalize hall : a :: ls = all at h
  induction h generalizing ls with
  | refl => cases hall
  | @tail all v w l hr hs ih =>
    cases l with
    | none =>
      rw [Option.toList_none, List.append_nil] at hall
      obtain ⟨v1, w1, h1, hstep, h2⟩ := ih hall
      have h3 := h2.tail hs
      rw [Option.toList_none, List.append_nil] at h3
      exact ⟨v1, w1, h1, hstep, h3⟩
    | some b =>
      cases all with
      | nil =>
        cases hall
        exact ⟨v, w, hr, hs, .refl⟩
      | cons c rest =>
        cases hall
        obtain ⟨v1, w1, h1, hstep, h2⟩ := ih rfl
        exact ⟨v1, w1, h1, hstep, h2.tail hs⟩

end Machine

/-! ## Simulation -/

/-- Each step of `C` is one of `A` with the same label, or is unseen and none of `A`'s. -/
structure Simulates (C : Machine σ ℓ) (A : Machine τ ℓ) (R : σ → τ → Prop) : Prop where
  init : R C.init A.init
  step : ∀ {s s' t l}, R s t → C.Step s l s' → ∃ t', R s' t' ∧ (A.Step t l t' ∨ l = none ∧ t' = t)

theorem Simulates.run_from {C : Machine σ ℓ} {A : Machine τ ℓ} {R : σ → τ → Prop} (h : Simulates C A R) {s s' : σ} {t : τ} {ls : List ℓ}
    (hR : R s t) (hr : C.Run s ls s') : ∃ t', R s' t' ∧ A.Run t ls t' := by
  induction hr with
  | refl => exact ⟨t, hR, .refl⟩
  | tail _ hs ih =>
    obtain ⟨t1, hR1, hrun⟩ := ih
    obtain ⟨t2, hR2, hstep⟩ := h.step hR1 hs
    refine ⟨t2, hR2, ?_⟩
    obtain hstep | ⟨rfl, rfl⟩ := hstep
    · exact hrun.tail hstep
    · rwa [Option.toList_none, List.append_nil]

theorem Simulates.run {C : Machine σ ℓ} {A : Machine τ ℓ} {R : σ → τ → Prop} (h : Simulates C A R) {s : σ} {ls : List ℓ}
    (hr : C.Run C.init ls s) : ∃ t, R s t ∧ A.Run A.init ls t := h.run_from h.init hr

/-! ## A device and its client -/

/-- The device takes an unseen step, or the client does, or both take a visible one. -/
inductive ParStep (D : Machine σ ℓ) (K : Machine τ ℓ) : σ × τ → σ × τ → Prop
  | device {d d' : σ} {k : τ} (h : D.Step d none d') : ParStep D K (d, k) (d', k)
  | client {d : σ} {k k' : τ} (h : K.Step k none k') : ParStep D K (d, k) (d, k')
  | both {d d' : σ} {k k' : τ} (a : ℓ) (hd : D.Step d (some a) d') (hk : K.Step k (some a) k') : ParStep D K (d, k) (d', k')

/-- The states of a device and its client. -/
def ParReach (D : Machine σ ℓ) (K : Machine τ ℓ) : σ × τ → Prop := Relation.ReflTransGen (ParStep D K) (D.init, K.init)

theorem ParReach.inv {D : Machine σ ℓ} {K : Machine τ ℓ} {P : σ × τ → Prop} (h0 : P (D.init, K.init))
    (hstep : ∀ s t, P s → ParStep D K s t → P t) {s : σ × τ} (h : ParReach D K s) : P s := by
  induction h with
  | refl => exact h0
  | tail _ hs ih => exact hstep _ _ ih hs

theorem ParReach.tail {D : Machine σ ℓ} {K : Machine τ ℓ} {s t : σ × τ} (h : ParReach D K s) (hs : ParStep D K s t) : ParReach D K t :=
  Relation.ReflTransGen.tail h hs

/-- A client of a device is one of what the device simulates. -/
theorem Simulates.client {C : Machine σ ℓ} {A : Machine τ ℓ} {R : σ → τ → Prop} (h : Simulates C A R) {K : Machine ρ ℓ} {s : σ × ρ}
    (hs : ParReach C K s) : ∃ a, R s.1 a ∧ ParReach A K (a, s.2) := by
  induction hs with
  | refl => exact ⟨A.init, h.init, .refl⟩
  | tail _ hstep ih =>
    obtain ⟨a, hR, hreach⟩ := ih
    cases hstep with
    | device hd =>
      obtain ⟨a', hR', hA⟩ := h.step hR hd
      refine ⟨a', hR', ?_⟩
      obtain hA | ⟨-, rfl⟩ := hA
      · exact hreach.tail (.device hA)
      · exact hreach
    | client hk => exact ⟨a, hR, hreach.tail (.client hk)⟩
    | both l hd hk =>
      obtain ⟨a', hR', hA⟩ := h.step hR hd
      refine ⟨a', hR', ?_⟩
      obtain hA | ⟨hl, -⟩ := hA
      · exact hreach.tail (.both l hA hk)
      · cases hl

end Popcorn.Lib
