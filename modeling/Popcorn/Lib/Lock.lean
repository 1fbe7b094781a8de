/-
  Popcorn.Lib.Lock — what a lock is for.

  A thread calls the lock, then acquires it while nobody holds it, and releases it later. An
  implementation is a machine that simulates `lock`; its labels are then those of a lock.
  `Disciplined` is a client whose threads are in their critical sections between an acquire and
  the release.

  Proved:
  - `lock_exclusive`: between two acquires the first one's thread has released.
  - `lock_self_wait`: a holder that calls again stops everybody for good.
  - `Disciplined.holds`: who is in its critical section is the holder.
  - `Disciplined.client_inv`: the invariant rule of a client.
-/

import Mathlib.Data.Set.Insert
import Popcorn.Lib.Machine

namespace Popcorn.Lib

variable {ι τ : Type}

inductive LockAct (ι : Type) where
  | call (t : ι)
  | acquire (t : ι)
  | release (t : ι)

structure LockState (ι : Type) where
  holder : Option ι
  /-- The threads that have called and not acquired yet. -/
  calling : Set ι

inductive LockStep : LockState ι → Option (LockAct ι) → LockState ι → Prop
  | call {s : LockState ι} (t : ι) (h : t ∉ s.calling) : LockStep s (some (.call t)) { s with calling := insert t s.calling }
  | acquire {s : LockState ι} (t : ι) (h : t ∈ s.calling) (hf : s.holder = none) :
      LockStep s (some (.acquire t)) ⟨some t, s.calling \ {t}⟩
  | release {s : LockState ι} (t : ι) (h : s.holder = some t) (hc : t ∉ s.calling) :
      LockStep s (some (.release t)) { s with holder := none }

def lock (ι : Type) : Machine (LockState ι) (LockAct ι) := ⟨⟨none, ∅⟩, LockStep⟩

/-- A holder that does not release stays the holder. -/
theorem lock_holder_stays {s s' : LockState ι} {ls : List (LockAct ι)} {t : ι} (hr : (lock ι).Run s ls s') (h : s.holder = some t)
    (hno : .release t ∉ ls) : s'.holder = some t := by
  induction hr with
  | refl => exact h
  | tail _ hs ih =>
    have hold := ih fun hm => hno (List.mem_append_left _ hm)
    cases hs with
    | call u hu => exact hold
    | acquire u hu hf =>
      rw [hf] at hold
      cases hold
    | release u hu hc =>
      rw [hu] at hold
      cases hold
      exact absurd (List.mem_append_right _ (List.mem_singleton.mpr rfl)) hno

/-- Mutual exclusion: between two acquires the first one's thread has released. -/
theorem lock_exclusive {s s' : LockState ι} {ls₁ ls₂ ls₃ : List (LockAct ι)} {t u : ι}
    (hr : (lock ι).Run s (ls₁ ++ .acquire t :: (ls₂ ++ .acquire u :: ls₃)) s') : LockAct.release t ∈ ls₂ := by
  by_contra hno
  obtain ⟨s1, -, h⟩ := hr.split
  obtain ⟨v, w, -, hacq, h⟩ := h.uncons
  obtain ⟨s2, hbetween, h⟩ := h.split
  obtain ⟨v', w', hnone, hacq', -⟩ := h.uncons
  have hheld : w.holder = some t := by
    cases hacq
    rfl
  have hstill := lock_holder_stays hnone (lock_holder_stays hbetween hheld hno) List.not_mem_nil
  cases hacq' with
  | acquire u hu hf =>
    rw [hf] at hstill
    cases hstill

/-- A holder that calls again waits for itself: nobody acquires or releases the lock any more. -/
theorem lock_self_wait {s s' : LockState ι} {ls : List (LockAct ι)} {t : ι} (hr : (lock ι).Run s ls s') (h : s.holder = some t)
    (hc : t ∈ s.calling) : ∀ a ∈ ls, ∃ u, a = .call u := by
  refine hr.labels (P := fun s => s.holder = some t ∧ t ∈ s.calling) ?_ ⟨h, hc⟩
  rintro s l s' ⟨h, hc⟩ hs
  cases hs with
  | call u hu =>
    refine ⟨⟨h, Set.mem_insert_of_mem u hc⟩, ?_⟩
    rintro a ⟨⟩
    exact ⟨u, rfl⟩
  | acquire u hu hf =>
    rw [hf] at h
    cases h
  | release u hu hnc =>
    rw [hu] at h
    cases h
    exact absurd hc hnc

/-! ## Clients -/

/-- A client whose threads enter their critical sections by acquiring the lock and leave them by
    releasing it. -/
structure Disciplined (K : Machine τ (LockAct ι)) (crit : τ → ι → Prop) : Prop where
  init : ∀ t, ¬ crit K.init t
  own : ∀ {k k'}, K.Step k none k' → ∀ t, crit k' t ↔ crit k t
  call : ∀ {k k' u}, K.Step k (some (.call u)) k' → ∀ t, crit k' t ↔ crit k t
  acquire : ∀ {k k' u}, K.Step k (some (.acquire u)) k' → ∀ t, crit k' t ↔ crit k t ∨ t = u
  release : ∀ {k k' u}, K.Step k (some (.release u)) k' → ∀ t, crit k' t ↔ crit k t ∧ t ≠ u

/-- Who is in its critical section is the holder. -/
theorem Disciplined.holds {K : Machine τ (LockAct ι)} {crit : τ → ι → Prop} (h : Disciplined K crit) {s : LockState ι × τ}
    (hs : ParReach (lock ι) K s) : ∀ t, crit s.2 t ↔ s.1.holder = some t := by
  refine hs.inv (P := fun s => ∀ t, crit s.2 t ↔ s.1.holder = some t) ?_ ?_
  · exact fun t => ⟨fun hc => absurd hc (h.init t), fun hc => nomatch hc⟩
  · intro s s' hi hstep t
    cases hstep with
    | device hd => cases hd
    | client hk => exact (h.own hk t).trans (hi t)
    | both a hd hk =>
      cases hd with
      | call u hu => exact (h.call hk t).trans (hi t)
      | acquire u hu hf =>
        have hnone : ¬ crit _ t := fun hc => by
          have := (hi t).mp hc
          rw [hf] at this
          cases this
        refine (h.acquire hk t).trans ⟨?_, fun e => .inr (Option.some.inj e).symm⟩
        rintro (hc | rfl)
        · exact absurd hc hnone
        · rfl
      | release u hu hc =>
        refine (h.release hk t).trans ⟨?_, fun e => nomatch e⟩
        rintro ⟨hcrit, hne⟩
        have := (hi t).mp hcrit
        rw [hu] at this
        exact absurd (Option.some.inj this).symm hne

/-- A client of a lock's implementation: two threads are not in their critical sections at once. -/
theorem Disciplined.exclusive {σ : Type} {C : Machine σ (LockAct ι)} {R : σ → LockState ι → Prop} (hC : Simulates C (lock ι) R)
    {K : Machine τ (LockAct ι)} {crit : τ → ι → Prop} (h : Disciplined K crit) {s : σ × τ} (hs : ParReach C K s) {t u : ι}
    (ht : crit s.2 t) (hu : crit s.2 u) : t = u := by
  obtain ⟨a, -, hreach⟩ := hC.client hs
  have hh := h.holds hreach
  exact Option.some.inj (((hh t).mp ht).symm.trans ((hh u).mp hu))

/-- The invariant rule of a client: its steps may take mutual exclusion for granted. -/
theorem Disciplined.client_inv {σ : Type} {C : Machine σ (LockAct ι)} {R : σ → LockState ι → Prop} (hC : Simulates C (lock ι) R)
    {K : Machine τ (LockAct ι)} {crit : τ → ι → Prop} (h : Disciplined K crit) {P : τ → Prop} (h0 : P K.init)
    (hstep : ∀ {k k' l}, K.Step k l k' → (∀ t u, crit k t → crit k u → t = u) → P k → P k') {s : σ × τ} (hs : ParReach C K s) :
    P s.2 := by
  have hlock : ∀ q : LockState ι × τ, ParReach (lock ι) K q → P q.2 := by
    intro q hq
    induction hq with
    | refl => exact h0
    | tail hreach hs ih =>
      have hh := h.holds hreach
      have halone : ∀ t u, crit _ t → crit _ u → t = u :=
        fun t u ht hu => Option.some.inj (((hh t).mp ht).symm.trans ((hh u).mp hu))
      cases hs with
      | device hd => exact ih
      | client hk => exact hstep hk halone ih
      | both a hd hk => exact hstep hk halone ih
  obtain ⟨a, -, hreach⟩ := hC.client hs
  exact hlock _ hreach

end Popcorn.Lib
