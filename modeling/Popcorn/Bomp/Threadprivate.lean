/-
  Popcorn.Bomp.Threadprivate — private copies of a variable (lib/libbomp/kmp.c).

  `__kmpc_threadprivate_cached` gives each thread a copy of a variable of its own: the pointers
  to the copies are in an array, whose address is in `*cache`. The array is allocated by the
  first call, under the lock of all critical sections and with `*cache` tested before and after
  it is taken; the copies are allocated by their threads outside the lock. Every access to
  `*cache` and to the array is a step of its own, and memory is sequentially consistent. `calloc`
  and `malloc` return new blocks and do not fail.

  `returned` and `last` record what the calls have returned and what a thread has written to its
  copy last.

  Proved:
  - `PrivateStep.inv`: what every step keeps.
  - `threadprivate_sound`: with either spin lock there is one array, a thread gets the same copy
    in every call, no other thread does, and what it finds there is what it wrote.
-/

import Mathlib.Data.Finset.Insert
import Popcorn.Bomp.SpinLock

namespace Popcorn.Bomp

open Popcorn.Lib

variable {β : Type}

/-! ## The code -/

/-- `MAX_THREADS`, the number of entries of the array. -/
def maxThreads : Nat := 128

/-- A variable's contents, and the team that has copies of it. -/
structure Variable (β : Type) where
  data : β
  threads : Nat
  threads_le : threads ≤ maxThreads

/-- Where a call of a thread is: before the access it names. -/
inductive Stage where
  | out
  /-- The test of `*cache` before the lock. -/
  | test
  /-- In `GOMP_critical_start`. -/
  | calling
  /-- The test after it. -/
  | retest
  /-- With the array `calloc` has returned. -/
  | assign (array : Nat)
  /-- Before `GOMP_critical_end`. -/
  | leaving
  /-- `(*cache)[global_tid]`, before `*cache` and before the entry. -/
  | index
  | entry (array : Nat)
  /-- With the block `malloc` has returned, before `memcpy`. -/
  | copy (block : Nat)
  /-- The store to the entry, before `*cache` and before the entry. -/
  | reindex (block : Nat)
  | store (array block : Nat)
  deriving DecidableEq, Repr

structure Privates (β : Type) where
  cache : Option Nat
  /-- The entries of each array; NULL is `none`. -/
  entries : Nat → Nat → Option Nat
  blocks : Nat → β
  /-- The addresses in use. -/
  heap : Finset Nat
  stage : Nat → Stage
  /-- The calls of `calloc`. -/
  arrays : Nat
  returned : Nat → List Nat
  last : Nat → Option β

namespace Privates

def goto (s : Privates β) (t : Nat) (p : Stage) : Privates β := { s with stage := Function.update s.stage t p }

def calloc (s : Privates β) (a : Nat) : Privates β :=
  { s with entries := Function.update s.entries a fun _ => none, heap := insert a s.heap, arrays := s.arrays + 1 }

def malloc (s : Privates β) (p : Nat) : Privates β := { s with heap := insert p s.heap }

def setBlock (s : Privates β) (p : Nat) (v : β) : Privates β := { s with blocks := Function.update s.blocks p v }

def setEntry (s : Privates β) (a t p : Nat) : Privates β :=
  { s with entries := Function.update s.entries a (Function.update (s.entries a) t (some p)) }

/-- A call returns. -/
def ret (s : Privates β) (t p : Nat) : Privates β :=
  { s.goto t .out with returned := Function.update s.returned t (s.returned t ++ [p]) }

/-- A thread's copy, by the array. -/
def copyOf (s : Privates β) (t : Nat) : Option Nat := s.cache.bind fun a => s.entries a t

end Privates

inductive PrivateStep (x : Variable β) : Privates β → Option LockCall → Privates β → Prop
  | start {s : Privates β} (t : Nat) (ht : t < x.threads) (hp : s.stage t = .out) : PrivateStep x s none (s.goto t .test)
  | cached {s : Privates β} (t : Nat) (hp : s.stage t = .test) (hc : s.cache ≠ none) : PrivateStep x s none (s.goto t .index)
  | uncached {s : Privates β} (t : Nat) (hp : s.stage t = .test) (hc : s.cache = none) :
      PrivateStep x s (some (.call t)) (s.goto t .calling)
  | enter {s : Privates β} (t : Nat) (hp : s.stage t = .calling) : PrivateStep x s (some (.acquire t)) (s.goto t .retest)
  | found {s : Privates β} (t : Nat) (hp : s.stage t = .retest) (hc : s.cache ≠ none) : PrivateStep x s none (s.goto t .leaving)
  | missing {s : Privates β} (t a : Nat) (hp : s.stage t = .retest) (hc : s.cache = none) (ha : a ∉ s.heap) :
      PrivateStep x s none ((s.calloc a).goto t (.assign a))
  | assign {s : Privates β} {a : Nat} (t : Nat) (hp : s.stage t = .assign a) :
      PrivateStep x s none { s.goto t .leaving with cache := some a }
  | leave {s : Privates β} (t : Nat) (hp : s.stage t = .leaving) : PrivateStep x s (some (.release t)) (s.goto t .index)
  | index {s : Privates β} {a : Nat} (t : Nat) (hp : s.stage t = .index) (hc : s.cache = some a) :
      PrivateStep x s none (s.goto t (.entry a))
  | present {s : Privates β} {a p : Nat} (t : Nat) (hp : s.stage t = .entry a) (he : s.entries a t = some p) :
      PrivateStep x s none (s.ret t p)
  | absent {s : Privates β} {a : Nat} (t p : Nat) (hp : s.stage t = .entry a) (he : s.entries a t = none) (hf : p ∉ s.heap) :
      PrivateStep x s none ((s.malloc p).goto t (.copy p))
  | copy {s : Privates β} {p : Nat} (t : Nat) (hp : s.stage t = .copy p) :
      PrivateStep x s none ((s.setBlock p x.data).goto t (.reindex p))
  | reindex {s : Privates β} {a p : Nat} (t : Nat) (hp : s.stage t = .reindex p) (hc : s.cache = some a) :
      PrivateStep x s none (s.goto t (.store a p))
  | store {s : Privates β} {a p : Nat} (t : Nat) (hp : s.stage t = .store a p) : PrivateStep x s none ((s.setEntry a t p).ret t p)
  /-- A thread writes to the copy it was given. -/
  | write {s : Privates β} {p : Nat} (t : Nat) (v : β) (hp : s.stage t = .out) (hr : p ∈ s.returned t) :
      PrivateStep x s none { s.setBlock p v with last := Function.update s.last t (some v) }

/-- Before any call. What `malloc` leaves in the blocks is a parameter. -/
def privates (x : Variable β) (entries : Nat → Nat → Option Nat) (blocks : Nat → β) (heap : Finset Nat) : Machine (Privates β) LockCall :=
  ⟨⟨none, entries, blocks, heap, fun _ => .out, 0, fun _ => [], fun _ => none⟩, PrivateStep x⟩

/-! ## The invariant -/

/-- In the critical section. -/
def Stage.Critical : Stage → Prop
  | .retest | .assign _ | .leaving => True
  | _ => False

/-- The block a thread has allocated and not stored yet. -/
def Stage.block? : Stage → Option Nat
  | .copy p | .reindex p | .store _ p => some p
  | _ => none

/-- What holds of the shared state at a stage of thread `t`. -/
def StageInv (x : Variable β) (s : Privates β) (t : Nat) : Stage → Prop
  | .out | .test | .calling | .retest => True
  | .assign a => s.cache = none ∧ a ∈ s.heap ∧ ∀ u, s.entries a u = none
  | .leaving | .index => s.cache ≠ none
  | .entry a => s.cache = some a
  | .copy _ => s.cache ≠ none ∧ s.copyOf t = none
  | .reindex p => s.cache ≠ none ∧ s.copyOf t = none ∧ s.blocks p = x.data
  | .store a p => s.cache = some a ∧ s.copyOf t = none ∧ s.blocks p = x.data

/-- The block that is a thread's. -/
def Privates.own (s : Privates β) (t : Nat) : Option Nat := (s.stage t).block?.or (s.copyOf t)

structure PrivateInv (x : Variable β) (s : Privates β) : Prop where
  others : ∀ t, x.threads ≤ t → s.stage t = .out
  stage : ∀ t, StageInv x s t (s.stage t)
  arrays : s.arrays ≤ 1 ∧ (s.cache = none → (∀ t a, s.stage t ≠ .assign a) → s.arrays = 0)
  heap : (∀ a, s.cache = some a → a ∈ s.heap) ∧ ∀ t p, s.own t = some p → p ∈ s.heap
  apart : ∀ t u p, s.own t = some p → s.own u = some p → t = u
  returned : ∀ t p, p ∈ s.returned t → s.copyOf t = some p
  contents : ∀ t p, s.copyOf t = some p → s.blocks p = (s.last t).getD x.data
  fresh : ∀ t, s.copyOf t = none → s.last t = none

section
variable {x : Variable β} {s s' : Privates β} {t u a p : Nat} {q : Stage}

/-- The critical sections are between the lock's calls. -/
theorem privates_disciplined (x : Variable β) (entries : Nat → Nat → Option Nat) (blocks : Nat → β) (heap : Finset Nat) :
    Disciplined (privates x entries blocks heap) fun s t => (s.stage t).Critical := by
  have hcrit : ∀ (s : Privates β) (t u : Nat) (q : Stage),
      ((s.goto t q).stage u).Critical ↔ if u = t then q.Critical else (s.stage u).Critical := by
    intro s t u q
    show (Function.update s.stage t q u).Critical ↔ _
    by_cases hu : u = t
    · rw [hu, Function.update_self, if_pos rfl]
    · rw [Function.update_of_ne hu, if_neg hu]
  have hsame : ∀ {s : Privates β} {t : Nat} {q r : Stage}, s.stage t = r → (q.Critical ↔ r.Critical) →
      ∀ u, ((s.goto t q).stage u).Critical ↔ (s.stage u).Critical := by
    intro s t q r hp hq u
    rw [hcrit]
    split
    next hu => rw [hu, hp, hq]
    next => rfl
  refine ⟨fun t h => h, ?_, ?_, ?_, ?_⟩
  · intro s s' h
    cases h with
    | start t ht hp => exact hsame hp Iff.rfl
    | cached t hp hc => exact hsame hp Iff.rfl
    | found t hp hc => exact hsame hp Iff.rfl
    | missing t a hp hc ha => exact hsame (s := s.calloc a) hp Iff.rfl
    | assign t hp => exact hsame (q := .leaving) hp Iff.rfl
    | index t hp hc => exact hsame hp Iff.rfl
    | present t hp he => exact hsame (q := .out) hp Iff.rfl
    | absent t p hp he hf => exact hsame (s := s.malloc p) hp Iff.rfl
    | copy t hp => exact hsame (s := s.setBlock _ _) hp Iff.rfl
    | reindex t hp hc => exact hsame hp Iff.rfl
    | store t hp => exact hsame (s := s.setEntry _ t _) (q := .out) hp Iff.rfl
    | write t v hp hr => exact fun _ => Iff.rfl
  · intro s s' u h
    cases h with
    | uncached t hp hc => exact hsame hp Iff.rfl
  · intro s s' u h
    cases h with
    | enter t hp =>
      intro w
      rw [hcrit]
      split
      next hw => exact ⟨fun _ => .inr hw, fun _ => trivial⟩
      next hw => exact ⟨.inl, fun h => h.resolve_right hw⟩
  · intro s s' u h
    cases h with
    | leave t hp =>
      intro w
      rw [hcrit]
      split
      next hw => exact ⟨False.elim, fun h => h.2 hw⟩
      next hw => exact ⟨fun h => ⟨h, hw⟩, And.left⟩

/-! ## What every step keeps -/

theorem PrivateInv.lt (hi : PrivateInv x s) (ht : s.stage t ≠ .out) : t < x.threads := by
  by_contra hn
  exact ht (hi.others t (Nat.le_of_not_lt hn))

/-- A thread that has a block it has not stored has no copy yet. -/
theorem StageInv.no_copy (h : StageInv x s t q) (hq : q.block? = some p) : s.cache ≠ none ∧ s.copyOf t = none := by
  cases q with
  | copy p => exact h
  | reindex p => exact ⟨h.1, h.2.1⟩
  | store a p => exact ⟨Option.ne_none_iff_exists'.mpr ⟨a, h.1⟩, h.2.1⟩
  | _ => cases hq

theorem PrivateInv.own_of_copy (hi : PrivateInv x s) (h : s.copyOf t = some p) : s.own t = some p := by
  unfold Privates.own
  cases hb : (s.stage t).block? with
  | none => exact h
  | some q =>
    have hno := ((hi.stage t).no_copy hb).2
    rw [h] at hno
    cases hno

theorem PrivateInv.own_none (hi : PrivateInv x s) (hc : s.cache = none) : s.own t = none := by
  unfold Privates.own
  cases hb : (s.stage t).block? with
  | none =>
    show s.copyOf t = none
    rw [Privates.copyOf, hc]
    rfl
  | some q => exact absurd hc ((hi.stage t).no_copy hb).1

theorem own_of_block (hp : (s.stage t).block? = some p) : s.own t = some p := by
  rw [Privates.own, hp]
  rfl

/-- The stages that say nothing of the shared state hold in any. -/
theorem stageInv_none (hc : s.cache = none) (h : StageInv x s t q) (hq : ∀ a, q ≠ .assign a) (s' : Privates β) : StageInv x s' t q := by
  cases q with
  | out | test | calling | retest => trivial
  | assign a => exact absurd rfl (hq a)
  | leaving | index => exact absurd hc h
  | entry a => exact nomatch hc.symm.trans h
  | copy p | reindex p => exact absurd hc h.1
  | store a p => exact nomatch hc.symm.trans h.1

/-- A move that leaves the shared state alone. -/
theorem PrivateInv.goto (hi : PrivateInv x s) (ht : t < x.threads) (hq : StageInv x s t q) (hblock : q.block? = (s.stage t).block?)
    (hassign : ∀ a, s.stage t ≠ .assign a) : PrivateInv x (s.goto t q) := by
  have hown : ∀ u, (s.goto t q).own u = s.own u := by
    intro u
    show (Function.update s.stage t q u).block?.or _ = _
    by_cases hu : u = t
    · rw [hu, Function.update_self, hblock]
      rfl
    · rw [Function.update_of_ne hu]
      rfl
  refine ⟨?_, ?_, ⟨hi.arrays.1, ?_⟩, ⟨hi.heap.1, ?_⟩, ?_, hi.returned, hi.contents, hi.fresh⟩
  · intro u hu
    rw [← hi.others u hu]
    exact Function.update_of_ne (by omega) _ _
  · intro u
    show StageInv x s u (Function.update s.stage t q u)
    by_cases hu : u = t
    · rw [hu, Function.update_self]
      exact hq
    · rw [Function.update_of_ne hu]
      exact hi.stage u
  · intro hc hno
    refine hi.arrays.2 hc ?_
    intro u b hb
    by_cases hu : u = t
    · exact hassign b (hu ▸ hb)
    · exact hno u b ((Function.update_of_ne hu _ _).trans hb)
  · intro u r hr
    exact hi.heap.2 u r ((hown u).symm.trans hr)
  · intro u v r hu hv
    exact hi.apart u v r ((hown u).symm.trans hu) ((hown v).symm.trans hv)

/-- The array is allocated: nobody else is at it, and nobody has a copy. -/
theorem PrivateInv.missing (hi : PrivateInv x s) (hp : s.stage t = .retest) (hc : s.cache = none)
    (halone : ∀ u, (s.stage u).Critical → u = t) : PrivateInv x ((s.calloc a).goto t (.assign a)) := by
  have hno : ∀ u b, s.stage u ≠ .assign b := by
    intro u b hb
    have hu := halone u (by rw [hb]; trivial)
    rw [hu, hp] at hb
    cases hb
  have hcopy : ∀ u, ((s.calloc a).goto t (.assign a)).copyOf u = none := by
    intro u
    show s.cache.bind _ = none
    rw [hc]
    rfl
  have hown : ∀ u, ((s.calloc a).goto t (.assign a)).own u = none := by
    intro u
    show (Function.update s.stage t (.assign a) u).block?.or _ = none
    rw [hcopy]
    by_cases hu : u = t
    · rw [hu, Function.update_self]
      rfl
    · rw [Function.update_of_ne hu, Option.or_none]
      exact (Option.or_eq_none_iff.mp (hi.own_none hc)).1
  have ht := hi.lt (t := t) (by rw [hp]; nofun)
  refine ⟨?_, ?_, ⟨?_, ?_⟩, ⟨?_, ?_⟩, ?_, ?_, ?_, ?_⟩
  · intro u hu
    rw [← hi.others u hu]
    exact Function.update_of_ne (by omega) _ _
  · intro u
    show StageInv x _ u (Function.update s.stage t _ u)
    by_cases hu : u = t
    · rw [hu, Function.update_self]
      refine ⟨hc, Finset.mem_insert_self _ _, ?_⟩
      intro v
      show Function.update s.entries a _ a v = none
      rw [Function.update_self]
    · rw [Function.update_of_ne hu]
      exact stageInv_none hc (hi.stage u) (hno u) _
  · show s.arrays + 1 ≤ 1
    rw [hi.arrays.2 hc hno]
  · intro _ h
    exact absurd (Function.update_self _ _ _) (h t a)
  · intro b hb
    exact nomatch (hc.symm.trans hb)
  · intro u r hr
    exact nomatch ((hown u).symm.trans hr)
  · intro u v r hu
    exact nomatch ((hown u).symm.trans hu)
  · intro u r hr
    have := hi.returned u r hr
    rw [Privates.copyOf, hc] at this
    cases this
  · intro u r hr
    exact nomatch ((hcopy u).symm.trans hr)
  · intro u _
    refine hi.fresh u ?_
    rw [Privates.copyOf, hc]
    rfl

/-- The array, which is empty, is made known. -/
theorem PrivateInv.assign (hi : PrivateInv x s) (hp : s.stage t = .assign a) (halone : ∀ u, (s.stage u).Critical → u = t) :
    PrivateInv x { s.goto t .leaving with cache := some a } := by
  have hold := hi.stage t
  rw [hp] at hold
  obtain ⟨hc, ha, hempty⟩ := hold
  have hno : ∀ u, u ≠ t → ∀ b, s.stage u ≠ .assign b := by
    intro u hu b hb
    exact hu (halone u (by rw [hb]; trivial))
  have hcopy : ∀ u, s.copyOf u = none := by
    intro u
    rw [Privates.copyOf, hc]
    rfl
  have hcopy' : ∀ u, { s.goto t .leaving with cache := some a }.copyOf u = none := hempty
  have hown : ∀ u, { s.goto t .leaving with cache := some a }.own u = none := by
    intro u
    show (Function.update s.stage t .leaving u).block?.or _ = none
    rw [hcopy', Option.or_none]
    by_cases hu : u = t
    · rw [hu, Function.update_self]
      rfl
    · rw [Function.update_of_ne hu]
      exact (Option.or_eq_none_iff.mp (hi.own_none hc)).1
  have ht := hi.lt (t := t) (by rw [hp]; nofun)
  refine ⟨?_, ?_, ⟨hi.arrays.1, nofun⟩, ⟨?_, ?_⟩, ?_, ?_, ?_, ?_⟩
  · intro u hu
    rw [← hi.others u hu]
    exact Function.update_of_ne (by omega) _ _
  · intro u
    show StageInv x _ u (Function.update s.stage t _ u)
    by_cases hu : u = t
    · rw [hu, Function.update_self]
      exact nofun
    · rw [Function.update_of_ne hu]
      exact stageInv_none hc (hi.stage u) (hno u hu) _
  · rintro b ⟨⟩
    exact ha
  · intro u r hr
    exact nomatch ((hown u).symm.trans hr)
  · intro u v r hu
    exact nomatch ((hown u).symm.trans hu)
  · intro u r hr
    exact nomatch ((hcopy u).symm.trans (hi.returned u r hr))
  · intro u r hr
    exact nomatch ((hcopy' u).symm.trans hr)
  · intro u _
    exact hi.fresh u (hcopy u)

/-- A block is allocated for a thread that has none. -/
theorem PrivateInv.absent (hi : PrivateInv x s) (hp : s.stage t = .entry a) (he : s.entries a t = none) (hf : p ∉ s.heap) :
    PrivateInv x ((s.malloc p).goto t (.copy p)) := by
  have hold := hi.stage t
  rw [hp] at hold
  have hcopy : s.copyOf t = none := by
    rw [Privates.copyOf, hold]
    exact he
  have hself : ((s.malloc p).goto t (.copy p)).own t = some p := by
    apply own_of_block
    show (Function.update s.stage t (.copy p) t).block? = some p
    rw [Function.update_self]
    rfl
  have hother : ∀ u, u ≠ t → ((s.malloc p).goto t (.copy p)).own u = s.own u := by
    intro u hu
    show (Function.update s.stage t (.copy p) u).block?.or _ = _
    rw [Function.update_of_ne hu]
    rfl
  have hfresh : ∀ u, s.own u ≠ some p := fun u h => hf (hi.heap.2 u p h)
  have ht := hi.lt (t := t) (by rw [hp]; nofun)
  refine ⟨?_, ?_, ⟨hi.arrays.1, ?_⟩, ⟨?_, ?_⟩, ?_, hi.returned, hi.contents, hi.fresh⟩
  · intro u hu
    rw [← hi.others u hu]
    exact Function.update_of_ne (by omega) _ _
  · intro u
    show StageInv x _ u (Function.update s.stage t _ u)
    by_cases hu : u = t
    · rw [hu, Function.update_self]
      exact ⟨Option.ne_none_iff_exists'.mpr ⟨a, hold⟩, hcopy⟩
    · rw [Function.update_of_ne hu]
      have hst := hi.stage u
      cases hq : s.stage u with
      | assign b =>
        rw [hq] at hst
        exact ⟨hst.1, Finset.mem_insert_of_mem hst.2.1, hst.2.2⟩
      | _ =>
        rw [hq] at hst
        exact hst
  · intro hc
    exact nomatch (hc.symm.trans hold)
  · exact fun b hb => Finset.mem_insert_of_mem (hi.heap.1 b hb)
  · intro u r hr
    by_cases hu : u = t
    · rw [hu, hself] at hr
      cases hr
      exact Finset.mem_insert_self _ _
    · rw [hother u hu] at hr
      exact Finset.mem_insert_of_mem (hi.heap.2 u r hr)
  · intro u v r hu hv
    by_cases hut : u = t
    · by_cases hvt : v = t
      · rw [hut, hvt]
      · rw [hut, hself] at hu
        cases hu
        rw [hother v hvt] at hv
        exact absurd hv (hfresh v)
    · rw [hother u hut] at hu
      by_cases hvt : v = t
      · rw [hvt, hself] at hv
        cases hv
        exact absurd hu (hfresh u)
      · rw [hother v hvt] at hv
        exact hi.apart u v r hu hv

/-- A store to the block of thread `t` leaves what is said of the others. -/
theorem StageInv.setBlock (hi : PrivateInv x s) (hown : s.own t = some p) (hu : u ≠ t) (v : β) :
    StageInv x (s.setBlock p v) u (s.stage u) := by
  have hst := hi.stage u
  have hne : ∀ r, (s.stage u).block? = some r → Function.update s.blocks p v r = s.blocks r := by
    intro r hr
    refine Function.update_of_ne ?_ _ _
    rintro rfl
    exact hu (hi.apart u t r (own_of_block hr) hown)
  cases hq : s.stage u with
  | reindex r =>
    rw [hq] at hst hne
    exact ⟨hst.1, hst.2.1, (hne r rfl).trans hst.2.2⟩
  | store b r =>
    rw [hq] at hst hne
    exact ⟨hst.1, hst.2.1, (hne r rfl).trans hst.2.2⟩
  | _ =>
    rw [hq] at hst
    exact hst

theorem PrivateInv.contents_setBlock (hi : PrivateInv x s) (hown : s.own t = some p) (hu : u ≠ t) {r : Nat} (h : s.copyOf u = some r)
    (v : β) : (s.setBlock p v).blocks r = (s.last u).getD x.data := by
  rw [← hi.contents u r h]
  refine Function.update_of_ne ?_ _ _
  rintro rfl
  exact hu (hi.apart u t r (hi.own_of_copy h) hown)

/-- The variable is copied to the block. -/
theorem PrivateInv.copy (hi : PrivateInv x s) (hp : s.stage t = .copy p) : PrivateInv x ((s.setBlock p x.data).goto t (.reindex p)) := by
  have hown : s.own t = some p := own_of_block (by rw [hp]; rfl)
  have hold := hi.stage t
  rw [hp] at hold
  have hset : PrivateInv x (s.setBlock p x.data) := by
    refine ⟨hi.others, ?_, hi.arrays, hi.heap, hi.apart, hi.returned, ?_, hi.fresh⟩
    · intro u
      by_cases hu : u = t
      · show StageInv x _ u (s.stage u)
        rw [hu, hp]
        exact hold
      · exact StageInv.setBlock hi hown hu _
    · intro u r hr
      by_cases hu : u = t
      · rw [hu] at hr
        exact nomatch (hr.symm.trans hold.2)
      · exact hi.contents_setBlock hown hu hr _
  refine hset.goto (hi.lt (by rw [hp]; nofun)) ⟨hold.1, hold.2, Function.update_self _ _ _⟩ ?_ ?_
  · show _ = (s.stage t).block?
    rw [hp]
    rfl
  · intro b hb
    exact nomatch (hp.symm.trans hb)

theorem copyOf_store_self (hc : s.cache = some a) : ((s.setEntry a t p).ret t p).copyOf t = some p := by
  show s.cache.bind _ = some p
  rw [hc]
  show Function.update s.entries a _ a t = some p
  rw [Function.update_self, Function.update_self]

theorem copyOf_store_other (hc : s.cache = some a) (hu : u ≠ t) : ((s.setEntry a t p).ret t p).copyOf u = s.copyOf u := by
  show s.cache.bind _ = _
  rw [Privates.copyOf, hc]
  show Function.update s.entries a _ a u = s.entries a u
  rw [Function.update_self, Function.update_of_ne hu]

/-- The block was the thread's already. -/
theorem own_store (hc : s.cache = some a) (hp : s.stage t = .store a p) (u : Nat) :
    ((s.setEntry a t p).ret t p).own u = s.own u := by
  show (Function.update s.stage t .out u).block?.or _ = (s.stage u).block?.or _
  by_cases hu : u = t
  · rw [hu, Function.update_self, copyOf_store_self hc, hp]
    rfl
  · rw [Function.update_of_ne hu, copyOf_store_other hc hu]

/-- Another thread's stage does not notice a store. -/
theorem StageInv.store_other (hc : s.cache = some a) (hu : u ≠ t) (h : StageInv x s u q) :
    StageInv x ((s.setEntry a t p).ret t p) u q := by
  have hother := copyOf_store_other (p := p) hc hu
  cases q with
  | assign b => exact nomatch (h.1.symm.trans hc)
  | copy r => exact ⟨h.1, hother.trans h.2⟩
  | reindex r => exact ⟨h.1, hother.trans h.2.1, h.2.2⟩
  | store b r => exact ⟨h.1, hother.trans h.2.1, h.2.2⟩
  | _ => exact h

/-- The block's address is stored, and returned. -/
theorem PrivateInv.store (hi : PrivateInv x s) (hp : s.stage t = .store a p) : PrivateInv x ((s.setEntry a t p).ret t p) := by
  have hold := hi.stage t
  rw [hp] at hold
  obtain ⟨hc, hnone, hdata⟩ := hold
  have hself := copyOf_store_self (t := t) (p := p) hc
  have hother : ∀ u, u ≠ t → ((s.setEntry a t p).ret t p).copyOf u = s.copyOf u := fun u hu => copyOf_store_other hc hu
  have hown := own_store hc hp
  have ht := hi.lt (t := t) (by rw [hp]; nofun)
  refine ⟨?_, ?_, ⟨hi.arrays.1, ?_⟩, ⟨hi.heap.1, ?_⟩, ?_, ?_, ?_, ?_⟩
  · intro u hu
    rw [← hi.others u hu]
    exact Function.update_of_ne (by omega) _ _
  · intro u
    show StageInv x _ u (Function.update s.stage t _ u)
    by_cases hu : u = t
    · rw [hu, Function.update_self]
      trivial
    · rw [Function.update_of_ne hu]
      exact (hi.stage u).store_other hc hu
  · intro hn
    exact nomatch (hn.symm.trans hc)
  · intro u r hr
    exact hi.heap.2 u r ((hown u).symm.trans hr)
  · intro u v r hu hv
    exact hi.apart u v r ((hown u).symm.trans hu) ((hown v).symm.trans hv)
  · intro u r hr
    by_cases hu : u = t
    · subst hu
      rw [hself]
      replace hr : r ∈ Function.update s.returned u (s.returned u ++ [p]) u := hr
      rw [Function.update_self, List.mem_append, List.mem_singleton] at hr
      obtain hr | rfl := hr
      · exact nomatch (hnone.symm.trans (hi.returned u r hr))
      · rfl
    · rw [hother u hu]
      replace hr : r ∈ Function.update s.returned t (s.returned t ++ [p]) u := hr
      rw [Function.update_of_ne hu] at hr
      exact hi.returned u r hr
  · intro u r hr
    by_cases hu : u = t
    · rw [hu, hself] at hr
      cases hr
      show s.blocks p = (s.last u).getD x.data
      rw [hu, hi.fresh t hnone]
      exact hdata
    · exact hi.contents u r ((hother u hu).symm.trans hr)
  · intro u hu
    by_cases hut : u = t
    · rw [hut, hself] at hu
      cases hu
    · exact hi.fresh u ((hother u hut).symm.trans hu)

/-- A call finds the thread's copy. -/
theorem PrivateInv.present (hi : PrivateInv x s) (hp : s.stage t = .entry a) (he : s.entries a t = some p) : PrivateInv x (s.ret t p) := by
  have hold := hi.stage t
  rw [hp] at hold
  have hcopy : s.copyOf t = some p := by
    rw [Privates.copyOf, hold]
    exact he
  have hgo : PrivateInv x (s.goto t .out) := by
    refine hi.goto (hi.lt (by rw [hp]; nofun)) trivial ?_ ?_
    · rw [hp]
      rfl
    · intro b hb
      exact nomatch (hp.symm.trans hb)
  refine ⟨hgo.others, hgo.stage, hgo.arrays, hgo.heap, hgo.apart, ?_, hgo.contents, hgo.fresh⟩
  intro u r hr
  replace hr : r ∈ Function.update s.returned t (s.returned t ++ [p]) u := hr
  by_cases hu : u = t
  · rw [hu, Function.update_self, List.mem_append, List.mem_singleton] at hr
    rw [hu]
    obtain hr | rfl := hr
    · exact hi.returned t r hr
    · exact hcopy
  · rw [Function.update_of_ne hu] at hr
    exact hi.returned u r hr

/-- A thread writes to its copy. -/
theorem PrivateInv.write (hi : PrivateInv x s) (hp : s.stage t = .out) (hr : p ∈ s.returned t) (v : β) :
    PrivateInv x { s.setBlock p v with last := Function.update s.last t (some v) } := by
  have hcopy := hi.returned t p hr
  have hown := hi.own_of_copy hcopy
  refine ⟨hi.others, ?_, hi.arrays, hi.heap, hi.apart, hi.returned, ?_, ?_⟩
  · intro u
    by_cases hu : u = t
    · show StageInv x _ u (s.stage u)
      rw [hu, hp]
      trivial
    · exact StageInv.setBlock hi hown hu v
  · intro u r h
    show _ = (Function.update s.last t (some v) u).getD x.data
    by_cases hu : u = t
    · subst hu
      cases hcopy.symm.trans h
      rw [Function.update_self]
      exact Function.update_self _ _ _
    · rw [Function.update_of_ne hu]
      exact hi.contents_setBlock hown hu h v
  · intro u h
    show Function.update s.last t (some v) u = none
    rw [Function.update_of_ne]
    · exact hi.fresh u h
    · rintro rfl
      exact nomatch (h.symm.trans hcopy)

/-- Every step keeps the invariant, where the critical section has one thread. -/
theorem PrivateStep.inv {l : Option LockCall} (h : PrivateStep x s l s') (hi : PrivateInv x s)
    (halone : ∀ t u, (s.stage t).Critical → (s.stage u).Critical → u = t) : PrivateInv x s' := by
  -- the moves that leave the shared state alone
  have hmove : ∀ {t q r}, s.stage t = r → r ≠ .out → StageInv x s t q → q.block? = r.block? → (∀ a, r ≠ .assign a) →
      PrivateInv x (s.goto t q) := by
    intro t q r hp hr hq hblock hassign
    subst hp
    exact hi.goto (hi.lt hr) hq hblock hassign
  have hold : ∀ {t q}, s.stage t = q → StageInv x s t q := fun {t q} hp => hp ▸ hi.stage t
  cases h with
  | start t ht hp => exact hi.goto ht trivial (by rw [hp]; rfl) fun b hb => nomatch (hp.symm.trans hb)
  | cached t hp hc => exact hmove hp nofun hc rfl nofun
  | uncached t hp hc => exact hmove hp nofun trivial rfl nofun
  | enter t hp => exact hmove hp nofun trivial rfl nofun
  | found t hp hc => exact hmove hp nofun hc rfl nofun
  | missing t a hp hc ha => exact hi.missing hp hc fun u => halone t u (by rw [hp]; trivial)
  | assign t hp => exact hi.assign hp fun u => halone t u (by rw [hp]; trivial)
  | leave t hp => exact hmove hp nofun (show StageInv x s t .leaving from hold hp) rfl nofun
  | index t hp hc => exact hmove hp nofun hc rfl nofun
  | present t hp he => exact hi.present hp he
  | absent t p hp he hf => exact hi.absent hp he hf
  | copy t hp => exact hi.copy hp
  | reindex t hp hc => exact hmove hp nofun ⟨hc, (hold hp).2⟩ rfl nofun
  | store t hp => exact hi.store hp
  | write t v hp hr => exact hi.write hp hr v

theorem privates_inv (entries : Nat → Nat → Option Nat) (blocks : Nat → β) (heap : Finset Nat) :
    PrivateInv x (privates x entries blocks heap).init where
  others _ _ := rfl
  stage _ := trivial
  arrays := ⟨Nat.zero_le 1, fun _ _ => rfl⟩
  heap := ⟨nofun, nofun⟩
  apart _ _ _ := nofun
  returned _ _ h := absurd h List.not_mem_nil
  contents _ _ := nofun
  fresh _ _ := rfl

end

/-! ## What the calls come to -/

structure ThreadprivateSound (x : Variable β) (s : Privates β) : Prop where
  array : s.arrays ≤ 1
  /-- The array is there when it is indexed, and has the entry. -/
  indexed : ∀ t, s.stage t = .index ∨ (∃ p, s.stage t = .reindex p) → s.cache ≠ none
  bounds : ∀ t, s.stage t ≠ .out → t < maxThreads
  /-- A thread gets one copy, in every call... -/
  same : ∀ t p q, p ∈ s.returned t → q ∈ s.returned t → p = q
  /-- ... and no other thread does. -/
  apart : ∀ t u p, p ∈ s.returned t → p ∈ s.returned u → t = u
  /-- A copy has what its thread wrote last, and before that the variable's contents. -/
  contents : ∀ t p, p ∈ s.returned t → s.blocks p = (s.last t).getD x.data

theorem PrivateInv.sound {x : Variable β} {s : Privates β} (hi : PrivateInv x s) : ThreadprivateSound x s where
  array := hi.arrays.1
  indexed := by
    intro t h
    have hst := hi.stage t
    obtain h | ⟨p, h⟩ := h
    · rw [h] at hst
      exact hst
    · rw [h] at hst
      exact hst.1
  bounds t h := (hi.lt h).trans_le x.threads_le
  same t p q hp hq := Option.some.inj ((hi.returned t p hp).symm.trans (hi.returned t q hq))
  apart t u p hp hq := hi.apart t u p (hi.own_of_copy (hi.returned t p hp)) (hi.own_of_copy (hi.returned u p hq))
  contents t p hp := hi.contents t p (hi.returned t p hp)

/-- The threads that use a variable with a lock. -/
theorem threadprivate_sound_of_lock {σ : Type} {C : Machine σ LockCall} {R : σ → LockState Nat → Prop} (hC : Simulates C (lock Nat) R)
    {x : Variable β} {entries : Nat → Nat → Option Nat} {blocks : Nat → β} {heap : Finset Nat} {s : σ × Privates β}
    (hs : ParReach C (privates x entries blocks heap) s) : ThreadprivateSound x s.2 := by
  have hd := privates_disciplined x entries blocks heap
  refine PrivateInv.sound ?_
  exact hd.client_inv hC (privates_inv entries blocks heap) (fun hstep halone hi => hstep.inv hi fun t u ht hu => halone u t hu ht) hs

/-- Private copies with the spin lock of either architecture. -/
theorem threadprivate_sound (x : Variable β) (entries : Nat → Nat → Option Nat) (blocks : Nat → β) (heap : Finset Nat) :
    (∀ s, ParReach x86Lock (privates x entries blocks heap) s → ThreadprivateSound x s.2) ∧
      ∀ s, ParReach armLock (privates x entries blocks heap) s → ThreadprivateSound x s.2 :=
  ⟨fun _ hs => threadprivate_sound_of_lock x86_simulates hs, fun _ hs => threadprivate_sound_of_lock arm_simulates hs⟩

/-- A variable of two threads. -/
def sevenOfTwo : Variable Nat := ⟨7, 2, by decide⟩

/-- The first thread has allocated the array and its copy, and written to it; the second has a copy
    that is as the variable is. -/
theorem threadprivate_sound_two : ∃ s, ParReach x86Lock (privates sevenOfTwo (fun _ _ => none) (fun _ => 0) ∅) s ∧
    s.2.returned 0 = [200] ∧ s.2.blocks 200 = 9 ∧ s.2.returned 1 = [201] ∧ s.2.blocks 201 = 7 ∧ ThreadprivateSound sevenOfTwo s.2 := by
  have h0 : ParReach x86Lock (privates sevenOfTwo (fun _ _ => none) (fun _ => 0) ∅) _ :=
    .tail .refl (.client (PrivateStep.start 0 (by decide) rfl))
  have h1 := h0.tail (.both (.call 0) ⟨0, .call rfl⟩ (PrivateStep.uncached 0 rfl rfl))
  have h2 := h1.tail (.device ⟨0, .free rfl rfl⟩)
  have h3 := h2.tail (.both (.acquire 0) ⟨0, .take rfl (by decide)⟩ (PrivateStep.enter 0 rfl))
  have h4 := (h3.tail (.client (PrivateStep.missing 0 100 rfl rfl (by decide)))).tail (.client (PrivateStep.assign 0 rfl))
  have h5 := h4.tail (.both (.release 0) ⟨0, .unlock rfl rfl⟩ (PrivateStep.leave 0 rfl))
  have h6 := (h5.tail (.client (PrivateStep.index 0 rfl rfl))).tail (.client (PrivateStep.absent 0 200 rfl rfl (by decide)))
  have h7 := (h6.tail (.client (PrivateStep.copy 0 rfl))).tail (.client (PrivateStep.reindex 0 rfl rfl))
  have h8 := h7.tail (.client (PrivateStep.store 0 rfl))
  have g0 := h8.tail (.client (PrivateStep.start 1 (by decide) rfl))
  have g1 := g0.tail (.client (PrivateStep.cached 1 rfl nofun))
  have g2 := (g1.tail (.client (PrivateStep.index 1 rfl rfl))).tail (.client (PrivateStep.absent 1 201 rfl rfl (by decide)))
  have g3 := (g2.tail (.client (PrivateStep.copy 1 rfl))).tail (.client (PrivateStep.reindex 1 rfl rfl))
  have g4 := (g3.tail (.client (PrivateStep.store 1 rfl))).tail (.client (PrivateStep.write 0 9 rfl (List.mem_singleton.mpr rfl)))
  exact ⟨_, g4, rfl, rfl, rfl, rfl, (threadprivate_sound sevenOfTwo _ _ _).1 _ g4⟩

end Popcorn.Bomp
