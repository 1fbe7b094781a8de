/-
  Popcorn.Bomp.Nested — nested parallel regions
  (lib/libbomp/{parallel,processing,omp}.c).

  `GOMP_parallel_start` and `GOMP_parallel_end` are called by all threads of a team and count
  the open regions in one global counter; who finds the counter at 1 in
  `GOMP_parallel_end` waits for the team in `bomp_end_processing`. Every access to the
  counter and to `g_thread_numbers` is a step. Thread 0 is the master, the others take the
  tasks that `bomp_start_processing` adds; a task waits at the barrier when its function has
  returned. A round of the barrier opens when `max` threads have arrived, and lets all of them
  go on (`barrier_separates_rounds`).

  `regions` counts the outermost regions the master has opened and `ended` has the calls of
  `bomp_end_processing`; they are recorded beside the run.

  Proved: `nested_ends_right`: in every interleaving, if the counter is tested only where the
  open regions are the right ones and a round opens only for a team of its size, each outermost
  region is ended once, by the master.
-/

import Mathlib.Algebra.BigOperators.Group.Finset.Basic
import Mathlib.Data.Finset.Card
import Mathlib.Data.List.Range
import Mathlib.Tactic.Common

namespace Popcorn.Bomp

/-! ## The state -/

/-- What does not change in a run. -/
structure NestConfig where
  workers : Nat
  /-- `pool->global_barrier->max`. -/
  max : Nat
  /-- `bomp_num_threads`. -/
  numThreads : UInt32
  /-- `bomp_dynamic_behaviour`. -/
  dynamic : Bool

/-- Where a thread is. -/
inductive Point where
  /-- The master before or after a region, a worker without a task. -/
  | outside
  | code
  /-- In `bomp_start_processing`, before the write of `g_thread_numbers`. -/
  | starting (nthreads : UInt32)
  /-- In its loop, with `left` tasks to add. -/
  | spawning (left : Nat)
  /-- Before the increment of the counter. -/
  | counting
  /-- In `bomp_end_processing`, before, in and after the barrier. -/
  | ending
  | ended
  | resetting
  /-- Before the decrement. -/
  | uncounting
  /-- A task at the barrier. -/
  | leaving
  deriving DecidableEq, Repr

/-- A thread and how many of its regions are counted. -/
@[ext]
structure NestThread where
  depth : Nat
  point : Point
  deriving DecidableEq, Repr

/-- A call of `bomp_end_processing`: by whom, how deep, and during which outermost region. -/
structure EndCall where
  thread : Nat
  depth : Nat
  region : Nat
  deriving DecidableEq, Repr

structure Nest where
  nested : UInt32
  /-- `g_thread_numbers`. -/
  threadNumbers : UInt32
  /-- The tasks in the queue. -/
  pending : Nat
  threads : Nat → NestThread
  /-- The threads that wait in the barrier's round. -/
  arrived : Finset Nat
  regions : Nat
  ended : List EndCall

def initialNest : Nest := ⟨0, 1, 0, fun _ => ⟨0, .outside⟩, ∅, 0, []⟩

/-! ## The code -/

/-- `omp_in_parallel`. -/
def ompInParallel (threadNumbers : UInt32) : Bool := if threadNumbers = 1 then false else threadNumbers != 0

/-- The number of threads `GOMP_parallel_start` starts a region with. -/
def teamSize (c : NestConfig) (nthreads : UInt32) : UInt32 :=
  if nthreads = 0 || (c.dynamic && c.numThreads < nthreads) then c.numThreads else nthreads

namespace Nest

def setThread (s : Nest) (p : Nat) (t : NestThread) : Nest := { s with threads := Function.update s.threads p t }

def setPoint (s : Nest) (p : Nat) (x : Point) : Nest := s.setThread p ⟨(s.threads p).depth, x⟩

end Nest

/-- A thread that the barrier lets go. -/
def NestThread.release (t : NestThread) : NestThread :=
  match t.point with
  | .leaving => { t with point := .outside }
  | .ended => { t with point := .resetting }
  | _ => t

/-- `bomp_barrier_wait`. -/
def Nest.arrive (c : NestConfig) (s : Nest) (p : Nat) (x : Point) : Nest :=
  let s := { s.setPoint p x with arrived := insert p s.arrived }
  if s.arrived.card = c.max then
    { s with threads := fun q => if q ∈ s.arrived then (s.threads q).release else s.threads q, arrived := ∅ }
  else s

inductive NestAct where
  /-- `GOMP_parallel_start`, up to the read of `g_thread_numbers`. -/
  | start (p : Nat) (nthreads : UInt32)
  | setThreads (p : Nat)
  | add (p : Nat)
  | count (p : Nat)
  /-- `GOMP_parallel_end`, up to the test of the counter. -/
  | test (p : Nat)
  | arrive (p : Nat)
  | reset (p : Nat)
  | uncount (p : Nat)
  /-- A worker takes a task. -/
  | take (p : Nat)
  deriving DecidableEq, Repr

/-- `none` where the thread is not at the action. -/
def nestStep (c : NestConfig) (s : Nest) : NestAct → Option Nest
  | .start p nthreads =>
    let next := if ompInParallel s.threadNumbers then .counting else .starting (teamSize c nthreads)
    if (s.threads p).point = .code then some (s.setPoint p next)
    else if p = 0 ∧ (s.threads p).point = .outside then some { s.setPoint p next with regions := s.regions + 1 }
    else none
  | .setThreads p =>
    match (s.threads p).point with
    | .starting nthreads => some { s.setPoint p (.spawning (nthreads.toNat - 1)) with threadNumbers := nthreads }
    | _ => none
  | .add p =>
    match (s.threads p).point with
    | .spawning (left + 1) => some { s.setPoint p (.spawning left) with pending := s.pending + 1 }
    | .spawning 0 => some (s.setPoint p .counting)
    | _ => none
  | .count p =>
    if (s.threads p).point = .counting then
      some { s.setThread p ⟨(s.threads p).depth + 1, .code⟩ with nested := s.nested + 1 }
    else none
  | .test p =>
    if (s.threads p).point = .code ∧ 1 ≤ (s.threads p).depth then
      if s.nested = 1 then some { s.setPoint p .ending with ended := s.ended ++ [⟨p, (s.threads p).depth, s.regions⟩] }
      else some (s.setPoint p .uncounting)
    else none
  | .arrive p =>
    if (s.threads p).point = .ending then some (s.arrive c p .ended)
    else if p ≠ 0 ∧ s.threads p = ⟨0, .code⟩ then some (s.arrive c p .leaving)
    else none
  | .reset p => if (s.threads p).point = .resetting then some { s.setPoint p .uncounting with threadNumbers := 1 } else none
  | .uncount p =>
    if (s.threads p).point = .uncounting then
      let next := if p = 0 ∧ (s.threads p).depth = 1 then .outside else .code
      some { s.setThread p ⟨(s.threads p).depth - 1, next⟩ with nested := s.nested - 1 }
    else none
  | .take p =>
    if p ≠ 0 ∧ p ≤ c.workers ∧ (s.threads p).point = .outside ∧ 0 < s.pending then
      some { s.setThread p ⟨0, .code⟩ with pending := s.pending - 1 }
    else none

/-! ## The property -/

/-- The regions that are counted. -/
def Nest.openRegions (c : NestConfig) (s : Nest) : Nat := ∑ p ∈ Finset.range (c.workers + 1), (s.threads p).depth

/-- `bomp_end_processing` is called by the master only, at the end of its outermost region, and
    once for each; after the region the counter is 0. -/
structure EndsRight (s : Nest) : Prop where
  master : ∀ e ∈ s.ended, e.thread = 0 ∧ e.depth = 1
  once : (s.ended.map EndCall.region).Nodup
  finished : (s.threads 0).point = .outside → s.nested = 0 ∧ ∀ k, 1 ≤ k → k ≤ s.regions → k ∈ s.ended.map EndCall.region

/-- When the master ends its outermost region no other region is open; when another region ends,
    one more is counted beside it; when a round of the barrier opens, the team has not more members
    than the barrier counts. -/
def Meets (c : NestConfig) (s : Nest) : NestAct → Prop
  | .test p =>
    if p = 0 ∧ (s.threads 0).depth = 1 then ∀ q < c.workers + 1, q ≠ 0 → (s.threads q).depth = 0
    else 2 ≤ s.openRegions c ∧ s.openRegions c ≤ 2 ^ 32
  | .arrive p => (insert p s.arrived).card = c.max → s.threadNumbers.toNat ≤ c.max
  | _ => True

/-- The steps of a run all meet the condition. -/
def MeetsAll (c : NestConfig) : Nest → List NestAct → Prop
  | _, [] => True
  | s, a :: rest =>
    Meets c s a ∧
      match nestStep c s a with
      | some s' => MeetsAll c s' rest
      | none => True

instance decidableMeets (c : NestConfig) (s : Nest) : (a : NestAct) → Decidable (Meets c s a)
  | .test _ => inferInstanceAs (Decidable (ite _ _ _))
  | .arrive _ => inferInstanceAs (Decidable (_ → _))
  | .start .. | .setThreads _ | .add _ | .count _ | .reset _ | .uncount _ | .take _ => inferInstanceAs (Decidable True)

instance decidableMeetsAll (c : NestConfig) : (s : Nest) → (acts : List NestAct) → Decidable (MeetsAll c s acts)
  | _, [] => inferInstanceAs (Decidable True)
  | s, a :: rest =>
    match h : nestStep c s a with
    | some s' =>
      have := decidableMeetsAll c s' rest
      decidable_of_iff (Meets c s a ∧ MeetsAll c s' rest) (by rw [MeetsAll, h])
    | none => decidable_of_iff (Meets c s a) (by rw [MeetsAll, h, and_true])

/-! ## The invariant -/

/-- The depth that goes with a point. -/
def PointOk (p : Nat) (t : NestThread) : Prop :=
  match t.point with
  | .outside => t.depth = 0
  | .code => p = 0 → 1 ≤ t.depth
  | .starting _ | .spawning _ => p = 0
  | .counting => True
  | .ending | .ended | .resetting => p = 0 ∧ t.depth = 1
  | .uncounting => 1 ≤ t.depth
  | .leaving => p ≠ 0 ∧ t.depth = 0

def Point.waits : Point → Bool
  | .ended | .leaving => true
  | _ => false

/-- The tasks a thread has still to add. -/
def Point.left : Point → Nat
  | .spawning left => left
  | _ => 0

/-- No region of the master's is on, or the one it is in has been ended. -/
def NestThread.done (t : NestThread) : Bool :=
  match t.point with
  | .outside | .ending | .ended | .resetting => true
  | .uncounting => t.depth == 1
  | _ => false

/-- The master is where `g_thread_numbers` has not been raised, or has been reset. -/
def NestThread.low (t : NestThread) : Bool :=
  match t.point with
  | .outside | .starting _ => true
  | .uncounting => t.depth == 1
  | _ => false

/-- No task is queued or running. -/
def Quiet (s : Nest) : Prop := s.pending = 0 ∧ ∀ p, p ≠ 0 → s.threads p = ⟨0, .outside⟩

/-- The threads inside a region. -/
def Nest.working (c : NestConfig) (s : Nest) : Finset Nat := (Finset.range (c.workers + 1)).filter fun p => (s.threads p).point ≠ .outside

structure NestInv (c : NestConfig) (s : Nest) : Prop where
  points : ∀ p, PointOk p (s.threads p)
  beyond : ∀ p, c.workers < p → s.threads p = ⟨0, .outside⟩
  arrived : ∀ p, p ∈ s.arrived ↔ (s.threads p).point.waits = true
  count : s.nested = UInt32.ofNat (s.openRegions c)
  low : (s.threads 0).low = true → s.threadNumbers.toNat ≤ 1
  raised : 1 ≤ (s.threads 0).point.left → 2 ≤ s.threadNumbers.toNat
  quiet : s.threadNumbers.toNat ≤ 1 ∨ (s.threads 0).point = .resetting → Quiet s
  /-- Every thread at work, and every one that is still to come, is a member of the team. -/
  team : 2 ≤ s.threadNumbers.toNat → (s.working c).card + s.pending + (s.threads 0).point.left ≤ s.threadNumbers.toNat
  ended : s.ended = (List.range' 1 (if (s.threads 0).done then s.regions else s.regions - 1)).map fun k => ⟨0, 1, k⟩
  regions : (s.threads 0).point ≠ .outside → 1 ≤ s.regions

theorem initialNest_inv (c : NestConfig) : NestInv c initialNest := by
  refine ⟨fun p => rfl, fun p _ => rfl, fun p => ?_, ?_, fun _ => Nat.le_refl 1, fun h => absurd h (by decide), fun _ => ⟨rfl, fun p _ => rfl⟩,
    fun h => absurd h (by decide), rfl, fun h => absurd rfl h⟩
  · exact iff_of_false (Finset.notMem_empty p) Bool.false_ne_true
  · have hsum : initialNest.openRegions c = 0 := Finset.sum_const_zero
    rw [hsum]
    rfl

section
variable {c : NestConfig} {s s' : Nest}

/-- One thread changes. -/
theorem openRegions_update {p : Nat} (hp : p ≤ c.workers) {t : NestThread} (h : s'.threads = Function.update s.threads p t) :
    s'.openRegions c + (s.threads p).depth = s.openRegions c + t.depth := by
  have hmem : p ∈ Finset.range (c.workers + 1) := Finset.mem_range.mpr (by omega)
  unfold Nest.openRegions
  rw [h, ← Finset.add_sum_erase _ _ hmem, ← Finset.add_sum_erase _ (fun q => (s.threads q).depth) hmem, Function.update_self]
  have hrest : ∑ q ∈ (Finset.range (c.workers + 1)).erase p, (Function.update s.threads p t q).depth =
      ∑ q ∈ (Finset.range (c.workers + 1)).erase p, (s.threads q).depth :=
    Finset.sum_congr rfl fun q hq => by rw [Function.update_of_ne (Finset.ne_of_mem_erase hq)]
  rw [hrest]
  omega

theorem openRegions_same {p : Nat} (hp : p ≤ c.workers) {t : NestThread} (h : s'.threads = Function.update s.threads p t)
    (hd : t.depth = (s.threads p).depth) : s'.openRegions c = s.openRegions c := by
  have hsum := openRegions_update hp h
  omega

theorem mem_working {p : Nat} : p ∈ s.working c ↔ p ≤ c.workers ∧ (s.threads p).point ≠ .outside := by
  rw [Nest.working, Finset.mem_filter, Finset.mem_range, Nat.lt_succ_iff]

/-- A thread at work stays so. -/
theorem working_update {p : Nat} {t : NestThread} (h : s'.threads = Function.update s.threads p t)
    (ho : (s.threads p).point ≠ .outside) (hn : t.point ≠ .outside) : s'.working c = s.working c := by
  ext q
  rw [mem_working, mem_working, h]
  by_cases hq : q = p
  · rw [hq, Function.update_self]
    exact and_congr_right fun _ => iff_of_true hn ho
  · rw [Function.update_of_ne hq]

theorem Quiet.update {t : NestThread} (hq : Quiet s) (h : s'.threads = Function.update s.threads 0 t) (hp : s'.pending = 0) : Quiet s' := by
  refine ⟨hp, fun p hne => ?_⟩
  rw [h, Function.update_of_ne hne]
  exact hq.2 p hne

theorem Quiet.working (hq : Quiet s) : s.working c ⊆ {0} := by
  intro p hp
  by_contra hne
  rw [mem_working, hq.2 p (fun h => hne (Finset.mem_singleton.mpr h))] at hp
  exact hp.2 rfl

theorem NestInv.le (hi : NestInv c s) {p : Nat} (h : (s.threads p).point ≠ .outside) : p ≤ c.workers := by
  by_contra hlt
  rw [hi.beyond p (by omega)] at h
  exact h rfl

/-- Where nobody else is at work, who is is the master. -/
theorem Quiet.eq_zero (hq : Quiet s) {p : Nat} (h : (s.threads p).point ≠ .outside) : p = 0 := by
  by_contra hne
  rw [hq.2 p hne] at h
  exact h rfl

/-- What a step of one thread that is not at the barrier leaves of the invariant. -/
theorem NestInv.thread (hi : NestInv c s) {p : Nat} {t : NestThread} (hp : p ≤ c.workers) (h : s'.threads = Function.update s.threads p t)
    (ha : s'.arrived = s.arrived) (hold : (s.threads p).point.waits = false) (hnew : t.point.waits = false) (ht : PointOk p t) :
    (∀ q, PointOk q (s'.threads q)) ∧ (∀ q, c.workers < q → s'.threads q = ⟨0, .outside⟩) ∧
      ∀ q, q ∈ s'.arrived ↔ (s'.threads q).point.waits = true := by
  have hne : ∀ q, q ≠ p → s'.threads q = s.threads q := fun q hq => by rw [h, Function.update_of_ne hq]
  have hself : s'.threads p = t := by rw [h, Function.update_self]
  refine ⟨fun q => ?_, fun q hq => ?_, fun q => ?_⟩
  · by_cases hq : q = p
    · rw [hq, hself]
      exact ht
    · rw [hne q hq]
      exact hi.points q
  · rw [hne q (by omega)]
    exact hi.beyond q hq
  · by_cases hq : q = p
    · rw [ha, hq, hi.arrived, hself, hold, hnew]
    · rw [ha, hne q hq]
      exact hi.arrived q

/-- Where the master does not step, and some task keeps the workers from being at rest, the counter,
    the places and the team are left. -/
theorem NestInv.of_worker (hi : NestInv c s) (h0 : s'.threads 0 = s.threads 0) (hpoints : ∀ q, PointOk q (s'.threads q))
    (hbeyond : ∀ q, c.workers < q → s'.threads q = ⟨0, .outside⟩) (harrived : ∀ q, q ∈ s'.arrived ↔ (s'.threads q).point.waits = true)
    (hcount : s'.nested = UInt32.ofNat (s'.openRegions c)) (hg : s'.threadNumbers = s.threadNumbers) (hr : s'.regions = s.regions)
    (he : s'.ended = s.ended) (hbusy : ¬ Quiet s) (hteam : (s'.working c).card + s'.pending ≤ (s.working c).card + s.pending) :
    NestInv c s' := by
  refine ⟨hpoints, hbeyond, harrived, hcount, ?_, ?_, ?_, ?_, ?_, ?_⟩
  · rw [h0, hg]
    exact hi.low
  · rw [h0, hg]
    exact hi.raised
  · rw [h0, hg]
    exact fun hlow => absurd (hi.quiet hlow) hbusy
  · rw [h0, hg]
    intro hraised
    have := hi.team hraised
    omega
  · rw [h0, hr, he]
    exact hi.ended
  · rw [h0, hr]
    exact hi.regions

/-- A step of a worker that some task keeps from being at rest. -/
theorem NestInv.worker (hi : NestInv c s) {p : Nat} {t : NestThread} (hp0 : p ≠ 0) (hp : p ≤ c.workers)
    (h : s'.threads = Function.update s.threads p t) (ha : s'.arrived = s.arrived) (hold : (s.threads p).point.waits = false)
    (hnew : t.point.waits = false) (ht : PointOk p t) (hcount : s'.nested = UInt32.ofNat (s'.openRegions c))
    (hg : s'.threadNumbers = s.threadNumbers) (hr : s'.regions = s.regions) (he : s'.ended = s.ended) (hbusy : ¬ Quiet s)
    (hteam : (s'.working c).card + s'.pending ≤ (s.working c).card + s.pending) : NestInv c s' := by
  obtain ⟨hpoints, hbeyond, harrived⟩ := hi.thread hp h ha hold hnew ht
  exact hi.of_worker (by rw [h, Function.update_of_ne (Ne.symm hp0)]) hpoints hbeyond harrived hcount hg hr he hbusy hteam

/-- A worker at work goes on; its regions are counted as before. -/
theorem NestInv.worker_point (hi : NestInv c s) {p : Nat} {x : Point} (hp0 : p ≠ 0) (ho : (s.threads p).point ≠ .outside)
    (hn : x ≠ .outside) (hold : (s.threads p).point.waits = false) (hnew : x.waits = false) (ht : PointOk p ⟨(s.threads p).depth, x⟩) :
    NestInv c (s.setPoint p x) := by
  have hp := hi.le ho
  have h : (s.setPoint p x).threads = Function.update s.threads p ⟨(s.threads p).depth, x⟩ := rfl
  refine hi.worker hp0 hp h rfl hold hnew ht ?_ rfl rfl rfl (fun hq => hp0 (hq.eq_zero ho)) (Nat.le_of_eq ?_)
  · rw [openRegions_same hp h rfl]
    exact hi.count
  · rw [working_update h ho hn]
    rfl

/-- The counter follows a region that is counted, or no longer. -/
theorem NestInv.counted (hi : NestInv c s) {p : Nat} {t : NestThread} (hp : p ≤ c.workers) (h : s'.threads = Function.update s.threads p t)
    (hd : t.depth = (s.threads p).depth + 1) : s.nested + 1 = UInt32.ofNat (s'.openRegions c) := by
  have hsum := openRegions_update hp h
  rw [hi.count, show s'.openRegions c = s.openRegions c + 1 by omega, UInt32.ofNat_add]
  rfl

theorem NestInv.uncounted (hi : NestInv c s) {p : Nat} {t : NestThread} (hp : p ≤ c.workers) (h : s'.threads = Function.update s.threads p t)
    (hd : t.depth + 1 = (s.threads p).depth) : s.nested - 1 = UInt32.ofNat (s'.openRegions c) := by
  have hsum := openRegions_update hp h
  rw [hi.count, show s.openRegions c = s'.openRegions c + 1 by omega, UInt32.ofNat_add]
  exact UInt32.add_sub_cancel _ _

/-- A step of the master. -/
theorem NestInv.master (hi : NestInv c s) {t : NestThread} (h : s'.threads = Function.update s.threads 0 t) (ha : s'.arrived = s.arrived)
    (hold : (s.threads 0).point.waits = false) (hnew : t.point.waits = false) (ht : PointOk 0 t)
    (hcount : s'.nested = UInt32.ofNat (s'.openRegions c)) (hlow : t.low = true → s'.threadNumbers.toNat ≤ 1)
    (hraised : 1 ≤ t.point.left → 2 ≤ s'.threadNumbers.toNat) (hquiet : s'.threadNumbers.toNat ≤ 1 ∨ t.point = .resetting → Quiet s')
    (hteam : 2 ≤ s'.threadNumbers.toNat → (s'.working c).card + s'.pending + t.point.left ≤ s'.threadNumbers.toNat)
    (hended : s'.ended = (List.range' 1 (if t.done then s'.regions else s'.regions - 1)).map fun k => ⟨0, 1, k⟩)
    (hregions : t.point ≠ .outside → 1 ≤ s'.regions) : NestInv c s' := by
  obtain ⟨hpoints, hbeyond, harrived⟩ := hi.thread (Nat.zero_le _) h ha hold hnew ht
  have h0 : s'.threads 0 = t := by rw [h, Function.update_self]
  exact ⟨hpoints, hbeyond, harrived, hcount, h0 ▸ hlow, h0 ▸ hraised, h0 ▸ hquiet, h0 ▸ hteam, h0 ▸ hended, h0 ▸ hregions⟩

/-- The master goes on within its region; its regions are counted as before. -/
theorem NestInv.master_point (hi : NestInv c s) {x : Point} (ho : (s.threads 0).point ≠ .outside) (hn : x ≠ .outside) (hx : x ≠ .resetting)
    (hold : (s.threads 0).point.waits = false) (hnew : x.waits = false) (ht : PointOk 0 ⟨(s.threads 0).depth, x⟩)
    (hlow : (⟨(s.threads 0).depth, x⟩ : NestThread).low = true → s.threadNumbers.toNat ≤ 1) (hleft : x.left = 0)
    (hdone : (⟨(s.threads 0).depth, x⟩ : NestThread).done = (s.threads 0).done) : NestInv c (s.setPoint 0 x) := by
  have h : (s.setPoint 0 x).threads = Function.update s.threads 0 ⟨(s.threads 0).depth, x⟩ := rfl
  refine hi.master h rfl hold hnew ht ?_ hlow ?_ ?_ ?_ ?_ ?_
  · rw [openRegions_same (Nat.zero_le _) h rfl]
    exact hi.count
  · intro hpos
    change 1 ≤ x.left at hpos
    omega
  · rintro (hq | hq)
    · exact (hi.quiet (.inl hq)).update h (hi.quiet (.inl hq)).1
    · exact absurd hq hx
  · intro hraised
    have hteam := hi.team hraised
    rw [working_update h ho hn]
    change (s.working c).card + s.pending + x.left ≤ s.threadNumbers.toNat
    omega
  · rw [hdone]
    exact hi.ended
  · exact fun _ => hi.regions ho

/-! ## The steps -/

theorem ompInParallel_iff (g : UInt32) : ompInParallel g = true ↔ 2 ≤ g.toNat := by
  have hone : g = 1 ↔ g.toNat = 1 := UInt32.toNat_inj.symm
  have hzero : g = 0 ↔ g.toNat = 0 := UInt32.toNat_inj.symm
  unfold ompInParallel
  by_cases h : g = 1
  · rw [if_pos h]
    exact iff_of_false Bool.false_ne_true (by have := hone.mp h; omega)
  · rw [if_neg h, bne_iff_ne, ne_eq, hzero]
    rw [hone] at h
    omega

theorem NestInv.start (hi : NestInv c s) {p : Nat} {nthreads : UInt32} (h : nestStep c s (.start p nthreads) = some s') : NestInv c s' := by
  unfold nestStep at h
  dsimp only at h
  by_cases hg : ompInParallel s.threadNumbers = true
  · -- a nested region: only the counter follows
    rw [if_pos hg] at h
    have hraised := (ompInParallel_iff _).mp hg
    split_ifs at h with hcode hout
    · cases h
      by_cases hp : p = 0
      · subst hp
        refine hi.master_point (by rw [hcode]; decide) (by decide) (by decide) (by rw [hcode]; rfl) rfl trivial nofun rfl ?_
        unfold NestThread.done
        rw [hcode]
      · exact hi.worker_point hp (by rw [hcode]; decide) (by decide) (by rw [hcode]; rfl) rfl trivial
    · obtain ⟨rfl, hpoint⟩ := hout
      have hlow := hi.low (by unfold NestThread.low; rw [hpoint])
      omega
  · rw [if_neg hg] at h
    have hlow : s.threadNumbers.toNat ≤ 1 := by
      have := mt (ompInParallel_iff _).mpr hg
      omega
    have hquiet := hi.quiet (.inl hlow)
    split_ifs at h with hcode hout
    · cases h
      have hp : p = 0 := hquiet.eq_zero (by rw [hcode]; decide)
      subst hp
      refine hi.master_point (by rw [hcode]; decide) nofun nofun (by rw [hcode]; rfl) rfl rfl (fun _ => hlow) rfl ?_
      unfold NestThread.done
      rw [hcode]
    · cases h
      obtain ⟨rfl, hpoint⟩ := hout
      have hthreads : ({ s.setPoint 0 (.starting (teamSize c nthreads)) with regions := s.regions + 1 } : Nest).threads =
          Function.update s.threads 0 ⟨(s.threads 0).depth, .starting (teamSize c nthreads)⟩ := rfl
      refine hi.master hthreads rfl (by rw [hpoint]; rfl) rfl rfl ?_ (fun _ => hlow) nofun (fun _ => hquiet.update hthreads hquiet.1) ?_ ?_
        fun _ => Nat.succ_pos _
      · rw [openRegions_same (Nat.zero_le _) hthreads rfl]
        exact hi.count
      · intro hraised
        change 2 ≤ s.threadNumbers.toNat at hraised
        omega
      · have hended := hi.ended
        rw [NestThread.done, hpoint] at hended
        exact hended

theorem NestInv.setThreads (hi : NestInv c s) {p : Nat} (h : nestStep c s (.setThreads p) = some s') : NestInv c s' := by
  cases hpoint : (s.threads p).point with
  | starting nthreads =>
    have hok := hi.points p
    simp only [nestStep, hpoint, Option.some.injEq] at h
    rw [PointOk, hpoint] at hok
    subst h hok
    have hquiet := hi.quiet (.inl (hi.low (by unfold NestThread.low; rw [hpoint])))
    have hregions := hi.regions (by rw [hpoint]; nofun)
    have hthreads : ({ s.setPoint 0 (.spawning (nthreads.toNat - 1)) with threadNumbers := nthreads } : Nest).threads =
        Function.update s.threads 0 ⟨(s.threads 0).depth, .spawning (nthreads.toNat - 1)⟩ := rfl
    have halone := hquiet.update hthreads hquiet.1
    refine hi.master hthreads rfl (by rw [hpoint]; rfl) rfl rfl ?_ nofun ?_ (fun _ => halone) ?_ ?_ fun _ => hregions
    · rw [openRegions_same (Nat.zero_le _) hthreads rfl]
      exact hi.count
    · intro hleft
      change 1 ≤ nthreads.toNat - 1 at hleft
      show 2 ≤ nthreads.toNat
      omega
    · intro hraised
      change 2 ≤ nthreads.toNat at hraised
      have hcard := Finset.card_le_card (halone.working (c := c))
      rw [Finset.card_singleton] at hcard
      refine Nat.le_trans (Nat.add_le_add_right (Nat.add_le_add hcard (Nat.le_of_eq hquiet.1)) _) ?_
      show 1 + 0 + (nthreads.toNat - 1) ≤ nthreads.toNat
      omega
    · have hended := hi.ended
      rw [NestThread.done, hpoint] at hended
      exact hended
  | outside | code | spawning _ | counting | ending | ended | resetting | uncounting | leaving =>
    simp [nestStep, hpoint] at h

theorem NestInv.add (hi : NestInv c s) {p : Nat} (h : nestStep c s (.add p) = some s') : NestInv c s' := by
  have hok := hi.points p
  cases hpoint : (s.threads p).point with
  | spawning left =>
    rw [PointOk, hpoint] at hok
    subst hok
    have ho : (s.threads 0).point ≠ .outside := by rw [hpoint]; nofun
    have hw : (s.threads 0).point.waits = false := by rw [hpoint]; rfl
    have hdone : (s.threads 0).done = false := by rw [NestThread.done, hpoint]
    cases left with
    | zero =>
      simp only [nestStep, hpoint, Option.some.injEq] at h
      subst h
      exact hi.master_point ho nofun nofun hw rfl trivial nofun rfl hdone.symm
    | succ left =>
      simp only [nestStep, hpoint, Option.some.injEq] at h
      subst h
      have hraised := hi.raised (by rw [hpoint]; exact Nat.succ_pos left)
      have hteam := hi.team hraised
      have hthreads : ({ s.setPoint 0 (.spawning left) with pending := s.pending + 1 } : Nest).threads =
          Function.update s.threads 0 ⟨(s.threads 0).depth, .spawning left⟩ := rfl
      refine hi.master hthreads rfl hw rfl rfl ?_ nofun (fun _ => hraised) ?_ ?_ ?_ fun _ => hi.regions ho
      · rw [openRegions_same (Nat.zero_le _) hthreads rfl]
        exact hi.count
      · rintro (hlow | hx)
        · exact absurd hraised (Nat.not_le_of_lt (Nat.lt_succ_of_le hlow))
        · exact nomatch hx
      · intro _
        rw [working_update hthreads ho nofun]
        rw [hpoint] at hteam
        change _ + s.pending + (left + 1) ≤ _ at hteam
        show _ + (s.pending + 1) + left ≤ s.threadNumbers.toNat
        omega
      · have hended := hi.ended
        rw [hdone] at hended
        exact hended
  | outside | code | starting _ | counting | ending | ended | resetting | uncounting | leaving =>
    simp [nestStep, hpoint] at h

theorem NestInv.count_step (hi : NestInv c s) {p : Nat} (h : nestStep c s (.count p) = some s') : NestInv c s' := by
  unfold nestStep at h
  dsimp only at h
  split_ifs at h with hpoint
  cases h
  have ho : (s.threads p).point ≠ .outside := by rw [hpoint]; decide
  have hw : (s.threads p).point.waits = false := by rw [hpoint]; rfl
  have hp := hi.le ho
  have hthreads : ({ s.setThread p ⟨(s.threads p).depth + 1, .code⟩ with nested := s.nested + 1 } : Nest).threads =
      Function.update s.threads p ⟨(s.threads p).depth + 1, .code⟩ := rfl
  have hcount := hi.counted hp hthreads rfl
  have hwork := working_update (c := c) hthreads ho nofun
  by_cases hp0 : p = 0
  · subst hp0
    refine hi.master hthreads rfl hw rfl (fun _ => Nat.succ_pos _) hcount nofun nofun ?_ ?_ ?_ fun _ => hi.regions ho
    · rintro (hlow | hx)
      · exact (hi.quiet (.inl hlow)).update hthreads (hi.quiet (.inl hlow)).1
      · exact nomatch hx
    · intro hraised
      have hteam := hi.team hraised
      rw [hpoint] at hteam
      rw [hwork]
      exact hteam
    · have hended := hi.ended
      rw [NestThread.done, hpoint] at hended
      exact hended
  · exact hi.worker hp0 hp hthreads rfl hw rfl (fun h => absurd h hp0) hcount rfl rfl rfl (fun hq => hp0 (hq.eq_zero ho))
      (Nat.le_of_eq (congrArg (Finset.card · + s.pending) hwork))

/-- The counter is 1 where the one region that is counted is the master's. -/
theorem NestInv.only_master (hi : NestInv c s) (hd : (s.threads 0).depth = 1)
    (hothers : ∀ q < c.workers + 1, q ≠ 0 → (s.threads q).depth = 0) : s.nested = 1 := by
  have hopen : s.openRegions c = 1 := by
    unfold Nest.openRegions
    rw [Finset.sum_eq_single 0 (fun q hq hne => hothers q (Finset.mem_range.mp hq) hne) fun h => absurd (Finset.mem_range.mpr (Nat.succ_pos _)) h, hd]
  rw [hi.count, hopen]
  rfl

theorem NestInv.not_one (hi : NestInv c s) (h2 : 2 ≤ s.openRegions c) (hle : s.openRegions c ≤ 2 ^ 32) : s.nested ≠ 1 := by
  rw [hi.count]
  intro h
  have hnat := congrArg UInt32.toNat h
  rw [UInt32.toNat_ofNat'] at hnat
  change s.openRegions c % 2 ^ 32 = 1 at hnat
  omega

theorem NestInv.test (hi : NestInv c s) {p : Nat} (hm : Meets c s (.test p)) (h : nestStep c s (.test p) = some s') : NestInv c s' := by
  unfold nestStep at h
  unfold Meets at hm
  dsimp only at h hm
  by_cases hcode : (s.threads p).point = .code ∧ 1 ≤ (s.threads p).depth
  · rw [if_pos hcode] at h
    obtain ⟨hpoint, hpos⟩ := hcode
    have ho : (s.threads p).point ≠ .outside := by rw [hpoint]; decide
    have hw : (s.threads p).point.waits = false := by rw [hpoint]; rfl
    have hdone : (s.threads p).done = false := by rw [NestThread.done, hpoint]
    by_cases hlast : p = 0 ∧ (s.threads 0).depth = 1
    · obtain ⟨rfl, hd⟩ := hlast
      rw [if_pos ⟨rfl, hd⟩] at hm
      rw [if_pos (hi.only_master hd hm)] at h
      cases h
      have hregions := hi.regions ho
      have hthreads : ({ s.setPoint 0 .ending with ended := s.ended ++ [⟨0, (s.threads 0).depth, s.regions⟩] } : Nest).threads =
          Function.update s.threads 0 ⟨(s.threads 0).depth, .ending⟩ := rfl
      refine hi.master hthreads rfl hw rfl ⟨rfl, hd⟩ ?_ nofun nofun ?_ ?_ ?_ fun _ => hregions
      · rw [openRegions_same (Nat.zero_le _) hthreads rfl]
        exact hi.count
      · rintro (hlow | hx)
        · exact (hi.quiet (.inl hlow)).update hthreads (hi.quiet (.inl hlow)).1
        · exact nomatch hx
      · intro hraised
        have hteam := hi.team hraised
        rw [hpoint] at hteam
        rw [working_update hthreads ho nofun]
        exact hteam
      · have hended := hi.ended
        rw [hdone, if_neg Bool.false_ne_true] at hended
        show s.ended ++ [⟨0, (s.threads 0).depth, s.regions⟩] = (List.range' 1 s.regions).map _
        obtain ⟨k, hk⟩ : ∃ k, s.regions = k + 1 := ⟨s.regions - 1, by omega⟩
        rw [hended, hd, hk, List.range'_1_concat, List.map_append, Nat.add_comm 1 k]
        rfl
    · rw [if_neg hlast] at hm
      rw [if_neg (hi.not_one hm.1 hm.2)] at h
      cases h
      by_cases hp0 : p = 0
      · subst hp0
        have hd : ((s.threads 0).depth == 1) = false := by
          rw [beq_eq_false_iff_ne]
          exact fun h1 => hlast ⟨rfl, h1⟩
        refine hi.master_point ho nofun nofun hw rfl hpos ?_ rfl ?_
        · intro hlow
          exact absurd hlow (by rw [NestThread.low, hd]; exact Bool.false_ne_true)
        · rw [hdone]
          exact hd
      · exact hi.worker_point hp0 ho nofun hw rfl hpos
  · rw [if_neg hcode] at h
    cases h

theorem NestInv.reset (hi : NestInv c s) {p : Nat} (h : nestStep c s (.reset p) = some s') : NestInv c s' := by
  unfold nestStep at h
  dsimp only at h
  split_ifs at h with hpoint
  cases h
  have hok := hi.points p
  rw [PointOk, hpoint] at hok
  obtain ⟨rfl, hd⟩ := hok
  have hquiet := hi.quiet (.inr hpoint)
  have ho : (s.threads 0).point ≠ .outside := by rw [hpoint]; decide
  have hregions := hi.regions ho
  have hthreads : ({ s.setPoint 0 .uncounting with threadNumbers := 1 } : Nest).threads =
      Function.update s.threads 0 ⟨(s.threads 0).depth, .uncounting⟩ := rfl
  refine hi.master hthreads rfl (by rw [hpoint]; rfl) rfl (Nat.le_of_eq hd.symm) ?_ (fun _ => Nat.le_refl 1) nofun
    (fun _ => hquiet.update hthreads hquiet.1) (fun h => absurd (show 2 ≤ (1 : UInt32).toNat from h) (by decide)) ?_ fun _ => hregions
  · rw [openRegions_same (Nat.zero_le _) hthreads rfl]
    exact hi.count
  · have hended := hi.ended
    rw [NestThread.done, hpoint] at hended
    have hdone : (⟨(s.threads 0).depth, .uncounting⟩ : NestThread).done = true := beq_iff_eq.mpr hd
    rw [hdone]
    exact hended

theorem NestInv.uncount (hi : NestInv c s) {p : Nat} (h : nestStep c s (.uncount p) = some s') : NestInv c s' := by
  unfold nestStep at h
  dsimp only at h
  by_cases hpoint : (s.threads p).point = .uncounting
  · rw [if_pos hpoint] at h
    have hok := hi.points p
    rw [PointOk, hpoint] at hok
    have ho : (s.threads p).point ≠ .outside := by rw [hpoint]; decide
    have hw : (s.threads p).point.waits = false := by rw [hpoint]; rfl
    have hp := hi.le ho
    have hd : (s.threads p).depth - 1 + 1 = (s.threads p).depth := Nat.sub_add_cancel hok
    by_cases hlast : p = 0 ∧ (s.threads p).depth = 1
    · rw [if_pos hlast] at h
      cases h
      obtain ⟨rfl, hd1⟩ := hlast
      have hthreads : ({ s.setThread 0 ⟨(s.threads 0).depth - 1, .outside⟩ with nested := s.nested - 1 } : Nest).threads =
          Function.update s.threads 0 ⟨(s.threads 0).depth - 1, .outside⟩ := rfl
      have hone : ((s.threads 0).depth == 1) = true := beq_iff_eq.mpr hd1
      have hlow := hi.low (by rw [NestThread.low, hpoint]; exact hone)
      have hquiet := hi.quiet (.inl hlow)
      refine hi.master hthreads rfl hw rfl (Nat.sub_eq_of_eq_add hd1) (hi.uncounted hp hthreads hd) (fun _ => hlow) nofun
        (fun _ => hquiet.update hthreads hquiet.1) (fun h => absurd h (Nat.not_le_of_lt (Nat.lt_succ_of_le hlow))) ?_ fun h => absurd rfl h
      have hended := hi.ended
      simp only [NestThread.done, hpoint, hone] at hended
      exact hended
    · rw [if_neg hlast] at h
      cases h
      have hthreads : ({ s.setThread p ⟨(s.threads p).depth - 1, .code⟩ with nested := s.nested - 1 } : Nest).threads =
          Function.update s.threads p ⟨(s.threads p).depth - 1, .code⟩ := rfl
      have hcount := hi.uncounted hp hthreads hd
      have hwork := working_update (c := c) hthreads ho nofun
      by_cases hp0 : p = 0
      · subst hp0
        have hne : (s.threads 0).depth ≠ 1 := fun h1 => hlast ⟨rfl, h1⟩
        refine hi.master hthreads rfl hw rfl (fun _ => ?_) hcount nofun nofun ?_ ?_ ?_ fun _ => hi.regions ho
        · show 1 ≤ (s.threads 0).depth - 1
          omega
        · rintro (hlow | hx)
          · exact (hi.quiet (.inl hlow)).update hthreads (hi.quiet (.inl hlow)).1
          · exact nomatch hx
        · intro hraised
          have hteam := hi.team hraised
          rw [hpoint] at hteam
          rw [hwork]
          exact hteam
        · have hended := hi.ended
          simp only [NestThread.done, hpoint, beq_eq_false_iff_ne.mpr hne] at hended
          exact hended
      · exact hi.worker hp0 hp hthreads rfl hw rfl (fun h => absurd h hp0) hcount rfl rfl rfl (fun hq => hp0 (hq.eq_zero ho))
          (Nat.le_of_eq (congrArg (Finset.card · + s.pending) hwork))
  · rw [if_neg hpoint] at h
    cases h

theorem NestInv.take (hi : NestInv c s) {p : Nat} (h : nestStep c s (.take p) = some s') : NestInv c s' := by
  unfold nestStep at h
  dsimp only at h
  split_ifs at h with hfree
  cases h
  obtain ⟨hp0, hp, hpoint, hpos⟩ := hfree
  have hok := hi.points p
  rw [PointOk, hpoint] at hok
  have hthreads : ({ s.setThread p ⟨0, .code⟩ with pending := s.pending - 1 } : Nest).threads = Function.update s.threads p ⟨0, .code⟩ := rfl
  refine hi.worker hp0 hp hthreads rfl (by rw [hpoint]; rfl) rfl (fun h => absurd h hp0) ?_ rfl rfl rfl ?_ ?_
  · rw [openRegions_same hp hthreads hok.symm]
    exact hi.count
  · intro hq
    have := hq.1
    omega
  · have hsub : ({ s.setThread p ⟨0, .code⟩ with pending := s.pending - 1 } : Nest).working c ⊆ insert p (s.working c) := by
      intro q hq
      by_cases hqp : q = p
      · exact hqp ▸ Finset.mem_insert_self _ _
      · rw [mem_working, hthreads, Function.update_of_ne hqp] at hq
        exact Finset.mem_insert_of_mem (mem_working.mpr hq)
    refine Nat.le_trans (Nat.add_le_add_right (Nat.le_trans (Finset.card_le_card hsub) (Finset.card_insert_le _ _)) _) ?_
    show (s.working c).card + 1 + (s.pending - 1) ≤ _
    omega

/-! ## The barrier -/

theorem NestThread.release_depth (t : NestThread) : t.release.depth = t.depth := by
  unfold release
  split <;> rfl

/-- A thread goes to wait in the round. -/
def Nest.wait (s : Nest) (p : Nat) (x : Point) : Nest := { s.setPoint p x with arrived := insert p s.arrived }

theorem Nest.wait_threads (s : Nest) (p : Nat) (x : Point) :
    (s.wait p x).threads = Function.update s.threads p ⟨(s.threads p).depth, x⟩ := rfl

section
variable (hi : NestInv c s) {p : Nat} {x : Point} (ho : (s.threads p).point ≠ .outside) (hx : x.waits = true)
  (ht : PointOk p ⟨(s.threads p).depth, x⟩)

include hi ho hx ht in
theorem NestInv.wait_threads : (∀ q, PointOk q ((s.wait p x).threads q)) ∧
    (∀ q, c.workers < q → (s.wait p x).threads q = ⟨0, .outside⟩) ∧
      ∀ q, q ∈ (s.wait p x).arrived ↔ ((s.wait p x).threads q).point.waits = true := by
  have hp := hi.le ho
  rw [Nest.wait_threads]
  refine ⟨fun q => ?_, fun q hq => ?_, fun q => ?_⟩
  · by_cases hq : q = p
    · rw [hq, Function.update_self]
      exact ht
    · rw [Function.update_of_ne hq]
      exact hi.points q
  · rw [Function.update_of_ne (by omega)]
    exact hi.beyond q hq
  · rw [show (s.wait p x).arrived = insert p s.arrived from rfl, Finset.mem_insert]
    by_cases hq : q = p
    · rw [hq, Function.update_self]
      exact iff_of_true (.inl rfl) hx
    · rw [Function.update_of_ne hq, ← hi.arrived]
      exact or_iff_right hq

include hi ho in
theorem NestInv.wait_count : (s.wait p x).nested = UInt32.ofNat ((s.wait p x).openRegions c) := by
  rw [openRegions_same (hi.le ho) (s.wait_threads p x) rfl]
  exact hi.count

include hi ho hx ht in
/-- A task has returned from its function. -/
theorem NestInv.wait_worker (hp0 : p ≠ 0) : NestInv c (s.wait p x) := by
  obtain ⟨hpoints, hbeyond, harrived⟩ := hi.wait_threads ho hx ht
  have hout : x ≠ .outside := fun h => by rw [h] at hx; cases hx
  have hwork := working_update (c := c) (s.wait_threads p x) ho hout
  exact hi.of_worker (Function.update_of_ne (Ne.symm hp0) _ _) hpoints hbeyond harrived (hi.wait_count ho) rfl rfl rfl
    (fun hq => hp0 (hq.eq_zero ho)) (Nat.le_of_eq (congrArg (Finset.card · + s.pending) hwork))

end

/-- The master is in `bomp_end_processing`. -/
theorem NestInv.wait_master (hi : NestInv c s) (hpoint : (s.threads 0).point = .ending) : NestInv c (s.wait 0 .ended) := by
  have ho : (s.threads 0).point ≠ .outside := by rw [hpoint]; decide
  have hok := hi.points 0
  rw [PointOk, hpoint] at hok
  obtain ⟨hpoints, hbeyond, harrived⟩ := hi.wait_threads (x := .ended) ho rfl hok
  have h0 : (s.wait 0 .ended).threads 0 = ⟨(s.threads 0).depth, .ended⟩ := by rw [Nest.wait_threads, Function.update_self]
  refine ⟨hpoints, hbeyond, harrived, hi.wait_count ho, ?_, ?_, ?_, ?_, ?_, fun _ => hi.regions ho⟩
  · rw [h0]
    exact nofun
  · rw [h0]
    exact nofun
  · rw [h0]
    rintro (hlow | hreset)
    · exact (hi.quiet (.inl hlow)).update (s.wait_threads 0 .ended) (hi.quiet (.inl hlow)).1
    · exact nomatch hreset
  · intro hraised
    have hteam := hi.team hraised
    rw [hpoint] at hteam
    rw [h0, working_update (s.wait_threads 0 .ended) ho nofun]
    exact hteam
  · have hended := hi.ended
    rw [NestThread.done, hpoint] at hended
    rw [h0]
    exact hended

/-- The round that opens has every thread at work in it. -/
theorem NestInv.everyone (hi : NestInv c s) (hfull : s.arrived.card = c.max) (hsize : s.threadNumbers.toNat ≤ c.max) {p : Nat}
    (hp : p ∈ s.arrived) :
    s.pending = 0 ∧ ∀ q, (s.threads q).point ≠ .outside → q ∈ s.arrived := by
  have hout : ∀ q ∈ s.arrived, (s.threads q).point ≠ .outside := by
    intro q hq h
    rw [hi.arrived, h] at hq
    cases hq
  rcases Nat.lt_or_ge 1 s.threadNumbers.toNat with hraised | hlow
  · have hteam := hi.team hraised
    have hsub : s.arrived ⊆ s.working c := fun q hq => mem_working.mpr ⟨hi.le (hout q hq), hout q hq⟩
    have heq := Finset.eq_of_subset_of_card_le hsub (by omega)
    refine ⟨?_, fun q hq => ?_⟩
    · rw [← heq] at hteam
      omega
    · rw [heq]
      exact mem_working.mpr ⟨hi.le hq, hq⟩
  · have hquiet := hi.quiet (.inl hlow)
    refine ⟨hquiet.1, fun q hq => ?_⟩
    rw [hquiet.eq_zero hq, ← hquiet.eq_zero (hout p hp)]
    exact hp

/-- A thread in a round waits at the end of its task, or in `bomp_end_processing`. -/
theorem NestInv.arrived_point (hi : NestInv c s) {p : Nat} (hp : p ∈ s.arrived) :
    (s.threads p).point = .leaving ∨ (s.threads p).point = .ended := by
  rw [hi.arrived] at hp
  cases hpoint : (s.threads p).point <;> rw [hpoint] at hp <;> first | exact .inl rfl | exact .inr rfl | cases hp

/-- The round opens. -/
def Nest.letGo (s : Nest) : Nest :=
  { s with threads := fun q => if q ∈ s.arrived then (s.threads q).release else s.threads q, arrived := ∅ }

theorem Nest.letGo_openRegions (s : Nest) : s.letGo.openRegions c = s.openRegions c := by
  refine Finset.sum_congr rfl fun q _ => ?_
  show (if q ∈ s.arrived then (s.threads q).release else s.threads q).depth = _
  split_ifs
  · exact NestThread.release_depth _
  · rfl

section
variable (hi : NestInv c s) (hall : ∀ q, (s.threads q).point ≠ .outside → q ∈ s.arrived)

include hi hall in
/-- The workers have done their tasks. -/
theorem NestInv.letGo_worker {q : Nat} (hq : q ≠ 0) : s.letGo.threads q = ⟨0, .outside⟩ := by
  have hok := hi.points q
  show (if q ∈ s.arrived then (s.threads q).release else s.threads q) = _
  by_cases hmem : q ∈ s.arrived
  · rw [if_pos hmem]
    rcases hi.arrived_point hmem with h | h
    · rw [PointOk, h] at hok
      rw [NestThread.release, h]
      exact congrArg (NestThread.mk · Point.outside) hok.2
    · rw [PointOk, h] at hok
      exact absurd hok.1 hq
  · have hpoint : (s.threads q).point = .outside := by_contra fun h => hmem (hall q h)
    rw [if_neg hmem]
    rw [PointOk, hpoint] at hok
    exact NestThread.ext hok hpoint

include hi hall in
/-- The master waits in the round too. -/
theorem NestInv.master_arrived {p : Nat} (hp : p ∈ s.arrived) : 0 ∈ s.arrived := by
  refine hall 0 fun hout => ?_
  have hquiet := hi.quiet (.inl (hi.low (by rw [NestThread.low, hout])))
  have hwaits := hi.arrived_point hp
  have hp0 : p = 0 := hquiet.eq_zero fun h => by
    rw [h] at hwaits
    rcases hwaits with hwaits | hwaits <;> cases hwaits
  rw [hp0, hout] at hwaits
  rcases hwaits with hwaits | hwaits <;> cases hwaits

include hi in
theorem NestInv.master_ended (h0 : 0 ∈ s.arrived) : s.threads 0 = ⟨1, .ended⟩ := by
  have hok := hi.points 0
  rcases hi.arrived_point h0 with h | h
  · rw [PointOk, h] at hok
    exact absurd rfl hok.1
  · rw [PointOk, h] at hok
    exact NestThread.ext hok.2 h

include hi in
theorem NestInv.letGo_master (h0 : 0 ∈ s.arrived) : s.letGo.threads 0 = ⟨1, .resetting⟩ := by
  show (if 0 ∈ s.arrived then (s.threads 0).release else s.threads 0) = _
  rw [if_pos h0, hi.master_ended h0]
  rfl

end

theorem NestInv.opens (hi : NestInv c s) (hfull : s.arrived.card = c.max) (hsize : s.threadNumbers.toNat ≤ c.max) {p : Nat}
    (hp : p ∈ s.arrived) : NestInv c s.letGo := by
  obtain ⟨hpending, hall⟩ := hi.everyone hfull hsize hp
  have h0 := hi.master_arrived hall hp
  have hmaster := hi.letGo_master h0
  have hworker : ∀ q, q ≠ 0 → s.letGo.threads q = ⟨0, .outside⟩ := fun q hq => hi.letGo_worker hall hq
  have hquiet : Quiet s.letGo := ⟨hpending, hworker⟩
  constructor
  case points =>
    intro q
    by_cases hq : q = 0
    · rw [hq, hmaster]
      exact ⟨rfl, rfl⟩
    · rw [hworker q hq]
      exact rfl
  case beyond => exact fun q hq => hworker q (by omega)
  case arrived =>
    intro q
    refine iff_of_false (Finset.notMem_empty q) ?_
    by_cases hq : q = 0
    · rw [hq, hmaster]
      exact Bool.false_ne_true
    · rw [hworker q hq]
      exact Bool.false_ne_true
  case count =>
    rw [Nest.letGo_openRegions]
    exact hi.count
  case low =>
    rw [hmaster]
    exact nofun
  case raised =>
    rw [hmaster]
    exact nofun
  case quiet => exact fun _ => hquiet
  case team =>
    intro hraised
    have hcard := Finset.card_le_card (hquiet.working (c := c))
    rw [Finset.card_singleton] at hcard
    change 2 ≤ s.threadNumbers.toNat at hraised
    rw [hmaster]
    show (s.letGo.working c).card + s.pending + 0 ≤ s.threadNumbers.toNat
    omega
  case ended =>
    have hended := hi.ended
    rw [hi.master_ended h0] at hended
    rw [hmaster]
    exact hended
  case regions => exact fun _ => hi.regions (by rw [hi.master_ended h0]; decide)

theorem NestInv.arrive_step (hi : NestInv c s) {p : Nat} (hm : Meets c s (.arrive p)) (h : nestStep c s (.arrive p) = some s') :
    NestInv c s' := by
  -- the round has the thread, and may be full with it
  have hround : ∀ x : Point, NestInv c (s.wait p x) → NestInv c (s.arrive c p x) := by
    intro x hx
    unfold Nest.arrive
    dsimp only
    split_ifs with hfull
    · exact hx.opens hfull (hm hfull) (Finset.mem_insert_self _ _)
    · exact hx
  unfold nestStep at h
  dsimp only at h
  by_cases hending : (s.threads p).point = .ending
  · rw [if_pos hending] at h
    cases h
    have hok := hi.points p
    rw [PointOk, hending] at hok
    obtain ⟨rfl, -⟩ := hok
    exact hround _ (hi.wait_master hending)
  · rw [if_neg hending] at h
    by_cases hleaves : p ≠ 0 ∧ s.threads p = ⟨0, .code⟩
    · rw [if_pos hleaves] at h
      cases h
      obtain ⟨hp0, hcode⟩ := hleaves
      exact hround _ (hi.wait_worker (by rw [hcode]; decide) rfl ⟨hp0, by rw [hcode]⟩ hp0)
    · rw [if_neg hleaves] at h
      cases h

/-! ## Runs -/

theorem nestStep_inv (hi : NestInv c s) {a : NestAct} (hm : Meets c s a) (h : nestStep c s a = some s') : NestInv c s' := by
  cases a with
  | start p nthreads => exact hi.start h
  | setThreads p => exact hi.setThreads h
  | add p => exact hi.add h
  | count p => exact hi.count_step h
  | test p => exact hi.test hm h
  | arrive p => exact hi.arrive_step hm h
  | reset p => exact hi.reset h
  | uncount p => exact hi.uncount h
  | take p => exact hi.take h

theorem nestRun_inv {acts : List NestAct} (hi : NestInv c s) (hm : MeetsAll c s acts) (h : acts.foldlM (nestStep c) s = some s') :
    NestInv c s' := by
  induction acts generalizing s with
  | nil =>
    cases h
    exact hi
  | cons a rest ih =>
    rw [List.foldlM_cons, Option.bind_eq_bind, Option.bind_eq_some_iff] at h
    obtain ⟨s1, h1, h2⟩ := h
    obtain ⟨hmeets, hrest⟩ := hm
    rw [h1] at hrest
    exact ih (nestStep_inv hi hmeets h1) hrest h2

theorem NestInv.endsRight (hi : NestInv c s) : EndsRight s := by
  have hmap : s.ended.map EndCall.region = List.range' 1 (if (s.threads 0).done then s.regions else s.regions - 1) := by
    rw [hi.ended, List.map_map]
    exact List.map_id _
  refine ⟨fun e he => ?_, ?_, fun hout => ?_⟩
  · rw [hi.ended] at he
    obtain ⟨k, -, rfl⟩ := List.mem_map.mp he
    exact ⟨rfl, rfl⟩
  · rw [hmap]
    exact List.nodup_range'
  · have hquiet := hi.quiet (.inl (hi.low (by rw [NestThread.low, hout])))
    have hopen : s.openRegions c = 0 := by
      refine Finset.sum_eq_zero fun q _ => ?_
      by_cases hq : q = 0
      · have hok := hi.points q
        rw [PointOk, hq, hout] at hok
        rw [hq]
        exact hok
      · rw [hquiet.2 q hq]
    refine ⟨?_, fun k h1 hk => ?_⟩
    · rw [hi.count, hopen]
      rfl
    · rw [hmap, NestThread.done, hout, List.mem_range'_1]
      exact ⟨h1, Nat.lt_of_le_of_lt hk (Nat.lt_add_of_pos_left (by decide))⟩

end

/-! ## Result -/

theorem nested_ends_right (c : NestConfig) (acts : List NestAct) (s : Nest) (hm : MeetsAll c initialNest acts)
    (h : acts.foldlM (nestStep c) initialNest = some s) : EndsRight s :=
  (nestRun_inv (initialNest_inv c) hm h).endsRight

/-- The master and one worker. -/
def pairConfig : NestConfig := ⟨1, 2, 2, false⟩

/-- The worker opens and closes a region inside the master's. -/
def nestedRun : List NestAct :=
  [.start 0 0, .setThreads 0, .add 0, .add 0, .count 0, .take 1, .start 1 0, .count 1, .test 1, .uncount 1, .test 0, .arrive 1,
    .arrive 0, .reset 0, .uncount 0]

theorem nested_ends_right_pair : ∃ s, nestedRun.foldlM (nestStep pairConfig) initialNest = some s ∧ EndsRight s := by
  obtain ⟨s, hs⟩ := Option.isSome_iff_exists.mp (show (nestedRun.foldlM (nestStep pairConfig) initialNest).isSome = true from rfl)
  exact ⟨s, hs, nested_ends_right pairConfig nestedRun s (by decide) hs⟩

/-- The master ends its region while the worker is in one of its own: nobody ends the master's
    until the worker ends its own. -/
theorem worker_ends_region : ∃ s,
    [.start 0 0, .setThreads 0, .add 0, .add 0, .count 0, .take 1, .start 1 0, .count 1, .test 0, .uncount 0, .test 1].foldlM
        (nestStep pairConfig) initialNest = some s ∧
      (s.threads 0).point = .outside ∧ s.nested = 1 ∧ s.ended = [⟨1, 1, 1⟩] ∧ ¬ EndsRight s :=
  ⟨_, rfl, rfl, rfl, rfl, fun h => absurd (h.master _ (.head _)).1 (by decide)⟩

end Popcorn.Bomp
