/-
  Popcorn.Bomp.ThreadPool — the thread pool of the OpenMP runtime
  (lib/libbomp/popcorn_threadpool.c).

  The tasks wait in a circular buffer under one mutex. A section of code under the mutex
  is one step: `threadpool_add`, the critical section at the top of a worker's loop, the
  first half of `threadpool_destroy`. Between its sections a worker runs its task, is
  blocked in `pthread_cond_wait` (which may also return without a signal), or has left its
  loop. `accepted` and `dequeued` record the tasks `threadpool_add` has returned 0 for and
  those the workers have taken. All pthread calls succeed; so none is made on a mutex that
  `threadpool_free` has destroyed.

  Proved:
  - `Step.inv`, `reachable_inv`: the queue's invariant over every interleaving.
  - `task_queue_sound`: no task is lost or duplicated.
-/

import Mathlib.Logic.Relation
import Popcorn.Lib.Ring

namespace Popcorn.Bomp

open Popcorn.Lib

/-! ## The pool -/

/-- `threadpool_task_t`: a function and its argument. NULL is 0. -/
structure Task where
  fn : Nat
  args : Nat
  deriving DecidableEq, Repr

/-- `threadpool_t`. -/
structure Pool where
  queue : Nat → Task
  threadCount : Nat
  queueSize : Nat
  head : Nat
  tail : Nat
  count : Int
  shutdown : Bool
  started : Int

/-- What `threadpool_add` returns: 0, or one of `threadpool_error_t`. -/
inductive AddResult where
  | added
  | invalid
  | queueFull
  | shutdown
  deriving DecidableEq, Repr

def AddResult.code : AddResult → Int
  | .added => 0
  | .invalid => -1
  | .queueFull => -3
  | .shutdown => -5

/-- `threadpool_create`, once its workers are started; `none` is NULL. What `malloc` leaves in
    the queue is a parameter. -/
def threadpoolCreate (numThreads queueSize : Int) (fresh : Nat → Task) : Option Pool :=
  if numThreads ≤ 0 ∨ queueSize ≤ 0 then none
  else some ⟨fresh, numThreads.toNat, queueSize.toNat, 0, 0, 0, false, numThreads⟩

def threadpoolAdd (pool : Pool) (task : Task) : AddResult × Pool :=
  if task.fn = 0 then (.invalid, pool)
  else
    let next := (pool.tail + 1) % pool.queueSize
    if pool.count = pool.queueSize then (.queueFull, pool)
    else if pool.shutdown then (.shutdown, pool)
    else (.added, { pool with queue := Function.update pool.queue pool.tail task, count := pool.count + 1, tail := next })

/-- How a worker leaves the critical section of its loop. -/
inductive Turn where
  | wait
  | leave
  | run (task : Task)

/-- The critical section of `threadpool_run`, from the lock to the first point that releases
    it. -/
def threadpoolRun (pool : Pool) : Turn × Pool :=
  if pool.count = 0 ∧ pool.shutdown = false then (.wait, pool)
  else if pool.shutdown = true ∧ pool.count = 0 then (.leave, { pool with started := pool.started - 1 })
  else (.run (pool.queue pool.head), { pool with head := (pool.head + 1) % pool.queueSize, count := pool.count - 1 })

/-! ## The threads -/

inductive Worker where
  /-- Before the lock: at the top of the loop, or woken in `pthread_cond_wait`. -/
  | ready
  | waiting
  | running (task : Task)
  | left
  deriving DecidableEq, Repr

/-- `pthread_cond_broadcast`. -/
def Worker.woken : Worker → Worker
  | .waiting => .ready
  | w => w

/-- `threadpool_destroy`: not called yet, joining worker `i`, or done. -/
inductive Destroyer where
  | idle
  | joining (i : Nat)
  | done (freed : Bool)
  deriving DecidableEq, Repr

/-- The pool and the threads that use it; worker `i` is one of `numThreads`. -/
structure Sys where
  pool : Pool
  numThreads : Nat
  workers : Nat → Worker
  destroyer : Destroyer
  accepted : List Task
  dequeued : List Task

/-- A worker after its turn. -/
def Turn.next : Turn → Worker
  | .wait => .waiting
  | .leave => .left
  | .run task => .running task

/-- The tasks a turn dequeues. -/
def Turn.taken : Turn → List Task
  | .run task => [task]
  | _ => []

inductive Step : Sys → Sys → Prop
  /-- A call of `threadpool_add` that puts its task into the queue. -/
  | add {s : Sys} {pool : Pool} (task : Task) (hd : s.destroyer ≠ .done true) (h : threadpoolAdd s.pool task = (.added, pool)) :
      Step s { s with pool := pool, workers := fun i => (s.workers i).woken, accepted := s.accepted ++ [task] }
  /-- One that returns an error. -/
  | reject {s : Sys} {pool : Pool} {r : AddResult} (task : Task) (hd : s.destroyer ≠ .done true)
      (h : threadpoolAdd s.pool task = (r, pool)) (hr : r ≠ .added) : Step s { s with pool := pool }
  /-- Worker `i` takes the lock and has its turn. -/
  | turn {s : Sys} {t : Turn} {pool : Pool} (i : Nat) (hi : i < s.numThreads) (hw : s.workers i = .ready) (h : threadpoolRun s.pool = (t, pool)) :
      Step s { s with pool := pool, workers := Function.update s.workers i t.next, dequeued := s.dequeued ++ t.taken }
  /-- A task returns. -/
  | finish {s : Sys} {task : Task} (i : Nat) (hw : s.workers i = .running task) :
      Step s { s with workers := Function.update s.workers i .ready }
  /-- `pthread_cond_wait` returns without a signal. -/
  | spurious {s : Sys} (i : Nat) (hw : s.workers i = .waiting) :
      Step s { s with workers := Function.update s.workers i .ready }
  /-- `threadpool_destroy` up to its joins. It is called once, so nobody has shut the pool down. -/
  | destroy {s : Sys} (hd : s.destroyer = .idle) (hs : s.pool.shutdown = false) :
      Step s { s with pool := { s.pool with shutdown := true }, workers := fun i => (s.workers i).woken,
                      destroyer := .joining 0 }
  | join {s : Sys} {i : Nat} (hd : s.destroyer = .joining i) (hi : i < s.pool.threadCount) (hw : s.workers i = .left) :
      Step s { s with destroyer := .joining (i + 1) }
  /-- `threadpool_free`, which refuses while workers are started. -/
  | free {s : Sys} (hd : s.destroyer = .joining s.pool.threadCount) :
      Step s { s with pool := { s.pool with threadCount := 0 }, destroyer := .done (decide (s.pool.started ≤ 0)) }

/-- The pool as `threadpool_create` returns it, with its workers before their first lock. -/
def initial (pool : Pool) : Sys where
  pool := pool
  numThreads := pool.threadCount
  workers _ := .ready
  destroyer := .idle
  accepted := []
  dequeued := []

/-! ## The invariant -/

/-- The tasks in the queue, in order. -/
def Pool.queued (p : Pool) : List Task := ring p.queue p.queueSize p.head p.count.toNat

structure Inv (s : Sys) : Prop where
  size : 0 < s.pool.queueSize
  head : s.pool.head < s.pool.queueSize
  nonneg : 0 ≤ s.pool.count
  le : s.pool.count ≤ s.pool.queueSize
  tail : s.pool.tail = (s.pool.head + s.pool.count.toNat) % s.pool.queueSize
  fifo : s.accepted = s.dequeued ++ s.pool.queued
  /-- No worker sleeps through a task or the shutdown. -/
  asleep : ∀ i, s.workers i = .waiting → s.pool.count = 0 ∧ s.pool.shutdown = false
  left : ∀ i, s.workers i = .left → s.pool.count = 0 ∧ s.pool.shutdown = true

theorem initial_inv {numThreads queueSize : Int} {fresh : Nat → Task} {pool : Pool}
    (h : threadpoolCreate numThreads queueSize fresh = some pool) : Inv (initial pool) := by
  unfold threadpoolCreate at h
  split at h
  · cases h
  · cases h
    have hq : 0 < queueSize.toNat := by omega
    refine ⟨hq, hq, Int.le_refl 0, Int.natCast_nonneg _, ?_, rfl, ?_, ?_⟩
    · exact (Nat.zero_mod _).symm
    · intro i hi
      cases hi
    · intro i hi
      cases hi

/-- What `threadpool_add` does: it adds the task to a queue that has room and is not shut
    down, or it changes nothing. -/
theorem threadpoolAdd_cases {pool pool' : Pool} {task : Task} {r : AddResult} (h : threadpoolAdd pool task = (r, pool')) :
    (r ≠ .added ∧ pool' = pool) ∨ (r = .added ∧ pool.count ≠ pool.queueSize ∧ pool.shutdown = false ∧
      pool' = { pool with queue := Function.update pool.queue pool.tail task, count := pool.count + 1,
                          tail := (pool.tail + 1) % pool.queueSize }) := by
  unfold threadpoolAdd at h
  dsimp only at h
  split at h
  · cases h
    exact .inl ⟨by decide, rfl⟩
  · split at h
    · cases h
      exact .inl ⟨by decide, rfl⟩
    · split at h
      · cases h
        exact .inl ⟨by decide, rfl⟩
      · rename_i hfull hshut
        cases h
        exact .inr ⟨rfl, hfull, Bool.eq_false_iff.mpr hshut, rfl⟩

/-- What a worker's turn does. -/
theorem threadpoolRun_cases {pool pool' : Pool} {t : Turn} (h : threadpoolRun pool = (t, pool')) :
    (t = .wait ∧ pool' = pool ∧ pool.count = 0 ∧ pool.shutdown = false) ∨
      (t = .leave ∧ pool' = { pool with started := pool.started - 1 } ∧ pool.count = 0 ∧ pool.shutdown = true) ∨
      (t = .run (pool.queue pool.head) ∧ pool.count ≠ 0 ∧
        pool' = { pool with head := (pool.head + 1) % pool.queueSize, count := pool.count - 1 }) := by
  unfold threadpoolRun at h
  split at h
  · rename_i hc
    cases h
    exact .inl ⟨rfl, rfl, hc⟩
  · split at h
    · rename_i hc
      cases h
      exact .inr (.inl ⟨rfl, rfl, hc.2, hc.1⟩)
    · rename_i hwait hleave
      cases h
      refine .inr (.inr ⟨rfl, ?_, rfl⟩)
      intro h0
      cases hs : pool.shutdown
      · exact hwait ⟨h0, hs⟩
      · exact hleave ⟨hs, h0⟩

theorem Worker.woken_ne_waiting (w : Worker) : w.woken ≠ .waiting := by cases w <;> exact Worker.noConfusion
theorem Worker.woken_left {w : Worker} (h : w.woken = .left) : w = .left := by cases w <;> first | rfl | cases h

section
variable {s s' : Sys}

/-- A step that leaves the queue alone: only workers that are not waiting or gone change. -/
theorem Inv.workers (hi : Inv s) {ws : Nat → Worker} (hw : ∀ i, ws i = .waiting → s.workers i = .waiting)
    (hl : ∀ i, ws i = .left → s.workers i = .left) : Inv { s with workers := ws } where
  size := hi.size
  head := hi.head
  nonneg := hi.nonneg
  le := hi.le
  tail := hi.tail
  fifo := hi.fifo
  asleep i h := hi.asleep i (hw i h)
  left i h := hi.left i (hl i h)

theorem update_eq_of_ne {ws : Nat → Worker} {i j : Nat} {w v : Worker} (h : Function.update ws i w j = v) (hne : w ≠ v) :
    ws j = v := by
  by_cases hj : j = i
  · subst hj
    rw [Function.update_self] at h
    exact absurd h hne
  · rwa [Function.update_of_ne hj] at h

/-- A task is added. -/
theorem Inv.add (hi : Inv s) {task : Task} {pool : Pool} (h : threadpoolAdd s.pool task = (.added, pool)) :
    Inv { s with pool := pool, workers := fun i => (s.workers i).woken, accepted := s.accepted ++ [task] } := by
  obtain ⟨hr, -⟩ | ⟨-, hfull, hshut, rfl⟩ := threadpoolAdd_cases h
  · exact absurd rfl hr
  · have hlt : s.pool.count.toNat < s.pool.queueSize := by
      have := hi.nonneg
      have := hi.le
      omega
    have hcount : (s.pool.count + 1).toNat = s.pool.count.toNat + 1 := Int.toNat_add_nat hi.nonneg 1
    refine ⟨hi.size, hi.head, ?_, ?_, ?_, ?_, ?_, ?_⟩
    · show 0 ≤ s.pool.count + 1
      have := hi.nonneg
      omega
    · show s.pool.count + 1 ≤ s.pool.queueSize
      have := hi.nonneg
      omega
    · show (s.pool.tail + 1) % s.pool.queueSize = (s.pool.head + (s.pool.count + 1).toNat) % s.pool.queueSize
      rw [hcount, hi.tail, Nat.mod_add_mod, Nat.add_assoc]
    · show s.accepted ++ [task] = s.dequeued ++ ring _ s.pool.queueSize s.pool.head (s.pool.count + 1).toNat
      rw [hcount, hi.tail, ring_push task hlt, ← List.append_assoc, hi.fifo]
      rfl
    · intro i hw
      exact absurd hw (Worker.woken_ne_waiting _)
    · intro i hw
      have := (hi.left i (Worker.woken_left hw)).2
      rw [hshut] at this
      cases this

/-- A worker has its turn. -/
theorem Inv.turn (hi : Inv s) {i : Nat} {t : Turn} {pool : Pool} (h : threadpoolRun s.pool = (t, pool)) :
    Inv { s with pool := pool, workers := Function.update s.workers i t.next, dequeued := s.dequeued ++ t.taken } := by
  have hfifo : s.accepted = (s.dequeued ++ []) ++ s.pool.queued := by
    rw [List.append_nil]
    exact hi.fifo
  obtain ⟨rfl, rfl, h0, hs⟩ | ⟨rfl, rfl, h0, hs⟩ | ⟨rfl, hne, rfl⟩ := threadpoolRun_cases h
  · refine ⟨hi.size, hi.head, hi.nonneg, hi.le, hi.tail, hfifo, fun _ _ => ⟨h0, hs⟩, ?_⟩
    intro j hj
    exact hi.left j (update_eq_of_ne hj (by exact Worker.noConfusion))
  · refine ⟨hi.size, hi.head, hi.nonneg, hi.le, hi.tail, hfifo, ?_, fun _ _ => ⟨h0, hs⟩⟩
    intro j hj
    exact hi.asleep j (update_eq_of_ne hj (by exact Worker.noConfusion))
  · -- the turn takes a task: nobody is waiting or gone
    obtain ⟨n, hn⟩ : ∃ n : Nat, s.pool.count = n + 1 := ⟨(s.pool.count - 1).toNat, by have := hi.nonneg; omega⟩
    have hcount : s.pool.count.toNat = n + 1 := by omega
    have hcount' : (s.pool.count - 1).toNat = n := by omega
    refine ⟨hi.size, Nat.mod_lt _ hi.size, ?_, ?_, ?_, ?_, ?_, ?_⟩
    · show 0 ≤ s.pool.count - 1
      omega
    · show s.pool.count - 1 ≤ s.pool.queueSize
      have := hi.le
      omega
    · show s.pool.tail = ((s.pool.head + 1) % s.pool.queueSize + (s.pool.count - 1).toNat) % s.pool.queueSize
      rw [hi.tail, hcount, hcount', Nat.mod_add_mod, Nat.add_assoc, Nat.add_comm n]
    · show s.accepted = (s.dequeued ++ [s.pool.queue s.pool.head]) ++ ring _ _ _ (s.pool.count - 1).toNat
      have hpop : s.pool.queued = _ := (congrArg (ring _ _ _) hcount).trans ring_pop
      rw [hi.fifo, hpop, hcount', Nat.mod_eq_of_lt hi.head, List.append_assoc]
      rfl
    · intro j hj
      exact absurd (hi.asleep j (update_eq_of_ne hj (by exact Worker.noConfusion))).1 hne
    · intro j hj
      exact absurd (hi.left j (update_eq_of_ne hj (by exact Worker.noConfusion))).1 hne

theorem Inv.queued_add (hi : Inv s) {task : Task} {pool : Pool} (h : threadpoolAdd s.pool task = (.added, pool)) :
    pool.queued = s.pool.queued ++ [task] := by
  have hfifo := (hi.add h).fifo
  simp only [hi.fifo, List.append_assoc, List.append_cancel_left_eq] at hfifo
  exact hfifo.symm

theorem Inv.queued_run (hi : Inv s) {task : Task} {pool : Pool} (h : threadpoolRun s.pool = (.run task, pool)) :
    s.pool.queued = task :: pool.queued := by
  have hfifo := (hi.turn (i := 0) h).fifo
  simp only [hi.fifo, Turn.taken, List.append_assoc, List.append_cancel_left_eq] at hfifo
  exact hfifo

/-- Every step keeps the invariant. -/
theorem Step.inv (hi : Inv s) (h : Step s s') : Inv s' := by
  cases h with
  | add task hd h => exact hi.add h
  | reject task hd h hr =>
    obtain ⟨-, rfl⟩ | ⟨h1, -⟩ := threadpoolAdd_cases h
    · exact hi
    · exact absurd h1 hr
  | turn i hlt hw h => exact hi.turn h
  | finish i hw =>
    apply hi.workers
    · intro j hj
      exact update_eq_of_ne hj (by exact Worker.noConfusion)
    · intro j hj
      exact update_eq_of_ne hj (by exact Worker.noConfusion)
  | spurious i hw =>
    apply hi.workers
    · intro j hj
      exact update_eq_of_ne hj (by exact Worker.noConfusion)
    · intro j hj
      exact update_eq_of_ne hj (by exact Worker.noConfusion)
  | destroy hd hs =>
    refine ⟨hi.size, hi.head, hi.nonneg, hi.le, hi.tail, hi.fifo, ?_, ?_⟩
    · intro i hw
      exact absurd hw (Worker.woken_ne_waiting _)
    · intro i hw
      exact ⟨(hi.left i (Worker.woken_left hw)).1, rfl⟩
  | join hd hlt hw => exact ⟨hi.size, hi.head, hi.nonneg, hi.le, hi.tail, hi.fifo, hi.asleep, hi.left⟩
  | free hd => exact ⟨hi.size, hi.head, hi.nonneg, hi.le, hi.tail, hi.fifo, hi.asleep, hi.left⟩

end

/-- Every run keeps it. -/
theorem reachable_inv {numThreads queueSize : Int} {fresh : Nat → Task} {pool : Pool} {s : Sys}
    (h : threadpoolCreate numThreads queueSize fresh = some pool) (hr : Relation.ReflTransGen Step (initial pool) s) : Inv s := by
  induction hr with
  | refl => exact initial_inv h
  | tail _ hstep ih => exact hstep.inv ih

/-! ## No task is lost or duplicated -/

structure QueueSound (s : Sys) : Prop where
  nonneg : 0 ≤ s.pool.count
  le : s.pool.count ≤ s.pool.queueSize
  tail : (s.pool.tail : Int) = (s.pool.head + s.pool.count) % s.pool.queueSize
  /-- The tasks accepted are those dequeued, in the same order, and then those still queued. -/
  order : s.accepted = s.dequeued ++ s.pool.queued
  unchanged : ∀ task r pool, threadpoolAdd s.pool task = (r, pool) → r ≠ .added →
    pool.head = s.pool.head ∧ pool.tail = s.pool.tail ∧ pool.count = s.pool.count ∧ pool.queued = s.pool.queued
  /-- A worker that has left its loop left a pool that was shut down and empty, so all that was
      accepted has been dequeued. -/
  left : ∀ i, s.workers i = .left → s.pool.shutdown = true ∧ s.pool.count = 0 ∧ s.dequeued = s.accepted
  /-- A worker only waits for an empty queue. -/
  asleep : ∀ i, s.workers i = .waiting → s.pool.count = 0 ∧ s.pool.shutdown = false

/-- Over every interleaving of any number of `threadpool_add` calls, worker loops and one
    `threadpool_destroy`. -/
theorem task_queue_sound (numThreads queueSize : Int) (fresh : Nat → Task) (pool : Pool) (s : Sys)
    (hc : threadpoolCreate numThreads queueSize fresh = some pool) (hr : Relation.ReflTransGen Step (initial pool) s) :
    QueueSound s := by
  have hi := reachable_inv hc hr
  constructor
  case nonneg => exact hi.nonneg
  case le => exact hi.le
  case tail =>
    rw [hi.tail, Int.natCast_emod, Int.natCast_add, Int.toNat_of_nonneg hi.nonneg]
  case order => exact hi.fifo
  case unchanged =>
    intro task r pool h hne
    obtain ⟨-, rfl⟩ | ⟨h1, -⟩ := threadpoolAdd_cases h
    · exact ⟨rfl, rfl, rfl, rfl⟩
    · exact absurd h1 hne
  case left =>
    intro i hw
    obtain ⟨h0, hs⟩ := hi.left i hw
    refine ⟨hs, h0, ?_⟩
    have hq : s.pool.queued = [] := by
      unfold Pool.queued
      rw [h0]
      rfl
    rw [hi.fifo, hq, List.append_nil]
  case asleep => exact hi.asleep

/-- Two slots, one worker: three tasks are accepted around one that is dequeued, so the tail
    has wrapped around. -/
theorem task_queue_sound_wrapped :
    ∃ pool s, threadpoolCreate 1 2 (fun _ => ⟨0, 0⟩) = some pool ∧ Relation.ReflTransGen Step (initial pool) s ∧
      s.accepted = [⟨8, 1⟩, ⟨8, 2⟩, ⟨8, 3⟩] ∧ s.dequeued = [⟨8, 1⟩] ∧ s.pool.tail = 1 ∧ QueueSound s := by
  have hc : threadpoolCreate 1 2 (fun _ => ⟨0, 0⟩) = some ⟨fun _ => ⟨0, 0⟩, 1, 2, 0, 0, 0, false, 1⟩ := rfl
  have h1 := Relation.ReflTransGen.single
    (Step.add (s := initial ⟨fun _ => ⟨0, 0⟩, 1, 2, 0, 0, 0, false, 1⟩) ⟨8, 1⟩ Destroyer.noConfusion rfl)
  have h2 := h1.tail (.add ⟨8, 2⟩ Destroyer.noConfusion rfl)
  have h3 := h2.tail (.turn 0 (by decide) rfl rfl)
  have h4 := h3.tail (.add ⟨8, 3⟩ Destroyer.noConfusion rfl)
  exact ⟨_, _, hc, h4, rfl, rfl, rfl, task_queue_sound 1 2 (fun _ => ⟨0, 0⟩) _ _ hc h4⟩

end Popcorn.Bomp
