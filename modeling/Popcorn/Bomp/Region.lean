/-
  Popcorn.Bomp.Region — parallel regions on the thread pool
  (lib/libbomp/{processing,omp,popcorn_threadpool}.c).

  The master starts a region: it queues one task for each other member of the team, runs the
  region's function itself and waits at the pool's barrier; a worker that takes a task sets its
  thread-local data, runs the function and waits at the same barrier. The function may wait
  there too, every member as often (`GOMP_barrier`). Participant 0 is the master and participant
  `j + 1` worker `j`; the pool and its queue are those of `Popcorn.Bomp.ThreadPool`. A task's
  argument is the `struct bomp_work` of a region's member; it is written before it is queued and
  not afterwards.

  `omp_set_num_threads` is called outside regions and changes the number of threads, the
  barrier's and, where it grows, the workers. `created` is the number of `pthread_create` calls
  that succeed.

  `team` holds the members that have taken their work and not gone through the last barrier of
  the region, `began` and `finished` count the calls of the region's function by region and
  member; `target` is the number of rounds at the end of the region. They are recorded beside
  the run.
-/

import Mathlib.Data.Nat.Pairing
import Popcorn.Bomp.Barrier
import Popcorn.Bomp.ThreadPool

namespace Popcorn.Bomp

/-! ## The state -/

/-- What a participant is doing. -/
inductive Part where
  | out
  /-- In `threadpool_run`, before `bomp_set_tls`. -/
  | poolTls
  /-- In `bomp_thread_fn`, before its `bomp_set_tls`. -/
  | fnTls
  /-- In the region's function, with `left` barriers of it ahead. -/
  | inFn (left : Nat)
  /-- In `bomp_barrier_wait`; 0 is the wait after the function. -/
  | waiting (left : Nat) (w : Wait)
  deriving DecidableEq, Repr

def Part.wait : Part → Option Wait
  | .waiting _ w => some w
  | _ => none

inductive Master where
  | outside
  /-- In the loop of `bomp_start_processing`. -/
  | starting (i : Nat)
  | inside
  /-- In `bomp_end_processing`, after the barrier. -/
  | dropping
  /-- After `threadpool_destroy`. -/
  | gone
  deriving DecidableEq, Repr

/-- A region: its members and how often its function waits at the barrier. -/
structure Region where
  size : Nat
  barriers : Nat

structure Team where
  sys : Sys
  barrier : Barrier
  /-- `bomp_num_threads`. -/
  numThreads : UInt32
  /-- `g_array_thread_local_data`: the region it is of. -/
  array : Option Nat
  master : Master
  parts : Nat → Part
  /-- The `struct bomp_work` of a participant: its region and member. -/
  works : Nat → Nat × Nat
  regions : List Region
  opened : Nat
  arrived : Finset Nat
  team : Finset Nat
  target : Nat
  began : Nat × Nat → Nat
  finished : Nat × Nat → Nat

namespace Team

def waits (s : Team) (p : Nat) : Option Wait := (s.parts p).wait

/-- The last region that was started. -/
def current (s : Team) : Nat := s.regions.length - 1
def region (s : Team) : Region := s.regions.getLastD ⟨0, 0⟩

def setPart (s : Team) (p : Nat) (x : Part) : Team := { s with parts := Function.update s.parts p x }

end Team

/-! ## The code -/

/-- The address of `bomp_thread_fn`. -/
def bompThreadFn : Nat := 1

def workTask (k i : Nat) : Task := ⟨bompThreadFn, Nat.pair k i⟩

/-- `threadpool_create` and the globals it sets. -/
def createTeam (pool : Pool) (numThreads : Int) : Team where
  sys := initial pool
  barrier := barrierInit (UInt32.ofNat numThreads.toNat)
  numThreads := UInt32.ofNat (numThreads.toNat + 1)
  array := none
  master := .outside
  parts _ := .out
  works _ := (0, 0)
  regions := []
  opened := 0
  arrived := ∅
  team := ∅
  target := 0
  began _ := 0
  finished _ := 0

def Sys.grow (s : Sys) (n : Nat) : Sys :=
  { s with numThreads := s.numThreads + n,
           pool := { s.pool with threadCount := s.pool.threadCount + n, started := s.pool.started + n } }

def Sys.shutDown (s : Sys) : Sys :=
  { s with pool := { s.pool with shutdown := true }, workers := fun i => (s.workers i).woken }

/-- How many workers `omp_set_num_threads` is to create. -/
def missing (s : Team) (num : Int32) : Nat := (num.toInt - s.numThreads.toInt32.toInt).toNat

def ompSetNumThreads (s : Team) (num : Int32) (created : Nat) : Team :=
  let now := s.numThreads.toInt32
  let set (s : Team) : Team := { s with barrier := barrierUpdateMax s.barrier num.toUInt32, numThreads := num.toUInt32 }
  if now < num then
    if created < missing s num then { s with sys := (s.sys.grow created).shutDown, master := .gone }
    else set { s with sys := s.sys.grow (missing s num) }
  else if num = 1 then set s
  else if num < now then set s
  else s

/-- `threadpool_add`, whose result is ignored. -/
def Sys.add (s : Sys) (task : Task) : Sys :=
  match threadpoolAdd s.pool task with
  | (.added, pool) => { s with pool := pool, workers := fun i => (s.workers i).woken, accepted := s.accepted ++ [task] }
  | (_, pool) => { s with pool := pool }

/-- A worker has taken a task. -/
def Team.take (s : Team) (j : Nat) (task : Task) (pool : Pool) : Team :=
  { s with
    sys := { s.sys with pool := pool, workers := Function.update s.sys.workers j (.running task), dequeued := s.sys.dequeued ++ [task] }
    parts := Function.update s.parts (j + 1) .poolTls
    works := Function.update s.works (j + 1) task.args.unpair
    team := insert (j + 1) s.team }

/-- The master is in a region of `numThreads` members, with its own thread-local data set. -/
def Team.start (s : Team) (barriers : Nat) : Team :=
  { s with
    array := some s.regions.length
    master := .starting 1
    works := Function.update s.works 0 (s.regions.length, 0)
    regions := s.regions ++ [⟨s.numThreads.toNat, barriers⟩]
    team := {0}
    target := s.opened + barriers + 1 }

/-- The region's function is called, or has returned. -/
def Team.begin (s : Team) (p : Nat) : Team := { s with began := Function.update s.began (s.works p) (s.began (s.works p) + 1) }
def Team.finish (s : Team) (p : Nat) : Team := { s with finished := Function.update s.finished (s.works p) (s.finished (s.works p) + 1) }

/-- The members after an access: none is left when the last round of the region opens. -/
def Event.team (opened target : Nat) (team : Finset Nat) : Event → Finset Nat
  | .opens => if opened + 1 = target then ∅ else team
  | _ => team

def Team.access (s : Team) (p l : Nat) (w : Wait) (e : Event) (b : Barrier) : Team :=
  { s with
    barrier := b
    parts := Function.update s.parts p (.waiting l w)
    opened := e.opened s.opened
    arrived := e.arrived s.arrived p
    team := e.team s.opened s.target s.team }

inductive Act where
  | setNumThreads (num : Int32) (created : Nat)
  | start (barriers : Nat)
  | add
  | access (p : Nat)
  | other

inductive TeamStep (s : Team) : Act → Team → Prop
  | setNumThreads (num : Int32) (created : Nat) (hm : s.master = .outside) :
      TeamStep s (.setNumThreads num created) (ompSetNumThreads s num created)
  | start (barriers : Nat) (hm : s.master = .outside) : TeamStep s (.start barriers) (s.start barriers)
  | add {i : Nat} (hm : s.master = .starting i) (hi : i < s.region.size) :
      TeamStep s .add { s with sys := s.sys.add (workTask s.current i), master := .starting (i + 1) }
  /-- The master has queued the tasks and calls the region's function. -/
  | enter {i : Nat} (hm : s.master = .starting i) (hi : s.region.size ≤ i) :
      TeamStep s .other { (s.setPart 0 (.inFn s.region.barriers)).begin 0 with master := .inside }
  /-- Worker `j` has its turn at the queue, and waits or leaves. -/
  | idle {t : Turn} {pool : Pool} (j : Nat) (hj : j < s.sys.numThreads) (hw : s.sys.workers j = .ready)
      (h : threadpoolRun s.sys.pool = (t, pool)) (ht : t.taken = []) :
      TeamStep s .other { s with sys := { s.sys with pool := pool, workers := Function.update s.sys.workers j t.next } }
  | take {task : Task} {pool : Pool} (j : Nat) (hj : j < s.sys.numThreads) (hw : s.sys.workers j = .ready)
      (h : threadpoolRun s.sys.pool = (.run task, pool)) : TeamStep s .other (s.take j task pool)
  /-- `pthread_cond_wait` returns without a signal. -/
  | spurious (j : Nat) (hw : s.sys.workers j = .waiting) :
      TeamStep s .other { s with sys := { s.sys with workers := Function.update s.sys.workers j .ready } }
  /-- `bomp_set_tls` in `threadpool_run`, and in `bomp_thread_fn`: an entry of the array is written. -/
  | poolTls (p : Nat) (hp : s.parts p = .poolTls) : TeamStep s .other (s.setPart p .fnTls)
  | fnTls (p : Nat) (hp : s.parts p = .fnTls) :
      TeamStep s .other ((s.setPart p (.inFn (s.regions.getD (s.works p).1 ⟨0, 0⟩).barriers)).begin p)
  /-- The function waits at the barrier, or returns to the wait at its end. -/
  | barrier {l : Nat} (p : Nat) (hp : s.parts p = .inFn (l + 1)) : TeamStep s .other (s.setPart p (.waiting (l + 1) .sample))
  | finish (p : Nat) (hp : s.parts p = .inFn 0) : TeamStep s .other ((s.setPart p (.waiting 0 .sample)).finish p)
  | access {l : Nat} {v v' : Wait} {e : Event} {b : Barrier} (p : Nat) (hp : s.parts p = .waiting l v)
      (h : WaitStep s.barrier v e b v') : TeamStep s (.access p) (s.access p l v' e b)
  | resume {l : Nat} (p : Nat) (hp : s.parts p = .waiting (l + 1) .done) : TeamStep s .other (s.setPart p (.inFn l))
  /-- A task returns. -/
  | leave (j : Nat) (hp : s.parts (j + 1) = .waiting 0 .done) :
      TeamStep s .other { s.setPart (j + 1) .out with sys := { s.sys with workers := Function.update s.sys.workers j .ready } }
  /-- The master reads the array once more, and drops it. -/
  | pass (hp : s.parts 0 = .waiting 0 .done) : TeamStep s .other { s.setPart 0 .out with master := .dropping }
  | drop (hm : s.master = .dropping) : TeamStep s .other { s with array := none, master := .outside }

end Popcorn.Bomp
