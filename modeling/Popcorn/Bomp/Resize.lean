/-
  Popcorn.Bomp.Resize — the worker threads over calls of `omp_set_num_threads`
  (lib/libbomp/{omp,popcorn_threadpool}.c).

  `threadpool_create` and `omp_set_num_threads` as in `Popcorn.Bomp.Region`, with the array of
  thread handles. A handle is the worker it belongs to, and workers are numbered in the order
  they are started; a slot that was never written, or lost by `realloc`, holds none. All
  pthread and allocation calls succeed.

  Growing starts its workers at the slots after the advertised number of threads, which a
  smaller request has lowered without stopping a worker.

  Proved: `resize_consistent_iff`: after which sequences of calls the array has the handle of
  each worker and the barrier is for the advertised number.
-/

import Popcorn.Bomp.Region

namespace Popcorn.Bomp

/-! ## The handles -/

/-- `pool->threads`. -/
structure Handles where
  length : Nat
  threads : Nat → Option Nat

namespace Handles

def malloc (length : Nat) : Handles := ⟨length, fun _ => none⟩

def realloc (h : Handles) (length : Nat) : Handles := ⟨length, fun j => if j < length then h.threads j else none⟩

/-- `pthread_create(&pool->threads[j], ..)` starts worker `k`. -/
def create (h : Handles) (j k : Nat) : Handles := { h with threads := Function.update h.threads j (some k) }

/-- The loop of both functions: worker `k + i` goes to slot `slot i`. -/
def startWorkers (h : Handles) (slot : Nat → Nat) (k n : Nat) : Handles :=
  (List.range n).foldl (fun h i => h.create (slot i) (k + i)) h

end Handles

structure Workforce where
  team : Team
  handles : Handles

/-- `threadpool_create`. -/
def createWorkforce (pool : Pool) (numThreads : Int32) : Workforce where
  team := createTeam pool numThreads.toInt
  handles := (Handles.malloc numThreads.toInt.toNat).startWorkers id 0 numThreads.toInt.toNat

/-- `omp_set_num_threads`. -/
def Workforce.setNumThreads (s : Workforce) (num : Int32) : Workforce :=
  let now := s.team.numThreads.toInt32
  let diff := missing s.team num
  { team := ompSetNumThreads s.team num diff
    handles :=
      if now < num then
        (s.handles.realloc num.toInt.toNat).startWorkers (fun i => (now.toInt + i - 1).toNat) s.team.sys.numThreads diff
      else s.handles }

/-! ## Consistency -/

structure Consistent (s : Workforce) : Prop where
  length : s.team.sys.pool.threadCount ≤ s.handles.length
  /-- The slots in use hold the handles of the started workers, each once. -/
  filled : ∀ j < s.team.sys.pool.threadCount, ∃ k < s.team.sys.numThreads, s.handles.threads j = some k
  once : ∀ k < s.team.sys.numThreads, ∃! j, j < s.team.sys.pool.threadCount ∧ s.handles.threads j = some k
  started : s.team.sys.pool.started = s.team.sys.numThreads
  enough : s.team.numThreads.toNat ≤ s.team.sys.numThreads + 1
  max : s.team.barrier.max = s.team.numThreads

/-- Every call that asks for more threads is made at the largest number there has been. -/
def GrowsFromLargest (largest now : Int) : List Int32 → Prop
  | [] => True
  | num :: rest => (now < num.toInt → now = largest) ∧ GrowsFromLargest (Max.max largest num.toInt) num.toInt rest

instance decidableGrows : ∀ (largest now : Int) (calls : List Int32), Decidable (GrowsFromLargest largest now calls)
  | _, _, [] => inferInstanceAs (Decidable True)
  | largest, _, num :: rest =>
    have := decidableGrows (Max.max largest num.toInt) num.toInt rest
    inferInstanceAs (Decidable (_ ∧ _))

/-! ## What a call does -/

theorem Handles.startWorkers_length (h : Handles) (slot : Nat → Nat) (k n : Nat) : (h.startWorkers slot k n).length = h.length := by
  unfold startWorkers
  induction n with
  | zero => rfl
  | succ n ih =>
    rw [List.range_succ, List.foldl_append]
    exact ih

theorem Handles.startWorkers_threads (h : Handles) {slot : Nat → Nat} {first : Nat} (k n : Nat) (hslot : ∀ i < n, slot i = first + i) (j : Nat) :
    (h.startWorkers slot k n).threads j = if first ≤ j ∧ j < first + n then some (k + (j - first)) else h.threads j := by
  induction n with
  | zero => exact (if_neg (by omega)).symm
  | succ n ih =>
    have hlast : (h.startWorkers slot k (n + 1)).threads = Function.update (h.startWorkers slot k n).threads (first + n) (some (k + n)) := by
      rw [← hslot n (Nat.lt_succ_self n), startWorkers, List.range_succ, List.foldl_append]
      rfl
    rw [hlast]
    by_cases hj : j = first + n
    · rw [hj, Function.update_self, if_pos ⟨by omega, by omega⟩, Nat.add_sub_cancel_left]
    · rw [Function.update_of_ne hj, ih fun i hi => hslot i (by omega)]
      exact if_congr (by omega) rfl rfl

section
variable {s : Workforce} {num : Int32}

/-- A call that asks for more starts the missing workers; one that does not leaves the array alone. -/
theorem setNumThreads_cases (s : Workforce) (num : Int32) :
    (s.team.numThreads.toInt32.toInt < num.toInt ∧
      (s.setNumThreads num).team.sys = s.team.sys.grow (missing s.team num) ∧
      (s.setNumThreads num).team.numThreads = num.toUInt32 ∧ (s.setNumThreads num).team.barrier.max = num.toUInt32 ∧
      (s.setNumThreads num).handles = (s.handles.realloc num.toInt.toNat).startWorkers
        (fun i => (s.team.numThreads.toInt32.toInt + i - 1).toNat) s.team.sys.numThreads (missing s.team num)) ∨
    (num.toInt ≤ s.team.numThreads.toInt32.toInt ∧ (s.setNumThreads num).handles = s.handles ∧
      (s.setNumThreads num).team.sys = s.team.sys ∧
      ((num = 1 ∨ num ≠ s.team.numThreads.toInt32) ∧
          (s.setNumThreads num).team.numThreads = num.toUInt32 ∧ (s.setNumThreads num).team.barrier.max = num.toUInt32 ∨
        num = s.team.numThreads.toInt32 ∧ num ≠ 1 ∧ (s.setNumThreads num).team = s.team)) := by
  unfold Workforce.setNumThreads ompSetNumThreads
  dsimp only
  by_cases hlt : s.team.numThreads.toInt32 < num
  · rw [if_pos hlt, if_pos hlt, if_neg (Nat.lt_irrefl _)]
    exact .inl ⟨Int32.lt_iff_toInt_lt.mp hlt, rfl, rfl, rfl, rfl⟩
  · have hle : num.toInt ≤ s.team.numThreads.toInt32.toInt := Int.not_lt.mp fun h => hlt (Int32.lt_iff_toInt_lt.mpr h)
    rw [if_neg hlt, if_neg hlt]
    refine .inr ⟨hle, rfl, ?_⟩
    by_cases hone : num = 1
    · rw [if_pos hone]
      exact ⟨rfl, .inl ⟨.inl hone, rfl, rfl⟩⟩
    · rw [if_neg hone]
      by_cases hgt : num < s.team.numThreads.toInt32
      · rw [if_pos hgt]
        exact ⟨rfl, .inl ⟨.inr fun h => Int32.lt_irrefl (h ▸ hgt), rfl, rfl⟩⟩
      · rw [if_neg hgt]
        have hge := Int.not_lt.mp fun h => hgt (Int32.lt_iff_toInt_lt.mpr h)
        exact ⟨rfl, .inr ⟨Int32.toInt_inj.mp (Int.le_antisymm hle hge), hone, rfl⟩⟩

/-- The advertised number is the one asked for. -/
theorem setNumThreads_now (s : Workforce) (num : Int32) : (s.setNumThreads num).team.numThreads.toInt32 = num := by
  rcases setNumThreads_cases s num with ⟨-, -, h, -⟩ | ⟨-, -, -, ⟨-, h, -⟩ | ⟨h, -, hteam⟩⟩
  · rw [h, Int32.toInt32_toUInt32]
  · rw [h, Int32.toInt32_toUInt32]
  · rw [hteam, h]

/-! ## The invariant -/

/-- While every growth started at the largest number: each worker's handle is in its own slot. -/
structure Orderly (s : Workforce) (largest : Int) : Prop where
  positive : 0 < s.team.numThreads.toInt32.toInt
  le : s.team.numThreads.toInt32.toInt ≤ largest
  workers : (s.team.sys.numThreads : Int) + 1 = largest
  count : s.team.sys.pool.threadCount = s.team.sys.numThreads
  started : s.team.sys.pool.started = s.team.sys.numThreads
  length : s.team.sys.numThreads ≤ s.handles.length
  threads : ∀ j k, s.handles.threads j = some k ↔ j = k ∧ k < s.team.sys.numThreads

/-- The handle of a started worker is nowhere in the array. -/
def Lost (s : Workforce) : Prop := ∃ k < s.team.sys.numThreads, ∀ j, s.handles.threads j ≠ some k

theorem Orderly.consistent {largest : Int} (ho : Orderly s largest) (hmax : s.team.barrier.max = s.team.numThreads) : Consistent s := by
  have hnat : s.team.numThreads.toNat = s.team.numThreads.toInt32.toInt.toNat :=
    Int32.toNat_toUInt32_of_le (Int32.le_iff_toInt_le.mpr (Int.le_of_lt ho.positive))
  refine ⟨ho.count ▸ ho.length, ?_, ?_, ho.started, ?_, hmax⟩
  · intro j hj
    rw [ho.count] at hj
    exact ⟨j, hj, (ho.threads j j).mpr ⟨rfl, hj⟩⟩
  · intro k hk
    refine ⟨k, ⟨ho.count ▸ hk, (ho.threads k k).mpr ⟨rfl, hk⟩⟩, ?_⟩
    rintro j ⟨-, hj⟩
    exact ((ho.threads j k).mp hj).1
  · have := ho.workers
    have := ho.le
    omega

theorem Lost.not_consistent (hl : Lost s) : ¬ Consistent s := by
  intro hc
  obtain ⟨k, hk, hnone⟩ := hl
  obtain ⟨j, ⟨-, hj⟩, -⟩ := hc.once k hk
  exact hnone j hj

/-- What the array holds after growing. -/
theorem grown_threads (hpos : 0 < s.team.numThreads.toInt32.toInt) (hlt : s.team.numThreads.toInt32.toInt < num.toInt)
    (hh : (s.setNumThreads num).handles = (s.handles.realloc num.toInt.toNat).startWorkers
      (fun i => (s.team.numThreads.toInt32.toInt + i - 1).toNat) s.team.sys.numThreads (missing s.team num)) (j : Nat) :
    (s.setNumThreads num).handles.threads j =
      if s.team.numThreads.toInt32.toInt ≤ j + 1 ∧ (j : Int) + 1 < num.toInt then
        some (s.team.sys.numThreads + (j + 1 - s.team.numThreads.toInt32.toInt.toNat))
      else if (j : Int) < num.toInt then s.handles.threads j else none := by
  have hmissing : (missing s.team num : Int) = num.toInt - s.team.numThreads.toInt32.toInt := Int.toNat_of_nonneg (by omega)
  have hslot : ∀ i < missing s.team num, (s.team.numThreads.toInt32.toInt + i - 1).toNat = s.team.numThreads.toInt32.toInt.toNat - 1 + i :=
    fun i _ => by omega
  rw [hh, Handles.startWorkers_threads _ _ _ hslot]
  refine if_congr (by omega) ?_ (if_congr (by omega) rfl rfl)
  rw [show j + 1 - s.team.numThreads.toInt32.toInt.toNat = j - (s.team.numThreads.toInt32.toInt.toNat - 1) by omega]

theorem Lost.setNumThreads (hl : Lost s) (hpos : 0 < s.team.numThreads.toInt32.toInt) : Lost (s.setNumThreads num) := by
  obtain ⟨k, hk, hnone⟩ := hl
  rcases setNumThreads_cases s num with ⟨hlt, hsys, -, -, hh⟩ | ⟨-, hh, hsys, -⟩
  · refine ⟨k, ?_, fun j => ?_⟩
    · rw [hsys]
      exact Nat.lt_of_lt_of_le hk (Nat.le_add_right _ _)
    · rw [grown_threads hpos hlt hh]
      split_ifs
      · intro h
        have := Option.some.inj h
        omega
      · exact hnone j
      · exact nofun
  · refine ⟨k, hsys ▸ hk, fun j => ?_⟩
    rw [hh]
    exact hnone j

theorem Orderly.setNumThreads {largest : Int} (ho : Orderly s largest) (hnum : 0 < num.toInt)
    (hgrow : s.team.numThreads.toInt32.toInt < num.toInt → s.team.numThreads.toInt32.toInt = largest) :
    Orderly (s.setNumThreads num) (Max.max largest num.toInt) := by
  have hworkers := ho.workers
  have hle := ho.le
  have hlength := ho.length
  rcases setNumThreads_cases s num with ⟨hlt, hsys, -, -, hh⟩ | ⟨hge, hh, hsys, -⟩
  · have hnow := hgrow hlt
    have hmissing : (missing s.team num : Int) = num.toInt - s.team.numThreads.toInt32.toInt := Int.toNat_of_nonneg (by omega)
    have hlen : (s.setNumThreads num).handles.length = num.toInt.toNat := by
      rw [hh, Handles.startWorkers_length]
      rfl
    constructor
    case positive => rwa [setNumThreads_now]
    case le =>
      rw [setNumThreads_now]
      exact Int.le_max_right _ _
    case workers =>
      rw [hsys, Int.max_eq_right (by omega)]
      show ((s.team.sys.numThreads + missing s.team num : Nat) : Int) + 1 = num.toInt
      omega
    case count =>
      rw [hsys]
      exact congrArg (· + missing s.team num) ho.count
    case started =>
      rw [hsys]
      exact (congrArg (· + (missing s.team num : Int)) ho.started).trans (Int.natCast_add _ _).symm
    case length =>
      rw [hsys, hlen]
      show s.team.sys.numThreads + missing s.team num ≤ num.toInt.toNat
      omega
    case threads =>
      intro j k
      rw [grown_threads ho.positive hlt hh, hsys]
      show _ ↔ j = k ∧ k < s.team.sys.numThreads + missing s.team num
      -- the new workers' slots start where the old ones' end
      split_ifs with hnew hold
      · rw [Option.some_inj]
        omega
      · rw [ho.threads]
        omega
      · refine iff_of_false nofun fun ⟨hj, hk⟩ => ?_
        omega
  · have hmax : Max.max largest num.toInt = largest := Int.max_eq_left (by omega)
    rw [hmax]
    refine ⟨by rwa [setNumThreads_now], ?_, ?_, ?_, ?_, ?_, ?_⟩
    · rw [setNumThreads_now]
      omega
    · rw [hsys]
      exact hworkers
    · rw [hsys]
      exact ho.count
    · rw [hsys]
      exact ho.started
    · rw [hsys, hh]
      exact hlength
    · rw [hsys, hh]
      exact ho.threads

/-- Growing below the largest number overwrites the handle of the worker at the first slot. -/
theorem Orderly.lost {largest : Int} (ho : Orderly s largest) (hlt : s.team.numThreads.toInt32.toInt < num.toInt)
    (hne : s.team.numThreads.toInt32.toInt ≠ largest) : Lost (s.setNumThreads num) := by
  have hworkers := ho.workers
  have hle := ho.le
  have hpos := ho.positive
  rcases setNumThreads_cases s num with ⟨-, hsys, -, -, hh⟩ | ⟨hge, -⟩
  · refine ⟨s.team.numThreads.toInt32.toInt.toNat - 1, ?_, fun j hj => ?_⟩
    · rw [hsys]
      show _ < s.team.sys.numThreads + missing s.team num
      omega
    · rw [grown_threads hpos hlt hh] at hj
      split_ifs at hj with hnew hold
      · have := Option.some.inj hj
        omega
      · have := ((ho.threads _ _).mp hj).1
        omega
  · exact absurd hlt (Int.not_lt.mpr hge)

/-! ## Runs -/

theorem Lost.run (calls : List Int32) (hpos : ∀ num ∈ calls, 0 < num.toInt) (hl : Lost s) (h0 : 0 < s.team.numThreads.toInt32.toInt) :
    Lost (calls.foldl Workforce.setNumThreads s) := by
  induction calls generalizing s with
  | nil => exact hl
  | cons num rest ih =>
    have hnum := hpos num List.mem_cons_self
    exact ih (fun n hn => hpos n (List.mem_cons_of_mem _ hn)) (hl.setNumThreads h0) (by rwa [setNumThreads_now])

/-- Either every growth started at the largest number, or a handle is lost. -/
theorem Orderly.run (calls : List Int32) (hpos : ∀ num ∈ calls, 0 < num.toInt) {largest : Int} (ho : Orderly s largest) :
    GrowsFromLargest largest s.team.numThreads.toInt32.toInt calls ∧ (∃ l, Orderly (calls.foldl Workforce.setNumThreads s) l) ∨
      ¬ GrowsFromLargest largest s.team.numThreads.toInt32.toInt calls ∧ Lost (calls.foldl Workforce.setNumThreads s) := by
  induction calls generalizing s largest with
  | nil => exact .inl ⟨trivial, largest, ho⟩
  | cons num rest ih =>
    have hnum := hpos num List.mem_cons_self
    have hrest : ∀ n ∈ rest, 0 < n.toInt := fun n hn => hpos n (List.mem_cons_of_mem _ hn)
    by_cases hgrow : s.team.numThreads.toInt32.toInt < num.toInt → s.team.numThreads.toInt32.toInt = largest
    · have hstep := ih hrest (ho.setNumThreads hnum hgrow)
      rw [setNumThreads_now] at hstep
      rcases hstep with ⟨hg, hs⟩ | ⟨hg, hs⟩
      · exact .inl ⟨⟨hgrow, hg⟩, hs⟩
      · exact .inr ⟨fun h => hg h.2, hs⟩
    · have hlost := ho.lost (by_contra fun h => hgrow fun hlt => absurd hlt h) fun h => hgrow fun _ => h
      exact .inr ⟨fun h => hgrow h.1, hlost.run rest hrest (by rwa [setNumThreads_now])⟩

/-- The barrier's number is the advertised one from the first call that sets it. -/
theorem run_max (calls : List Int32) :
    (calls.foldl Workforce.setNumThreads s).team.barrier.max = (calls.foldl Workforce.setNumThreads s).team.numThreads ↔
      s.team.barrier.max = s.team.numThreads ∨ ∃ num ∈ calls, num = 1 ∨ num ≠ s.team.numThreads.toInt32 := by
  induction calls generalizing s with
  | nil => simp
  | cons num rest ih =>
    rw [List.foldl_cons, ih, setNumThreads_now, List.exists_mem_cons_iff]
    rcases setNumThreads_cases s num with ⟨hlt, -, hn, hm, -⟩ | ⟨-, -, -, ⟨hset, hn, hm⟩ | ⟨hnum, hone, hteam⟩⟩
    · have hne : num ≠ s.team.numThreads.toInt32 := fun h => Int.lt_irrefl _ (h ▸ hlt)
      exact iff_of_true (.inl (hm.trans hn.symm)) (.inr (.inl (.inr hne)))
    · exact iff_of_true (.inl (hm.trans hn.symm)) (.inr (.inl hset))
    · rw [hteam, ← hnum]
      have hno : ¬ (num = 1 ∨ num ≠ num) := fun h => h.elim hone fun h => h rfl
      rw [or_iff_right hno]

end

/-! ## Result -/

theorem ofNat_toNat {n : Nat} (h : n < 2147483648) : (UInt32.ofNat n).toNat = n :=
  UInt32.toNat_ofNat_of_lt' (Nat.lt_trans h (by decide))

theorem ofNat_toInt32 {n : Nat} (h : n < 2147483648) : (UInt32.ofNat n).toInt32.toInt = n := by
  have hsmall : 2 * (UInt32.ofNat n).toBitVec.toNat < 2 ^ 32 := by
    have := ofNat_toNat h
    show 2 * (UInt32.ofNat n).toNat < _
    omega
  exact (BitVec.toInt_eq_toNat_of_lt hsmall).trans (congrArg Nat.cast (ofNat_toNat h))

theorem createWorkforce_orderly {numThreads : Int32} {queueSize : Int} {fresh : Nat → Task} {pool : Pool}
    (h : threadpoolCreate numThreads.toInt queueSize fresh = some pool) (hmax : numThreads.toInt < 2147483647) :
    0 < numThreads.toInt ∧ (createWorkforce pool numThreads).team.numThreads.toInt32.toInt = numThreads.toInt + 1 ∧
      Orderly (createWorkforce pool numThreads) (numThreads.toInt + 1) := by
  unfold threadpoolCreate at h
  split at h
  · cases h
  · rename_i hok
    cases h
    have hpos : 0 < numThreads.toInt := by omega
    have hnow : (UInt32.ofNat (numThreads.toInt.toNat + 1)).toInt32.toInt = numThreads.toInt + 1 := by
      rw [ofNat_toInt32 (by omega)]
      omega
    have hlength : ((Handles.malloc numThreads.toInt.toNat).startWorkers id 0 numThreads.toInt.toNat).length = numThreads.toInt.toNat :=
      Handles.startWorkers_length ..
    have hslot : ∀ i < numThreads.toInt.toNat, id i = 0 + i := fun i _ => (Nat.zero_add i).symm
    refine ⟨hpos, hnow, ?_, hnow.le, ?_, rfl, ?_, hlength.ge, ?_⟩
    · exact hnow.symm ▸ (by omega)
    · exact congrArg (· + 1) (Int.toNat_of_nonneg (Int.le_of_lt hpos))
    · exact (Int.toNat_of_nonneg (Int.le_of_lt hpos)).symm
    · intro j k
      show ((Handles.malloc numThreads.toInt.toNat).startWorkers id 0 numThreads.toInt.toNat).threads j = some k ↔ j = k ∧ k < numThreads.toInt.toNat
      rw [Handles.startWorkers_threads _ _ _ hslot]
      split_ifs with hj
      · rw [Option.some_inj]
        omega
      · exact iff_of_false nofun fun ⟨hjk, hk⟩ => hj (by omega)

/-- The barrier is created for the workers without the master. -/
theorem createWorkforce_max (pool : Pool) {numThreads : Int32} (hpos : 0 < numThreads.toInt) (hmax : numThreads.toInt < 2147483647) :
    (createWorkforce pool numThreads).team.barrier.max ≠ (createWorkforce pool numThreads).team.numThreads := by
  intro h
  have h' := congrArg UInt32.toNat h
  change (UInt32.ofNat numThreads.toInt.toNat).toNat = (UInt32.ofNat (numThreads.toInt.toNat + 1)).toNat at h'
  rw [ofNat_toNat (by omega), ofNat_toNat (by omega)] at h'
  omega

theorem resize_consistent_iff (numThreads : Int32) (queueSize : Int) (fresh : Nat → Task) (pool : Pool) (calls : List Int32)
    (h : threadpoolCreate numThreads.toInt queueSize fresh = some pool) (hmax : numThreads.toInt < 2147483647)
    (hpos : ∀ num ∈ calls, 0 < num.toInt) :
    Consistent (calls.foldl Workforce.setNumThreads (createWorkforce pool numThreads)) ↔
      (∃ num ∈ calls, num.toInt ≠ numThreads.toInt + 1) ∧ GrowsFromLargest (numThreads.toInt + 1) (numThreads.toInt + 1) calls := by
  obtain ⟨hone, hnow, ho⟩ := createWorkforce_orderly h hmax
  have hset : ∀ num : Int32, num = 1 ∨ num ≠ (createWorkforce pool numThreads).team.numThreads.toInt32 ↔ num.toInt ≠ numThreads.toInt + 1 := by
    intro num
    have hne : num ≠ (createWorkforce pool numThreads).team.numThreads.toInt32 ↔ num.toInt ≠ numThreads.toInt + 1 := by
      rw [← hnow, ne_eq, ne_eq, Int32.toInt_inj]
    rw [hne]
    refine or_iff_right_of_imp fun h1 => ?_
    rw [h1, Int32.toInt_one]
    omega
  have hm := run_max (s := createWorkforce pool numThreads) calls
  rw [or_iff_right (createWorkforce_max pool hone hmax)] at hm
  simp only [hset] at hm
  rw [← hm]
  have hrun := ho.run calls hpos
  rw [hnow] at hrun
  rcases hrun with ⟨hg, l, hs⟩ | ⟨hg, hs⟩
  · exact ⟨fun hc => ⟨hc.max, hg⟩, fun hc => hs.consistent hc.1⟩
  · exact iff_of_false hs.not_consistent fun hc => hg hc.2

theorem resize_consistent_grow :
    Consistent ([2, 5, 3].foldl Workforce.setNumThreads (createWorkforce ⟨fun _ => ⟨0, 0⟩, 1, 4, 0, 0, 0, false, 1⟩ 1)) := by
  have hpos : ∀ num ∈ ([2, 5, 3] : List Int32), 0 < num.toInt := by
    rw [List.forall_mem_cons, List.forall_mem_cons, List.forall_mem_singleton]
    decide
  have hgrows : GrowsFromLargest (1 + 1) (1 + 1) [2, 5, 3] := by decide
  exact (resize_consistent_iff 1 4 (fun _ => ⟨0, 0⟩) _ [2, 5, 3] rfl (by decide) hpos).mpr ⟨⟨5, by decide, by decide⟩, hgrows⟩

/-- Seven workers; down to two threads and back to four: the handles of two workers are
    overwritten, and nine are counted in an array of four. -/
theorem shrunk_pool_overwritten :
    ∃ pool, threadpoolCreate 7 4 (fun _ => ⟨0, 0⟩) = some pool ∧
      (createWorkforce pool 7).team.barrier.max = 7 ∧ (createWorkforce pool 7).team.numThreads = 8 ∧
      let s := [2, 4].foldl Workforce.setNumThreads (createWorkforce pool 7)
      s.team.sys.pool.threadCount = 9 ∧ s.handles.length = 4 ∧ s.handles.threads 1 = some 7 ∧ s.handles.threads 2 = some 8 ∧
        ¬ Consistent s := by
  refine ⟨⟨fun _ => ⟨0, 0⟩, 7, 4, 0, 0, 0, false, 7⟩, rfl, rfl, rfl, ?_⟩
  exact ⟨by decide, by decide, by decide, by decide, fun hc => absurd hc.length (by decide)⟩

end Popcorn.Bomp
