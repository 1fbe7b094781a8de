/-
  Popcorn.Bomp.Reduce — reductions (lib/libbomp/{kmp,parallel}.c).

  Every thread of the team adds its own value to a shared one. `__kmpc_reduce` and
  `__kmpc_reduce_nowait` take the lock of all critical sections and return 1: the caller is to
  combine its value with the shared one, which it loads and stores, and to call
  `__kmpc_end_reduce`, which releases the lock and waits at the team's barrier, or
  `__kmpc_end_reduce_nowait`, which only releases it. The threads go through the same
  reductions; `blocking r` is whether reduction `r` waits.

  The lock is a device (`Popcorn.Lib.Machine`), the two spin locks or what they simulate; the
  barrier is the one of `Popcorn.Bomp.Barrier`. `log` records which values have been combined.

  Proved:
  - `Reduction.inv`: what every step keeps.
  - `reduce_sound`: with either spin lock no value is lost or combined twice, and a thread that
    has returned from a reduction that waits finds the values of all in the shared one.
-/

import Mathlib.Data.List.Nodup
import Mathlib.Data.List.ProdSigma
import Mathlib.Data.Nat.Count
import Popcorn.Bomp.Barrier
import Popcorn.Bomp.SpinLock

namespace Popcorn.Bomp

open Popcorn.Lib

variable {α : Type}

/-! ## The code -/

/-- Where a thread is. -/
inductive Place (α : Type) where
  | out
  /-- In `GOMP_critical_start`. -/
  | calling
  | entered
  /-- With the shared value loaded. -/
  | loaded (v : α)
  | stored
  /-- After `GOMP_critical_end`. -/
  | left
  | waiting

/-- A team and the value it reduces to. -/
structure Reducing (α : Type) where
  crowd : Crowd
  place : Nat → Place α
  /-- The reductions a thread has returned from. -/
  round : Nat → Nat
  shared : α
  log : List (Nat × Nat)

/-- What the threads reduce: how many they are, the operation, their values by thread and
    reduction, and which reductions wait. -/
structure Reduction (α : Type) where
  threads : UInt32
  op : α → α → α
  value : Nat → Nat → α
  blocking : Nat → Bool
  start : α

namespace Crowd

/-- What a call of the barrier, an access in it and a return from it make of the team. -/
def called (c : Crowd) (t : Nat) : Crowd :=
  { c with threads := Function.update c.threads t ⟨(c.threads t).started + 1, (c.threads t).returned, some .sample⟩ }

def accessed (c : Crowd) (t : Nat) (b : Barrier) (w : Wait) (e : Event) : Crowd :=
  ⟨b, Function.update c.threads t { c.threads t with wait := some w }, e.opened c.opened, e.arrived c.arrived t⟩

def left (c : Crowd) (t : Nat) : Crowd :=
  { c with threads := Function.update c.threads t ⟨(c.threads t).started, (c.threads t).returned + 1, none⟩ }

end Crowd

namespace Reducing

def inBarrier (s : Reducing α) (c : Crowd) : Reducing α := { s with crowd := c }

def goto (s : Reducing α) (t : Nat) (p : Place α) : Reducing α := { s with place := Function.update s.place t p }

/-- A thread returns from its reduction. -/
def next (s : Reducing α) (t : Nat) : Reducing α := { s.goto t .out with round := Function.update s.round t (s.round t + 1) }

/-- A thread stores the shared value, combined with its own. -/
def combine (s : Reducing α) (x : Reduction α) (t : Nat) (v : α) : Reducing α :=
  { s.goto t .stored with shared := x.op v (x.value t (s.round t)), log := s.log ++ [(t, s.round t)] }

end Reducing

inductive ReduceStep (x : Reduction α) : Reducing α → Option LockCall → Reducing α → Prop
  /-- `__kmpc_reduce`. -/
  | call {s : Reducing α} (t : Nat) (ht : t < x.threads.toNat) (hp : s.place t = .out) :
      ReduceStep x s (some (.call t)) (s.goto t .calling)
  | enter {s : Reducing α} (t : Nat) (hp : s.place t = .calling) : ReduceStep x s (some (.acquire t)) (s.goto t .entered)
  | load {s : Reducing α} (t : Nat) (hp : s.place t = .entered) : ReduceStep x s none (s.goto t (.loaded s.shared))
  | store {s : Reducing α} {v : α} (t : Nat) (hp : s.place t = .loaded v) : ReduceStep x s none (s.combine x t v)
  /-- `__kmpc_end_reduce`. -/
  | leave {s : Reducing α} (t : Nat) (hp : s.place t = .stored) : ReduceStep x s (some (.release t)) (s.goto t .left)
  | nowait {s : Reducing α} (t : Nat) (hp : s.place t = .left) (hb : x.blocking (s.round t) = false) : ReduceStep x s none (s.next t)
  | wait {s : Reducing α} (t : Nat) (hp : s.place t = .left) (hb : x.blocking (s.round t) = true) (hw : s.crowd.waits t = none) :
      ReduceStep x s none ((s.goto t .waiting).inBarrier (s.crowd.called t))
  | access {s : Reducing α} {b : Barrier} {v v' : Wait} {e : Event} (t : Nat) (hp : s.place t = .waiting) (hw : s.crowd.waits t = some v)
      (h : WaitStep s.crowd.barrier v e b v') :
      ReduceStep x s none (s.inBarrier (s.crowd.accessed t b v' e))
  | «return» {s : Reducing α} (t : Nat) (hp : s.place t = .waiting) (hw : s.crowd.waits t = some .done) :
      ReduceStep x s none ((s.next t).inBarrier (s.crowd.left t))

/-- A team whose threads are to reduce. -/
def reducing (x : Reduction α) : Machine (Reducing α) LockCall :=
  ⟨⟨crowd x.threads, fun _ => .out, fun _ => 0, x.start, []⟩, ReduceStep x⟩

/-! ## The invariant -/

/-- In the critical section. -/
def Place.Critical : Place α → Prop
  | .entered | .loaded _ | .stored => True
  | _ => False

/-- The values of the reduction it is in that a thread has combined. -/
def Place.added : Place α → Nat
  | .stored | .left | .waiting => 1
  | _ => 0

/-- The barrier calls it is in. -/
def Place.waits : Place α → Nat
  | .waiting => 1
  | _ => 0

/-- What holds of thread `t` at `q`, back from `r` reductions. -/
structure ReduceMember (x : Reduction α) (log : List (Nat × Nat)) (shared : α) (t : Nat) (q : Place α) (r : Nat) (c : Thread) : Prop where
  inWait : c.wait.isSome ↔ q = .waiting
  started : c.started = Nat.count (x.blocking ·) r + q.waits
  waitBlocks : q = .waiting → x.blocking r = true
  log : ∀ i, (t, i) ∈ log ↔ i < r + q.added
  loaded : ∀ v, q = .loaded v → v = shared

structure ReduceInv (x : Reduction α) (s : Reducing α) : Prop where
  crowd : CrowdInv x.threads.toNat s.crowd
  others : ∀ t, x.threads.toNat ≤ t → s.place t = .out ∧ s.round t = 0
  nodup : s.log.Nodup
  shared : s.shared = s.log.foldl (fun a p => x.op a (x.value p.1 p.2)) x.start
  member : ∀ t, ReduceMember x s.log s.shared t (s.place t) (s.round t) (s.crowd.threads t)

section
variable {x : Reduction α} {s s' : Reducing α} {t : Nat} {p : Place α}

/-- Moving a thread changes only its place. -/
theorem critical_goto (hp : (s.place t).Critical ↔ p.Critical) (u : Nat) :
    (Function.update s.place t p u).Critical ↔ (s.place u).Critical := by
  by_cases hu : u = t
  · subst hu
    rw [Function.update_self]
    exact hp.symm
  · rw [Function.update_of_ne hu]

theorem reducing_disciplined (x : Reduction α) : Disciplined (reducing x) fun s t => (s.place t).Critical where
  init _ h := h
  own := by
    intro s s' hs
    cases hs with
    | load t hp => exact critical_goto (by rw [hp]; exact Iff.rfl)
    | store t hp => exact critical_goto (by rw [hp]; exact Iff.rfl)
    | nowait t hp hb => exact critical_goto (by rw [hp]; exact Iff.rfl)
    | wait t hp hb hw => exact critical_goto (by rw [hp]; exact Iff.rfl)
    | access t hp hw h => exact fun _ => Iff.rfl
    | «return» t hp hw => exact critical_goto (by rw [hp]; exact Iff.rfl)
  call := by
    intro s s' u hs
    cases hs with
    | call t ht hp => exact critical_goto (by rw [hp]; exact Iff.rfl)
  acquire := by
    intro s s' u hs t
    cases hs with
    | enter u hp =>
      show (Function.update s.place u .entered t).Critical ↔ _
      by_cases ht : t = u
      · subst ht
        rw [Function.update_self]
        exact ⟨fun _ => .inr rfl, fun _ => trivial⟩
      · rw [Function.update_of_ne ht]
        exact ⟨.inl, fun h => h.resolve_right ht⟩
  release := by
    intro s s' u hs t
    cases hs with
    | leave u hp =>
      show (Function.update s.place u .left t).Critical ↔ _
      by_cases ht : t = u
      · subst ht
        rw [Function.update_self]
        exact ⟨False.elim, fun h => absurd rfl h.2⟩
      · rw [Function.update_of_ne ht]
        exact ⟨fun h => ⟨h, ht⟩, fun h => h.1⟩

/-! ## Steps -/

/-- What a step does to the barrier is a step of its crowd, or nothing. -/
theorem ReduceStep.crowd {l : Option LockCall} (h : ReduceStep x s l s') (hi : ∀ t, s.place t ≠ .out → t < x.threads.toNat) :
    s'.crowd = s.crowd ∨ CrowdStep x.threads.toNat s.crowd s'.crowd := by
  cases h with
  | wait t hp hb hw => exact .inr (.call t (hi t (by rw [hp]; exact nofun)) hw)
  | access t hp hw h => exact .inr (.access t hw h)
  | «return» t hp hw => exact .inr (.return t hw)
  | _ => exact .inl rfl

theorem ReduceInv.lt (hi : ReduceInv x s) (hp : s.place t ≠ .out) : t < x.threads.toNat := by
  by_contra hn
  exact hp (hi.others t (Nat.le_of_not_lt hn)).1

theorem ReduceInv.crowd_step {l : Option LockCall} (hi : ReduceInv x s) (h : ReduceStep x s l s') : CrowdInv x.threads.toNat s'.crowd := by
  obtain he | hs := h.crowd fun t hp => hi.lt hp
  · rw [he]
    exact hi.crowd
  · exact hs.inv hi.crowd

/-- A step of thread `t` that does not touch the shared value. -/
theorem ReduceInv.quiet (hi : ReduceInv x s) (ht : t < x.threads.toNat) (hcrowd : CrowdInv x.threads.toNat s'.crowd)
    (hothers : ∀ u, u ≠ t → s'.place u = s.place u ∧ s'.round u = s.round u ∧ s'.crowd.threads u = s.crowd.threads u)
    (hlog : s'.log = s.log) (hshared : s'.shared = s.shared)
    (hm : ReduceMember x s.log s.shared t (s'.place t) (s'.round t) (s'.crowd.threads t)) : ReduceInv x s' := by
  refine ⟨hcrowd, ?_, hlog ▸ hi.nodup, by rw [hshared, hlog]; exact hi.shared, ?_⟩
  · intro u hu
    obtain ⟨h1, h2, -⟩ := hothers u (by omega)
    rw [h1, h2]
    exact hi.others u hu
  · intro u
    rw [hlog, hshared]
    by_cases hut : u = t
    · subst hut
      exact hm
    · obtain ⟨h1, h2, h3⟩ := hothers u hut
      rw [h1, h2, h3]
      exact hi.member u

/-- A thread moves to a place that means the same to the log and to the barrier. -/
theorem ReduceInv.goto (hi : ReduceInv x s) (ht : t < x.threads.toNat) (hadded : p.added = (s.place t).added)
    (hout : (s.place t).waits = 0) (hwaits : p.waits = 0) (hload : ∀ v, p = .loaded v → v = s.shared) : ReduceInv x (s.goto t p) := by
  have hno : ∀ q : Place α, q.waits = 0 → q ≠ .waiting := fun q h e => by
    rw [e] at h
    cases h
  have hold := hi.member t
  refine hi.quiet ht hi.crowd ?_ rfl rfl ?_
  · exact fun u hu => ⟨Function.update_of_ne hu _ _, rfl, rfl⟩
  · show ReduceMember x s.log s.shared t (Function.update s.place t p t) (s.round t) (s.crowd.threads t)
    rw [Function.update_self]
    refine ⟨?_, ?_, fun h => absurd h (hno p hwaits), ?_, hload⟩
    · rw [hold.inWait]
      exact ⟨fun h => absurd h (hno _ hout), fun h => absurd h (hno p hwaits)⟩
    · rw [hwaits, ← hout]
      exact hold.started
    · rw [hadded]
      exact hold.log

/-- A thread combines its value, alone in the critical section. -/
theorem ReduceInv.store (hi : ReduceInv x s) {v : α} (hp : s.place t = .loaded v)
    (halone : ∀ u, (s.place u).Critical → u = t) : ReduceInv x (s.combine x t v) := by
  have hold := hi.member t
  have hv := hold.loaded v hp
  have hnew : (t, s.round t) ∉ s.log := by
    rw [hold.log, hp]
    exact Nat.lt_irrefl _
  refine ⟨hi.crowd, ?_, ?_, ?_, ?_⟩
  · intro u hu
    have ht := hi.lt (t := t) (by rw [hp]; nofun)
    have hut : u ≠ t := by omega
    show Function.update s.place t .stored u = .out ∧ _
    rw [Function.update_of_ne hut]
    exact hi.others u hu
  · exact List.Nodup.append hi.nodup (List.nodup_singleton _) (List.disjoint_singleton.mpr hnew)
  · show x.op v (x.value t (s.round t)) = (s.log ++ [(t, s.round t)]).foldl _ x.start
    rw [List.foldl_append, ← hi.shared, hv]
    rfl
  · intro u
    show ReduceMember x (s.log ++ [(t, s.round t)]) _ u (Function.update s.place t .stored u) (s.round u) (s.crowd.threads u)
    by_cases hut : u = t
    · subst hut
      rw [Function.update_self]
      refine ⟨?_, ?_, nofun, ?_, nofun⟩
      · rw [hold.inWait, hp]
        exact ⟨nofun, nofun⟩
      · rw [hold.started, hp]
        rfl
      · intro i
        rw [List.mem_append, hold.log, hp, List.mem_singleton, Prod.mk.injEq]
        show i < s.round u + 0 ∨ _ ↔ i < s.round u + 1
        omega
    · rw [Function.update_of_ne hut]
      obtain ⟨h1, h2, h3, h4, -⟩ := hi.member u
      refine ⟨h1, h2, h3, ?_, ?_⟩
      · intro i
        rw [List.mem_append, h4, List.mem_singleton, Prod.mk.injEq]
        exact or_iff_left fun h => hut h.1
      · intro w hw
        exact absurd (halone u (by rw [hw]; trivial)) hut

/-- Every step keeps the invariant, where the critical section has one thread. -/
theorem ReduceStep.inv {l : Option LockCall} (h : ReduceStep x s l s') (hi : ReduceInv x s)
    (halone : ∀ t u, (s.place t).Critical → (s.place u).Critical → u = t) : ReduceInv x s' := by
  have hcrowd := hi.crowd_step h
  have hlt : ∀ {t q}, s.place t = q → q ≠ .out → t < x.threads.toNat := fun e hq => hi.lt (by rw [e]; exact hq)
  cases h with
  | call t ht hp => exact hi.goto ht (by rw [hp]; rfl) (by rw [hp]; rfl) rfl nofun
  | enter t hp => exact hi.goto (hlt hp nofun) (by rw [hp]; rfl) (by rw [hp]; rfl) rfl nofun
  | load t hp =>
    refine hi.goto (hlt hp nofun) (by rw [hp]; rfl) (by rw [hp]; rfl) rfl ?_
    rintro v ⟨⟩
    rfl
  | store t hp => exact hi.store hp fun u hu => halone t u (by rw [hp]; trivial) hu
  | leave t hp => exact hi.goto (hlt hp nofun) (by rw [hp]; rfl) (by rw [hp]; rfl) rfl nofun
  | nowait t hp hb =>
    have hold := hi.member t
    refine hi.quiet (hlt hp nofun) hi.crowd (fun u hu => ⟨Function.update_of_ne hu _ _, Function.update_of_ne hu _ _, rfl⟩) rfl rfl ?_
    show ReduceMember x s.log s.shared t (Function.update s.place t .out t) (Function.update s.round t (s.round t + 1) t) (s.crowd.threads t)
    rw [Function.update_self, Function.update_self]
    refine ⟨?_, ?_, nofun, ?_, nofun⟩
    · rw [hold.inWait, hp]
      exact ⟨nofun, nofun⟩
    · rw [hold.started, hp, Nat.count_succ, if_neg (by rw [hb]; exact Bool.false_ne_true)]
      rfl
    · intro i
      rw [hold.log, hp]
      rfl
  | wait t hp hb hw =>
    have hold := hi.member t
    refine hi.quiet (hlt hp nofun) hcrowd (fun u hu => ⟨Function.update_of_ne hu _ _, rfl, Function.update_of_ne hu _ _⟩) rfl rfl ?_
    show ReduceMember x s.log s.shared t (Function.update s.place t .waiting t) (s.round t) (Function.update s.crowd.threads t _ t)
    rw [Function.update_self, Function.update_self]
    refine ⟨⟨fun _ => rfl, fun _ => rfl⟩, ?_, fun _ => hb, ?_, nofun⟩
    · show (s.crowd.threads t).started + 1 = _
      rw [hold.started, hp]
      rfl
    · intro i
      rw [hold.log, hp]
      rfl
  | access t hp hw h =>
    have hold := hi.member t
    refine hi.quiet (hlt hp nofun) hcrowd (fun u hu => ⟨rfl, rfl, Function.update_of_ne hu _ _⟩) rfl rfl ?_
    show ReduceMember x s.log s.shared t (s.place t) (s.round t) (Function.update s.crowd.threads t _ t)
    rw [Function.update_self]
    exact ⟨⟨fun _ => hp, fun _ => rfl⟩, hold.started, hold.waitBlocks, hold.log, hold.loaded⟩
  | «return» t hp hw =>
    have hold := hi.member t
    refine hi.quiet (hlt hp nofun) hcrowd
      (fun u hu => ⟨Function.update_of_ne hu _ _, Function.update_of_ne hu _ _, Function.update_of_ne hu _ _⟩) rfl rfl ?_
    show ReduceMember x s.log s.shared t (Function.update s.place t .out t) (Function.update s.round t (s.round t + 1) t)
      (Function.update s.crowd.threads t _ t)
    rw [Function.update_self, Function.update_self, Function.update_self]
    refine ⟨⟨nofun, nofun⟩, ?_, nofun, ?_, nofun⟩
    · show (s.crowd.threads t).started = _
      rw [hold.started, hp, Nat.count_succ, if_pos (hold.waitBlocks hp)]
      rfl
    · intro i
      rw [hold.log, hp]
      rfl

/-! ## What a reduction comes to -/

/-- No thread has returned from more waits than have been opened, and each has started these. -/
theorem CrowdInv.bounds {n : Nat} {c : Crowd} (hi : CrowdInv n c) (ht : t < n) :
    (c.threads t).returned ≤ c.opened ∧ c.opened ≤ (c.threads t).started := by
  obtain ⟨h1, h2, h3, h4, -, -⟩ := hi.thread t ht
  have hcase : (c.threads t).started = (c.threads t).returned ∨ (c.threads t).started = (c.threads t).returned + 1 := by
    cases hw : (c.threads t).wait with
    | none => exact .inl (h4 hw)
    | some w => exact .inr (h3 (by rw [hw]; rfl))
  by_cases hcur : t ∈ c.arrived ∨ Coming (c.threads t).wait
  · have hstart := h1 hcur
    -- a thread of this round is in its wait
    have hin : (c.threads t).wait ≠ none := by
      intro hw
      have hat := hi.barrier.thread t
      rw [show c.waits t = none from hw] at hat
      rw [hw] at hcur
      exact absurd hcur (not_or_intro hat id)
    have := h3 (Option.isSome_iff_ne_none.mpr hin)
    omega
  · have := h2 (fun h => hcur (.inl h)) fun h => hcur (.inr h)
    omega

/-- The reductions a thread has waited at the end of. -/
theorem ReduceMember.returned {log : List (Nat × Nat)} {shared : α} {r : Nat} {c : Thread} (h : ReduceMember x log shared t p r c)
    (hin : c.wait.isSome → c.started = c.returned + 1) (hout : c.wait = none → c.started = c.returned) :
    c.returned = Nat.count (x.blocking ·) r := by
  have hs := h.started
  cases hw : c.wait with
  | none =>
    have hp : p ≠ .waiting := fun e => by
      have := h.inWait.mpr e
      rw [hw] at this
      cases this
    have hwaits : p.waits = 0 := by
      cases p with
      | waiting => exact absurd rfl hp
      | _ => rfl
    rw [hwaits] at hs
    have := hout hw
    omega
  | some w =>
    have hp : p = .waiting := h.inWait.mp (by rw [hw]; rfl)
    rw [hp] at hs
    have := hin (by rw [hw]; rfl)
    have hone : (Place.waiting : Place α).waits = 1 := rfl
    omega

/-- A thread that has called the barrier once more than for the reductions before `k` has combined
    its values up to `k`. -/
theorem ReduceMember.combined {log : List (Nat × Nat)} {shared : α} {r i k : Nat} {c : Thread} (h : ReduceMember x log shared t p r c)
    (hc : Nat.count (x.blocking ·) k < c.started) (hik : i ≤ k) : (t, i) ∈ log := by
  rw [h.log]
  by_contra hno
  have hs := h.started
  by_cases hp : p = .waiting
  · have hr : r + 1 ≤ k := by
      rw [hp] at hno
      have hone : (Place.waiting : Place α).added = 1 := rfl
      omega
    have hmono := Nat.count_monotone (x.blocking ·) hr
    rw [Nat.count_succ, if_pos (h.waitBlocks hp)] at hmono
    rw [hp] at hs
    have hone : (Place.waiting : Place α).waits = 1 := rfl
    omega
  · have hr : r ≤ k := by omega
    have hmono := Nat.count_monotone (x.blocking ·) hr
    have hwaits : p.waits = 0 := by
      cases p with
      | waiting => exact absurd rfl hp
      | _ => rfl
    omega

structure ReduceSound (x : Reduction α) (s : Reducing α) : Prop where
  /-- One thread at a time combines its value. -/
  alone : ∀ t u, (s.place t).Critical → (s.place u).Critical → t = u
  /-- The shared value is that of the values combined, in some order... -/
  shared : s.shared = s.log.foldl (fun a p => x.op a (x.value p.1 p.2)) x.start
  /-- ... each once ... -/
  once : s.log.Nodup ∧ ∀ t r, (t, r) ∈ s.log → t < x.threads.toNat ∧ r ≤ s.round t
  /-- ... and that of a thread when it has returned. -/
  own : ∀ t r, r < s.round t → (t, r) ∈ s.log
  /-- Who has returned from a reduction that waits finds the values of all, also those before. -/
  all : ∀ t u r i, t < x.threads.toNat → u < x.threads.toNat → x.blocking r = true → r < s.round t → i ≤ r → (u, i) ∈ s.log
  /-- When all have returned from the same reductions, the order is of no account where the
      operation does not mind it. -/
  result : ∀ R, (∀ a b c, x.op (x.op a b) c = x.op (x.op a c) b) →
    (∀ t, t < x.threads.toNat → s.round t = R ∧ s.place t = .out) →
    s.shared = (List.range x.threads.toNat ×ˢ List.range R).foldl (fun a p => x.op a (x.value p.1 p.2)) x.start

theorem ReduceInv.sound (hi : ReduceInv x s) (halone : ∀ t u, (s.place t).Critical → (s.place u).Critical → t = u) : ReduceSound x s where
  alone := halone
  shared := hi.shared
  once := by
    refine ⟨hi.nodup, ?_⟩
    intro t r h
    have hlt := ((hi.member t).log r).mp h
    constructor
    · by_contra hn
      obtain ⟨hp, hr⟩ := hi.others t (Nat.le_of_not_lt hn)
      rw [hp, hr] at hlt
      exact Nat.not_lt_zero r hlt
    · have hone : (s.place t).added ≤ 1 := by
        cases s.place t with
        | stored | left | waiting => exact Nat.le_refl 1
        | _ => exact Nat.zero_le 1
      omega
  own t r h := ((hi.member t).log r).mpr (by omega)
  all := by
    intro t u r i ht hu hb hr hir
    have hret := (hi.member t).returned (hi.crowd.thread t ht).inside (hi.crowd.thread t ht).outside
    have hmono := Nat.count_monotone (x.blocking ·) (show r + 1 ≤ s.round t from hr)
    rw [Nat.count_succ, if_pos hb] at hmono
    have hstart := (hi.crowd.bounds hu).2
    have hopen := (hi.crowd.bounds ht).1
    exact (hi.member u).combined (by omega) hir
  result := by
    intro R hop hall
    have hperm : s.log.Perm (List.range x.threads.toNat ×ˢ List.range R) := by
      apply (List.perm_ext_iff_of_nodup hi.nodup (List.nodup_range.product List.nodup_range)).mpr
      rintro ⟨t, r⟩
      rw [List.mem_product, List.mem_range, List.mem_range, (hi.member t).log]
      by_cases ht : t < x.threads.toNat
      · obtain ⟨hr, hp⟩ := hall t ht
        rw [hr, hp]
        exact ⟨fun h => ⟨ht, h⟩, fun h => h.2⟩
      · obtain ⟨hp, hr⟩ := hi.others t (Nat.le_of_not_lt ht)
        rw [hr, hp]
        exact ⟨fun h => absurd h (Nat.not_lt_zero r), fun h => absurd h.1 ht⟩
    rw [hi.shared]
    apply hperm.foldl_eq'
    intro p _ q _ z
    exact hop z _ _

theorem reducing_inv (hpos : 1 ≤ x.threads.toNat) : ReduceInv x (reducing x).init where
  crowd := crowd_inv hpos
  others _ _ := ⟨rfl, rfl⟩
  nodup := List.nodup_nil
  shared := rfl
  member _ := ⟨⟨nofun, nofun⟩, (Nat.count_zero (x.blocking ·)).symm, nofun, fun i => ⟨fun h => absurd h List.not_mem_nil, fun h => absurd h (Nat.not_lt_zero i)⟩, nofun⟩

/-- A team that reduces with a lock. -/
theorem reduce_sound_of_lock {σ : Type} {C : Machine σ LockCall} {R : σ → LockState Nat → Prop} (hC : Simulates C (lock Nat) R)
    (hpos : 1 ≤ x.threads.toNat) {s : σ × Reducing α} (hs : ParReach C (reducing x) s) : ReduceSound x s.2 := by
  have hd := reducing_disciplined x
  refine ReduceInv.sound ?_ fun t u => hd.exclusive hC hs
  exact hd.client_inv hC (reducing_inv hpos) (fun hstep halone hi => hstep.inv hi fun t u ht hu => halone u t hu ht) hs

end

/-- Reductions with the spin lock of either architecture. -/
theorem reduce_sound (x : Reduction α) (hpos : 1 ≤ x.threads.toNat) :
    (∀ s, ParReach x86Lock (reducing x) s → ReduceSound x s.2) ∧ ∀ s, ParReach armLock (reducing x) s → ReduceSound x s.2 :=
  ⟨fun _ hs => reduce_sound_of_lock x86_simulates hpos hs, fun _ hs => reduce_sound_of_lock arm_simulates hpos hs⟩

/-- Two threads that add up 3 and 4. -/
def sumTwo : Reduction Nat := ⟨2, (· + ·), fun t _ => t + 3, fun _ => false, 0⟩

/-- The first thread has added its value and the second waits for the lock. -/
theorem reduce_sound_sum : ∃ s, ParReach x86Lock (reducing sumTwo) s ∧ s.2.log = [(0, 0)] ∧ s.2.shared = 3 ∧ s.1.word = 1 ∧
    s.1.pc 1 = .cmpq ∧ ReduceSound sumTwo s.2 := by
  have h0 : ParReach x86Lock (reducing sumTwo) _ :=
    .tail .refl (.both (.call 0) ⟨0, .call rfl⟩ (ReduceStep.call 0 (by decide) rfl))
  have h1 := h0.tail (.both (.call 1) ⟨1, .call rfl⟩ (ReduceStep.call 1 (by decide) rfl))
  have h2 := h1.tail (.device ⟨0, .free rfl rfl⟩)
  have h3 := h2.tail (.both (.acquire 0) ⟨0, .take rfl (by decide)⟩ (ReduceStep.enter 0 rfl))
  have h4 := h3.tail (.device ⟨1, .busy rfl (by decide)⟩)
  have h5 := (h4.tail (.client (ReduceStep.load 0 rfl))).tail (.client (ReduceStep.store 0 rfl))
  exact ⟨_, h5, rfl, rfl, rfl, rfl, (reduce_sound sumTwo (by decide)).1 _ h5⟩

end Popcorn.Bomp
