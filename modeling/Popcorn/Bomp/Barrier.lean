/-
  Popcorn.Bomp.Barrier — the barrier of the OpenMP runtime (lib/libbomp/spin.h).

  A wait samples `cycle`, adds itself to `counter` and compares what it found there with
  `max - 1`: the last arrival resets the counter and flips the cycle, the others spin until
  the cycle is another one than the sampled. Every access to the barrier is a step of its own
  and memory is sequentially consistent. The comparison reads `max` before or after its
  increment, as C leaves the order of its operands open. `waitcnt` and `stuck`, a statistic of
  long waits that nothing reads, are left out.

  `opened` counts the rounds that have been opened and `arrived` holds the threads that have
  incremented the counter since the last of them was; both are recorded beside the run.

  Proved:
  - `BarrierInv` is kept by every step of a wait (`WaitStep.inv`) whose thread is expected in
    the round and, where it opens one, whose round nobody is still to arrive in.
  - `barrier_separates_rounds`: `max` threads that wait any number of times go through the
    rounds together.
-/

import Mathlib.Data.Finset.Card
import Mathlib.Logic.Relation

namespace Popcorn.Bomp

/-! ## The code -/

/-- `struct bomp_barrier`. -/
structure Barrier where
  max : UInt32
  cycle : UInt32
  counter : UInt32
  deriving DecidableEq, Repr

/-- `bomp_barrier_init`. -/
def barrierInit (count : UInt32) : Barrier := ⟨count, 0, 0⟩

/-- `bomp_barrier_updateMax`. -/
def barrierUpdateMax (b : Barrier) (newMax : UInt32) : Barrier := { b with max := newMax }

/-- Where a call of `bomp_barrier_wait` stands: before the access it names. -/
inductive Wait where
  | sample
  | arrive (cycle : UInt32)
  /-- With `max - 1` read first. -/
  | arriveBound (cycle last : UInt32)
  /-- After the increment, with the counter it found. -/
  | compare (cycle old : UInt32)
  | reset
  | toggle
  | flip (cycle : UInt32)
  | spin (cycle : UInt32)
  | done
  deriving DecidableEq, Repr

/-- What an access means to the round. -/
inductive Event where
  | quiet
  | arrives
  | opens
  deriving DecidableEq, Repr

/-- The branch of the comparison. -/
def decided (last cycle old : UInt32) : Wait := if old = last then .reset else .spin cycle

/-- One access of `bomp_barrier_wait`. -/
inductive WaitStep (b : Barrier) : Wait → Event → Barrier → Wait → Prop
  | sample : WaitStep b .sample .quiet b (.arrive b.cycle)
  | add (c : UInt32) : WaitStep b (.arrive c) .arrives { b with counter := b.counter + 1 } (.compare c b.counter)
  | readMax (c old : UInt32) : WaitStep b (.compare c old) .quiet b (decided (b.max - 1) c old)
  | readMaxFirst (c : UInt32) : WaitStep b (.arrive c) .quiet b (.arriveBound c (b.max - 1))
  | addBound (c last : UInt32) :
      WaitStep b (.arriveBound c last) .arrives { b with counter := b.counter + 1 } (decided last c b.counter)
  | reset : WaitStep b .reset .quiet { b with counter := 0 } .toggle
  | toggle : WaitStep b .toggle .quiet b (.flip b.cycle)
  | flip (c : UInt32) : WaitStep b (.flip c) .opens { b with cycle := if c = 0 then 1 else 0 } .done
  | again (c : UInt32) (h : c = b.cycle) : WaitStep b (.spin c) .quiet b (.spin c)
  | leave (c : UInt32) (h : c ≠ b.cycle) : WaitStep b (.spin c) .quiet b .done

/-! ## The invariant -/

/-- `cycle` after `opened` rounds. -/
def parity (opened : Nat) : UInt32 := if opened % 2 = 0 then 0 else 1

/-- All that are expected have arrived. -/
def Full (b : Barrier) (arrived : Finset Nat) : Prop := arrived.card = b.max.toNat

/-- What holds of a thread by where its wait stands. One that has not arrived in this round and
    spins or compares does so for an earlier one. -/
def WaitInv (b : Barrier) (arrived : Finset Nat) (t : Nat) : Option Wait → Prop
  | none | some .sample | some .done => t ∉ arrived
  | some (.arrive c) => t ∉ arrived ∧ c = b.cycle
  | some (.arriveBound c last) => t ∉ arrived ∧ c = b.cycle ∧ last = b.max - 1
  | some (.compare c old) => t ∈ arrived → c = b.cycle ∧ (old = b.max - 1 → Full b arrived)
  | some .reset | some .toggle => t ∈ arrived ∧ Full b arrived
  | some (.flip c) => t ∈ arrived ∧ Full b arrived ∧ c = b.cycle
  | some (.spin c) => t ∈ arrived → c = b.cycle

/-- Between the reset of the counter and the flip of the cycle. -/
def Resetting : Option Wait → Prop
  | some .toggle | some (.flip _) => True
  | _ => False

/-- The thread that opens the round. -/
def Closing (b : Barrier) (arrived : Finset Nat) (t : Nat) : Option Wait → Prop
  | some (.compare _ old) => t ∈ arrived ∧ old = b.max - 1
  | some .reset | some .toggle | some (.flip _) => True
  | _ => False

/-- Before the increment, with the cycle sampled. -/
def Sampled : Option Wait → Prop
  | some (.arrive _) | some (.arriveBound _ _) => True
  | _ => False

structure BarrierInv (b : Barrier) (opened : Nat) (arrived : Finset Nat) (waits : Nat → Option Wait) : Prop where
  cycle : b.cycle = parity opened
  le : arrived.card ≤ b.max.toNat
  counter : (∀ t, ¬ Resetting (waits t)) → b.counter.toNat = arrived.card
  zero : ∀ t, Resetting (waits t) → b.counter = 0
  thread : ∀ t, WaitInv b arrived t (waits t)
  unique : ∀ t u, Closing b arrived t (waits t) → Closing b arrived u (waits u) → t = u
  closer : 0 < b.max.toNat → Full b arrived → ∃ t, Closing b arrived t (waits t)

def Event.opened (opened : Nat) : Event → Nat
  | .opens => opened + 1
  | _ => opened

def Event.arrived (arrived : Finset Nat) (t : Nat) : Event → Finset Nat
  | .quiet => arrived
  | .arrives => insert t arrived
  | .opens => ∅

section
variable {b b' : Barrier} {opened t : Nat} {arrived : Finset Nat} {waits : Nat → Option Wait} {w w' : Option Wait}

theorem Closing.full (h : WaitInv b arrived t w) (hc : Closing b arrived t w) : Full b arrived := by
  match w with
  | some (.compare c old) => exact (h hc.1).2 hc.2
  | some .reset => exact h.2
  | some .toggle => exact h.2
  | some (.flip c) => exact h.2.1

theorem Closing.mem (h : WaitInv b arrived t w) (hc : Closing b arrived t w) : t ∈ arrived := by
  match w with
  | some (.compare c old) => exact hc.1
  | some .reset => exact h.1
  | some .toggle => exact h.1
  | some (.flip c) => exact h.1

theorem Resetting.closing (h : Resetting w) : Closing b arrived t w := by
  match w with
  | some .toggle => trivial
  | some (.flip c) => trivial

theorem forall_update {α : Type} {f : Nat → α} {x : α} {P : Nat → α → Prop} (ht : P t x) (h : ∀ u, u ≠ t → P u (f u)) :
    ∀ u, P u (Function.update f t x u) := by
  intro u
  by_cases hu : u = t
  · subst hu
    rw [Function.update_self]
    exact ht
  · rw [Function.update_of_ne hu]
    exact h u hu

/-- A step of a thread that means nothing to the others. -/
theorem BarrierInv.move (hi : BarrierInv b opened arrived waits) (hw : WaitInv b arrived t w')
    (hr : Resetting w' ↔ Resetting (waits t)) (hc : Closing b arrived t w' ↔ Closing b arrived t (waits t)) :
    BarrierInv b opened arrived (Function.update waits t w') := by
  have hreset : ∀ u, Resetting (Function.update waits t w' u) ↔ Resetting (waits u) :=
    forall_update (P := fun u w => Resetting w ↔ Resetting (waits u)) hr fun u _ => Iff.rfl
  have hclose : ∀ u, Closing b arrived u (Function.update waits t w' u) ↔ Closing b arrived u (waits u) :=
    forall_update (P := fun u w => Closing b arrived u w ↔ Closing b arrived u (waits u)) hc fun u _ => Iff.rfl
  refine ⟨hi.cycle, hi.le, ?_, ?_, forall_update hw fun u _ => hi.thread u, ?_, ?_⟩
  · intro h
    exact hi.counter fun u hu => h u ((hreset u).mpr hu)
  · intro u hu
    exact hi.zero u ((hreset u).mp hu)
  · intro u v hu hv
    exact hi.unique u v ((hclose u).mp hu) ((hclose v).mp hv)
  · intro hpos hfull
    obtain ⟨u, hu⟩ := hi.closer hpos hfull
    exact ⟨u, (hclose u).mpr hu⟩

/-- A round that is expecting somebody is not being opened. -/
theorem BarrierInv.not_closing (hi : BarrierInv b opened arrived waits) (hroom : arrived.card < b.max.toNat) (u : Nat) :
    ¬ Closing b arrived u (waits u) := by
  intro hc
  have hfull := hc.full (hi.thread u)
  unfold Full at hfull
  omega

/-- The counter of a round that is expecting somebody is the number of arrivals. -/
theorem BarrierInv.counter_eq (hi : BarrierInv b opened arrived waits) (hroom : arrived.card < b.max.toNat) :
    b.counter.toNat = arrived.card := hi.counter fun u hu => hi.not_closing hroom u hu.closing

/-- Who finds `max - 1` in the counter is the last of the round. -/
theorem BarrierInv.last_full (hi : BarrierInv b opened arrived waits) (ht : t ∉ arrived) (hroom : arrived.card < b.max.toNat) :
    b.counter = b.max - 1 ↔ Full b (insert t arrived) := by
  have hpos : (1 : UInt32) ≤ b.max := UInt32.le_iff_toNat_le.mpr (Nat.lt_of_le_of_lt (Nat.zero_le _) hroom)
  unfold Full
  rw [Finset.card_insert_of_notMem ht, ← UInt32.toNat_inj, UInt32.toNat_sub_of_le _ _ hpos, hi.counter_eq hroom]
  show arrived.card = b.max.toNat - 1 ↔ _
  omega

/-- An arrival. -/
theorem BarrierInv.add (hi : BarrierInv b opened arrived waits) (ht : t ∉ arrived) (hroom : arrived.card < b.max.toNat)
    (hw : WaitInv { b with counter := b.counter + 1 } (insert t arrived) t w') (hr : ¬ Resetting w')
    (hc : b.counter = b.max - 1 → Closing { b with counter := b.counter + 1 } (insert t arrived) t w') :
    BarrierInv { b with counter := b.counter + 1 } opened (insert t arrived) (Function.update waits t w') := by
  have hcard : (insert t arrived).card = arrived.card + 1 := Finset.card_insert_of_notMem ht
  have hcount := hi.counter_eq hroom
  have hmax := b.max.toNat_lt
  have hadd : (b.counter + 1).toNat = arrived.card + 1 := by
    rw [UInt32.toNat_add, hcount]
    show (arrived.card + 1) % 4294967296 = _
    omega
  have hnot : ∀ u, ¬ Resetting (Function.update waits t w' u) :=
    forall_update (P := fun _ w => ¬ Resetting w) hr fun u _ hu => hi.not_closing hroom u hu.closing
  -- whoever else compares or closes does not close this round
  have hothers : ∀ u, u ≠ t → WaitInv { b with counter := b.counter + 1 } (insert t arrived) u (waits u) ∧
      ¬ Closing { b with counter := b.counter + 1 } (insert t arrived) u (waits u) := by
    intro u hu
    have hmem : u ∈ insert t arrived ↔ u ∈ arrived := Finset.mem_insert.trans (or_iff_right hu)
    have hold := hi.thread u
    have hno := hi.not_closing hroom u
    revert hold hno
    unfold WaitInv Closing
    cases waits u with
    | none => exact fun hold _ => ⟨fun h => hold (hmem.mp h), id⟩
    | some w =>
      cases w with
      | sample => exact fun hold _ => ⟨fun h => hold (hmem.mp h), id⟩
      | done => exact fun hold _ => ⟨fun h => hold (hmem.mp h), id⟩
      | arrive c => exact fun hold _ => ⟨⟨fun h => hold.1 (hmem.mp h), hold.2⟩, id⟩
      | arriveBound c last => exact fun hold _ => ⟨⟨fun h => hold.1 (hmem.mp h), hold.2⟩, id⟩
      | compare c old =>
        intro hold hno
        refine ⟨?_, fun h => hno ⟨hmem.mp h.1, h.2⟩⟩
        intro h
        exact ⟨(hold (hmem.mp h)).1, fun he => absurd ⟨hmem.mp h, he⟩ hno⟩
      | reset => exact fun _ hno => absurd trivial hno
      | toggle => exact fun _ hno => absurd trivial hno
      | flip c => exact fun _ hno => absurd trivial hno
      | spin c => exact fun hold _ => ⟨fun h => hold (hmem.mp h), id⟩
  refine ⟨hi.cycle, ?_, ?_, ?_, forall_update hw fun u hu => (hothers u hu).1, ?_, ?_⟩
  · rw [hcard]
    exact hroom
  · intro _
    rw [hcard]
    exact hadd
  · intro u hu
    exact absurd hu (hnot u)
  · have honly : ∀ u, Closing { b with counter := b.counter + 1 } (insert t arrived) u (Function.update waits t w' u) → u = t :=
      forall_update (P := fun u w => Closing { b with counter := b.counter + 1 } (insert t arrived) u w → u = t) (fun _ => rfl)
        fun u hu h => absurd h (hothers u hu).2
    intro u v hu hv
    rw [honly u hu, honly v hv]
  · intro _ hfull
    refine ⟨t, ?_⟩
    rw [Function.update_self]
    exact hc ((hi.last_full ht hroom).mpr hfull)

/-- The round is opened, and nobody is still to arrive in it. -/
theorem BarrierInv.flip {c : UInt32} (hi : BarrierInv b opened arrived waits) (ht : waits t = some (.flip c))
    (hlast : ∀ u, ¬ Sampled (waits u)) :
    BarrierInv { b with cycle := if c = 0 then 1 else 0 } (opened + 1) ∅ (Function.update waits t (some .done)) := by
  have hat := hi.thread t
  rw [ht] at hat
  obtain ⟨hmem, hfull, rfl⟩ := hat
  have hclose : Closing b arrived t (waits t) := by
    rw [ht]
    trivial
  have hothers : ∀ u, u ≠ t → ¬ Closing b arrived u (waits u) := fun u hu h => hu (hi.unique u t h hclose)
  have hnone : ∀ u, ¬ Closing { b with cycle := if b.cycle = 0 then 1 else 0 } ∅ u (Function.update waits t (some .done) u) := by
    apply forall_update (P := fun u w => ¬ Closing { b with cycle := if b.cycle = 0 then 1 else 0 } ∅ u w) id
    intro u hu
    have hno := hothers u hu
    revert hno
    unfold Closing
    cases waits u with
    | none => exact fun _ => id
    | some w =>
      cases w with
      | compare c old => exact fun _ h => absurd h.1 (Finset.notMem_empty u)
      | _ => exact id
  refine ⟨?_, Nat.zero_le _, ?_, ?_, ?_, fun u _ hu => absurd hu (hnone u), ?_⟩
  · show (if b.cycle = 0 then 1 else 0) = parity (opened + 1)
    rw [hi.cycle]
    unfold parity
    obtain h | h : opened % 2 = 0 ∨ opened % 2 = 1 := by omega
    · rw [if_pos h, if_neg (show ¬ (opened + 1) % 2 = 0 by omega)]
      rfl
    · rw [if_neg (show ¬ opened % 2 = 0 by omega), if_pos (show (opened + 1) % 2 = 0 by omega)]
      rfl
  · intro _
    have h0 := hi.zero t (by rw [ht]; trivial)
    show b.counter.toNat = 0
    rw [h0]
    rfl
  · intro u hu
    exact absurd hu.closing (hnone u)
  · have hdone : WaitInv { b with cycle := if b.cycle = 0 then 1 else 0 } ∅ t (some .done) := Finset.notMem_empty t
    apply forall_update hdone
    intro u hu
    have hold := hi.thread u
    have hno := hothers u hu
    have hs := hlast u
    revert hold hno hs
    unfold WaitInv Closing Sampled
    cases waits u with
    | none => exact fun _ _ _ => Finset.notMem_empty u
    | some w =>
      cases w with
      | sample => exact fun _ _ _ => Finset.notMem_empty u
      | done => exact fun _ _ _ => Finset.notMem_empty u
      | arrive c => exact fun _ _ hs => absurd trivial hs
      | arriveBound c last => exact fun _ _ hs => absurd trivial hs
      | compare c old => exact fun _ _ _ h => absurd h (Finset.notMem_empty u)
      | reset => exact fun _ hno _ => absurd trivial hno
      | toggle => exact fun _ hno _ => absurd trivial hno
      | flip c => exact fun _ hno _ => absurd trivial hno
      | spin c => exact fun _ _ _ h => absurd h (Finset.notMem_empty u)
  · intro hpos h
    exact absurd h (Nat.ne_of_lt hpos)

/-- The counter is reset. -/
theorem BarrierInv.reset (hi : BarrierInv b opened arrived waits) (ht : waits t = some .reset) :
    BarrierInv { b with counter := 0 } opened arrived (Function.update waits t (some .toggle)) := by
  have hat := hi.thread t
  rw [ht] at hat
  have hclose : ∀ u, Closing b arrived u (Function.update waits t (some .toggle) u) ↔ Closing b arrived u (waits u) :=
    forall_update (P := fun u w => Closing b arrived u w ↔ Closing b arrived u (waits u))
      (by rw [ht]; exact Iff.rfl) fun u _ => Iff.rfl
  refine ⟨hi.cycle, hi.le, ?_, fun _ _ => rfl, ?_, ?_, ?_⟩
  · intro h
    refine absurd ?_ (h t)
    rw [Function.update_self]
    trivial
  · have htoggle : WaitInv b arrived t (some .toggle) := hat
    exact forall_update htoggle fun u _ => hi.thread u
  · intro u v hu hv
    exact hi.unique u v ((hclose u).mp hu) ((hclose v).mp hv)
  · intro hpos hfull
    obtain ⟨u, hu⟩ := hi.closer hpos hfull
    exact ⟨u, (hclose u).mpr hu⟩

/-- Between two rounds the number of threads may change. -/
theorem BarrierInv.updateMax (hi : BarrierInv b opened ∅ waits) (newMax : UInt32) (hquiet : ∀ u, ¬ Sampled (waits u)) :
    BarrierInv (barrierUpdateMax b newMax) opened ∅ waits := by
  have hnot : ∀ u, ¬ Closing b ∅ u (waits u) := fun u h => Finset.notMem_empty u (h.mem (hi.thread u))
  have hall : ∀ u, WaitInv (barrierUpdateMax b newMax) ∅ u (waits u) ∧ ¬ Closing (barrierUpdateMax b newMax) ∅ u (waits u) := by
    intro u
    have hold := hi.thread u
    have hno := hnot u
    have hs := hquiet u
    revert hold hno hs
    unfold WaitInv Closing Sampled
    cases waits u with
    | none => exact fun hold _ _ => ⟨hold, id⟩
    | some w =>
      cases w with
      | sample => exact fun hold _ _ => ⟨hold, id⟩
      | done => exact fun hold _ _ => ⟨hold, id⟩
      | arrive c => exact fun _ _ hs => absurd trivial hs
      | arriveBound c last => exact fun _ _ hs => absurd trivial hs
      | compare c old => exact fun _ _ _ => ⟨fun h => absurd h (Finset.notMem_empty u), fun h => absurd h.1 (Finset.notMem_empty u)⟩
      | reset => exact fun _ hno _ => absurd trivial hno
      | toggle => exact fun _ hno _ => absurd trivial hno
      | flip c => exact fun _ hno _ => absurd trivial hno
      | spin c => exact fun hold _ _ => ⟨hold, id⟩
  refine ⟨hi.cycle, Nat.zero_le _, hi.counter, hi.zero, fun u => (hall u).1, fun u _ hu => absurd hu (hall u).2, ?_⟩
  intro hpos h
  exact absurd h (Nat.ne_of_lt hpos)

/-- A thread whose round is open does not take itself for the last of another. -/
def NotMistaken (b : Barrier) (arrived : Finset Nat) (t : Nat) : Option Wait → Prop
  | some (.compare _ old) => t ∉ arrived → old ≠ b.max - 1
  | _ => True

/-- Every access keeps the invariant, where who arrives is expected in the round, who compares
    late is not mistaken and the round is opened once nobody is on the way. -/
theorem WaitStep.inv {v v' : Wait} {e : Event} (h : WaitStep b v e b' v') (hi : BarrierInv b opened arrived waits)
    (ht : waits t = some v) (hroom : e = .arrives → arrived.card < b.max.toNat) (hlate : NotMistaken b arrived t (some v))
    (hlast : e = .opens → ∀ u, ¬ Sampled (waits u)) :
    BarrierInv b' (e.opened opened) (e.arrived arrived t) (Function.update waits t (some v')) := by
  have hat := hi.thread t
  rw [ht] at hat
  cases h with
  | sample => exact hi.move ⟨hat, rfl⟩ (by rw [ht]; exact Iff.rfl) (by rw [ht]; exact Iff.rfl)
  | readMaxFirst c => exact hi.move ⟨hat.1, hat.2, rfl⟩ (by rw [ht]; exact Iff.rfl) (by rw [ht]; exact Iff.rfl)
  | reset => exact hi.reset ht
  | flip c => exact hi.flip ht (hlast rfl)
  | toggle => exact hi.move ⟨hat.1, hat.2, rfl⟩ (by rw [ht]; exact Iff.rfl) (by rw [ht]; exact Iff.rfl)
  | again c hc => exact hi.move hat (by rw [ht]) (by rw [ht])
  | leave c hc => exact hi.move (fun hmem => hc (hat hmem)) (by rw [ht]; exact Iff.rfl) (by rw [ht]; exact Iff.rfl)
  | readMax c old =>
    unfold decided
    split
    · rename_i hold
      have hmem : t ∈ arrived := by
        by_contra hn
        exact hlate hn hold
      refine hi.move ⟨hmem, (hat hmem).2 hold⟩ (by rw [ht]; exact Iff.rfl) ?_
      rw [ht]
      exact ⟨fun _ => ⟨hmem, hold⟩, fun _ => trivial⟩
    · rename_i hold
      refine hi.move (fun hmem => (hat hmem).1) (by rw [ht]; exact Iff.rfl) ?_
      rw [ht]
      exact ⟨False.elim, fun hc => hold hc.2⟩
  | add c =>
    obtain ⟨hnot, rfl⟩ := hat
    refine hi.add hnot (hroom rfl) ?_ id fun he => ⟨Finset.mem_insert_self t arrived, he⟩
    exact fun _ => ⟨rfl, (hi.last_full hnot (hroom rfl)).mp⟩
  | addBound c last =>
    obtain ⟨hnot, rfl, rfl⟩ := hat
    have hmem : t ∈ insert t arrived := Finset.mem_insert_self t arrived
    unfold decided
    split
    · rename_i hold
      exact hi.add hnot (hroom rfl) ⟨hmem, (hi.last_full hnot (hroom rfl)).mp hold⟩ id fun _ => trivial
    · rename_i hold
      exact hi.add hnot (hroom rfl) (fun _ => rfl) id fun he => absurd he hold

end

/-! ## Threads that wait round after round -/

/-- A thread: the waits it has started and those it has returned from, and where the current one
    stands. -/
structure Thread where
  started : Nat
  returned : Nat
  wait : Option Wait

structure Crowd where
  barrier : Barrier
  threads : Nat → Thread
  opened : Nat
  arrived : Finset Nat

def Crowd.waits (s : Crowd) (t : Nat) : Option Wait := (s.threads t).wait

/-- One of the threads `t < n` takes a step. -/
inductive CrowdStep (n : Nat) : Crowd → Crowd → Prop
  | call {s : Crowd} (t : Nat) (ht : t < n) (hw : s.waits t = none) :
      CrowdStep n s { s with threads := Function.update s.threads t ⟨(s.threads t).started + 1, (s.threads t).returned, some .sample⟩ }
  | access {s : Crowd} {b : Barrier} {v v' : Wait} {e : Event} (t : Nat) (hw : s.waits t = some v) (h : WaitStep s.barrier v e b v') :
      CrowdStep n s ⟨b, Function.update s.threads t { s.threads t with wait := some v' }, e.opened s.opened, e.arrived s.arrived t⟩
  | return {s : Crowd} (t : Nat) (hw : s.waits t = some .done) :
      CrowdStep n s { s with threads := Function.update s.threads t ⟨(s.threads t).started, (s.threads t).returned + 1, none⟩ }

/-- A barrier for `max` threads, before any wait. -/
def crowd (max : UInt32) : Crowd := ⟨barrierInit max, fun _ => ⟨0, 0, none⟩, 0, ∅⟩

/-- On the way to the increment. -/
def Coming : Option Wait → Prop
  | some .sample | some (.arrive _) | some (.arriveBound _ _) => True
  | _ => False

/-- After the increment, with the cycle `c` sampled. -/
def Awaits (c : UInt32) : Option Wait → Prop
  | some (.compare c' _) | some (.spin c') => c' = c
  | _ => False

structure ThreadInv (b : Barrier) (opened : Nat) (arrived : Finset Nat) (t : Nat) (x : Thread) : Prop where
  current : t ∈ arrived ∨ Coming x.wait → x.started = opened + 1
  earlier : t ∉ arrived → ¬ Coming x.wait → x.started = opened
  inside : x.wait.isSome → x.started = x.returned + 1
  outside : x.wait = none → x.started = x.returned
  stale : t ∉ arrived → ∀ c, Awaits c x.wait → c ≠ b.cycle
  late : NotMistaken b arrived t x.wait

structure CrowdInv (n : Nat) (s : Crowd) : Prop where
  max : s.barrier.max.toNat = n
  barrier : BarrierInv s.barrier s.opened s.arrived s.waits
  team : s.arrived ⊆ Finset.range n
  others : ∀ t, n ≤ t → s.waits t = none
  thread : ∀ t, t < n → ThreadInv s.barrier s.opened s.arrived t (s.threads t)

theorem waits_update (threads : Nat → Thread) (t : Nat) (x : Thread) :
    (fun u => (Function.update threads t x u).wait) = Function.update (fun u => (threads u).wait) t x.wait := by
  funext u
  by_cases hu : u = t
  · subst hu
    rw [Function.update_self, Function.update_self]
  · rw [Function.update_of_ne hu, Function.update_of_ne hu]

section
variable {n : Nat} {s : Crowd} {t : Nat}

theorem CrowdInv.lt (hi : CrowdInv n s) {w : Wait} (hw : s.waits t = some w) : t < n := by
  by_contra hn
  rw [hi.others t (Nat.le_of_not_lt hn)] at hw
  cases hw

/-- A full round has all the threads. -/
theorem CrowdInv.all (hi : CrowdInv n s) (hfull : Full s.barrier s.arrived) : s.arrived = Finset.range n := by
  apply Finset.eq_of_subset_of_card_le hi.team
  rw [Finset.card_range, ← hi.max, hfull]

theorem Coming.not_arrived {b : Barrier} {arrived : Finset Nat} {w : Option Wait} (hw : WaitInv b arrived t w) (hc : Coming w) :
    t ∉ arrived := by
  match w with
  | some .sample => exact hw
  | some (.arrive c) => exact hw.1
  | some (.arriveBound c last) => exact hw.1

theorem Sampled.coming {w : Option Wait} (h : Sampled w) : Coming w := by
  match w with
  | some (.arrive c) => trivial
  | some (.arriveBound c last) => trivial

/-- Who is on the way is expected. -/
theorem CrowdInv.room (hi : CrowdInv n s) (hc : Coming (s.waits t)) : s.arrived.card < s.barrier.max.toNat := by
  refine Nat.lt_of_le_of_ne hi.barrier.le ?_
  intro hfull
  have hnot := hc.not_arrived (hi.barrier.thread t)
  rw [hi.all hfull, Finset.mem_range] at hnot
  rw [hi.others t (Nat.le_of_not_lt hnot)] at hc
  exact hc

/-- Nobody is on the way to a full round. -/
theorem CrowdInv.nobody (hi : CrowdInv n s) (hfull : Full s.barrier s.arrived) (u : Nat) : ¬ Coming (s.waits u) := by
  intro hc
  have := hi.room hc
  unfold Full at hfull
  omega

theorem CrowdInv.call (hi : CrowdInv n s) (ht : t < n) (hw : s.waits t = none) :
    CrowdInv n { s with threads := Function.update s.threads t ⟨(s.threads t).started + 1, (s.threads t).returned, some .sample⟩ } := by
  have hold := hi.thread t ht
  have hnot : t ∉ s.arrived := by
    have := hi.barrier.thread t
    rw [hw] at this
    exact this
  have hstart : (s.threads t).started = s.opened := by
    apply hold.earlier hnot
    rw [show (s.threads t).wait = none from hw]
    exact id
  refine ⟨hi.max, ?_, hi.team, ?_, ?_⟩
  · show BarrierInv s.barrier s.opened s.arrived (fun u => (Function.update s.threads t _ u).wait)
    rw [waits_update]
    exact hi.barrier.move hnot (by rw [hw]; exact Iff.rfl) (by rw [hw]; exact Iff.rfl)
  · intro u hu
    show (Function.update s.threads t _ u).wait = none
    rw [Function.update_of_ne (by omega)]
    exact hi.others u hu
  · intro u hu
    show ThreadInv _ _ _ u (Function.update s.threads t _ u)
    by_cases hut : u = t
    · subst hut
      rw [Function.update_self]
      refine ⟨fun _ => by rw [hstart], fun _ h => absurd trivial h, ?_, (fun h => nomatch h), fun _ _ h => h.elim, trivial⟩
      intro _
      rw [hold.outside hw]
    · rw [Function.update_of_ne hut]
      exact hi.thread u hu

theorem CrowdInv.return (hi : CrowdInv n s) (hw : s.waits t = some .done) :
    CrowdInv n { s with threads := Function.update s.threads t ⟨(s.threads t).started, (s.threads t).returned + 1, none⟩ } := by
  have hold := hi.thread t (hi.lt hw)
  have hw' : (s.threads t).wait = some .done := hw
  have hnot : t ∉ s.arrived := by
    have := hi.barrier.thread t
    rw [hw] at this
    exact this
  refine ⟨hi.max, ?_, hi.team, ?_, ?_⟩
  · show BarrierInv s.barrier s.opened s.arrived (fun u => (Function.update s.threads t _ u).wait)
    rw [waits_update]
    exact hi.barrier.move hnot (by rw [hw]; exact Iff.rfl) (by rw [hw]; exact Iff.rfl)
  · intro u hu
    have := hi.lt hw
    show (Function.update s.threads t _ u).wait = none
    rw [Function.update_of_ne (by omega)]
    exact hi.others u hu
  · intro u hu
    show ThreadInv _ _ _ u (Function.update s.threads t _ u)
    by_cases hut : u = t
    · subst hut
      rw [Function.update_self]
      refine ⟨fun h => absurd h (not_or_intro hnot id), fun _ _ => hold.earlier hnot (by rw [hw']; exact id), (fun h => nomatch h), ?_,
        fun _ _ h => h.elim, trivial⟩
      intro _
      exact hold.inside (by rw [hw']; rfl)
    · rw [Function.update_of_ne hut]
      exact hi.thread u hu

/-- What an access that is no arrival and opens no round leaves as it was. -/
theorem WaitStep.quiet {b b' : Barrier} {v v' : Wait} (h : WaitStep b v .quiet b' v') :
    b'.max = b.max ∧ b'.cycle = b.cycle ∧ (Coming (some v') ↔ Coming (some v)) ∧
      (∀ c, Awaits c (some v') → Awaits c (some v)) ∧ ∀ arrived, NotMistaken b arrived t (some v') := by
  cases h with
  | readMax c old =>
    unfold decided
    split
    · exact ⟨rfl, rfl, Iff.rfl, fun _ h => h.elim, fun _ => trivial⟩
    · exact ⟨rfl, rfl, Iff.rfl, fun _ h => h, fun _ => trivial⟩
  | again c h => exact ⟨rfl, rfl, Iff.rfl, fun _ h => h, fun _ => trivial⟩
  | _ => exact ⟨rfl, rfl, Iff.rfl, fun _ h => h.elim, fun _ => trivial⟩

theorem WaitStep.arrives {b b' : Barrier} {v v' : Wait} (h : WaitStep b v .arrives b' v') :
    b'.max = b.max ∧ b'.cycle = b.cycle ∧ Coming (some v) := by
  cases h with
  | add c => exact ⟨rfl, rfl, trivial⟩
  | addBound c last => exact ⟨rfl, rfl, trivial⟩

theorem WaitStep.opens {b b' : Barrier} {v v' : Wait} (h : WaitStep b v .opens b' v') :
    b'.max = b.max ∧ v' = .done ∧ ∃ c, v = .flip c ∧ b'.cycle = if c = 0 then 1 else 0 := by
  cases h with
  | flip c => exact ⟨rfl, rfl, c, rfl, rfl⟩

/-- The thread of an access goes on as `x`. -/
theorem access_threads {b : Barrier} {opened : Nat} {arrived : Finset Nat} {x : Thread} (hx : ThreadInv b opened arrived t x)
    (hothers : ∀ u, u < n → u ≠ t → ThreadInv b opened arrived u (s.threads u)) :
    ∀ u, u < n → ThreadInv b opened arrived u (Function.update s.threads t x u) := by
  intro u hu
  by_cases hut : u = t
  · subst hut
    rw [Function.update_self]
    exact hx
  · rw [Function.update_of_ne hut]
    exact hothers u hu hut

theorem NotMistaken.congr {b b' : Barrier} {arrived arrived' : Finset Nat} {w : Option Wait} (h : NotMistaken b arrived t w)
    (hmax : b'.max = b.max) (hmem : t ∈ arrived → t ∈ arrived') : NotMistaken b' arrived' t w := by
  unfold NotMistaken at h ⊢
  rw [hmax]
  match w with
  | some (.compare c old) => exact fun hnot => h fun hm => hnot (hmem hm)
  | none | some .sample | some (.arrive _) | some (.arriveBound _ _) | some .reset | some .toggle | some (.flip _) | some (.spin _)
  | some .done => trivial

/-- A thread that does not take the step, where no round opens. -/
theorem ThreadInv.waits {b b' : Barrier} {opened : Nat} {arrived arrived' : Finset Nat} {x : Thread}
    (h : ThreadInv b opened arrived t x) (hmax : b'.max = b.max) (hcycle : b'.cycle = b.cycle) (hiff : t ∈ arrived' ↔ t ∈ arrived) :
    ThreadInv b' opened arrived' t x where
  current hc := h.current (hc.imp_left hiff.mp)
  earlier hnot := h.earlier (mt hiff.mpr hnot)
  inside := h.inside
  outside := h.outside
  stale hnot := hcycle ▸ h.stale (mt hiff.mpr hnot)
  late := h.late.congr hmax hiff.mpr

/-- The thread of an access that is no arrival and opens no round. -/
theorem ThreadInv.quiet {b b' : Barrier} {opened : Nat} {arrived : Finset Nat} {x : Thread} {v v' : Wait}
    (hx : ThreadInv b opened arrived t x) (hw : x.wait = some v) (h : WaitStep b v .quiet b' v') :
    ThreadInv b' opened arrived t { x with wait := some v' } := by
  obtain ⟨hmax, hcycle, hcoming, hawaits, hlate⟩ := h.quiet (t := t)
  constructor
  case current =>
    intro hc
    apply hx.current
    rw [hw]
    exact hc.imp_right hcoming.mp
  case earlier =>
    intro hnot hc
    apply hx.earlier hnot
    rw [hw]
    exact fun h => hc (hcoming.mpr h)
  case inside => exact fun _ => hx.inside (by rw [hw]; rfl)
  case outside => exact fun h => nomatch h
  case stale =>
    intro hnot c hc
    rw [hcycle]
    apply hx.stale hnot c
    rw [hw]
    exact hawaits c hc
  case late => exact (hlate arrived).congr hmax id

/-- The thread that arrives. -/
theorem ThreadInv.arrives {b b' : Barrier} {opened : Nat} {arrived : Finset Nat} {x : Thread} {v v' : Wait}
    (hx : ThreadInv b opened arrived t x) (hw : x.wait = some v) (h : WaitStep b v .arrives b' v') :
    ThreadInv b' opened (insert t arrived) t { x with wait := some v' } := by
  obtain ⟨hmax, hcycle, hcoming⟩ := h.arrives
  have hmem : t ∈ insert t arrived := Finset.mem_insert_self t arrived
  constructor
  case current =>
    intro _
    apply hx.current
    rw [hw]
    exact .inr hcoming
  case earlier => exact fun hnot => absurd hmem hnot
  case inside => exact fun _ => hx.inside (by rw [hw]; rfl)
  case outside => exact fun h => nomatch h
  case stale => exact fun hnot => absurd hmem hnot
  case late =>
    unfold NotMistaken
    split
    · exact fun hnot => absurd hmem hnot
    · trivial

/-- Who has arrived waits for the cycle after this one. -/
theorem Awaits.cycle_eq {b : Barrier} {arrived : Finset Nat} {w : Option Wait} {c : UInt32} (hat : WaitInv b arrived t w)
    (hmem : t ∈ arrived) (h : Awaits c w) : c = b.cycle := by
  match w with
  | some (.compare c' old) => exact h.symm.trans (hat hmem).1
  | some (.spin c') => exact h.symm.trans (hat hmem)

/-- A thread of the round that another one opens. -/
theorem ThreadInv.opened {b b' : Barrier} {opened : Nat} {arrived : Finset Nat} {x : Thread} (hx : ThreadInv b opened arrived t x)
    (hat : WaitInv b arrived t x.wait) (hmem : t ∈ arrived) (hcoming : ¬ Coming x.wait) (hclosing : ¬ Closing b arrived t x.wait)
    (hmax : b'.max = b.max) (hcycle : b.cycle ≠ b'.cycle) : ThreadInv b' (opened + 1) ∅ t x := by
  constructor
  case current => exact fun h => absurd h (not_or_intro (Finset.notMem_empty t) hcoming)
  case earlier => exact fun _ _ => hx.current (.inl hmem)
  case inside => exact hx.inside
  case outside => exact hx.outside
  case stale =>
    intro _ c hc
    rw [hc.cycle_eq hat hmem]
    exact hcycle
  case late =>
    unfold NotMistaken
    split
    · rename_i c old hw
      rw [hmax]
      intro _ hold
      apply hclosing
      rw [hw]
      exact ⟨hmem, hold⟩
    · trivial

theorem CrowdInv.access_barrier {b : Barrier} {v v' : Wait} {e : Event} (hi : CrowdInv n s) (hw : s.waits t = some v)
    (h : WaitStep s.barrier v e b v') :
    BarrierInv b (e.opened s.opened) (e.arrived s.arrived t)
      (fun u => (Function.update s.threads t { s.threads t with wait := some v' } u).wait) := by
  have hat := hi.barrier.thread t
  rw [hw] at hat
  have hwait : (s.threads t).wait = some v := hw
  rw [waits_update]
  apply h.inv hi.barrier hw
  · rintro rfl
    apply hi.room
    rw [hw]
    exact h.arrives.2.2
  · rw [← hwait]
    exact (hi.thread t (hi.lt hw)).late
  · rintro rfl
    obtain ⟨-, -, c, rfl, -⟩ := h.opens
    exact fun u hu => hi.nobody hat.2.1 u hu.coming

theorem CrowdInv.access {b : Barrier} {v v' : Wait} {e : Event} (hi : CrowdInv n s) (hw : s.waits t = some v)
    (h : WaitStep s.barrier v e b v') :
    CrowdInv n ⟨b, Function.update s.threads t { s.threads t with wait := some v' }, e.opened s.opened, e.arrived s.arrived t⟩ := by
  have ht := hi.lt hw
  have hold := hi.thread t ht
  have hbarrier := hi.access_barrier hw h
  have hothers : ∀ u, n ≤ u → (Function.update s.threads t { s.threads t with wait := some v' } u).wait = none := by
    intro u hu
    rw [Function.update_of_ne (by omega)]
    exact hi.others u hu
  cases e with
  | quiet =>
    obtain ⟨hmax, hcycle, -⟩ := h.quiet (t := t)
    refine ⟨hmax ▸ hi.max, hbarrier, hi.team, hothers, ?_⟩
    exact access_threads (hold.quiet hw h) fun u hu _ => (hi.thread u hu).waits hmax hcycle Iff.rfl
  | arrives =>
    obtain ⟨hmax, hcycle, -⟩ := h.arrives
    refine ⟨hmax ▸ hi.max, hbarrier, Finset.insert_subset (Finset.mem_range.mpr ht) hi.team, hothers, ?_⟩
    refine access_threads (hold.arrives hw h) fun u hu hut => ?_
    exact (hi.thread u hu).waits hmax hcycle (Finset.mem_insert.trans (or_iff_right hut))
  | opens =>
    obtain ⟨hmax, rfl, c, rfl, hcycle⟩ := h.opens
    have hat := hi.barrier.thread t
    rw [hw] at hat
    obtain ⟨hmem, hfull, rfl⟩ := hat
    have hflip : s.barrier.cycle ≠ b.cycle := by
      rw [hcycle, hi.barrier.cycle]
      unfold parity
      split <;> decide
    refine ⟨hmax ▸ hi.max, hbarrier, Finset.empty_subset _, hothers, ?_⟩
    refine access_threads (t := t) ?_ fun u hu hut => ?_
    · exact ⟨fun h => absurd h (not_or_intro (Finset.notMem_empty t) id), fun _ _ => hold.current (.inl hmem),
        fun _ => hold.inside (congrArg Option.isSome hw), (fun h => nomatch h), fun _ _ h => h.elim, trivial⟩
    · have hin : u ∈ s.arrived := by
        rw [hi.all hfull]
        exact Finset.mem_range.mpr hu
      -- the one thread that closes the round is `t`
      have hno : ¬ Closing s.barrier s.arrived u (s.waits u) :=
        fun hc => hut (hi.barrier.unique u t hc (by rw [hw]; trivial))
      exact (hi.thread u hu).opened (hi.barrier.thread u) hin (hi.nobody hfull u) hno hmax hflip

theorem crowd_inv {max : UInt32} (hmax : 0 < max.toNat) : CrowdInv max.toNat (crowd max) where
  max := rfl
  barrier :=
    { cycle := rfl
      le := Nat.zero_le _
      counter := fun _ => rfl
      zero := fun _ h => h.elim
      thread := fun t => Finset.notMem_empty t
      unique := fun _ _ h => h.elim
      closer := fun _ h => absurd h (Nat.ne_of_lt hmax) }
  team := Finset.empty_subset _
  others _ _ := rfl
  thread _ _ := ⟨fun h => absurd h (not_or_intro (Finset.notMem_empty _) id), fun _ _ => rfl, (fun h => nomatch h), fun _ => rfl,
    fun _ _ h => h.elim, trivial⟩

theorem CrowdStep.inv {s' : Crowd} (h : CrowdStep n s s') (hi : CrowdInv n s) : CrowdInv n s' := by
  cases h with
  | call t ht hw => exact hi.call ht hw
  | access t hw h => exact hi.access hw h
  | «return» t hw => exact hi.return hw

theorem crowd_reachable_inv {max : UInt32} (hmax : 0 < max.toNat) (hr : Relation.ReflTransGen (CrowdStep max.toNat) (crowd max) s) :
    CrowdInv max.toNat s := by
  induction hr with
  | refl => exact crowd_inv hmax
  | tail _ hstep ih => exact hstep.inv ih

end

/-! ## The rounds -/

/-- `n` threads go through their rounds together. -/
structure RoundsSeparate (n : Nat) (s : Crowd) : Prop where
  /-- Nobody has returned from a wait that somebody has not started. -/
  together : ∀ t u, t < n → u < n → (s.threads t).returned ≤ (s.threads u).started
  /-- The counter counts the arrivals of this round, but for when it is reset. -/
  counted : (∀ t, ¬ Resetting (s.waits t)) → s.barrier.counter.toNat = s.arrived.card
  /-- They are of threads that are in this round, and each is one arrival. -/
  round : ∀ t, t ∈ s.arrived → t < n ∧ (s.threads t).started = s.opened + 1
  once : ∀ t, Coming (s.waits t) → t ∉ s.arrived ∧ (s.threads t).started = s.opened + 1
  /-- A round is opened with the counter at 0 and every thread arrived. -/
  opens : ∀ t c, s.waits t = some (.flip c) → s.barrier.counter = 0 ∧ s.arrived = Finset.range n
  /-- The threads of a round do not all wait for a release. -/
  released : ¬ ∃ r, ∀ t, t < n → (s.threads t).started = r ∧ s.waits t = some (.spin s.barrier.cycle)

theorem barrier_separates_rounds (max : UInt32) (hmax : 1 ≤ max.toNat) (s : Crowd)
    (hr : Relation.ReflTransGen (CrowdStep max.toNat) (crowd max) s) : RoundsSeparate max.toNat s := by
  have hi := crowd_reachable_inv hmax hr
  constructor
  case together =>
    intro t u ht hu
    have hbound : ∀ x, x < max.toNat → s.opened ≤ (s.threads x).started ∧ (s.threads x).returned ≤ s.opened := by
      intro x hx
      obtain ⟨h1, h2, h3, h4, -, -⟩ := hi.thread x hx
      have hret : (s.threads x).started = (s.threads x).returned ∨ (s.threads x).started = (s.threads x).returned + 1 := by
        cases hwx : (s.threads x).wait with
        | none => exact .inl (h4 hwx)
        | some w => exact .inr (h3 (by rw [hwx]; rfl))
      by_cases hcur : x ∈ s.arrived ∨ Coming (s.threads x).wait
      · have hstart := h1 hcur
        have hin : (s.threads x).wait.isSome := by
          cases hwx : (s.threads x).wait with
          | some w => rfl
          | none =>
            rw [hwx] at hcur
            have hnot := hi.barrier.thread x
            rw [show s.waits x = none from hwx] at hnot
            exact absurd hcur (not_or_intro hnot id)
        have := h3 hin
        omega
      · have hstart := h2 (fun h => hcur (.inl h)) fun h => hcur (.inr h)
        omega
    exact Nat.le_trans (hbound t ht).2 (hbound u hu).1
  case counted => exact hi.barrier.counter
  case round =>
    intro t ht
    have hlt := Finset.mem_range.mp (hi.team ht)
    exact ⟨hlt, (hi.thread t hlt).current (.inl ht)⟩
  case once =>
    intro t ht
    have hlt : t < max.toNat := by
      by_contra hn
      rw [hi.others t (Nat.le_of_not_lt hn)] at ht
      exact ht
    exact ⟨ht.not_arrived (hi.barrier.thread t), (hi.thread t hlt).current (.inr ht)⟩
  case opens =>
    intro t c ht
    have hat := hi.barrier.thread t
    rw [ht] at hat
    exact ⟨hi.barrier.zero t (by rw [ht]; trivial), hi.all hat.2.1⟩
  case released =>
    rintro ⟨r, hall⟩
    have harr : s.arrived = Finset.range max.toNat := by
      apply Finset.Subset.antisymm hi.team
      intro t ht
      have hlt := Finset.mem_range.mp ht
      have hspin : (s.threads t).wait = some (.spin s.barrier.cycle) := (hall t hlt).2
      by_contra hn
      exact (hi.thread t hlt).stale hn s.barrier.cycle (by rw [hspin]; rfl) rfl
    have hfull : Full s.barrier s.arrived := by
      unfold Full
      rw [harr, Finset.card_range]
      exact hi.max.symm
    obtain ⟨u, hu⟩ := hi.barrier.closer (Nat.lt_of_lt_of_eq hmax hi.max.symm) hfull
    by_cases hlt : u < max.toNat
    · rw [(hall u hlt).2] at hu
      exact hu
    · rw [hi.others u (Nat.le_of_not_lt hlt)] at hu
      exact hu

/-- Two threads: the second has opened the first round and is in the next one, with the first
    still to see it. -/
theorem barrier_separates_rounds_reentered :
    ∃ s, Relation.ReflTransGen (CrowdStep 2) (crowd 2) s ∧ (s.threads 1).started = 2 ∧ (s.threads 1).returned = 1 ∧
      (s.threads 0).returned = 0 ∧ s.waits 0 = some (.spin 0) ∧ s.barrier = ⟨2, 1, 1⟩ ∧ RoundsSeparate 2 s := by
  have h0 : Relation.ReflTransGen (CrowdStep 2) (crowd 2) _ := .single (.call 0 (by decide) rfl)
  have h1 := ((h0.tail (.access 0 rfl .sample)).tail (.access 0 rfl (.add 0))).tail (.access 0 rfl (.readMax 0 0))
  have h2 := ((h1.tail (.call 1 (by decide) rfl)).tail (.access 1 rfl .sample)).tail (.access 1 rfl (.readMaxFirst 0))
  have h3 := (h2.tail (.access 1 rfl (.addBound 0 1))).tail (.access 1 rfl .reset)
  have h4 := ((h3.tail (.access 1 rfl .toggle)).tail (.access 1 rfl (.flip 0))).tail (.return 1 rfl)
  have h5 := ((h4.tail (.call 1 (by decide) rfl)).tail (.access 1 rfl .sample)).tail (.access 1 rfl (.add 1))
  exact ⟨_, h5, rfl, rfl, rfl, rfl, rfl, barrier_separates_rounds 2 (by decide) _ h5⟩

end Popcorn.Bomp
