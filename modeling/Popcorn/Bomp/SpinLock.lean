/-
  Popcorn.Bomp.SpinLock — the spin lock of the OpenMP runtime (lib/libbomp/spin.h).

  `bomp_lock` is inline assembly: a test and a locked bit test-and-set on x86-64, an exclusive
  load and store on AArch64. Every access to the word is a step of its own, together with the
  branch on what it found, and memory is sequentially consistent. An exclusive store succeeds
  only while the thread's monitor is armed; a store of another thread to the word disarms it,
  and it may be lost at any time. `wfe` may return at any time.

  `holder` is the thread that took the lock last and has not released it, recorded beside the
  run. A thread releases only a lock it holds. `SpinX86Step t` and `SpinArmStep t` are the
  accesses of thread `t`, `x86Alone t` and `armAlone t` the runs in which no other thread takes
  a step and no monitor is lost but by a store that fails.

  Proved:
  - `x86_simulates`, `arm_simulates`: both are locks.
  - `spin_lock_exclusive`: between two acquires the first one's thread has released.
  - `spin_lock_available`: a free lock can be taken by each thread that waits for it, by steps
    of its own alone.
  - `spin_lock_self_deadlock`: a holder that calls again, as a critical section in a critical
    section does, stops everybody for good.
-/

import Popcorn.Lib.Lock
import Mathlib.Logic.Function.Basic

namespace Popcorn.Bomp

open Popcorn.Lib

/-- The calls of the lock's functions, seen from outside. -/
abbrev LockCall := LockAct Nat

/-! ## x86-64 -/

/-- Where a call of `bomp_lock` stands: before the access it names. -/
inductive SpinPc where
  | out
  | cmpq
  | btsq
  deriving DecidableEq, Repr

structure SpinX86 where
  word : UInt64
  pc : Nat → SpinPc
  holder : Option Nat

/-- `lock btsq $0`: the carry flag and the word after it. -/
def btsq (w : UInt64) : Bool × UInt64 := (w &&& 1 != 0, w ||| 1)

def SpinX86.goto (s : SpinX86) (t : Nat) (p : SpinPc) : SpinX86 := { s with pc := Function.update s.pc t p }

/-- The accesses of thread `t`. -/
inductive SpinX86Step (t : Nat) : SpinX86 → Option LockCall → SpinX86 → Prop
  | call {s : SpinX86} (hp : s.pc t = .out) : SpinX86Step t s (some (.call t)) (s.goto t .cmpq)
  /-- `pause; jmp 0b`. -/
  | busy {s : SpinX86} (hp : s.pc t = .cmpq) (hw : s.word ≠ 0) : SpinX86Step t s none s
  | free {s : SpinX86} (hp : s.pc t = .cmpq) (hw : s.word = 0) : SpinX86Step t s none (s.goto t .btsq)
  | lost {s : SpinX86} (hp : s.pc t = .btsq) (hc : (btsq s.word).1 = true) :
      SpinX86Step t s none { s.goto t .cmpq with word := (btsq s.word).2 }
  | take {s : SpinX86} (hp : s.pc t = .btsq) (hc : (btsq s.word).1 = false) :
      SpinX86Step t s (some (.acquire t)) { s.goto t .out with word := (btsq s.word).2, holder := some t }
  /-- `bomp_unlock`. -/
  | unlock {s : SpinX86} (hp : s.pc t = .out) (hh : s.holder = some t) :
      SpinX86Step t s (some (.release t)) { s with word := 0, holder := none }

def x86Lock : Machine SpinX86 LockCall := ⟨⟨0, fun _ => .out, none⟩, fun s l s' => ∃ t, SpinX86Step t s l s'⟩

/-- Thread `t` runs alone. -/
def x86Alone (t : Nat) : Machine SpinX86 LockCall := ⟨x86Lock.init, SpinX86Step t⟩

/-! ## AArch64 -/

inductive ArmPc where
  | out
  | wfe
  | ldaxr
  | stxr
  deriving DecidableEq, Repr

structure SpinArm where
  word : UInt64
  pc : Nat → ArmPc
  /-- The exclusive monitors. -/
  armed : Nat → Bool
  holder : Option Nat

/-- The low half of the word, which the assembly accesses. -/
def lowHalf (w : UInt64) : UInt32 := w.toUInt32
def setLowHalf (w : UInt64) (v : UInt32) : UInt64 := (w &&& 0xFFFFFFFF00000000) ||| v.toUInt64

def SpinArm.goto (s : SpinArm) (t : Nat) (p : ArmPc) : SpinArm := { s with pc := Function.update s.pc t p }
def SpinArm.monitor (s : SpinArm) (t : Nat) (b : Bool) : SpinArm := { s with armed := Function.update s.armed t b }

/-- A store to the word by thread `t`: the others' monitors are disarmed. -/
def SpinArm.stored (s : SpinArm) (t : Nat) (w : UInt64) : SpinArm :=
  { s with word := w, armed := fun u => if u = t then s.armed u else false }

/-- The accesses of thread `t`. -/
inductive SpinArmStep (t : Nat) : SpinArm → Option LockCall → SpinArm → Prop
  /-- `sevl`, so that the first `wfe` returns. -/
  | call {s : SpinArm} (hp : s.pc t = .out) : SpinArmStep t s (some (.call t)) (s.goto t .wfe)
  | wake {s : SpinArm} (hp : s.pc t = .wfe) : SpinArmStep t s none (s.goto t .ldaxr)
  | busy {s : SpinArm} (hp : s.pc t = .ldaxr) (hw : lowHalf s.word ≠ 0) :
      SpinArmStep t s none ((s.monitor t true).goto t .wfe)
  | free {s : SpinArm} (hp : s.pc t = .ldaxr) (hw : lowHalf s.word = 0) :
      SpinArmStep t s none ((s.monitor t true).goto t .stxr)
  /-- An exclusive store may fail with the monitor armed, too. -/
  | fail {s : SpinArm} (hp : s.pc t = .stxr) : SpinArmStep t s none ((s.monitor t false).goto t .ldaxr)
  | take {s : SpinArm} (hp : s.pc t = .stxr) (hm : s.armed t = true) :
      SpinArmStep t s (some (.acquire t))
        { ((s.stored t (setLowHalf s.word 1)).monitor t false).goto t .out with holder := some t }
  | unlock {s : SpinArm} (hp : s.pc t = .out) (hh : s.holder = some t) :
      SpinArmStep t s (some (.release t)) { s.stored t 0 with holder := none }

inductive ArmLockStep : SpinArm → Option LockCall → SpinArm → Prop
  | access {s s' : SpinArm} {l : Option LockCall} (t : Nat) (h : SpinArmStep t s l s') : ArmLockStep s l s'
  /-- A monitor is lost. -/
  | lose {s : SpinArm} (t : Nat) : ArmLockStep s none (s.monitor t false)

def armLock : Machine SpinArm LockCall := ⟨⟨0, fun _ => .out, fun _ => false, none⟩, ArmLockStep⟩

/-- Thread `t` runs alone. -/
def armAlone (t : Nat) : Machine SpinArm LockCall := ⟨armLock.init, SpinArmStep t⟩

/-! ## Both are locks -/

/-- The word of a lock. -/
def heldWord (holder : Option Nat) : UInt64 := if holder.isSome then 1 else 0

theorem heldWord_some (t : Nat) : heldWord (some t) = 1 := rfl

theorem btsq_zero : btsq 0 = (false, 1) := by decide
theorem btsq_one : btsq 1 = (true, 1) := by decide

/-- The carry flag says whether the lock was held, and it is afterwards. -/
theorem btsq_heldWord (h : Option Nat) : btsq (heldWord h) = (h.isSome, 1) := by
  cases h with
  | none => exact btsq_zero
  | some t => exact btsq_one

theorem setLowHalf_heldWord (h : Option Nat) : setLowHalf (heldWord h) 1 = 1 := by
  cases h with
  | none => decide
  | some t =>
    rw [heldWord_some]
    decide

theorem lowHalf_heldWord {h : Option Nat} : lowHalf (heldWord h) = 0 ↔ h = none := by
  cases h with
  | none => exact ⟨fun _ => rfl, fun _ => by decide⟩
  | some t =>
    rw [heldWord_some]
    exact ⟨fun e => absurd e (by decide), fun e => nomatch e⟩

/-- The threads in a call. -/
def callingOf {α : Type} (out : α) (pc : Nat → α) : Set Nat := {t | pc t ≠ out}

section
variable {α : Type} {out p : α} {pc : Nat → α} {t : Nat}

theorem callingOf_enter (hp : p ≠ out) : callingOf out (Function.update pc t p) = insert t (callingOf out pc) := by
  ext u
  show Function.update pc t p u ≠ out ↔ u = t ∨ pc u ≠ out
  by_cases hu : u = t
  · subst hu
    rw [Function.update_self]
    exact ⟨fun _ => .inl rfl, fun _ => hp⟩
  · rw [Function.update_of_ne hu]
    exact ⟨.inr, fun h => h.resolve_left hu⟩

theorem callingOf_move (hp : p ≠ out) (ht : pc t ≠ out) : callingOf out (Function.update pc t p) = callingOf out pc := by
  rw [callingOf_enter hp]
  exact Set.insert_eq_of_mem ht

theorem callingOf_leave : callingOf out (Function.update pc t out) = callingOf out pc \ {t} := by
  ext u
  show Function.update pc t out u ≠ out ↔ pc u ≠ out ∧ u ≠ t
  by_cases hu : u = t
  · subst hu
    rw [Function.update_self]
    exact ⟨fun h => absurd rfl h, fun h => absurd rfl h.2⟩
  · rw [Function.update_of_ne hu]
    exact ⟨fun h => ⟨h, hu⟩, fun h => h.1⟩

end

structure SpinX86.Is (s : SpinX86) (a : LockState Nat) : Prop where
  holder : a.holder = s.holder
  calling : a.calling = callingOf .out s.pc
  word : s.word = heldWord s.holder

structure SpinArm.Is (s : SpinArm) (a : LockState Nat) : Prop where
  holder : a.holder = s.holder
  calling : a.calling = callingOf .out s.pc
  word : s.word = heldWord s.holder
  /-- A thread whose monitor is still armed at its store has found the lock free. -/
  free : ∀ t, s.pc t = .stxr → s.armed t = true → s.holder = none

theorem x86_simulates : Simulates x86Lock (lock Nat) SpinX86.Is where
  init := by
    refine ⟨rfl, ?_, rfl⟩
    ext t
    exact ⟨fun h => h.elim, fun h => h rfl⟩
  step := by
    rintro s s' ⟨holder, calling⟩ l ⟨rfl, rfl, hword⟩ hs
    have hin : ∀ {t p}, s.pc t = p → p ≠ .out → s.pc t ≠ .out := fun e hp h => hp (e.symm.trans h)
    obtain ⟨t, hs⟩ := hs
    cases hs with
    | call hp => exact ⟨_, ⟨rfl, (callingOf_enter (by decide)).symm, hword⟩, .inl (.call t fun h => h hp)⟩
    | busy hp hw => exact ⟨_, ⟨rfl, rfl, hword⟩, .inr ⟨rfl, rfl⟩⟩
    | free hp hw => exact ⟨_, ⟨rfl, (callingOf_move (by decide) (hin hp (by decide))).symm, hword⟩, .inr ⟨rfl, rfl⟩⟩
    | lost hp hc =>
      have hheld : (btsq s.word).2 = heldWord s.holder := by
        rw [hword, btsq_heldWord] at hc
        obtain ⟨u, hu⟩ := Option.isSome_iff_exists.mp hc
        rw [hword, btsq_heldWord, hu]
        rfl
      exact ⟨_, ⟨rfl, (callingOf_move (by decide) (hin hp (by decide))).symm, hheld⟩, .inr ⟨rfl, rfl⟩⟩
    | take hp hc =>
      rw [hword, btsq_heldWord] at hc
      have hfree : s.holder = none := Option.not_isSome_iff_eq_none.mp (Bool.eq_false_iff.mp hc)
      have htaken : (btsq s.word).2 = heldWord (some t) := by
        rw [hword, btsq_heldWord]
        rfl
      exact ⟨_, ⟨rfl, callingOf_leave.symm, htaken⟩, .inl (.acquire t (hin hp (by decide)) hfree)⟩
    | unlock hp hh => exact ⟨_, ⟨rfl, rfl, rfl⟩, .inl (.release t hh fun h => h hp)⟩

theorem arm_simulates : Simulates armLock (lock Nat) SpinArm.Is where
  init := by
    refine ⟨rfl, ?_, rfl, fun _ h => nomatch h⟩
    ext t
    exact ⟨fun h => h.elim, fun h => h rfl⟩
  step := by
    rintro s s' ⟨holder, calling⟩ l ⟨rfl, rfl, hword, hfree⟩ hs
    have hin : ∀ {t p}, s.pc t = p → p ≠ .out → s.pc t ≠ .out := fun e hp h => hp (e.symm.trans h)
    -- a thread that is not sent to its store, with no monitor armed in the step
    have hsame : ∀ (t : Nat) (p : ArmPc) (armed : Nat → Bool), p ≠ .stxr → (∀ u, u ≠ t → armed u = true → s.armed u = true) →
        ∀ u, Function.update s.pc t p u = .stxr → armed u = true → s.holder = none := by
      intro t p armed hp harmed u hpc hm
      by_cases hu : u = t
      · subst hu
        rw [Function.update_self] at hpc
        exact absurd hpc hp
      · rw [Function.update_of_ne hu] at hpc
        exact hfree u hpc (harmed u hu hm)
    have hother : ∀ (t : Nat) (b : Bool) (u : Nat), u ≠ t → Function.update s.armed t b u = true → s.armed u = true := by
      intro t b u hu hm
      rwa [Function.update_of_ne hu] at hm
    cases hs with
    | access t hs =>
      cases hs with
      | call hp =>
        exact ⟨_, ⟨rfl, (callingOf_enter (by decide)).symm, hword, hsame t _ _ (by decide) fun _ _ h => h⟩, .inl (.call t fun h => h hp)⟩
      | wake hp =>
        exact ⟨_, ⟨rfl, (callingOf_move (by decide) (hin hp (by decide))).symm, hword, hsame t _ _ (by decide) fun _ _ h => h⟩,
          .inr ⟨rfl, rfl⟩⟩
      | busy hp hw =>
        exact ⟨_, ⟨rfl, (callingOf_move (by decide) (hin hp (by decide))).symm, hword, hsame t _ _ (by decide) (hother t true)⟩,
          .inr ⟨rfl, rfl⟩⟩
      | free hp hw =>
        rw [hword] at hw
        exact ⟨_, ⟨rfl, (callingOf_move (by decide) (hin hp (by decide))).symm, hword, fun _ _ _ => lowHalf_heldWord.mp hw⟩, .inr ⟨rfl, rfl⟩⟩
      | fail hp =>
        exact ⟨_, ⟨rfl, (callingOf_move (by decide) (hin hp (by decide))).symm, hword, hsame t _ _ (by decide) (hother t false)⟩,
          .inr ⟨rfl, rfl⟩⟩
      | take hp hm =>
        refine ⟨_, ⟨rfl, callingOf_leave.symm, ?_, ?_⟩, .inl (.acquire t (hin hp (by decide)) (hfree t hp hm))⟩
        · show setLowHalf s.word 1 = 1
          rw [hword, setLowHalf_heldWord]
        · -- the store has disarmed all monitors
          intro u _ harmed
          have hno : Function.update (fun u => if u = t then s.armed u else false) t false u = false := by
            by_cases hu : u = t
            · subst hu
              exact Function.update_self _ _ _
            · rw [Function.update_of_ne hu]
              exact if_neg hu
          exact absurd (hno.symm.trans harmed) (by decide)
      | unlock hp hh => exact ⟨_, ⟨rfl, rfl, rfl, fun _ _ _ => rfl⟩, .inl (.release t hh fun h => h hp)⟩
    | lose t =>
      refine ⟨_, ⟨rfl, rfl, hword, ?_⟩, .inr ⟨rfl, rfl⟩⟩
      intro u hpc hm
      by_cases hu : u = t
      · subst hu
        have hoff : (s.monitor u false).armed u = false := Function.update_self _ _ _
        exact absurd (hoff.symm.trans hm) (by decide)
      · exact hfree u hpc (hother t false u hu hm)

/-! ## What follows -/

theorem x86_tail {s s' s'' : SpinX86} {ls : List LockCall} {l : Option LockCall} (h : x86Lock.Run s ls s') (t : Nat)
    (hs : SpinX86Step t s' l s'') : x86Lock.Run s (ls ++ l.toList) s'' := h.tail ⟨t, hs⟩

theorem arm_tail {s s' s'' : SpinArm} {ls : List LockCall} {l : Option LockCall} (h : armLock.Run s ls s') (t : Nat)
    (hs : SpinArmStep t s' l s'') : armLock.Run s (ls ++ l.toList) s'' := h.tail (.access t hs)

/-- Between two acquires of either lock the first one's thread has released. -/
theorem spin_lock_exclusive (ls₁ ls₂ ls₃ : List LockCall) (t u : Nat) :
    (∀ s, x86Lock.Run x86Lock.init (ls₁ ++ .acquire t :: (ls₂ ++ .acquire u :: ls₃)) s → LockAct.release t ∈ ls₂) ∧
      ∀ s, armLock.Run armLock.init (ls₁ ++ .acquire t :: (ls₂ ++ .acquire u :: ls₃)) s → LockAct.release t ∈ ls₂ := by
  constructor
  · intro s hr
    obtain ⟨a, -, ha⟩ := x86_simulates.run hr
    exact lock_exclusive ha
  · intro s hr
    obtain ⟨a, -, ha⟩ := arm_simulates.run hr
    exact lock_exclusive ha

/-- Two threads take the x86-64 lock one after the other, and two the AArch64 one. -/
theorem spin_lock_exclusive_two : LockAct.release 0 ∈ ([.release 0, .call 1] : List LockCall) ∧
    LockAct.release 0 ∈ ([.release 0, .call 1] : List LockCall) := by
  have h0 := x86_tail (x86_tail (.refl (s := x86Lock.init)) 0 (.call rfl)) 0 (.free rfl rfl)
  have h1 := x86_tail (x86_tail h0 0 (.take rfl (by decide))) 0 (.unlock rfl rfl)
  have h2 := x86_tail (x86_tail (x86_tail h1 1 (.call rfl)) 1 (.free rfl rfl)) 1 (.take rfl (by decide))
  have g0 := arm_tail (arm_tail (arm_tail (.refl (s := armLock.init)) 0 (.call rfl)) 0 (.wake rfl)) 0 (.free rfl (by decide))
  have g1 := arm_tail (arm_tail g0 0 (.take rfl rfl)) 0 (.unlock rfl rfl)
  have g2 := arm_tail (arm_tail (arm_tail (arm_tail g1 1 (.call rfl)) 1 (.wake rfl)) 1 (.free rfl (by decide))) 1 (.take rfl rfl)
  exact ⟨(spin_lock_exclusive [.call 0] [.release 0, .call 1] [] 0 1).1 _ h2,
    (spin_lock_exclusive [.call 0] [.release 0, .call 1] [] 0 1).2 _ g2⟩

theorem x86_alone_tail {t : Nat} {s s' s'' : SpinX86} {ls : List LockCall} {l : Option LockCall} (h : (x86Alone t).Run s ls s')
    (hs : SpinX86Step t s' l s'') : (x86Alone t).Run s (ls ++ l.toList) s'' := h.tail hs

theorem arm_alone_tail {t : Nat} {s s' s'' : SpinArm} {ls : List LockCall} {l : Option LockCall} (h : (armAlone t).Run s ls s')
    (hs : SpinArmStep t s' l s'') : (armAlone t).Run s (ls ++ l.toList) s'' := h.tail hs

/-- A thread in a call of the free x86-64 lock takes it by steps of its own. -/
theorem SpinX86.Is.takes {s : SpinX86} {a : LockState Nat} (h : s.Is a) {t : Nat} (hfree : s.holder = none) (hp : s.pc t ≠ .out) :
    ∃ s', (x86Alone t).Run s [.acquire t] s' ∧ s'.holder = some t := by
  have hword : s.word = 0 := by
    rw [h.word, hfree]
    rfl
  -- from the test-and-set on
  have htake : ∀ s : SpinX86, s.word = 0 → s.pc t = .btsq → ∃ s', (x86Alone t).Run s [.acquire t] s' ∧ s'.holder = some t := by
    intro s hword hp
    exact ⟨_, x86_alone_tail .refl (.take hp (by rw [hword]; rfl)), rfl⟩
  cases hpc : s.pc t with
  | out => exact absurd hpc hp
  | btsq => exact htake s hword hpc
  | cmpq =>
    obtain ⟨s', hrun, hheld⟩ := htake (s.goto t .btsq) hword (Function.update_self _ _ _)
    exact ⟨s', (x86_alone_tail .refl (.free hpc hword)).trans hrun, hheld⟩

/-- A thread in a call of the free AArch64 lock takes it by steps of its own; a store whose
    monitor may be lost is tried again. -/
theorem SpinArm.Is.takes {s : SpinArm} {a : LockState Nat} (h : s.Is a) {t : Nat} (hfree : s.holder = none) (hp : s.pc t ≠ .out) :
    ∃ s', (armAlone t).Run s [.acquire t] s' ∧ s'.holder = some t := by
  have hword : s.word = 0 := by
    rw [h.word, hfree]
    rfl
  -- from the exclusive load on
  have hload : ∀ s : SpinArm, s.word = 0 → s.pc t = .ldaxr → ∃ s', (armAlone t).Run s [.acquire t] s' ∧ s'.holder = some t := by
    intro s hword hp
    have hlow : lowHalf s.word = 0 := by
      rw [hword]
      rfl
    refine ⟨_, arm_alone_tail (arm_alone_tail .refl (.free hp hlow)) (.take ?_ ?_), rfl⟩
    · exact Function.update_self _ _ _
    · exact Function.update_self _ _ _
  cases hpc : s.pc t with
  | out => exact absurd hpc hp
  | ldaxr => exact hload s hword hpc
  | wfe =>
    obtain ⟨s', hrun, hheld⟩ := hload (s.goto t .ldaxr) hword (Function.update_self _ _ _)
    exact ⟨s', (arm_alone_tail .refl (.wake hpc)).trans hrun, hheld⟩
  | stxr =>
    obtain ⟨s', hrun, hheld⟩ := hload ((s.monitor t false).goto t .ldaxr) hword (Function.update_self _ _ _)
    exact ⟨s', (arm_alone_tail .refl (.fail hpc)).trans hrun, hheld⟩

/-- A free lock can be taken by each thread that waits for it, by steps of its own alone. -/
theorem spin_lock_available (t : Nat) :
    (∀ s ls, x86Lock.Run x86Lock.init ls s → s.holder = none → s.pc t ≠ .out →
        ∃ s', (x86Alone t).Run s [.acquire t] s' ∧ s'.holder = some t) ∧
      ∀ s ls, armLock.Run armLock.init ls s → s.holder = none → s.pc t ≠ .out →
        ∃ s', (armAlone t).Run s [.acquire t] s' ∧ s'.holder = some t := by
  constructor
  · intro s ls hr hfree hp
    obtain ⟨a, ha, -⟩ := x86_simulates.run hr
    exact ha.takes hfree hp
  · intro s ls hr hfree hp
    obtain ⟨a, ha, -⟩ := arm_simulates.run hr
    exact ha.takes hfree hp

/-- Thread 0 calls while thread 1 waits too, and takes the lock alone. -/
theorem spin_lock_available_first : (∃ s s', s.pc 1 = .cmpq ∧ (x86Alone 0).Run s [.acquire 0] s' ∧ s'.holder = some 0) ∧
    ∃ s s', s.pc 1 = .wfe ∧ (armAlone 0).Run s [.acquire 0] s' ∧ s'.holder = some 0 := by
  have h := x86_tail (x86_tail (.refl (s := x86Lock.init)) 0 (.call rfl)) 1 (.call rfl)
  have g := arm_tail (arm_tail (.refl (s := armLock.init)) 0 (.call rfl)) 1 (.call rfl)
  obtain ⟨s', hrun, hheld⟩ := (spin_lock_available 0).1 _ _ h rfl (by decide)
  obtain ⟨s'', hrun', hheld'⟩ := (spin_lock_available 0).2 _ _ g rfl (by decide)
  exact ⟨⟨_, s', rfl, hrun, hheld⟩, _, s'', rfl, hrun', hheld'⟩

/-- A holder that calls the lock again stops everybody for good: nobody acquires or releases it
    any more. -/
theorem spin_lock_self_deadlock (t : Nat) (ls : List LockCall) :
    (∀ s s' ls₀, x86Lock.Run x86Lock.init ls₀ s → s.holder = some t → s.pc t ≠ .out → x86Lock.Run s ls s' → ∀ a ∈ ls, ∃ u, a = .call u) ∧
      ∀ s s' ls₀, armLock.Run armLock.init ls₀ s → s.holder = some t → s.pc t ≠ .out → armLock.Run s ls s' → ∀ a ∈ ls, ∃ u, a = .call u := by
  constructor
  · intro s s' ls₀ h0 hh hp hr
    obtain ⟨a, ha, -⟩ := x86_simulates.run h0
    obtain ⟨a', -, hrun⟩ := x86_simulates.run_from ha hr
    exact lock_self_wait hrun (ha.holder.trans hh) (ha.calling ▸ hp)
  · intro s s' ls₀ h0 hh hp hr
    obtain ⟨a, ha, -⟩ := arm_simulates.run h0
    obtain ⟨a', -, hrun⟩ := arm_simulates.run_from ha hr
    exact lock_self_wait hrun (ha.holder.trans hh) (ha.calling ▸ hp)

/-- A thread that holds the lock calls it again, and another thread calls. -/
theorem spin_lock_self_deadlock_zero : (∀ a ∈ ([.call 1] : List LockCall), ∃ u, a = .call u) ∧
    ∀ a ∈ ([.call 1] : List LockCall), ∃ u, a = .call u := by
  have h0 := x86_tail (x86_tail (x86_tail (.refl (s := x86Lock.init)) 0 (.call rfl)) 0 (.free rfl rfl)) 0 (.take rfl (by decide))
  have h1 := x86_tail h0 0 (.call rfl)
  have g0 := arm_tail (arm_tail (arm_tail (.refl (s := armLock.init)) 0 (.call rfl)) 0 (.wake rfl)) 0 (.free rfl (by decide))
  have g1 := arm_tail (arm_tail g0 0 (.take rfl rfl)) 0 (.call rfl)
  exact ⟨(spin_lock_self_deadlock 0 [.call 1]).1 _ _ _ h1 rfl (by decide) (x86_tail .refl 1 (.call rfl)),
    (spin_lock_self_deadlock 0 [.call 1]).2 _ _ _ g1 rfl (by decide) (arm_tail .refl 1 (.call rfl))⟩

end Popcorn.Bomp
