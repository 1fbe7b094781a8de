/-
  Popcorn.Lib.LocationCounter — the location counter of a linker script.

  Inside an output section a linker keeps one number, `.`, the absolute address of the next byte.
  A statement moves it by a constant (`. = . + n`), moves it to the next multiple of an
  alignment (`. = ALIGN(n)`), or places an input section at it and moves it past that
  section's size. `run` is the meaning of a list of statements: where the counter is after
  them, and what was placed where.

  Proved: an aligned counter is the least multiple not below (`alignUp_eq`) and moves with a base
  it divides (`alignUp_add`); statements that go forward place the inputs they name, once each and
  in order (`run_inputs`), every one ending before the next begins (`run_packed`).
-/

import Mathlib.Algebra.Order.Group.Unbundled.Int
import Mathlib.Tactic.Common

namespace Popcorn.Lib.LocationCounter

/-! ## The counter -/

/-- `ALIGN(a)` at `dot`. -/
def alignUp (a dot : Int) : Int := (dot + a - 1) / a * a

inductive Stmt (ι : Type) where
  | advance (n : Int)
  | align (a : Int)
  | input (i : ι) (size : Int)
  deriving DecidableEq, Repr

structure Placed (ι : Type) where
  input : ι
  addr : Int
  size : Int
  deriving DecidableEq, Repr

structure Layout (ι : Type) where
  dot : Int
  placed : List (Placed ι)
  deriving DecidableEq, Repr

variable {ι : Type}

def Stmt.step (l : Layout ι) : Stmt ι → Layout ι
  | .advance n => { l with dot := l.dot + n }
  | .align a => { l with dot := alignUp a l.dot }
  | .input i size => ⟨l.dot + size, l.placed ++ [⟨i, l.dot, size⟩]⟩

def run (stmts : List (Stmt ι)) (l : Layout ι) : Layout ι := stmts.foldl Stmt.step l

@[simp] theorem run_nil (l : Layout ι) : run [] l = l := rfl

@[simp] theorem run_cons (t : Stmt ι) (stmts : List (Stmt ι)) (l : Layout ι) : run (t :: stmts) l = run stmts (t.step l) := rfl

theorem run_append (s t : List (Stmt ι)) (l : Layout ι) : run (s ++ t) l = run t (run s l) :=
  List.foldl_append

@[simp] theorem advance_step (n : Int) (l : Layout ι) : (Stmt.advance n).step l = ⟨l.dot + n, l.placed⟩ := rfl

@[simp] theorem align_step (a : Int) (l : Layout ι) : (Stmt.align a).step l = ⟨alignUp a l.dot, l.placed⟩ := rfl

@[simp] theorem input_step (i : ι) (size : Int) (l : Layout ι) :
    (Stmt.input i size).step l = ⟨l.dot + size, l.placed ++ [⟨i, l.dot, size⟩]⟩ := rfl

/-! ## Alignment -/

theorem alignUp_dvd (a dot : Int) : a ∣ alignUp a dot := Int.dvd_mul_left _ _

theorem alignUp_bounds {a : Int} (ha : 0 < a) (dot : Int) : dot ≤ alignUp a dot ∧ alignUp a dot < dot + a := by
  have hdm := Int.emod_add_mul_ediv (dot + a - 1) a
  have hlt := Int.emod_lt_of_pos (dot + a - 1) ha
  have hge := Int.emod_nonneg (dot + a - 1) (Int.ne_of_gt ha)
  unfold alignUp
  rw [Int.mul_comm]
  omega

/-- The only multiple of `a` less than `a` past `dot`. -/
theorem alignUp_eq {a dot m : Int} (hm : a ∣ m) (hle : dot ≤ m) (hlt : m < dot + a) : alignUp a dot = m := by
  have ha : 0 < a := by omega
  obtain ⟨hle', hlt'⟩ := alignUp_bounds ha dot
  have hd : a ∣ alignUp a dot - m := Int.dvd_sub (alignUp_dvd a dot) hm
  have := Int.eq_zero_of_abs_lt_dvd hd (by rw [abs_lt]; omega)
  omega

theorem alignUp_add {a base dot : Int} (ha : 0 < a) (hb : a ∣ base) : alignUp a (base + dot) = base + alignUp a dot := by
  obtain ⟨hle, hlt⟩ := alignUp_bounds ha dot
  exact alignUp_eq (Int.dvd_add hb (alignUp_dvd a dot)) (by omega) (by omega)

/-! ## Forward statements -/

/-- The statement does not move the counter back. -/
def Stmt.Forward : Stmt ι → Prop
  | .advance n => 0 ≤ n
  | .align a => 0 < a
  | .input _ size => 0 ≤ size

/-- Every input placed ends before the next begins, and all of them before the counter. -/
structure Layout.Packed (l : Layout ι) : Prop where
  apart : l.placed.Pairwise (fun p q => p.addr + p.size ≤ q.addr)
  below : ∀ p ∈ l.placed, p.addr + p.size ≤ l.dot

theorem Layout.packed_nil (start : Int) : (⟨start, []⟩ : Layout ι).Packed :=
  ⟨List.Pairwise.nil, fun _ h => absurd h List.not_mem_nil⟩

theorem Layout.Packed.move {l : Layout ι} (h : l.Packed) {dot : Int} (hdot : l.dot ≤ dot) : (⟨dot, l.placed⟩ : Layout ι).Packed :=
  ⟨h.apart, fun p hp => Int.le_trans (h.below p hp) hdot⟩

theorem step_packed {t : Stmt ι} (ht : t.Forward) {l : Layout ι} (h : l.Packed) : (t.step l).Packed := by
  cases t with
  | advance n => exact h.move (Int.le_add_of_nonneg_right ht)
  | align a => exact h.move (alignUp_bounds ht l.dot).1
  | input i size =>
    have hsize : 0 ≤ size := ht
    have hnew : l.dot ≤ l.dot + size := Int.le_add_of_nonneg_right hsize
    refine ⟨List.pairwise_append.2 ⟨h.apart, List.pairwise_singleton _ _, ?_⟩, ?_⟩
    · intro p hp q hq
      rw [List.mem_singleton.1 hq]
      exact h.below p hp
    · intro p hp
      rcases List.mem_append.1 hp with hp | hp
      · exact Int.le_trans (h.below p hp) hnew
      · rw [List.mem_singleton.1 hp]
        exact Int.le_refl _

theorem run_packed {stmts : List (Stmt ι)} (ht : ∀ t ∈ stmts, t.Forward) {l : Layout ι} (h : l.Packed) : (run stmts l).Packed := by
  induction stmts generalizing l with
  | nil => exact h
  | cons t stmts ih => exact ih (fun u hu => ht u (.tail _ hu)) (step_packed (ht t (.head _)) h)

/-! ## What is placed -/

def Stmt.named : Stmt ι → Option (ι × Int)
  | .input i size => some (i, size)
  | _ => none

theorem run_inputs (stmts : List (Stmt ι)) (l : Layout ι) :
    (run stmts l).placed.map (fun p => (p.input, p.size)) = l.placed.map (fun p => (p.input, p.size)) ++ stmts.filterMap Stmt.named := by
  induction stmts generalizing l with
  | nil => rw [List.filterMap_nil, List.append_nil, run_nil]
  | cons t stmts ih =>
    rw [run_cons, ih]
    cases t with
    | advance n => rfl
    | align a => rfl
    | input i size =>
      rw [List.filterMap_cons_some (show Stmt.named (.input i size) = some (i, size) from rfl), input_step, List.map_append,
        List.append_assoc]
      rfl

/-- What is placed stays placed. -/
theorem run_placed (stmts : List (Stmt ι)) (l : Layout ι) : l.placed <+: (run stmts l).placed := by
  induction stmts generalizing l with
  | nil => exact List.prefix_refl _
  | cons t stmts ih =>
    have hstep : l.placed <+: (t.step l).placed := by
      cases t with
      | advance n => exact List.prefix_refl _
      | align a => exact List.prefix_refl _
      | input i size => exact List.prefix_append _ _
    exact hstep.trans (ih (t.step l))

end Popcorn.Lib.LocationCounter
