/-
  Popcorn.Duplicates.Values — whether recorded duplicates have the operand's value.

  The search follows copies in both directions and wherever they are in the function. What is
  in a register or a slot when the stackmap is reached depends on the path: each value on it
  was written by some instruction and has moved through copies since.

  Proved: `duplicates_hold_iff`: on a path to a stackmap every duplicate has the operand's value, whatever
  the instructions compute, exactly where each duplicate's value comes from the write the
  operand's comes from.
-/

import Popcorn.Duplicates.Owners

namespace Popcorn.Duplicates

open Popcorn.Lib

/-! ## Execution -/

def CopyLoc.source : CopyLoc → Loc
  | regCopy _ srcVreg => .vreg srcVreg
  | stackLoad _ stackSlot => .stackSlot stackSlot
  | stackStore vreg _ => .vreg vreg

namespace MachineInstr

def writes (MI : MachineInstr) : List Loc := (MI.vregs true).map .vreg ++ MI.slotDefs.map .stackSlot

/-- Where the value it writes is moved from. -/
def source (MI : MachineInstr) : Option Loc := if MI.movesWhole then MI.getCopyLocation.map CopyLoc.source else none

end MachineInstr

/-- The paths of a function: the instructions run, and the place of the next. -/
inductive Reaches (F : MachineFunction) : List InstrPtr → InstrPtr → Prop
  | entry : Reaches F [] (0, 0)
  | next (path : List InstrPtr) (p : InstrPtr) (MI : MachineInstr) : Reaches F path p → F.instr p = some MI → Reaches F (path ++ [p]) (p.1, p.2 + 1)
  | jump (path : List InstrPtr) (b b' : Nat) (MBB : MachineBasicBlock) : F.blocks[b]? = some MBB → Reaches F path (b, MBB.instrs.length) →
      b' ∈ MBB.successors → Reaches F path (b', 0)

section
variable {Val : Type}

/-- What an instruction that moves no whole value leaves in a place, run at a time in a state. -/
abbrev Result (Val : Type) := Nat → InstrPtr → Loc → (Loc → Val) → Val

def step (F : MachineFunction) (result : Result Val) (t : Nat) (p : InstrPtr) (values : Loc → Val) : Loc → Val :=
  match F.instr p with
  | none => values
  | some MI => fun l =>
    if l ∈ MI.writes then
      match MI.source with
      | some src => values src
      | none => result t p l values
    else values l

def execute (F : MachineFunction) (result : Result Val) : Nat → List InstrPtr → (Loc → Val) → Loc → Val
  | _, [], values => values
  | t, p :: path, values => execute F result (t + 1) path (step F result t p values)

end

/-! ## The property -/

section
variable {V : Type}

/-- The duplicates recorded for an operand have its value, in every execution of the path. -/
def DuplicatesHold (F : MachineFunction) (SM : SMInstBundle V) (final : State V) (path : List InstrPtr) : Prop :=
  ∀ o l, RecordedFor SM final o l → ∀ (Val : Type) (result : Result Val) (values : Loc → Val),
    execute F result 0 path values l = execute F result 0 path values (.vreg o)

/-- Where a value comes from: what was in a place at the start, or what was written at a time. -/
inductive Origin where
  | initial (l : Loc)
  | written (t : Nat) (l : Loc)
  deriving DecidableEq, Repr

/-- Where the value in each place comes from at the end of a path. -/
def origins (F : MachineFunction) (path : List InstrPtr) : Loc → Origin := execute F (fun t _ l _ => .written t l) 0 path .initial

/-- Each live place connected to an operand has, at the end of the path, a value of the same origin. -/
def SameOrigin (F : MachineFunction) (SM : SMInstBundle V) (path : List InstrPtr) : Prop :=
  ∀ o l, Duplicate F SM o l → origins F path l = origins F path (.vreg o)

/-! ## Values follow their origins -/

/-- Places of one origin have one value, and nothing comes from a later time. -/
structure Tracks {Val : Type} (t : Nat) (values : Loc → Val) (from_ : Loc → Origin) : Prop where
  agree : ∀ l m, from_ l = from_ m → values l = values m
  past : ∀ l t' l', from_ l = .written t' l' → t' < t

variable {Val : Type} {F : MachineFunction} {result : Result Val} {t : Nat} {values : Loc → Val} {from_ : Loc → Origin}

theorem Tracks.step (h : Tracks t values from_) (p : InstrPtr) :
    Tracks (t + 1) (step F result t p values) (step F (fun t _ l _ => .written t l) t p from_) := by
  unfold Duplicates.step
  cases F.instr p with
  | none => exact ⟨h.agree, fun l t' l' heq => Nat.lt_succ_of_lt (h.past l t' l' heq)⟩
  | some MI =>
    dsimp only
    cases hsource : MI.source with
    | some src =>
      dsimp only
      refine ⟨fun l m heq => ?_, fun l t' l' heq => ?_⟩
      · split_ifs at heq ⊢ <;> exact h.agree _ _ heq
      · split_ifs at heq <;> exact Nat.lt_succ_of_lt (h.past _ t' l' heq)
    | none =>
      dsimp only
      refine ⟨fun l m heq => ?_, fun l t' l' heq => ?_⟩
      · split_ifs at heq ⊢ with hl hm hm
        · obtain ⟨-, rfl⟩ := Origin.written.inj heq
          rfl
        · exact absurd (h.past m t l heq.symm) (Nat.lt_irrefl t)
        · exact absurd (h.past l t m heq) (Nat.lt_irrefl t)
        · exact h.agree l m heq
      · split_ifs at heq
        · obtain ⟨rfl, -⟩ := Origin.written.inj heq
          exact Nat.lt_succ_self t
        · exact Nat.lt_succ_of_lt (h.past l t' l' heq)

theorem Tracks.execute (h : Tracks t values from_) (path : List InstrPtr) {l m : Loc}
    (heq : execute F (fun t _ l _ => .written t l) t path from_ l = execute F (fun t _ l _ => .written t l) t path from_ m) :
    execute F result t path values l = execute F result t path values m := by
  induction path generalizing t values from_ with
  | nil => exact h.agree l m heq
  | cons p path ih => exact ih (h.step p) heq

theorem initial_tracks (values : Loc → Val) : Tracks 0 values Origin.initial :=
  ⟨fun _ _ heq => congrArg values (Origin.initial.inj heq), fun _ _ _ heq => by cases heq⟩

/-- Two places have one value in every execution of a path exactly where their values have one origin. -/
theorem equal_iff (F : MachineFunction) (path : List InstrPtr) (l m : Loc) :
    (∀ (Val : Type) (result : Result Val) (values : Loc → Val), execute F result 0 path values l = execute F result 0 path values m) ↔
      origins F path l = origins F path m := by
  constructor
  · intro h
    exact h Origin (fun t _ l _ => .written t l) .initial
  · intro heq Val result values
    exact (initial_tracks values).execute path heq

/-- The duplicates hold on a path exactly where what is recorded for an operand has one origin with it. -/
theorem duplicates_hold_iff (F : MachineFunction) (SM : SMInstBundle V) (hF : F.Ok) (fuel : Nat) (hfuel : enough F SM 0 ≤ fuel) :
    ∃ final, findAlternateVregLocs F SM fuel = some final ∧
      ∀ path, Reaches F path SM.MISM → (DuplicatesHold F SM final path ↔ SameOrigin F SM path) := by
  obtain ⟨final, done, hfinal, hsearched, hall, hlabelled⟩ := iterate_spec hF
    (fun _ _ _ _ _ _ hi hnext hs hl => Labelled.search hF hi hnext hs hl) hfuel (initial_iterating F SM) (initial_labelled F SM)
  refine ⟨final, hfinal, fun path _ => ?_⟩
  have hrecorded := recordedFor_iff (hsearched.recorded hall) hlabelled
  constructor
  · intro h o l hl
    exact (equal_iff F path l (.vreg o)).mp (h o l ((hrecorded o l).mpr hl))
  · intro h o l hl
    exact (equal_iff F path l (.vreg o)).mpr (h o l ((hrecorded o l).mp hl))

end

/-! ## A spilled operand, and a register written again -/

theorem straightLine_reaches {instrs : List MachineInstr} {vregs : List (Nat × Nat × Nat)} {sslots : List (Int × Nat × Nat)} {n : Nat}
    (hn : n ≤ instrs.length) : Reaches (straightLine instrs vregs sslots) ((List.range n).map fun i => (0, i)) (0, n) := by
  induction n with
  | zero => exact .entry
  | succ n ih =>
    rw [List.range_succ, List.map_append]
    exact .next _ (0, n) instrs[n] (ih (Nat.le_of_succ_le hn)) (List.getElem?_eq_getElem hn)

theorem spilled_duplicates_hold : ∃ final, findAlternateVregLocs (spilledFunction true) spilledStackmap 20 = some final ∧
    DuplicatesHold (spilledFunction true) spilledStackmap final [(0, 0), (0, 1), (0, 2), (0, 3)] := by
  obtain ⟨final, hfinal, hiff⟩ := duplicates_hold_iff (spilledFunction true) spilledStackmap (straightLine_ok spilled_ok _ _) 20 (by decide)
  have hpath : Reaches (spilledFunction true) [(0, 0), (0, 1), (0, 2), (0, 3)] (0, 4) := @straightLine_reaches spilled _ _ 4 (by decide)
  refine ⟨final, hfinal, (hiff _ hpath).mpr fun o l hl => ?_⟩
  have hone : ∀ o ∈ opVregs spilledStackmap, o = 0 := by decide
  cases hl with
  | vreg v _ _ howner =>
    obtain rfl := hone o howner.mem
    rcases spilled_vreg ⟨0, howner.mem, howner.chain⟩ with rfl | rfl
    · rfl
    · decide
  | stackSlot w ss hopen _ howner =>
    obtain rfl := hone o howner.mem
    obtain rfl := spilled_slot hopen.1
    decide

open MachineInstr in
/-- The source of a copy is written again before the call. -/
def rewritten : List MachineInstr := [plain false [0] [], copy 1 0, plain false [0] [0], plain false [] [], plain true [] [1], plain false [] [0, 1]]

theorem rewritten_ok : ∀ MI ∈ rewritten, MI.Ok := by
  intro MI h
  simp only [rewritten, List.mem_cons, List.not_mem_nil, or_false] at h
  rcases h with rfl | rfl | rfl | rfl | rfl | rfl
  · exact MachineInstr.ok_of_none rfl
  · exact @MachineInstr.ok_of_copy _ (.regCopy 1 0) rfl rfl rfl rfl rfl
  · exact MachineInstr.ok_of_none rfl
  · exact MachineInstr.ok_of_none rfl
  · exact MachineInstr.ok_of_none rfl
  · exact MachineInstr.ok_of_none rfl

def rewrittenFunction : MachineFunction := straightLine rewritten [(0, 0, 5), (1, 1, 5)] []

def rewrittenStackmap : SMInstBundle String := ⟨(0, 4), (0, 3), [.reg 1 "%x"]⟩

/-- The register written again is recorded as a duplicate of its old copy. -/
theorem rewritten_duplicate : rewrittenFunction.Ok ∧ Reaches rewrittenFunction [(0, 0), (0, 1), (0, 2), (0, 3)] (0, 4) ∧
    ∃ final, findAlternateVregLocs rewrittenFunction rewrittenStackmap 20 = some final ∧ RecordedFor rewrittenStackmap final 1 (.vreg 0) ∧
      ¬ DuplicatesHold rewrittenFunction rewrittenStackmap final [(0, 0), (0, 1), (0, 2), (0, 3)] := by
  have hrecorded : ∃ final, findAlternateVregLocs rewrittenFunction rewrittenStackmap 20 = some final ∧
      RecordedFor rewrittenStackmap final 1 (.vreg 0) := ⟨_, rfl, by decide, ⟨.vreg 1, ["%x"]⟩, by decide, rfl⟩
  obtain ⟨final, hfinal, hdup⟩ := hrecorded
  refine ⟨straightLine_ok rewritten_ok _ _, @straightLine_reaches rewritten _ _ 4 (by decide), final, hfinal, hdup, fun h => ?_⟩
  have hequal := h 1 (.vreg 0) hdup Nat (fun t _ _ _ => t) (fun _ => 0)
  exact absurd hequal (by decide)

end Popcorn.Duplicates
