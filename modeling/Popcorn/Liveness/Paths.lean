/-
  Popcorn.Liveness.Paths — liveness in the path sense, for the functions of
  `Popcorn.Liveness.LiveValues`.

  A point `(b, i)` is just before instruction `i` of block `b`; `(b, len b)` is the end
  of the block. `LiveAt U P v b i` says that some path from the point reaches a use of
  `v` without passing its definition, where the path goes over edges in `P` and a phi
  use, at the end of the incoming block, counts over edges in `U`. With both true it is
  liveness; the analysis computes it for smaller `U` and `P`.

  Strict SSA form: at every reachable use the definition comes earlier on every path.

  Proved: what is live at a point is defined before it (`live_defined`); what is live
  into a loop header, other than its own phis, is defined outside the loop
  (`header_outside`) and live throughout it (`live_loop`).
-/

import Popcorn.Lib.FlowGraph
import Popcorn.Liveness.LiveValues

namespace Popcorn.Liveness

open Popcorn.Lib

def Function.Edge (F : Function) (b s : Nat) : Prop := s ∈ (F.block b).succs

/-- Reachable from the entry block. -/
def Function.Reach (F : Function) (b : Nat) : Prop := Lib.Reach F.Edge 0 b

def Function.Dom (F : Function) (d b : Nat) : Prop := Lib.Dom F.Edge 0 d b

def Function.NatLoop (F : Function) (h c : Nat) : Prop := Lib.NatLoop F.Edge 0 h c

/-! ## Live at a point -/

inductive LiveAt (F : Function) (U P : Nat → Nat → Prop) (v : Value) : Nat → Nat → Prop
  | use {b i : Nat} : i < F.len b → v ∈ F.operands b i → LiveAt F U P v b i
  | step {b i : Nat} : i < F.len b → v ≠ .inst b i → LiveAt F U P v b (i + 1) → LiveAt F U P v b i
  | phiUse {b s : Nat} : F.Edge b s → U b s → v ∈ F.phiOperands b s → LiveAt F U P v b (F.len b)
  | edge {b s : Nat} : F.Edge b s → P b s → v ∉ F.phiValues s → LiveAt F U P v s 0 → LiveAt F U P v b (F.len b)

/-- Live at a point: every path and every phi use counts. -/
def Live (F : Function) : Value → Nat → Nat → Prop := LiveAt F (fun _ _ => True) fun _ _ => True

/-- Live right after instruction `k` of `b`. A path from `k` starts at `k`, so the value
    `k` defines is not live after it in this sense. -/
def LiveAfter (F : Function) (v : Value) (b k : Nat) : Prop := v ≠ .inst b k ∧ Live F v b (k + 1)

variable {F : Function} {U P U' P' : Nat → Nat → Prop} {v : Value} {b i : Nat}

theorem LiveAt.mono (hU : ∀ b s, U b s → U' b s) (hP : ∀ b s, P b s → P' b s) (h : LiveAt F U P v b i) :
    LiveAt F U' P' v b i := by
  induction h with
  | use hi hv => exact .use hi hv
  | step hi hne _ ih => exact .step hi hne ih
  | phiUse e hu hv => exact .phiUse e (hU _ _ hu) hv
  | edge e hp hn _ ih => exact .edge e (hP _ _ hp) hn ih

/-- Inside a block, liveness is the backward scan's equation. -/
theorem liveAt_lt (hi : i < F.len b) :
    LiveAt F U P v b i ↔ v ∈ F.operands b i ∨ (v ≠ .inst b i ∧ LiveAt F U P v b (i + 1)) := by
  constructor
  · intro h
    cases h with
    | use _ hv => exact .inl hv
    | step _ hne h => exact .inr ⟨hne, h⟩
    | phiUse _ _ _ => omega
    | edge _ _ _ _ => omega
  · rintro (hv | ⟨hne, h⟩)
    · exact .use hi hv
    · exact .step hi hne h

/-- At the end of a block, liveness comes over its edges. -/
theorem liveAt_end : LiveAt F U P v b (F.len b) ↔ ∃ s, F.Edge b s ∧
    ((U b s ∧ v ∈ F.phiOperands b s) ∨ (P b s ∧ v ∉ F.phiValues s ∧ LiveAt F U P v s 0)) := by
  constructor
  · intro h
    generalize hi : F.len b = i at h
    cases h with
    | use h _ => omega
    | step h _ _ => omega
    | phiUse e hu hv => exact ⟨_, e, .inl ⟨hu, hv⟩⟩
    | edge e hp hn h => exact ⟨_, e, .inr ⟨hp, hn, h⟩⟩
  · rintro ⟨s, e, ⟨hu, hv⟩ | ⟨hp, hn, h⟩⟩
    · exact .phiUse e hu hv
    · exact .edge e hp hn h

/-! ## Strict SSA form -/

/-- The definition of `v` comes before the point on every path from the entry to it. -/
def Defined (F : Function) (v : Value) (b i : Nat) : Prop :=
  match v with
  | .inst d j => j < F.len d ∧ ((d = b ∧ j < i) ∨ (d ≠ b ∧ F.Dom d b))
  | .phi d j => j < (F.block d).phis.length ∧ F.Dom d b
  | _ => True

/-- Every reachable use is dominated by its definition; a phi use stands at the end of
    the incoming block. -/
structure StrictSSA (F : Function) : Prop where
  use : ∀ b i v, F.Reach b → i < F.len b → v ∈ F.operands b i → Defined F v b i
  phiUse : ∀ b s v, F.Reach b → F.Edge b s → v ∈ F.phiOperands b s → Defined F v b (F.len b)

theorem mem_phiValues {s : Nat} : v ∈ F.phiValues s ↔ ∃ j, j < (F.block s).phis.length ∧ v = .phi s j := by
  simp only [Function.phiValues, List.mem_map, List.mem_range]
  constructor
  · rintro ⟨j, hj, rfl⟩
    exact ⟨j, hj, rfl⟩
  · rintro ⟨j, hj, rfl⟩
    exact ⟨j, hj, rfl⟩

theorem Function.Reach.edge {s : Nat} (hb : F.Reach b) (e : F.Edge b s) : F.Reach s := Relation.ReflTransGen.tail hb e

theorem defined_edge {s : Nat} (e : F.Edge b s) (hn : v ∉ F.phiValues s) (h : Defined F v s 0) : Defined F v b (F.len b) := by
  cases v with
  | inst d j =>
    obtain ⟨hj, ⟨-, h0⟩ | ⟨hne, hd⟩⟩ := h
    · omega
    · refine ⟨hj, ?_⟩
      by_cases hdb : d = b
      · exact .inl ⟨hdb, hdb ▸ hj⟩
      · exact .inr ⟨hdb, dom_edge hd e (fun e' => hne e'.symm)⟩
  | phi d j =>
    refine ⟨h.1, dom_edge h.2 e ?_⟩
    rintro rfl
    exact hn (mem_phiValues.mpr ⟨j, h.1, rfl⟩)
  | _ => trivial

/-- What is live at a reachable point is defined before it. -/
theorem live_defined (hs : StrictSSA F) (h : LiveAt F U P v b i) (hb : F.Reach b) : Defined F v b i := by
  induction h with
  | use hi hv => exact hs.use _ _ _ hb hi hv
  | step hi hne _ ih =>
    have hd := ih hb
    cases v with
    | inst d j =>
      refine ⟨hd.1, ?_⟩
      rcases hd.2 with ⟨rfl, hj⟩ | hd'
      · refine .inl ⟨rfl, Nat.lt_of_le_of_ne (Nat.le_of_lt_succ hj) ?_⟩
        rintro rfl
        exact hne rfl
      · exact .inr hd'
    | phi d j => exact hd
    | _ => trivial
  | phiUse e _ hv => exact hs.phiUse _ _ _ hb e hv
  | edge e _ hn _ ih => exact defined_edge e hn (ih (hb.edge e))

/-! ## Loops -/

/-- `v` is defined in block `c`. -/
def DefinedIn (v : Value) (c : Nat) : Prop :=
  match v with
  | .inst d _ => d = c
  | .phi d _ => d = c
  | _ => False

/-- What is live into a header, other than its phis, is defined outside the loop. -/
theorem header_outside (hs : StrictSSA F) {h : Nat} (hl : F.NatLoop h h) (hn : v ∉ F.phiValues h)
    (hv : LiveAt F U P v h 0) {c : Nat} (hc : F.NatLoop h c) : ¬ DefinedIn v c := by
  have hd := live_defined hs hv hl.reach
  cases v with
  | inst d j =>
    rintro rfl
    obtain ⟨-, ⟨-, h0⟩ | ⟨hne, hdom⟩⟩ := hd
    · omega
    · exact hne (Dom.antisymm hl.reach hdom hc.dom)
  | phi d j =>
    rintro rfl
    have := Dom.antisymm hl.reach hd.2 hc.dom
    subst this
    exact hn (mem_phiValues.mpr ⟨j, hd.1, rfl⟩)
  | _ => exact id

theorem not_phi_of_not_definedIn {c : Nat} (h : ¬ DefinedIn v c) : v ∉ F.phiValues c := by
  rw [mem_phiValues]
  rintro ⟨j, -, rfl⟩
  exact h rfl

/-- A block that does not define `v` is transparent for it. -/
theorem live_through {c : Nat} (hd : ¬ DefinedIn v c) (h : LiveAt F U P v c (F.len c)) (n : Nat) :
    LiveAt F U P v c (F.len c - n) := by
  induction n with
  | zero => exact h
  | succ n ih =>
    by_cases hn : n < F.len c
    · refine .step (by omega) ?_ (by rwa [show F.len c - (n + 1) + 1 = F.len c - n by omega])
      rintro rfl
      exact hd rfl
    · rwa [show F.len c - (n + 1) = F.len c - n by omega]

theorem live_start {c : Nat} (hd : ¬ DefinedIn v c) (h : LiveAt F U P v c (F.len c)) : LiveAt F U P v c 0 := by
  have := live_through hd h (F.len c)
  rwa [Nat.sub_self] at this

/-- What is live into a header, other than its phis, is live out of every block of the loop. -/
theorem live_loop (hs : StrictSSA F) {h : Nat} (hl : F.NatLoop h h) (hn : v ∉ F.phiValues h)
    (hv : LiveAt F U (fun _ _ => True) v h 0) {c : Nat} (hc : F.NatLoop h c) :
    LiveAt F U (fun _ _ => True) v c (F.len c) := by
  refine NatLoop.induct (P := fun c => LiveAt F U (fun _ _ => True) v c (F.len c)) ?_ ?_ hc
  · intro l _ e
    exact .edge e trivial hn hv
  · intro a c _ hc _ e ih
    have hd := header_outside hs hl hn hv hc
    exact .edge e trivial (not_phi_of_not_definedIn hd) (live_start hd ih)

end Popcorn.Liveness
