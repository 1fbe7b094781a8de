/-
  Popcorn.Lib.FlowGraph — dominance and natural loops of a rooted graph.

  `Avoid E r d b` says that some path from the root `r` to `b` misses `d`; `d`
  dominates `b` when none does. The natural loop of `h` is `h` together with every
  reachable node that reaches, without passing `h`, the source of an edge into `h`
  whose source `h` dominates (a back edge).

  Proved: dominance is transitive, antisymmetric on reachable nodes, and total on the
  dominators of one node. A natural loop is dominated by its header (`NatLoop.dom`),
  is left towards the header without leaving the loop (`NatLoop.induct`), and two loops
  that share a node are nested (`NatLoop.nested`). In a graph whose retreating edges are
  back edges, mutually reachable nodes lie in one outermost loop (`cycle_loop`).
-/

import Mathlib.Logic.Relation
import Mathlib.Order.WellFounded
import Mathlib.Tactic.Common

namespace Popcorn.Lib

open Relation

variable {V : Type} {E : V → V → Prop} {r : V}

/-! ## Dominance -/

inductive Avoid (E : V → V → Prop) (r d : V) : V → Prop
  | root : r ≠ d → Avoid E r d r
  | step {a b : V} : Avoid E r d a → E a b → b ≠ d → Avoid E r d b

def Reach (E : V → V → Prop) (r b : V) : Prop := ReflTransGen E r b

/-- Every path from the root to `b` passes `d`. -/
def Dom (E : V → V → Prop) (r d b : V) : Prop := ¬ Avoid E r d b

theorem Avoid.ne {d b : V} (h : Avoid E r d b) : b ≠ d := by
  cases h with
  | root h => exact h
  | step _ _ h => exact h

theorem dom_refl (b : V) : Dom E r b b := fun h => h.ne rfl

theorem dom_edge {d a b : V} (h : Dom E r d b) (e : E a b) (hne : b ≠ d) : Dom E r d a := fun ha => h (.step ha e hne)

/-- Towards any reachable node, one of two distinct nodes comes without the other or
    both are missed. -/
theorem avoid_first {a b x : V} (hne : a ≠ b) (hx : Reach E r x) :
    Avoid E r a b ∨ Avoid E r b a ∨ (Avoid E r a x ∧ Avoid E r b x) := by
  induction hx with
  | refl =>
    by_cases ha : r = a
    · exact .inr (.inl (ha ▸ .root (ha ▸ hne)))
    by_cases hb : r = b
    · exact .inl (hb ▸ .root (fun e => hne (e ▸ hb)))
    exact .inr (.inr ⟨.root ha, .root hb⟩)
  | tail _ e ih =>
    rename_i x y _
    rcases ih with ih | ih | ⟨h1, h2⟩
    · exact .inl ih
    · exact .inr (.inl ih)
    by_cases ha : y = a
    · exact .inr (.inl (ha ▸ .step h2 e (ha ▸ hne)))
    by_cases hb : y = b
    · exact .inl (hb ▸ .step h1 e (fun e' => hne (e' ▸ hb)))
    exact .inr (.inr ⟨.step h1 e ha, .step h2 e hb⟩)

theorem Dom.antisymm {a b : V} (hb : Reach E r b) (h1 : Dom E r a b) (h2 : Dom E r b a) : a = b := by
  by_contra hne
  rcases avoid_first hne hb with h | h | ⟨h, -⟩
  · exact h1 h
  · exact h2 h
  · exact h1 h

/-- The dominators of one node are totally ordered. -/
theorem Dom.total {a c b : V} (hb : Reach E r b) (h1 : Dom E r a b) (h2 : Dom E r c b) : Dom E r a c ∨ Dom E r c a := by
  by_contra hn
  rw [not_or, Dom, Dom, not_not, not_not] at hn
  have key : Avoid E r a b ∨ Avoid E r c b := by
    clear h1 h2
    induction hb with
    | refl =>
      by_cases ha : r = a
      · exact .inr (ha ▸ hn.2)
      · exact .inl (.root ha)
    | tail _ e ih =>
      rename_i x y _
      by_cases ha : y = a
      · exact .inr (ha ▸ hn.2)
      by_cases hc : y = c
      · exact .inl (hc ▸ hn.1)
      rcases ih with ih | ih
      · exact .inl (.step ih e ha)
      · exact .inr (.step ih e hc)
  rcases key with h | h
  · exact h1 h
  · exact h2 h

/-! ## Natural loops -/

/-- An edge to a dominator of its source. -/
structure BackEdge (E : V → V → Prop) (r l h : V) : Prop where
  reach : Reach E r l
  edge : E l h
  dom : Dom E r h l

/-- A path whose nodes after the first miss `h`. -/
def Inside (E : V → V → Prop) (h : V) : V → V → Prop := ReflTransGen fun a b => E a b ∧ b ≠ h

structure NatLoop (E : V → V → Prop) (r h c : V) : Prop where
  reach : Reach E r c
  latch : ∃ l, BackEdge E r l h ∧ (c = h ∨ (c ≠ h ∧ Inside E h c l))

theorem BackEdge.reach_header {l h : V} (b : BackEdge E r l h) : Reach E r h := .tail b.reach b.edge

theorem BackEdge.header_mem {l h : V} (b : BackEdge E r l h) : NatLoop E r h h := ⟨b.reach_header, l, b, .inl rfl⟩

theorem BackEdge.latch_mem {l h : V} (b : BackEdge E r l h) : NatLoop E r h l := by
  refine ⟨b.reach, l, b, ?_⟩
  by_cases e : l = h
  · exact .inl e
  · exact .inr ⟨e, .refl⟩

theorem NatLoop.header_mem {h c : V} (hc : NatLoop E r h c) : NatLoop E r h h := by
  obtain ⟨l, b, -⟩ := hc.latch
  exact b.header_mem

theorem avoid_inside {h c l : V} (hc : Avoid E r h c) (hp : Inside E h c l) : Avoid E r h l := by
  induction hp with
  | refl => exact hc
  | tail _ e ih => exact .step ih e.1 e.2

/-- The header dominates its loop. -/
theorem NatLoop.dom {h c : V} (hc : NatLoop E r h c) : Dom E r h c := by
  obtain ⟨l, b, rfl | ⟨-, hp⟩⟩ := hc.latch
  · exact dom_refl _
  · intro ha
    exact b.dom (avoid_inside ha hp)

/-- A predecessor of a loop node other than the header is in the loop. -/
theorem NatLoop.pred {h a c : V} (hc : NatLoop E r h c) (hne : c ≠ h) (ha : Reach E r a) (e : E a c) : NatLoop E r h a := by
  obtain ⟨l, b, rfl | ⟨-, hp⟩⟩ := hc.latch
  · exact absurd rfl hne
  · refine ⟨ha, l, b, ?_⟩
    by_cases heq : a = h
    · exact .inl heq
    · exact .inr ⟨heq, .head ⟨e, hne⟩ hp⟩

/-- From a dominator, a path to the dominated node that does not come back. -/
theorem dom_path {h x : V} (hx : Reach E r x) (hd : Dom E r h x) : x = h ∨ ∃ y, E h y ∧ y ≠ h ∧ Inside E h y x := by
  have key : Avoid E r h x ∨ x = h ∨ ∃ y, E h y ∧ y ≠ h ∧ Inside E h y x := by
    clear hd
    induction hx with
    | refl =>
      by_cases e : r = h
      · exact .inr (.inl e)
      · exact .inl (.root e)
    | tail _ e ih =>
      rename_i a b _
      by_cases hb : b = h
      · exact .inr (.inl hb)
      rcases ih with ih | ih | ⟨y, e1, hy, hp⟩
      · exact .inl (.step ih e hb)
      · exact .inr (.inr ⟨b, ih ▸ e, hb, .refl⟩)
      · exact .inr (.inr ⟨y, e1, hy, .tail hp ⟨e, hb⟩⟩)
  rcases key with h' | h'
  · exact absurd h' hd
  · exact h'

theorem inside_loop {h c l : V} (b : BackEdge E r l h) (hc : Reach E r c) (hne : c ≠ h) (hp : Inside E h c l) :
    NatLoop E r h c := ⟨hc, l, b, .inr ⟨hne, hp⟩⟩

/-- What holds before every edge into the header and is carried backwards over the
    loop's own edges holds everywhere in the loop. -/
theorem NatLoop.induct {h : V} {P : V → Prop} (hlatch : ∀ l, NatLoop E r h l → E l h → P l)
    (hstep : ∀ a c, NatLoop E r h a → NatLoop E r h c → c ≠ h → E a c → P c → P a) {c : V} (hc : NatLoop E r h c) : P c := by
  obtain ⟨l, b, hcase⟩ := hc.latch
  have hpath : ∀ c, Reach E r c → c ≠ h → Inside E h c l → P c := by
    intro c hr hne hp
    induction hp using ReflTransGen.head_induction_on with
    | refl => exact hlatch l b.latch_mem b.edge
    | head e hp ih =>
      rename_i a c'
      have hc' : Reach E r c' := .tail hr e.1
      have hl' := inside_loop b hc' e.2 hp
      exact hstep a c' (inside_loop b hr hne (.head e hp)) hl' e.2 e.1 (ih hc' e.2)
  rcases hcase with rfl | ⟨hne, hp⟩
  · -- the header itself: on to the latch without coming back
    rcases dom_path b.reach b.dom with rfl | ⟨y, e, hy, hp⟩
    · exact hlatch _ b.latch_mem b.edge
    · have hry : Reach E r y := .tail b.reach_header e
      exact hstep _ y b.header_mem (inside_loop b hry hy hp) hy e (hpath y hry hy hp)
  · exact hpath c hc.reach hne hp

/-- Every loop node reaches the header. -/
theorem NatLoop.reach_header {h c : V} (hc : NatLoop E r h c) : ReflTransGen E c h := by
  refine hc.induct (P := fun c => ReflTransGen E c h) ?_ ?_
  · intro l _ e
    exact .single e
  · intro a c _ _ _ e hp
    exact .head e hp

theorem inside_reach {h a b : V} (hp : Inside E h a b) : ReflTransGen E a b := by
  induction hp with
  | refl => exact .refl
  | tail _ e ih => exact .tail ih e.1

/-- The header reaches every loop node. -/
theorem NatLoop.header_reach {h c : V} (hc : NatLoop E r h c) : ReflTransGen E h c := by
  rcases dom_path hc.reach hc.dom with rfl | ⟨y, e, -, hp⟩
  · exact .refl
  · exact .head e (inside_reach hp)

/-- Two headers: the outer loop contains the whole inner one. -/
theorem NatLoop.subset {h h' c : V} (hh : NatLoop E r h' h) (hc : NatLoop E r h c) : NatLoop E r h' c := by
  by_cases heq : h = h'
  · exact heq ▸ hc
  have hout : ¬ NatLoop E r h h' := fun hc' => heq (Dom.antisymm hh.header_mem.reach hc'.dom hh.dom)
  refine hc.induct ?_ ?_
  · intro l hl e
    exact hh.pred heq hl.reach e
  · intro a c ha hc _ e ih
    exact ih.pred (fun e' => hout (e' ▸ hc)) ha.reach e

/-- A loop whose header is dominated by another loop's header, with which it shares a
    node, lies inside that loop. -/
theorem NatLoop.header_mem_of_dom {h h' c : V} (hd : Dom E r h h') (h1 : NatLoop E r h c) (h2 : NatLoop E r h' c) :
    NatLoop E r h h' := by
  by_cases heq : h' = h
  · exact heq ▸ h1.header_mem
  rcases dom_path h2.reach h2.dom with rfl | ⟨y, e, hy, hp⟩
  · exact h1
  have hout : ¬ NatLoop E r h' h := fun hl => heq (Dom.antisymm h1.header_mem.reach hl.dom hd)
  -- back from the shared node to `h'`, staying in the loop of `h'` and so off `h`
  have key : ∀ x, Inside E h' x c → Reach E r x → x ≠ h' → NatLoop E r h' x ∧ NatLoop E r h x := by
    intro x hp
    induction hp using ReflTransGen.head_induction_on with
    | refl => intro _ _; exact ⟨h2, h1⟩
    | head e _ ih =>
      intro hr hne
      obtain ⟨hb2, hb1⟩ := ih (.tail hr e.1) e.2
      exact ⟨hb2.pred e.2 hr e.1, hb1.pred (fun e' => hout (e' ▸ hb2)) hr e.1⟩
  obtain ⟨hy2, hy1⟩ := key y hp (.tail h2.header_mem.reach e) hy
  exact hy1.pred (fun e' => hout (e' ▸ hy2)) h2.header_mem.reach e

/-- Two natural loops that share a node are nested. -/
theorem NatLoop.nested {h h' c : V} (h1 : NatLoop E r h c) (h2 : NatLoop E r h' c) : NatLoop E r h h' ∨ NatLoop E r h' h := by
  rcases Dom.total h1.reach h1.dom h2.dom with hd | hd
  · exact .inl (NatLoop.header_mem_of_dom hd h1 h2)
  · exact .inr (NatLoop.header_mem_of_dom hd h2 h1)

/-! ## Cycles -/

/-- The first arrival at `e`. -/
theorem first_arrival {x e : V} (hp : ReflTransGen E x e) (hne : x ≠ e) : ∃ w, Inside E e x w ∧ E w e := by
  induction hp using ReflTransGen.head_induction_on with
  | refl => exact absurd rfl hne
  | @head a b ed _ ih =>
    by_cases hb : b = e
    · exact ⟨a, .refl, hb ▸ ed⟩
    · obtain ⟨w, hw, hwe⟩ := ih hb
      exact ⟨w, .head ⟨ed, hb⟩ hw, hwe⟩

/-- When every edge that does not go down in `rank` is a back edge, two mutually
    reachable loop headers lie in one loop: that of the highest node of their cycle. -/
theorem cycle_loop {rank : V → Nat} {N : Nat} (hN : ∀ x, Reach E r x → rank x ≤ N)
    (hdown : ∀ a b, Reach E r a → E a b → rank b < rank a ∨ Dom E r b a) {a b : V} (ha : NatLoop E r a a)
    (hab : ReflTransGen E a b) (hba : ReflTransGen E b a) : ∃ e, NatLoop E r e a ∧ NatLoop E r e b := by
  obtain ⟨e, ⟨hae, hea⟩, hmax⟩ : ∃ e, (ReflTransGen E a e ∧ ReflTransGen E e a) ∧
      ∀ x, ReflTransGen E a x → ReflTransGen E x a → rank x ≤ rank e := by
    obtain ⟨e, he, hmin⟩ := (measure fun x => N - rank x).wf.has_min
      {x | ReflTransGen E a x ∧ ReflTransGen E x a} ⟨a, .refl, .refl⟩
    refine ⟨e, he, ?_⟩
    intro x hx1 hx2
    have h1 := hmin x ⟨hx1, hx2⟩
    have h2 := hN x (ha.reach.trans hx1)
    have h3 : ¬ N - rank x < N - rank e := h1
    omega
  -- an edge of the cycle into the highest node is a back edge
  have hback : ∀ w, ReflTransGen E a w → E w e → BackEdge E r w e := by
    intro w hw he
    have hr : Reach E r w := ha.reach.trans hw
    refine ⟨hr, he, ?_⟩
    rcases hdown w e hr he with h | h
    · have := hmax w hw (.head he hea)
      omega
    · exact h
  have hmem : ∀ x, x ≠ e → ReflTransGen E a x → ReflTransGen E x a → NatLoop E r e x := by
    intro x hne hx1 hx2
    obtain ⟨w, hw, he⟩ := first_arrival (hx2.trans hae) hne
    exact inside_loop (hback w (hx1.trans (inside_reach hw)) he) (ha.reach.trans hx1) hne hw
  have hself : ∀ x, x = e → NatLoop E r e x := by
    rintro x rfl
    by_cases hax : a = x
    · exact hax ▸ ha
    · exact (hmem a hax .refl .refl).header_mem
  refine ⟨e, ?_, ?_⟩
  · by_cases h : a = e
    · exact hself a h
    · exact hmem a h .refl .refl
  · by_cases h : b = e
    · exact hself b h
    · exact hmem b h hab hba

end Popcorn.Lib
