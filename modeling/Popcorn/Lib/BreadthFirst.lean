/-
  Popcorn.Lib.BreadthFirst — breadth-first traversal of a tree.

  `bfs kids fuel queue` takes nodes from the front of a queue and puts each node's
  children at its end; it is `none` when the fuel runs out first.

  Proved, for a root whose descendants have one parent each and lie in a list: with
  fuel for that list the traversal ends, visits every descendant once, and every node
  before its children (`bfs_tree`). More fuel changes nothing (`bfs_fuel`).
-/

import Mathlib.Data.List.Basic
import Mathlib.Data.List.Nodup
import Mathlib.Data.List.Perm.Subperm
import Mathlib.Logic.Relation
import Mathlib.Tactic.Common

namespace Popcorn.Lib

open Relation

variable {α β : Type}

def bfs (kids : α → List α) : Nat → List α → Option (List α)
  | _, [] => some []
  | 0, _ :: _ => none
  | fuel + 1, x :: queue => (bfs kids fuel (queue ++ kids x)).map (x :: ·)

@[simp] theorem bfs_nil (kids : α → List α) (fuel : Nat) : bfs kids fuel [] = some [] := by
  cases fuel <;> rfl

theorem bfs_cons {kids : α → List α} {fuel : Nat} {x : α} {queue xs : List α} (h : bfs kids fuel (x :: queue) = some xs) :
    ∃ fuel' ys, fuel = fuel' + 1 ∧ bfs kids fuel' (queue ++ kids x) = some ys ∧ xs = x :: ys := by
  cases fuel with
  | zero => cases h
  | succ fuel =>
    rw [bfs, Option.map_eq_some_iff] at h
    obtain ⟨ys, hys, rfl⟩ := h
    exact ⟨fuel, ys, rfl, hys, rfl⟩

/-- Fuel beyond the number of nodes visited changes nothing. -/
theorem bfs_fuel {kids : α → List α} {m : Nat} : ∀ {n : Nat} {queue xs : List α}, bfs kids n queue = some xs →
    xs.length ≤ m → bfs kids m queue = some xs := by
  induction m with
  | zero =>
    intro n queue xs h hm
    obtain rfl := List.eq_nil_of_length_eq_zero (Nat.le_zero.mp hm)
    cases queue with
    | nil => rfl
    | cons x queue =>
      obtain ⟨_, _, -, -, he⟩ := bfs_cons h
      cases he
  | succ m ih =>
    intro n queue xs h hm
    cases queue with
    | nil => simpa using h
    | cons x queue =>
      obtain ⟨n', ys, rfl, hys, rfl⟩ := bfs_cons h
      rw [bfs, ih hys (by simpa using hm)]
      rfl

/-- A traversal visits its queue, and the children of every node it visits. -/
theorem bfs_closed {kids : α → List α} : ∀ {fuel : Nat} {queue xs : List α}, bfs kids fuel queue = some xs →
    (∀ x ∈ queue, x ∈ xs) ∧ ∀ x ∈ xs, ∀ c ∈ kids x, c ∈ xs := by
  intro fuel
  induction fuel with
  | zero =>
    intro queue xs h
    cases queue with
    | nil => cases h; simp
    | cons x queue => cases h
  | succ fuel ih =>
    intro queue xs h
    cases queue with
    | nil => cases h; simp
    | cons y queue =>
      obtain ⟨_, ys, hf, hys, rfl⟩ := bfs_cons h
      cases hf
      obtain ⟨h1, h2⟩ := ih hys
      refine ⟨?_, ?_⟩
      · intro x hx
        rcases List.mem_cons.mp hx with rfl | hx
        · simp
        · simp [h1 x (by simp [hx])]
      · intro x hx c hc
        rcases List.mem_cons.mp hx with rfl | hx
        · simp [h1 c (by simp [hc])]
        · simp [h2 x hx c hc]

/-! ## Trees -/

/-- `b` is a child of `a`. -/
def Child (kids : α → List α) (a b : α) : Prop := b ∈ kids a

/-- `b` is `a` or below it. -/
def Under (kids : α → List α) : α → α → Prop := ReflTransGen (Child kids)

/-- Below the root every node has one parent, which lists it once. -/
structure IsTree (kids : α → List α) (root : α) : Prop where
  nodup : ∀ x, Under kids root x → (kids x).Nodup
  parent : ∀ x y c, Under kids root x → Under kids root y → c ∈ kids x → c ∈ kids y → x = y
  root : ∀ x, Under kids root x → root ∉ kids x

variable [DecidableEq α] {kids : α → List α} {root : α}

/-- The traversal between two steps: `all` holds the nodes visited and then the queue. -/
structure Visiting (kids : α → List α) (root : α) (done all : List α) : Prop where
  nodup : all.Nodup
  root_mem : root ∈ all
  under : ∀ x ∈ all, Under kids root x
  closed : ∀ x ∈ done, ∀ c ∈ kids x, c ∈ all ∧ all.idxOf x < all.idxOf c
  parent : ∀ c ∈ all, c = root ∨ ∃ x ∈ done, c ∈ kids x

theorem Visiting.step (ht : IsTree kids root) {done queue : List α} {x : α}
    (h : Visiting kids root done (done ++ x :: queue)) :
    Visiting kids root (done ++ [x]) (done ++ [x] ++ (queue ++ kids x)) := by
  have hall : done ++ [x] ++ (queue ++ kids x) = (done ++ x :: queue) ++ kids x := by simp
  rw [hall]
  have hx : x ∈ done ++ x :: queue := by simp
  have hux := h.under x hx
  have hnd : x ∉ done := by
    intro hd
    exact List.disjoint_of_nodup_append h.nodup hd (by simp)
  -- a child of `x` is new: its only parent was not visited before
  have hfresh : ∀ c ∈ kids x, c ∉ done ++ x :: queue := by
    intro c hc hm
    rcases h.parent c hm with rfl | ⟨y, hy, hcy⟩
    · exact ht.root x hux hc
    · have hyx := ht.parent y x c (h.under y (by simp [hy])) hux hcy hc
      exact hnd (hyx ▸ hy)
  refine ⟨?_, ?_, ?_, ?_, ?_⟩
  · refine List.Nodup.append h.nodup (ht.nodup x hux) ?_
    intro c hm hc
    exact hfresh c hc hm
  · exact List.mem_append_left _ h.root_mem
  · intro c hc
    rcases List.mem_append.mp hc with hc | hc
    · exact h.under c hc
    · exact hux.tail hc
  · intro y hy c hc
    rcases List.mem_append.mp hy with hy | hy
    · obtain ⟨hm, hlt⟩ := h.closed y hy c hc
      have hym : y ∈ done ++ x :: queue := by simp [hy]
      rw [List.idxOf_append_of_mem hm, List.idxOf_append_of_mem hym]
      exact ⟨List.mem_append_left _ hm, hlt⟩
    · obtain rfl := List.mem_singleton.mp hy
      rw [List.idxOf_append_of_mem hx, List.idxOf_append_of_notMem (hfresh c hc)]
      have := List.idxOf_lt_length_iff.mpr hx
      exact ⟨List.mem_append_right _ hc, by omega⟩
  · intro c hc
    rcases List.mem_append.mp hc with hc | hc
    · rcases h.parent c hc with rfl | ⟨y, hy, hcy⟩
      · exact .inl rfl
      · exact .inr ⟨y, by simp [hy], hcy⟩
    · exact .inr ⟨x, by simp, hc⟩

theorem Visiting.run (ht : IsTree kids root) {univ : List α} (hu : ∀ x, Under kids root x → x ∈ univ) :
    ∀ (fuel : Nat) (done queue : List α), univ.length ≤ done.length + fuel → Visiting kids root done (done ++ queue) →
      ∃ xs, bfs kids fuel queue = some xs ∧ Visiting kids root (done ++ xs) (done ++ xs) := by
  have hroom : ∀ {done all : List α}, Visiting kids root done all → all.length ≤ univ.length := by
    intro done all h
    exact (h.nodup.subperm fun x hx => hu x (h.under x hx)).length_le
  intro fuel
  induction fuel with
  | zero =>
    intro done queue hfuel h
    have := hroom h
    cases queue with
    | nil => exact ⟨[], rfl, by simpa using h⟩
    | cons x queue =>
      simp only [List.length_append, List.length_cons] at this
      omega
  | succ fuel ih =>
    intro done queue hfuel h
    cases queue with
    | nil => exact ⟨[], rfl, by simpa using h⟩
    | cons x queue =>
      obtain ⟨xs, hxs, hv⟩ := ih (done ++ [x]) (queue ++ kids x) (by simp; omega) (h.step ht)
      refine ⟨x :: xs, by rw [bfs, hxs]; rfl, ?_⟩
      simpa using hv

/-- The traversal of a tree visits every node once and parents before their children. -/
theorem bfs_tree (ht : IsTree kids root) {univ : List α} (hu : ∀ x, Under kids root x → x ∈ univ) {fuel : Nat}
    (hfuel : univ.length ≤ fuel) : ∃ xs, bfs kids fuel [root] = some xs ∧ xs.Nodup ∧ (∀ x, x ∈ xs ↔ Under kids root x) ∧
      ∀ x ∈ xs, ∀ c ∈ kids x, xs.idxOf x < xs.idxOf c := by
  have h0 : Visiting kids root [] ([] ++ [root]) := by
    refine ⟨by simp, by simp, ?_, by simp, ?_⟩
    · intro x hx
      obtain rfl := List.mem_singleton.mp hx
      exact .refl
    · intro c hc
      exact .inl (List.mem_singleton.mp hc)
  obtain ⟨xs, hxs, hv⟩ := Visiting.run ht hu fuel [] [root] (by simpa using hfuel) h0
  simp only [List.nil_append] at hv
  refine ⟨xs, hxs, hv.nodup, ?_, fun x hx c hc => (hv.closed x hx c hc).2⟩
  intro x
  constructor
  · exact hv.under x
  · intro hx
    induction hx with
    | refl => exact hv.root_mem
    | tail _ hc ih => exact (hv.closed _ ih _ hc).1

end Popcorn.Lib
