/-
  Popcorn.Lib.Linked — doubly linked lists.

  `prev` and `next` read the two links of a node; they give nothing at an address that is
  no node, and null ends the list on both sides. `Linked` is stated over the nodes with
  null in front and behind, so that the first and the last node need no cases of their
  own. `Follows` is a walk along one of the links.

  An edit touches the links at one seam: `Linked.remove` takes a node out and
  `Linked.append` puts one at the end, whatever the links were changed to elsewhere.
-/

import Mathlib.Data.List.Chain
import Mathlib.Tactic.Common

namespace Popcorn.Lib

variable {α : Type} {null : α} {prev next prev' next' : α → Option α}

/-- Of two neighbours, each that is a node points at the other. -/
def Joined (null : α) (prev next : α → Option α) (a b : α) : Prop :=
  (a ≠ null → next a = some b) ∧ (b ≠ null → prev b = some a)

/-- The nodes of a list, in order. -/
def Linked (null : α) (prev next : α → Option α) (xs : List α) : Prop := (null :: xs ++ [null]).IsChain (Joined null prev next)

/-- Following `step` from `a` goes through `xs` and ends at null. -/
def Follows (null : α) (step : α → Option α) : α → List α → Prop
  | a, [] => a = null
  | a, x :: xs => a = x ∧ a ≠ null ∧ ∃ b, step a = some b ∧ Follows null step b xs

/-! ## Walks -/

theorem Follows.unique {step : α → Option α} : ∀ {xs ys : List α} {a : α}, Follows null step a xs → Follows null step a ys → xs = ys
  | [], [], _, _, _ => rfl
  | [], _ :: _, _, h, h' => absurd h h'.2.1
  | _ :: _, [], _, h, h' => absurd h' h.2.1
  | _ :: _, _ :: _, _, ⟨rfl, _, b, hb, h⟩, ⟨rfl, _, c, hc, h'⟩ => by
    rw [hb, Option.some.injEq] at hc
    subst hc
    rw [h.unique h']

theorem head_append (null : α) (xs : List α) : ∃ rest, xs ++ [null] = xs.headD null :: rest := by
  cases xs with
  | nil => exact ⟨[], rfl⟩
  | cons x xs => exact ⟨xs ++ [null], rfl⟩

theorem last_cons (null : α) (xs : List α) : ∃ front, null :: xs = front ++ [xs.getLastD null] := by
  cases xs using List.reverseRecOn with
  | nil => exact ⟨[], rfl⟩
  | append_singleton xs x => exact ⟨null :: xs, by simp⟩

theorem chain_follows {xs : List α} (h : (xs ++ [null]).IsChain (Joined null prev next)) (h0 : null ∉ xs) :
    Follows null next (xs.headD null) xs := by
  induction xs with
  | nil => rfl
  | cons x xs ih =>
    rw [List.mem_cons, not_or] at h0
    obtain ⟨rest, hrest⟩ := head_append null xs
    rw [List.cons_append, hrest, List.isChain_cons_cons, ← hrest] at h
    exact ⟨rfl, Ne.symm h0.1, _, h.1.1 (Ne.symm h0.1), ih h.2 h0.2⟩

theorem Linked.reverse {xs : List α} (h : Linked null prev next xs) : Linked null next prev xs.reverse := by
  have hrev : null :: xs.reverse ++ [null] = (null :: xs ++ [null]).reverse := by simp
  unfold Linked
  rw [hrev, List.isChain_reverse]
  exact h.imp fun a b hab => ⟨hab.2, hab.1⟩

theorem Linked.follows_next {xs : List α} (h : Linked null prev next xs) (h0 : null ∉ xs) :
    Follows null next (xs.headD null) xs := chain_follows (List.IsChain.tail h) h0

theorem Linked.follows_prev {xs : List α} (h : Linked null prev next xs) (h0 : null ∉ xs) :
    Follows null prev (xs.getLastD null) xs.reverse := by
  have := h.reverse.follows_next (by simpa using h0)
  rwa [List.headD_eq_head?_getD, List.head?_reverse, ← List.getLastD_eq_getLast?] at this

/-- The links of a node. -/
theorem Linked.links {pre post : List α} {x : α} (h : Linked null prev next (pre ++ x :: post)) (hx : x ≠ null) :
    next x = some (post.headD null) ∧ prev x = some (pre.getLastD null) := by
  obtain ⟨front, hfront⟩ := last_cons null pre
  obtain ⟨rest, hrest⟩ := head_append null post
  have heq : null :: (pre ++ x :: post) ++ [null] = front ++ pre.getLastD null :: x :: post.headD null :: rest := by
    rw [← hrest, ← List.cons_append, hfront]
    simp
  unfold Linked at h
  rw [heq, List.isChain_append_cons_cons, List.isChain_cons_cons] at h
  exact ⟨h.2.2.1.1 hx, h.2.1.2 hx⟩

/-! ## Edits -/

/-- A chain of neighbours depends on the `next` of all but the last and the `prev` of all but the first. -/
theorem joined_congr {l : List α} (h : l.IsChain (Joined null prev next))
    (hnext : ∀ y ∈ l.dropLast, y ≠ null → next' y = next y) (hprev : ∀ y ∈ l.tail, y ≠ null → prev' y = prev y) :
    l.IsChain (Joined null prev' next') := by
  induction l with
  | nil => exact .nil
  | cons a l ih =>
    cases l with
    | nil => exact .singleton a
    | cons b l =>
      rw [List.isChain_cons_cons] at h ⊢
      refine ⟨⟨fun ha => ?_, fun hb => ?_⟩, ih h.2 (fun y hy => hnext y (by simp [hy])) fun y hy => hprev y (by simp_all)⟩
      · rw [hnext a (by simp) ha, h.1.1 ha]
      · rw [hprev b (by simp) hb, h.1.2 hb]

theorem mem_front {pre front : List α} (h : null :: pre = front ++ [pre.getLastD null]) (hnd : pre.Nodup) {y : α} (hy : y ∈ front)
    (h0 : y ≠ null) : y ∈ pre ∧ y ≠ pre.getLastD null := by
  cases pre using List.reverseRecOn with
  | nil =>
    have hf : front = [] := List.append_cancel_right (h.symm.trans (List.nil_append _).symm)
    rw [hf] at hy
    cases hy
  | append_singleton xs x =>
    rw [List.getLastD_concat] at h ⊢
    have hf : null :: xs = front := List.append_cancel_right h
    rw [← hf, List.mem_cons, or_iff_right h0] at hy
    rw [List.nodup_append] at hnd
    exact ⟨List.mem_append_left _ hy, hnd.2.2 y hy x (by simp)⟩

theorem mem_rest {post rest : List α} (h : post ++ [null] = post.headD null :: rest) (hnd : post.Nodup) {y : α} (hy : y ∈ rest)
    (h0 : y ≠ null) : y ∈ post ∧ y ≠ post.headD null := by
  cases post with
  | nil =>
    rw [← (List.cons.inj h).2] at hy
    cases hy
  | cons x xs =>
    rw [List.cons_append, List.headD_cons] at h
    rw [← (List.cons.inj h).2, List.mem_append, List.mem_singleton, or_iff_left h0] at hy
    rw [List.nodup_cons] at hnd
    refine ⟨List.mem_cons_of_mem _ hy, ?_⟩
    rintro rfl
    exact hnd.1 hy

theorem headD_mem {xs : List α} (h : xs.headD null ≠ null) : xs.headD null ∈ xs := by
  cases xs with
  | nil => exact absurd rfl h
  | cons x xs => exact List.mem_cons_self

theorem getLastD_mem {xs : List α} (h : xs.getLastD null ≠ null) : xs.getLastD null ∈ xs :=
  (List.mem_cons.mp List.getLastD_mem_cons).resolve_left h

theorem headD_append {xs : List α} (ys : List α) (h : xs ≠ []) : (xs ++ ys).headD null = xs.headD null := by
  cases xs with
  | nil => exact absurd rfl h
  | cons x xs => rfl

theorem getLastD_append (xs : List α) {ys : List α} (h : ys ≠ []) : (xs ++ ys).getLastD null = ys.getLastD null := by
  obtain ⟨front, y, rfl⟩ := (List.eq_nil_or_concat' ys).resolve_left h
  rw [← List.append_assoc, List.getLastD_concat, List.getLastD_concat]

/-- Taking a node out: its neighbours point at each other, the other links are as they were. -/
theorem Linked.remove {pre post : List α} {x : α} (h : Linked null prev next (pre ++ x :: post)) (hnd : (pre ++ x :: post).Nodup)
    (hp : pre.getLastD null ≠ null → next' (pre.getLastD null) = some (post.headD null))
    (hn : post.headD null ≠ null → prev' (post.headD null) = some (pre.getLastD null))
    (hnext : ∀ y ∈ pre ++ post, y ≠ null → y ≠ pre.getLastD null → next' y = next y)
    (hprev : ∀ y ∈ pre ++ post, y ≠ null → y ≠ post.headD null → prev' y = prev y) : Linked null prev' next' (pre ++ post) := by
  obtain ⟨front, hfront⟩ := last_cons null pre
  obtain ⟨rest, hrest⟩ := head_append null post
  have hold : null :: (pre ++ x :: post) ++ [null] = front ++ pre.getLastD null :: x :: post.headD null :: rest := by
    rw [← hrest, ← List.cons_append, hfront]
    simp
  have hnew : null :: (pre ++ post) ++ [null] = front ++ pre.getLastD null :: post.headD null :: rest := by
    rw [← hrest, ← List.cons_append, hfront]
    simp
  unfold Linked at h ⊢
  rw [hold, List.isChain_append_cons_cons, List.isChain_cons_cons] at h
  rw [hnew, List.isChain_append_cons_cons]
  have hnd' := (List.nodup_append.mp hnd)
  have hdisj : ∀ a ∈ pre, ∀ b ∈ post, a ≠ b := fun a ha b hb => hnd'.2.2 a ha b (List.mem_cons_of_mem _ hb)
  refine ⟨joined_congr h.1 ?_ ?_, ⟨hp, hn⟩, joined_congr h.2.2.2 ?_ ?_⟩
  · intro y hy h0
    rw [List.dropLast_concat] at hy
    obtain ⟨hm, hne⟩ := mem_front hfront hnd'.1 hy h0
    exact hnext y (List.mem_append_left _ hm) h0 hne
  · intro y hy h0
    rw [← hfront, List.tail_cons] at hy
    refine hprev y (List.mem_append_left _ hy) h0 fun e => ?_
    exact hdisj y hy y (e ▸ headD_mem (e ▸ h0)) rfl
  · intro y hy h0
    rw [← hrest, List.dropLast_concat] at hy
    refine hnext y (List.mem_append_right _ hy) h0 fun e => ?_
    exact hdisj y (e ▸ getLastD_mem (e ▸ h0)) y hy rfl
  · intro y hy h0
    obtain ⟨hm, hne⟩ := mem_rest hrest (List.nodup_cons.mp hnd'.2.1).2 hy h0
    exact hprev y (List.mem_append_right _ hm) h0 hne

/-- Putting a node at the end: it and the last one point at each other, the other links are as they were. -/
theorem Linked.append {xs : List α} {a : α} (h : Linked null prev next xs) (hnd : xs.Nodup)
    (hp : xs.getLastD null ≠ null → next' (xs.getLastD null) = some a) (ha : prev' a = some (xs.getLastD null))
    (ha' : next' a = some null) (hnext : ∀ y ∈ xs, y ≠ null → y ≠ xs.getLastD null → next' y = next y)
    (hprev : ∀ y ∈ xs, y ≠ null → prev' y = prev y) : Linked null prev' next' (xs ++ [a]) := by
  obtain ⟨front, hfront⟩ := last_cons null xs
  have hold : null :: xs ++ [null] = front ++ xs.getLastD null :: null :: [] := by
    rw [hfront]
    simp
  have hnew : null :: (xs ++ [a]) ++ [null] = front ++ xs.getLastD null :: a :: null :: [] := by
    rw [← List.cons_append, hfront]
    simp
  unfold Linked at h ⊢
  rw [hold, List.isChain_append_cons_cons] at h
  rw [hnew, List.isChain_append_cons_cons, List.isChain_pair]
  refine ⟨joined_congr h.1 ?_ ?_, ⟨hp, fun _ => ha⟩, fun _ => ha', fun e => absurd rfl e⟩
  · intro y hy h0
    rw [List.dropLast_concat] at hy
    obtain ⟨hm, hne⟩ := mem_front hfront hnd hy h0
    exact hnext y hm h0 hne
  · intro y hy h0
    rw [← hfront, List.tail_cons] at hy
    exact hprev y hy h0

end Popcorn.Lib
