/-
  Popcorn.Lib.NameTable — the names in use in a program being compiled.

  A value is given a name; where another value has the name already, the table adds a number.
  Nothing else is relied on (`Lawful`); `numbered` is such a table.

  Proved: `renames_nodup`: values given one name after the other, each giving up its old one,
  end up with different names.
-/

import Mathlib.Data.Finite.Defs
import Mathlib.Data.Set.Finite.Basic
import Mathlib.Tactic.Common

namespace Popcorn.Lib

abbrev Name := List Char

structure NameTable (σ : Type) where
  uses : σ → Name → Prop
  /-- The value that has the first name, or none if that is empty, is to have the second. -/
  setName : σ → Name → Name → Name × σ

namespace NameTable

variable {σ : Type}

/-- Another value has the name. -/
def Taken (T : NameTable σ) (s : σ) (old name : Name) : Prop := T.uses s name ∧ name ≠ old

structure Lawful (T : NameTable σ) : Prop where
  number : ∀ s old name, ∃ digits, (∀ c ∈ digits, c.isDigit = true) ∧ (T.setName s old name).1 = name ++ digits
  free : ∀ s old name, ¬ T.Taken s old name → (T.setName s old name).1 = name
  fresh : ∀ s old name, ¬ T.Taken s old (T.setName s old name).1
  after : ∀ s old name n, T.uses (T.setName s old name).2 n ↔ n = (T.setName s old name).1 ∨ T.Taken s old n

/-- Old and new names of the values renamed, in order. -/
def renames (T : NameTable σ) : σ → List (Name × Name) → List Name
  | _, [] => []
  | s, (old, name) :: rest => (T.setName s old name).1 :: T.renames (T.setName s old name).2 rest

/-- The old names are in use and differ; a value may have none. -/
structure Valid (T : NameTable σ) (s : σ) (values : List (Name × Name)) : Prop where
  uses : ∀ p ∈ values, p.1 ≠ [] → T.uses s p.1
  distinct : values.Pairwise fun p q => p.1 ≠ [] → p.1 ≠ q.1
  named : ∀ p ∈ values, p.2 ≠ []

variable {T : NameTable σ}

theorem Lawful.ne_nil (hT : T.Lawful) (s : σ) (old : Name) {name : Name} (h : name ≠ []) : (T.setName s old name).1 ≠ [] := by
  obtain ⟨digits, -, heq⟩ := hT.number s old name
  rw [heq]
  exact List.append_ne_nil_of_left_ne_nil h digits

theorem Valid.tail {s : σ} {p : Name × Name} {rest : List (Name × Name)} (hT : T.Lawful) (h : T.Valid s (p :: rest)) :
    T.Valid (T.setName s p.1 p.2).2 rest := by
  refine ⟨fun q hq hne => ?_, (List.pairwise_cons.mp h.distinct).2, fun q hq => h.named q (.tail _ hq)⟩
  refine (hT.after ..).mpr (.inr ⟨h.uses q (.tail _ hq) hne, fun heq => ?_⟩)
  exact (List.pairwise_cons.mp h.distinct).1 q hq (heq ▸ hne) heq.symm

/-- A name in use that no value gives up is not given again. -/
theorem kept_notMem (hT : T.Lawful) {s : σ} {n : Name} {values : List (Name × Name)} (hn : T.uses s n) (hkept : ∀ p ∈ values, p.1 ≠ n) :
    n ∉ T.renames s values := by
  induction values generalizing s with
  | nil => exact List.not_mem_nil
  | cons p rest ih =>
    have htaken : T.Taken s p.1 n := ⟨hn, (hkept p (.head _)).symm⟩
    intro hmem
    rcases List.mem_cons.mp hmem with heq | hmem
    · exact hT.fresh s p.1 p.2 (heq ▸ htaken)
    · exact ih ((hT.after ..).mpr (.inr htaken)) (fun q hq => hkept q (.tail _ hq)) hmem

theorem renames_nodup (hT : T.Lawful) {s : σ} {values : List (Name × Name)} (h : T.Valid s values) : (T.renames s values).Nodup := by
  induction values generalizing s with
  | nil => exact List.nodup_nil
  | cons p rest ih =>
    refine List.nodup_cons.mpr ⟨kept_notMem hT ((hT.after ..).mpr (.inl rfl)) fun q hq heq => ?_, ih (h.tail hT)⟩
    by_cases hempty : q.1 = []
    · exact hT.ne_nil s p.1 (h.named p (.head _)) (heq.symm.trans hempty)
    · -- the name was in use when it was given
      refine hT.fresh s p.1 p.2 (heq ▸ ⟨h.uses q (.tail _ hq) hempty, fun hold => ?_⟩)
      exact (List.pairwise_cons.mp h.distinct).1 q hq (hold ▸ hempty) hold.symm

/-! ## Numbers -/

theorem numbered_injective (name : Name) (last : Nat) : Function.Injective fun k => name ++ Nat.toDigits 10 (last + k) := by
  intro i j h
  have hdigits : Nat.toDigits 10 (last + i) = Nat.toDigits 10 (last + j) := List.append_cancel_left h
  have hnumber : last + i = last + j := by
    rw [← @Nat.ofDigitChars_ten_toDigits (last + i), hdigits, Nat.ofDigitChars_ten_toDigits]
  exact Nat.add_left_cancel hnumber

theorem exists_free (used : List Name) (name : Name) (last : Nat) : ∃ k, name ++ Nat.toDigits 10 (last + k) ∉ used := by
  obtain ⟨n, ⟨k, rfl⟩, hk⟩ := (Set.infinite_range_of_injective (numbered_injective name last)).exists_notMem_finset used.toFinset
  exact ⟨k, fun h => hk (List.mem_toFinset.mpr h)⟩

/-- The next number that is free, of a counter the table's names share. -/
def numbered : NameTable (List Name × Nat) where
  uses s n := n ∈ s.1
  setName s old name :=
    let others := s.1.filter (· ≠ old)
    if name ∈ others then
      let number := s.2 + 1 + Nat.find (exists_free others name (s.2 + 1))
      let unique := name ++ Nat.toDigits 10 number
      (unique, (unique :: others, number))
    else (name, (name :: others, s.2))

theorem numbered_lawful : numbered.Lawful := by
  have hothers : ∀ (s : List Name × Nat) (old n : Name), n ∈ s.1.filter (· ≠ old) ↔ numbered.Taken s old n := by
    intro s old n
    rw [List.mem_filter, decide_eq_true_iff]
    rfl
  refine ⟨fun s old name => ?_, fun s old name h => ?_, fun s old name => ?_, fun s old name n => ?_⟩
  · by_cases htaken : name ∈ s.1.filter (· ≠ old)
    · have heq : numbered.setName s old name = _ := if_pos htaken
      rw [heq]
      exact ⟨_, fun c hc => Nat.isDigit_of_mem_toDigits (by decide) (Nat.le_refl _) hc, rfl⟩
    · have heq : numbered.setName s old name = _ := if_neg htaken
      rw [heq]
      exact ⟨[], fun c hc => absurd hc List.not_mem_nil, (List.append_nil name).symm⟩
  · exact congrArg Prod.fst (if_neg fun hmem => h ((hothers s old name).mp hmem))
  · rw [← hothers]
    by_cases htaken : name ∈ s.1.filter (· ≠ old)
    · have heq : numbered.setName s old name = _ := if_pos htaken
      rw [heq]
      exact Nat.find_spec (exists_free (s.1.filter (· ≠ old)) name (s.2 + 1))
    · have heq : numbered.setName s old name = _ := if_neg htaken
      rwa [heq]
  · rw [← hothers]
    by_cases htaken : name ∈ s.1.filter (· ≠ old)
    · have heq : numbered.setName s old name = _ := if_pos htaken
      rw [heq]
      exact List.mem_cons
    · have heq : numbered.setName s old name = _ := if_neg htaken
      rw [heq]
      exact List.mem_cons

end NameTable

end Popcorn.Lib
