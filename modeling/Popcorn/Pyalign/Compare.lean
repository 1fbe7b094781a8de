/-
  Popcorn.Pyalign.Compare — whether two symbols are the same one (`Symbol.compare`).

  Two symbols of a name are the same where their object files come from one source: the x86-64
  objects of a user's source file end in `_x86_64.o` and the ARM ones in `.o`. The
  comparison takes the suffix away with `str.replace`, which deletes every occurrence.

  Proved: `sameObject_right_iff`: for which names of object files, in terms of the names alone,
  the comparison tells the sources of the two apart, in both orders.
-/

import Popcorn.Lib.Delete
import Popcorn.Pyalign.Symbol

namespace Popcorn.Pyalign

open Popcorn.Lib

/-! ## Names -/

/-- `objf.split("/")[-1]`. -/
def baseName (obj : String) : List Char := (obj.toList.reverse.takeWhile (· != '/')).reverse

/-- The suffix of the x86-64 objects of a user's sources. -/
def userSuffix : List Char := ['_', 'x', '8', '6', '_', '6', '4', '.', 'o']

def objSuffix : List Char := ['.', 'o']

/-- The name of a user's x86-64 object. -/
def isUser (name : List Char) : Bool := userSuffix.isSuffixOf name

/-- The comparison of two object files' names in the loop of `compare`. -/
def sameObject (cmpstr1 cmpstr2 : List Char) : Bool :=
  if isUser cmpstr1 then
    if deleteAll userSuffix cmpstr1 = deleteAll objSuffix cmpstr2 then true else decide (cmpstr1 = cmpstr2)
  else if isUser cmpstr2 then
    if deleteAll userSuffix cmpstr2 = deleteAll objSuffix cmpstr1 then true else decide (cmpstr1 = cmpstr2)
  else decide (cmpstr1 = cmpstr2)

namespace Symbol

/-- The object files a symbol has. -/
def objects (s : Symbol) : List String := (PerArch.keys.map s.getObjectFile).filter (· != "NULL")

/-- `none` is the exit where there is nothing to compare. The loop returns at the first two object
    files that differ. -/
def compare (s anotherSymbol : Symbol) : Option Bool :=
  if s.name ≠ anotherSymbol.name then some false
  else
    let pairs := s.objects.flatMap fun objf1 => anotherSymbol.objects.map fun objf2 => (objf1, objf2)
    if pairs.isEmpty then none else some (pairs.all fun p => sameObject (baseName p.1) (baseName p.2))

end Symbol

/-! ## Sources -/

/-- An object file's name without its suffix. -/
def sourceObject (name : List Char) : List Char :=
  if isUser name then name.take (name.length - userSuffix.length)
  else if objSuffix.isSuffixOf name then name.take (name.length - objSuffix.length)
  else name

/-- The comparison tells the sources of two names apart, in either order. -/
structure Right (name1 name2 : List Char) : Prop where
  same : sameObject name1 name2 = true ↔ sourceObject name1 = sourceObject name2
  swap : sameObject name2 name1 = sameObject name1 name2

/-- The names stay different when the occurrences of their suffixes are deleted. -/
structure Unmatched (name1 name2 : List Char) : Prop where
  first : isUser name1 = true → deleteAll userSuffix (sourceObject name1) ≠ deleteAll objSuffix name2
  second : isUser name1 = false → isUser name2 = true → deleteAll userSuffix (sourceObject name2) ≠ deleteAll objSuffix name1

/-- What two names must be for the comparison to be right. -/
structure Comparable (name1 name2 : List Char) : Prop where
  /-- Of two names of one kind from one source, both have the suffix or neither has. -/
  equal : sourceObject name1 = sourceObject name2 → isUser name1 = isUser name2 → name1 = name2
  plain : sourceObject name1 = sourceObject name2 → isUser name1 ≠ isUser name2 → ¬ objSuffix <:+: sourceObject name1
  unmatched : sourceObject name1 ≠ sourceObject name2 → Unmatched name1 name2 ∧ Unmatched name2 name1

/-! ## What the comparison computes -/

theorem isUser_iff {name : List Char} : isUser name = true ↔ name = sourceObject name ++ userSuffix := by
  unfold sourceObject
  constructor
  · intro h
    rw [if_pos h]
    obtain ⟨rest, hrest⟩ := List.isSuffixOf_iff_suffix.mp h
    rw [← hrest, List.length_append, Nat.add_sub_cancel, List.take_left]
  · intro h
    exact List.isSuffixOf_iff_suffix.mpr ⟨_, h.symm⟩

theorem userSuffix_ne : userSuffix ≠ [] := List.cons_ne_nil _ _
theorem objSuffix_ne : objSuffix ≠ [] := List.cons_ne_nil _ _

theorem userSuffix_unbordered : Unbordered userSuffix := by decide
theorem objSuffix_unbordered : Unbordered objSuffix := by decide

theorem delete_user {name : List Char} (h : isUser name = true) : deleteAll userSuffix name = deleteAll userSuffix (sourceObject name) := by
  conv_lhs => rw [isUser_iff.mp h]
  exact deleteAll_snoc userSuffix_ne userSuffix_unbordered _

theorem delete_object {name : List Char} (h : isUser name = false) : deleteAll objSuffix name = deleteAll objSuffix (sourceObject name) := by
  unfold sourceObject
  rw [h, if_neg Bool.false_ne_true]
  split_ifs with ho
  · obtain ⟨rest, hrest⟩ := List.isSuffixOf_iff_suffix.mp ho
    rw [← hrest, List.length_append, Nat.add_sub_cancel, List.take_left]
    exact deleteAll_snoc objSuffix_ne objSuffix_unbordered rest
  · rfl

/-- Deleting the two suffixes from one name gives the same where it has neither. -/
theorem delete_both_iff (name : List Char) : deleteAll userSuffix name = deleteAll objSuffix name ↔ ¬ objSuffix <:+: name := by
  constructor
  · intro h hobj
    by_cases huser : userSuffix <:+: name
    · -- only one of the two deletes an `x`
      have hlt := count_deleteAll_lt (show 'x' ∈ userSuffix by decide) huser
      rw [h, count_deleteAll_of_notMem objSuffix_ne (show 'x' ∉ objSuffix by decide)] at hlt
      exact Nat.lt_irrefl _ hlt
    · have hlt := count_deleteAll_lt (show 'o' ∈ objSuffix by decide) hobj
      rw [← h, deleteAll_of_absent huser] at hlt
      exact Nat.lt_irrefl _ hlt
  · intro hobj
    have hsuffix : objSuffix <:+ userSuffix := ⟨['_', 'x', '8', '6', '_', '6', '4'], rfl⟩
    rw [deleteAll_of_absent hobj, deleteAll_of_absent fun h => hobj (hsuffix.isInfix.trans h)]

variable {name1 name2 : List Char}

theorem sameObject_user (h1 : isUser name1 = true) :
    sameObject name1 name2 = true ↔ deleteAll userSuffix (sourceObject name1) = deleteAll objSuffix name2 ∨ name1 = name2 := by
  unfold sameObject
  rw [if_pos h1, delete_user h1]
  by_cases h : deleteAll userSuffix (sourceObject name1) = deleteAll objSuffix name2
  · rw [if_pos h]
    exact iff_of_true rfl (.inl h)
  · rw [if_neg h, decide_eq_true_iff]
    exact (or_iff_right h).symm

theorem sameObject_second (h1 : isUser name1 = false) (h2 : isUser name2 = true) :
    sameObject name1 name2 = true ↔ deleteAll userSuffix (sourceObject name2) = deleteAll objSuffix name1 := by
  unfold sameObject
  rw [h1, if_neg Bool.false_ne_true, if_pos h2, delete_user h2]
  by_cases h : deleteAll userSuffix (sourceObject name2) = deleteAll objSuffix name1
  · rw [if_pos h]
    exact iff_of_true rfl h
  · rw [if_neg h, decide_eq_true_iff]
    refine iff_of_false (fun heq => ?_) h
    rw [heq, h2] at h1
    cases h1

theorem sameObject_plain (h1 : isUser name1 = false) (h2 : isUser name2 = false) : sameObject name1 name2 = true ↔ name1 = name2 := by
  unfold sameObject
  rw [h1, h2, if_neg Bool.false_ne_true, if_neg Bool.false_ne_true, decide_eq_true_iff]

/-- Names from different sources are told apart where deleting the suffixes keeps them apart. -/
theorem sameObject_false_iff (hne : sourceObject name1 ≠ sourceObject name2) :
    sameObject name1 name2 = false ↔ Unmatched name1 name2 := by
  have hname : name1 ≠ name2 := fun h => hne (h ▸ rfl)
  rw [← Bool.not_eq_true]
  cases h1 : isUser name1 with
  | true =>
    rw [sameObject_user h1, or_iff_left hname]
    exact ⟨fun h => ⟨fun _ => h, fun h' => Bool.noConfusion (h1.symm.trans h')⟩, fun h => h.first h1⟩
  | false =>
    cases h2 : isUser name2 with
    | true =>
      rw [sameObject_second h1 h2]
      exact ⟨fun h => ⟨fun h' => Bool.noConfusion (h1.symm.trans h'), fun _ _ => h⟩, fun h => h.second h1 h2⟩
    | false =>
      rw [sameObject_plain h1 h2]
      exact ⟨fun _ => ⟨fun h' => Bool.noConfusion (h1.symm.trans h'), fun _ h' => Bool.noConfusion (h2.symm.trans h')⟩, fun _ => hname⟩

theorem Right.symm (h : Right name1 name2) : Right name2 name1 :=
  ⟨by rw [h.swap, h.same]; exact eq_comm, h.swap.symm⟩

theorem Comparable.symm (h : Comparable name1 name2) : Comparable name2 name1 where
  equal hs hu := (h.equal hs.symm hu.symm).symm
  plain hs hu := hs ▸ h.plain hs.symm hu.symm
  unmatched hs := (h.unmatched hs.symm).symm

/-- A user's two objects of one source. -/
theorem right_iff_of_user (hsource : sourceObject name1 = sourceObject name2) (h1 : isUser name1 = true) (h2 : isUser name2 = false) :
    Right name1 name2 ↔ ¬ objSuffix <:+: sourceObject name1 := by
  have hname : name1 ≠ name2 := fun h => Bool.noConfusion (h1.symm.trans ((congrArg isUser h).trans h2))
  have h12 : sameObject name1 name2 = true ↔ ¬ objSuffix <:+: sourceObject name1 := by
    rw [sameObject_user h1, or_iff_left hname, delete_object h2, ← hsource, delete_both_iff]
  have h21 : sameObject name2 name1 = true ↔ ¬ objSuffix <:+: sourceObject name1 := by
    rw [sameObject_second h2 h1, delete_object h2, ← hsource, delete_both_iff]
  refine ⟨fun h => h12.mp (h.same.mpr hsource), fun h => ⟨iff_of_true (h12.mpr h) hsource, ?_⟩⟩
  rw [h12.mpr h, h21.mpr h]

theorem right_iff_of_source (hsource : sourceObject name1 = sourceObject name2) : Right name1 name2 ↔ Comparable name1 name2 := by
  cases h1 : isUser name1 with
  | true =>
    cases h2 : isUser name2 with
    | true =>
      have hname : name1 = name2 := by rw [isUser_iff.mp h1, isUser_iff.mp h2, hsource]
      have h12 : sameObject name1 name2 = true := (sameObject_user h1).mpr (.inr hname)
      refine iff_of_true ⟨iff_of_true h12 hsource, by rw [hname]⟩ ⟨fun _ _ => hname, fun _ h => absurd (h1.trans h2.symm) h, fun h => absurd hsource h⟩
    | false =>
      rw [right_iff_of_user hsource h1 h2]
      have hkind : isUser name1 ≠ isUser name2 := fun h => Bool.noConfusion (h1.symm.trans (h.trans h2))
      exact ⟨fun h => ⟨fun _ hk => absurd hk hkind, fun _ _ => h, fun hs => absurd hsource hs⟩, fun h => h.plain hsource hkind⟩
  | false =>
    cases h2 : isUser name2 with
    | true =>
      have hright : Right name1 name2 ↔ Right name2 name1 := ⟨Right.symm, Right.symm⟩
      have hkind : isUser name1 ≠ isUser name2 := fun h => Bool.noConfusion (h1.symm.trans (h.trans h2))
      rw [hright, right_iff_of_user hsource.symm h2 h1, ← hsource]
      exact ⟨fun h => ⟨fun _ hk => absurd hk hkind, fun _ _ => h, fun hs => absurd hsource hs⟩, fun h => h.plain hsource hkind⟩
    | false =>
      have h12 := sameObject_plain h1 h2
      have h21 := sameObject_plain h2 h1
      constructor
      · intro h
        exact ⟨fun _ _ => h12.mp (h.same.mpr hsource), fun _ hk => absurd (h1.trans h2.symm) hk, fun hs => absurd hsource hs⟩
      · intro h
        have hname := h.equal hsource (h1.trans h2.symm)
        exact ⟨iff_of_true (h12.mpr hname) hsource, (h21.mpr hname.symm).trans (h12.mpr hname).symm⟩

theorem sameObject_right_iff (name1 name2 : List Char) : Right name1 name2 ↔ Comparable name1 name2 := by
  by_cases hsource : sourceObject name1 = sourceObject name2
  · exact right_iff_of_source hsource
  · constructor
    · rintro ⟨hsame, hswap⟩
      have h12 : sameObject name1 name2 = false := Bool.eq_false_iff.mpr fun h => hsource (hsame.mp h)
      exact ⟨fun h => absurd h hsource, fun h => absurd h hsource, fun _ =>
        ⟨(sameObject_false_iff hsource).mp h12, (sameObject_false_iff (Ne.symm hsource)).mp (hswap.trans h12)⟩⟩
    · rintro ⟨-, -, hun⟩
      obtain ⟨hu, hu'⟩ := hun hsource
      have h12 := (sameObject_false_iff hsource).mpr hu
      have h21 := (sameObject_false_iff (Ne.symm hsource)).mpr hu'
      exact ⟨iff_of_false (by rw [h12]; exact Bool.false_ne_true) hsource, h21.trans h12.symm⟩

end Popcorn.Pyalign
