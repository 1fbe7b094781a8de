/-
  Popcorn.Metadata.Check — the stackmap checker
  (tool/stack_metadata/utils/check_stackmaps.c).

  `check_stackmaps` compares the stackmaps of two binaries section by section and
  record by record, and keeps going after a mismatch to print as many as it can. The
  raw location lists of a record may have different lengths, since a duplicate record
  (a value's backing stack slot) may follow a value on one architecture only. The
  comparison loop runs two raw indices, skips the duplicates behind each of them, and
  stops when either index reaches the number of *non-duplicate* records of its list.

  Proved: what the loop compares (`compareLocations_iff`): the heads of the two lists
  (the first record and each later non-duplicate) of equal rank, as long as both raw
  indices are below those numbers. So with a duplicate in front of it, a value near
  the end of a list is not compared (`check_misses_size`), and the heads of a list that
  starts with a duplicate are out of step. The checker is exact just when the stackmaps
  differ where it looks, or it misses a mismatch if and only if it also raises a false
  alarm (`check_stackmaps_exact_iff`).
-/

import Popcorn.Metadata.Stackmap
import Mathlib.Data.Nat.Count

namespace Popcorn.Metadata

/-! ## The checker -/

/-- `locations[k].is_duplicate`. What follows a record's locations in the section is its
    padding, which the emitter writes as zero: past the list the flag reads as unset. -/
def isDup (locs : List LiveValue) (k : Nat) : Bool := (locs[k]?).any (·.isDuplicate)

/-- `while(locations[k+1].is_duplicate) k++;`. -/
def skipDup (locs : List LiveValue) (k : Nat) : Nat := k + ((locs.drop (k + 1)).takeWhile (·.isDuplicate)).length

/-- The number of records that are no duplicates (`num_a`, `num_b`). -/
def numNonDup (locs : List LiveValue) : Nat := locs.countP (!·.isDuplicate)

/-- The four comparisons of a round, on two records. -/
def agrees (x y : LiveValue) : Bool :=
  x.size == y.size && x.isPtr == y.isPtr && x.isAlloca == y.isAlloca &&
    !(x.isAlloca && y.isAlloca && x.allocaSize != y.allocaSize)

/-- The same at two indices; both are inside their list when a round runs. -/
def agreesAt (a b : List LiveValue) (k l : Nat) : Bool :=
  match a[k]?, b[l]? with
  | some x, some y => agrees x y
  | _, _ => true

/-- The loop over the location records, from the indices `k` and `l`. -/
def compareLocations (a b : List LiveValue) (k l : Nat) : Bool :=
  if k < numNonDup a ∧ l < numNonDup b then
    agreesAt a b k l && compareLocations a b (skipDup a k + 1) (skipDup b l + 1)
  else true
termination_by numNonDup a - k
decreasing_by unfold skipDup; omega

/-- `function_records[func_idx].func_addr`; `none` is a read past the table. -/
def funcAddr (sm : StackMapSection) (r : CallSiteRecord) : Option UInt64 :=
  (sm.functionRecords[r.funcIdx.toNat]?).map (·.funcAddr)

/-- One round of the loop over a section's records. -/
def checkRecord (s : StackMapSection × StackMapSection) (r : CallSiteRecord × CallSiteRecord) : Option Bool := do
  let funcA ← funcAddr s.1 r.1
  let funcB ← funcAddr s.2 r.2
  if funcA != funcB then return false
  return numNonDup r.1.locations == numNonDup r.2.locations && compareLocations r.1.locations r.2.locations 0 0

/-- A round of a loop that may turn `ret` into `INVALID_METADATA` (`false`) and goes on. -/
def checkRound {α : Type} (check : α → Option Bool) (ret : Bool) (x : α) : Option Bool := do
  let ok ← check x
  return ret && ok

/-- One round of the loop over the sections. -/
def checkSection (s : StackMapSection × StackMapSection) : Option Bool :=
  (s.1.callSites.zip s.2.callSites).foldlM (checkRound (checkRecord s)) (s.1.callSites.length == s.2.callSites.length)

/-- `check_stackmaps`: `some true` is SUCCESS, `none` a read past a function table. -/
def checkStackmaps (a b : List StackMapSection) : Option Bool :=
  (a.zip b).foldlM (checkRound checkSection) (a.length == b.length)

/-! ## What two stackmaps have to agree on -/

def Agrees (x y : LiveValue) : Prop :=
  x.size = y.size ∧ x.isPtr = y.isPtr ∧ x.isAlloca = y.isAlloca ∧ (x.isAlloca = true → x.allocaSize = y.allocaSize)

def nonDuplicates (locs : List LiveValue) : List LiveValue := locs.filter (!·.isDuplicate)

/-- The records belong to functions at one address and their live values agree one by one. -/
structure RecordsMatch (s : StackMapSection × StackMapSection) (r : CallSiteRecord × CallSiteRecord) : Prop where
  addr : ∃ f, funcAddr s.1 r.1 = some f ∧ funcAddr s.2 r.2 = some f
  values : List.Forall₂ Agrees (nonDuplicates r.1.locations) (nonDuplicates r.2.locations)

structure StackmapsMatch (a b : List StackMapSection) : Prop where
  sections : a.length = b.length
  records : ∀ s ∈ a.zip b, s.1.callSites.length = s.2.callSites.length
  matched : ∀ s ∈ a.zip b, ∀ r ∈ s.1.callSites.zip s.2.callSites, RecordsMatch s r

/-! ## What the checker sees -/

/-- A record of the list that is no duplicate. -/
def NonDup (locs : List LiveValue) (k : Nat) : Prop := k < locs.length ∧ isDup locs k = false

/-- The first record of a list and every later one that is no duplicate. -/
def Head (locs : List LiveValue) (k : Nat) : Prop := k = 0 ∨ isDup locs k = false

instance (locs : List LiveValue) : DecidablePred (NonDup locs) := fun _ => inferInstanceAs (Decidable (_ ∧ _))
instance (locs : List LiveValue) : DecidablePred (Head locs) := fun _ => inferInstanceAs (Decidable (_ ∨ _))

/-- The records at two raw indices disagree. -/
def Disagree (a b : List LiveValue) (k l : Nat) : Prop := ∃ x y, a[k]? = some x ∧ b[l]? = some y ∧ ¬ Agrees x y

/-- Two non-duplicates of equal rank disagree. -/
def RankDiffers (a b : List LiveValue) (k l : Nat) : Prop :=
  (NonDup a k ∧ NonDup b l ∧ Nat.count (NonDup a) k = Nat.count (NonDup b) l) ∧ Disagree a b k l

/-- Two heads of equal rank disagree, at raw indices below the numbers of non-duplicates. -/
def HeadsDiffer (a b : List LiveValue) : Prop :=
  ∃ k l, (Head a k ∧ Head b l ∧ Nat.count (Head a) k = Nat.count (Head b) l) ∧
    k < numNonDup a ∧ l < numNonDup b ∧ Disagree a b k l

/-- The raw indices are inside the loop's bounds, and neither list starts with a duplicate. -/
def Reached (a b : List LiveValue) (k l : Nat) : Prop :=
  (isDup a 0 = false ∧ isDup b 0 = false) ∧ k < numNonDup a ∧ l < numNonDup b

/-- Two values disagree where the loop gets. -/
def Seen (a b : List LiveValue) : Prop := ∃ k l, RankDiffers a b k l ∧ Reached a b k l

/-- Two values disagree past it, or in lists of which one starts with a duplicate. -/
def Missed (a b : List LiveValue) : Prop := ∃ k l, RankDiffers a b k l ∧ ¬ Reached a b k l

/-- A list that starts with a duplicate has its heads compared out of step. -/
def FalseAlarm (a b : List LiveValue) : Prop := (isDup a 0 = true ∨ isDup b 0 = true) ∧ HeadsDiffer a b

/-- Some pair of location lists that is compared has the property. -/
def SomeLists (a b : List StackMapSection) (P : List LiveValue → List LiveValue → Prop) : Prop :=
  ∃ s ∈ a.zip b, ∃ r ∈ s.1.callSites.zip s.2.callSites, P r.1.locations r.2.locations

/-- The stackmaps differ in a number or an address the checker compares, or in a value it gets to. -/
def Evident (a b : List StackMapSection) : Prop :=
  a.length ≠ b.length ∨ ∃ s ∈ a.zip b, s.1.callSites.length ≠ s.2.callSites.length ∨
    ∃ r ∈ s.1.callSites.zip s.2.callSites, funcAddr s.1 r.1 ≠ funcAddr s.2 r.2 ∨
      numNonDup r.1.locations ≠ numNonDup r.2.locations ∨ Seen r.1.locations r.2.locations

/-- A mismatch between two records that shows. -/
def RecordsDiffer (s : StackMapSection × StackMapSection) (r : CallSiteRecord × CallSiteRecord) : Prop :=
  funcAddr s.1 r.1 ≠ funcAddr s.2 r.2 ∨ numNonDup r.1.locations ≠ numNonDup r.2.locations ∨
    HeadsDiffer r.1.locations r.2.locations

/-- A mismatch between the stackmaps that shows. -/
def Visible (a b : List StackMapSection) : Prop :=
  a.length ≠ b.length ∨ ∃ s ∈ a.zip b, s.1.callSites.length ≠ s.2.callSites.length ∨
    ∃ r ∈ s.1.callSites.zip s.2.callSites, RecordsDiffer s r

/-- The function indices of the records compared are in range. -/
def IndicesInRange (a b : List StackMapSection) : Prop :=
  ∀ s ∈ a.zip b, ∀ r ∈ s.1.callSites.zip s.2.callSites,
    r.1.funcIdx.toNat < s.1.functionRecords.length ∧ r.2.funcIdx.toNat < s.2.functionRecords.length

/-! ## The comparison loop -/

theorem agrees_iff (x y : LiveValue) : agrees x y = true ↔ Agrees x y := by
  unfold agrees Agrees
  simp only [Bool.and_eq_true, beq_iff_eq, Bool.not_eq_true', and_assoc]
  cases x.isAlloca <;> cases y.isAlloca <;> simp

theorem agreesAt_iff (a b : List LiveValue) (k l : Nat) : agreesAt a b k l = true ↔ ¬ Disagree a b k l := by
  unfold agreesAt Disagree
  cases a[k]? with
  | none => simp
  | some x =>
    cases b[l]? with
    | none => simp
    | some y => simp [agrees_iff]

theorem skipDup_ge (locs : List LiveValue) (k : Nat) : k ≤ skipDup locs k := Nat.le_add_right _ _

/-- The entries `takeWhile` takes, and the one it stops at. -/
theorem any_takeWhile {α : Type} (p : α → Bool) : ∀ (xs : List α) (j : Nat), j ≤ (xs.takeWhile p).length →
    (xs[j]?).any p = decide (j < (xs.takeWhile p).length) := by
  intro xs
  induction xs with
  | nil => intro j _; rfl
  | cons x xs ih =>
    intro j hj
    rw [List.takeWhile_cons] at hj ⊢
    cases hx : p x with
    | false =>
      simp only [hx, Bool.false_eq_true, if_false, List.length_nil, Nat.le_zero] at hj ⊢
      subst hj
      simpa using hx
    | true =>
      simp only [hx, if_true, List.length_cons] at hj ⊢
      cases j with
      | zero => simpa using hx
      | succ j => simpa using ih j (by omega)

theorem isDup_drop (locs : List LiveValue) (k i : Nat) : isDup locs (k + i) = ((locs.drop k)[i]?).any (·.isDuplicate) := by
  unfold isDup
  rw [List.getElem?_drop]

/-- The records skipped are duplicates. -/
theorem isDup_skipped {locs : List LiveValue} {k j : Nat} (h : k < j) (hj : j ≤ skipDup locs k) : isDup locs j = true := by
  unfold skipDup at hj
  rw [show j = k + 1 + (j - (k + 1)) by omega, isDup_drop, any_takeWhile _ _ _ (by omega)]
  simp only [decide_eq_true_eq]
  omega

/-- The record the loop stops in front of is none. -/
theorem isDup_next (locs : List LiveValue) (k : Nat) : isDup locs (skipDup locs k + 1) = false := by
  unfold skipDup
  rw [show ∀ n, k + n + 1 = k + 1 + n by omega, isDup_drop, any_takeWhile _ _ _ (Nat.le_refl _)]
  simp

theorem head_next (locs : List LiveValue) (k : Nat) : Head locs (skipDup locs k + 1) := .inr (isDup_next locs k)

/-- The next head after `k` is where the loop goes on. -/
theorem head_ge_next {locs : List LiveValue} {k j : Nat} (hj : Head locs j) (h : k < j) : skipDup locs k + 1 ≤ j := by
  apply Nat.lt_of_not_le
  intro hle
  have := isDup_skipped h hle
  obtain rfl | hd := hj
  · omega
  · rw [this] at hd
    cases hd

/-- Between a head and the next one the rank goes up by one. -/
theorem count_next {locs : List LiveValue} {k : Nat} (hk : Head locs k) :
    Nat.count (Head locs) (skipDup locs k + 1) = Nat.count (Head locs) k + 1 := by
  have hrun : ∀ j, k + 1 ≤ j → j ≤ skipDup locs k + 1 → Nat.count (Head locs) j = Nat.count (Head locs) k + 1 := by
    intro j hj
    induction j, hj using Nat.le_induction with
    | base => intro _; rw [Nat.count_succ, if_pos hk]
    | succ j hj ih =>
      intro hle
      have hno : ¬ Head locs j := by
        intro h
        have := head_ge_next h (show k < j by omega)
        omega
      rw [Nat.count_succ, if_neg hno, ih (by omega)]
  exact hrun _ (by have := skipDup_ge locs k; omega) (Nat.le_refl _)

/-- The heads compared from the indices `k` and `l` on agree. -/
def AgreeFrom (a b : List LiveValue) (k l : Nat) : Prop :=
  ∀ i j, (Head a i ∧ Head b j ∧ Nat.count (Head a) i = Nat.count (Head b) j) → k ≤ i → l ≤ j →
    i < numNonDup a → j < numNonDup b → agreesAt a b i j = true

theorem agreeFrom_next {a b : List LiveValue} {k l : Nat} (hk : Head a k) (hl : Head b l)
    (hc : Nat.count (Head a) k = Nat.count (Head b) l) (hin : k < numNonDup a ∧ l < numNonDup b) :
    AgreeFrom a b k l ↔ agreesAt a b k l = true ∧ AgreeFrom a b (skipDup a k + 1) (skipDup b l + 1) := by
  constructor
  · intro h
    refine ⟨h k l ⟨hk, hl, hc⟩ (Nat.le_refl _) (Nat.le_refl _) hin.1 hin.2, ?_⟩
    intro i j hij hi hj
    have := skipDup_ge a k
    have := skipDup_ge b l
    exact h i j hij (by omega) (by omega)
  · intro ⟨hat, h⟩ i j hij hi hj
    obtain ⟨hai, hbj, hcij⟩ := hij
    obtain rfl | hlt := Nat.eq_or_lt_of_le hi
    · have : j = l := Nat.count_injective hbj hl (by omega)
      subst this
      intro _ _
      exact hat
    · have hnext := head_ge_next hai hlt
      have hup := Nat.count_strict_mono hk hlt
      have hlt' : l < j := by
        apply Nat.lt_of_not_le
        intro hle
        have := Nat.count_monotone (Head b) hle
        omega
      exact h i j ⟨hai, hbj, hcij⟩ hnext (head_ge_next hbj hlt')

theorem compareLocations_from (a b : List LiveValue) (k l : Nat) (hk : Head a k) (hl : Head b l)
    (hc : Nat.count (Head a) k = Nat.count (Head b) l) : compareLocations a b k l = true ↔ AgreeFrom a b k l := by
  fun_induction compareLocations a b k l with
  | case1 k l hin ih =>
    rw [Bool.and_eq_true, agreeFrom_next hk hl hc hin, ih (head_next a k) (head_next b l)]
    rw [count_next hk, count_next hl, hc]
  | case2 k l hout =>
    simp only [true_iff]
    intro i j _ hi hj _ _
    omega

/-- What the loop compares. -/
theorem compareLocations_iff (a b : List LiveValue) : compareLocations a b 0 0 = true ↔ ¬ HeadsDiffer a b := by
  rw [compareLocations_from a b 0 0 (.inl rfl) (.inl rfl) (by simp)]
  unfold AgreeFrom HeadsDiffer
  simp only [agreesAt_iff]
  constructor
  · intro h ⟨k, l, hkl, hk, hl, hat⟩
    exact h k l hkl (by omega) (by omega) hk hl hat
  · intro h i j hij _ _ hi hj hat
    exact h ⟨i, j, hij, hi, hj, hat⟩

/-! ## The values of a list by rank -/

theorem numNonDup_eq (locs : List LiveValue) : numNonDup locs = (nonDuplicates locs).length :=
  List.countP_eq_length_filter

theorem nonDup_iff {locs : List LiveValue} {k : Nat} {x : LiveValue} (hx : locs[k]? = some x) :
    NonDup locs k ↔ x.isDuplicate = false := by
  obtain ⟨hlt, -⟩ := List.getElem?_eq_some_iff.mp hx
  unfold NonDup isDup
  rw [hx, Option.any_some]
  exact and_iff_right hlt

theorem count_nonDup (locs : List LiveValue) {k : Nat} (hk : k ≤ locs.length) :
    Nat.count (NonDup locs) k = (nonDuplicates (locs.take k)).length := by
  induction k with
  | zero => simp [nonDuplicates]
  | succ k ih =>
    have hmem := nonDup_iff (List.getElem?_eq_getElem (show k < locs.length by omega))
    rw [Nat.count_succ, ih (by omega), List.take_succ_eq_append_getElem (by omega)]
    unfold nonDuplicates
    rw [List.filter_append, List.length_append]
    cases hd : locs[k].isDuplicate <;> simp [hmem, hd]

/-- The rank of a value is its index among the values. -/
theorem nonDuplicates_getElem? {locs : List LiveValue} {k : Nat} {x : LiveValue} (hk : NonDup locs k) (hx : locs[k]? = some x) :
    (nonDuplicates locs)[Nat.count (NonDup locs) k]? = some x := by
  obtain ⟨hlt, hget⟩ := List.getElem?_eq_some_iff.mp hx
  have hno := (nonDup_iff hx).mp hk
  rw [count_nonDup locs (by omega)]
  have hsplit : nonDuplicates locs = nonDuplicates (locs.take k) ++ x :: nonDuplicates (locs.drop (k + 1)) := by
    conv_lhs => rw [← List.take_append_drop k locs, List.drop_eq_getElem_cons hlt, hget]
    unfold nonDuplicates
    rw [List.filter_append, List.filter_cons_of_pos (by simp [hno])]
  rw [hsplit, List.getElem?_append_right (Nat.le_refl _), Nat.sub_self, List.getElem?_cons_zero]

theorem exists_of_lt_count {p : Nat → Prop} [DecidablePred p] {i n : Nat} (h : i < Nat.count p n) : ∃ k, p k ∧ Nat.count p k = i := by
  induction n with
  | zero => exact absurd h (by simp)
  | succ n ih =>
    by_cases hlt : i < Nat.count p n
    · exact ih hlt
    · rw [Nat.count_succ] at h
      split_ifs at h with hn
      · exact ⟨n, hn, by omega⟩
      · omega

/-- Every value has a raw index. -/
theorem nonDuplicates_index {locs : List LiveValue} {i : Nat} {x : LiveValue} (h : (nonDuplicates locs)[i]? = some x) :
    ∃ k, NonDup locs k ∧ Nat.count (NonDup locs) k = i ∧ locs[k]? = some x := by
  obtain ⟨hlt, -⟩ := List.getElem?_eq_some_iff.mp h
  have hcount : Nat.count (NonDup locs) locs.length = (nonDuplicates locs).length := by
    rw [count_nonDup locs (Nat.le_refl _), List.take_length]
  rw [← hcount] at hlt
  obtain ⟨k, hk, rfl⟩ := exists_of_lt_count hlt
  have hget := List.getElem?_eq_getElem hk.1
  have hsame := nonDuplicates_getElem? hk hget
  rw [h] at hsame
  exact ⟨k, hk, rfl, by rw [hget, hsame]⟩

/-- Values agree one by one just when there are as many and none differs from the one of its rank. -/
theorem forall₂_agrees_iff (a b : List LiveValue) :
    List.Forall₂ Agrees (nonDuplicates a) (nonDuplicates b) ↔ numNonDup a = numNonDup b ∧ ∀ k l, ¬ RankDiffers a b k l := by
  rw [numNonDup_eq, numNonDup_eq, List.forall₂_iff_get]
  apply and_congr_right
  intro hlen
  constructor
  · rintro h k l ⟨⟨hk, hl, hc⟩, x, y, hx, hy, hne⟩
    obtain ⟨hi, hgx⟩ := List.getElem?_eq_some_iff.mp (nonDuplicates_getElem? hk hx)
    have hny := nonDuplicates_getElem? hl hy
    rw [← hc] at hny
    obtain ⟨hj, hgy⟩ := List.getElem?_eq_some_iff.mp hny
    have hagree := h _ hi hj
    simp only [List.get_eq_getElem] at hagree
    rw [hgx, hgy] at hagree
    exact hne hagree
  · intro h i hi hj
    obtain ⟨k, hk, hck, hx⟩ := nonDuplicates_index (List.getElem?_eq_getElem hi)
    obtain ⟨l, hl, hcl, hy⟩ := nonDuplicates_index (List.getElem?_eq_getElem hj)
    by_contra hne
    exact h k l ⟨⟨hk, hl, hck.trans hcl.symm⟩, _, _, hx, hy, hne⟩

theorem differs_iff (a b : List LiveValue) : (∃ k l, RankDiffers a b k l) ↔ Seen a b ∨ Missed a b := by
  constructor
  · intro ⟨k, l, h⟩
    by_cases hr : Reached a b k l
    · exact .inl ⟨k, l, h, hr⟩
    · exact .inr ⟨k, l, h, hr⟩
  · rintro (⟨k, l, h, -⟩ | ⟨k, l, h, -⟩)
    · exact ⟨k, l, h⟩
    · exact ⟨k, l, h⟩

/-- The heads of a list that starts with a value are its values. -/
theorem head_iff {locs : List LiveValue} (h0 : isDup locs 0 = false) {k : Nat} (hk : k < locs.length) : Head locs k ↔ NonDup locs k := by
  unfold Head NonDup
  constructor
  · rintro (rfl | h)
    · exact ⟨hk, h0⟩
    · exact ⟨hk, h⟩
  · exact fun h => .inr h.2

theorem count_head {locs : List LiveValue} (h0 : isDup locs 0 = false) {k : Nat} (hk : k ≤ locs.length) :
    Nat.count (Head locs) k = Nat.count (NonDup locs) k := by
  induction k with
  | zero => simp
  | succ k ih => rw [Nat.count_succ, Nat.count_succ, ih (by omega), if_congr (head_iff h0 (by omega)) rfl rfl]

/-- What shows between two lists is a difference the loop gets to or a false alarm. -/
theorem headsDiffer_iff (a b : List LiveValue) : HeadsDiffer a b ↔ Seen a b ∨ FalseAlarm a b := by
  by_cases hlead : isDup a 0 = true ∨ isDup b 0 = true
  · have hno : ¬ Seen a b := by
      rintro ⟨k, l, -, ⟨h1, h2⟩, -⟩
      rcases hlead with h | h
      · rw [h1] at h
        cases h
      · rw [h2] at h
        cases h
    exact ⟨fun h => .inr ⟨hlead, h⟩, fun h => h.elim (fun h => absurd h hno) (·.2)⟩
  · rw [not_or, Bool.not_eq_true, Bool.not_eq_true] at hlead
    have hin (locs : List LiveValue) (k : Nat) (hk : k < numNonDup locs) : k < locs.length :=
      Nat.lt_of_lt_of_le hk List.countP_le_length
    constructor
    · rintro ⟨k, l, ⟨hk, hl, hc⟩, hka, hlb, hdiff⟩
      have hka' := hin a k hka
      have hlb' := hin b l hlb
      rw [count_head hlead.1 (by omega), count_head hlead.2 (by omega)] at hc
      exact .inl ⟨k, l, ⟨⟨(head_iff hlead.1 hka').mp hk, (head_iff hlead.2 hlb').mp hl, hc⟩, hdiff⟩, hlead, hka, hlb⟩
    · rintro (⟨k, l, ⟨⟨hk, hl, hc⟩, hdiff⟩, -, hka, hlb⟩ | ⟨-, h⟩)
      · rw [← count_head hlead.1 (Nat.le_of_lt hk.1), ← count_head hlead.2 (Nat.le_of_lt hl.1)] at hc
        exact ⟨k, l, ⟨(head_iff hlead.1 hk.1).mpr hk, (head_iff hlead.2 hl.1).mpr hl, hc⟩, hka, hlb, hdiff⟩
      · exact h

/-! ## Exactness -/

theorem foldlM_checkRound {α : Type} (check : α → Option Bool) :
    ∀ (xs : List α) (ret r : Bool), xs.foldlM (checkRound check) ret = some r ↔
      (∀ x ∈ xs, (check x).isSome) ∧ (r = true ↔ ret = true ∧ ∀ x ∈ xs, check x = some true) := by
  intro xs
  induction xs with
  | nil =>
    intro ret r
    simp only [List.foldlM_nil, Option.pure_def, Option.some.injEq, List.not_mem_nil, false_imp_iff, implies_true, and_true,
      true_and]
    rw [Bool.eq_iff_iff]
    exact ⟨fun h => h.symm, fun h => h.symm⟩
  | cons x xs ih =>
    intro ret r
    rw [List.foldlM_cons]
    cases hc : check x with
    | none => simp [checkRound, hc]
    | some ok =>
      have hround : checkRound check ret x = some (ret && ok) := by simp [checkRound, hc]
      rw [hround, Option.bind_eq_bind, Option.bind_some, ih]
      simp only [List.forall_mem_cons, hc, Option.isSome_some, true_and, Bool.and_eq_true, Option.some.injEq, and_assoc]

theorem funcAddr_isSome (sm : StackMapSection) (r : CallSiteRecord) :
    (funcAddr sm r).isSome ↔ r.funcIdx.toNat < sm.functionRecords.length := by
  unfold funcAddr
  simp

theorem checkRecord_isSome (s : StackMapSection × StackMapSection) (r : CallSiteRecord × CallSiteRecord) :
    (checkRecord s r).isSome ↔
      r.1.funcIdx.toNat < s.1.functionRecords.length ∧ r.2.funcIdx.toNat < s.2.functionRecords.length := by
  rw [← funcAddr_isSome, ← funcAddr_isSome]
  unfold checkRecord
  cases funcAddr s.1 r.1 with
  | none => simp
  | some f =>
    cases funcAddr s.2 r.2 with
    | none => simp
    | some g => by_cases h : f = g <;> simp [h]

theorem checkRecord_true {s : StackMapSection × StackMapSection} {r : CallSiteRecord × CallSiteRecord}
    (h : (checkRecord s r).isSome) : checkRecord s r = some true ↔ ¬ RecordsDiffer s r := by
  rw [checkRecord_isSome, ← funcAddr_isSome, ← funcAddr_isSome] at h
  obtain ⟨f, hf⟩ := Option.isSome_iff_exists.mp h.1
  obtain ⟨g, hg⟩ := Option.isSome_iff_exists.mp h.2
  unfold checkRecord RecordsDiffer
  rw [hf, hg]
  by_cases heq : f = g
  · simp [heq, compareLocations_iff]
  · simp [heq]

theorem checkSection_isSome (s : StackMapSection × StackMapSection) :
    (checkSection s).isSome ↔ ∀ r ∈ s.1.callSites.zip s.2.callSites, (checkRecord s r).isSome := by
  rw [Option.isSome_iff_exists]
  unfold checkSection
  simp only [foldlM_checkRound]
  constructor
  · intro ⟨_, h, _⟩
    exact h
  · intro h
    refine ⟨(s.1.callSites.length == s.2.callSites.length) && (s.1.callSites.zip s.2.callSites).all fun r =>
      checkRecord s r == some true, h, ?_⟩
    simp only [Bool.and_eq_true, List.all_eq_true, beq_iff_eq]

theorem checkSection_true {s : StackMapSection × StackMapSection} (h : (checkSection s).isSome) :
    checkSection s = some true ↔ s.1.callSites.length = s.2.callSites.length ∧
      ∀ r ∈ s.1.callSites.zip s.2.callSites, ¬ RecordsDiffer s r := by
  rw [checkSection_isSome] at h
  unfold checkSection
  rw [foldlM_checkRound]
  simp only [true_iff, beq_iff_eq]
  constructor
  · intro ⟨_, hlen, hall⟩
    exact ⟨hlen, fun r hr => (checkRecord_true (h r hr)).mp (hall r hr)⟩
  · intro ⟨hlen, hall⟩
    exact ⟨h, hlen, fun r hr => (checkRecord_true (h r hr)).mpr (hall r hr)⟩

/-- The checker returns just when every index is in range, and then reports what is visible. -/
theorem checkStackmaps_eq_some (a b : List StackMapSection) (ret : Bool) :
    checkStackmaps a b = some ret ↔ IndicesInRange a b ∧ (ret = true ↔ ¬ Visible a b) := by
  unfold checkStackmaps
  rw [foldlM_checkRound]
  have hrange : (∀ s ∈ a.zip b, (checkSection s).isSome) ↔ IndicesInRange a b := by
    simp only [checkSection_isSome, checkRecord_isSome]
    rfl
  rw [hrange]
  apply and_congr_right
  intro hin
  have hsome := hrange.mpr hin
  have hvisible : (a.length == b.length) = true ∧ (∀ s ∈ a.zip b, checkSection s = some true) ↔ ¬ Visible a b := by
    unfold Visible
    push Not
    rw [beq_iff_eq]
    apply and_congr_right
    intro _
    apply forall₂_congr
    intro s hs
    exact checkSection_true (hsome s hs)
  rw [hvisible]

/-- What shows is evident or a false alarm. -/
theorem visible_iff (a b : List StackMapSection) : Visible a b ↔ Evident a b ∨ SomeLists a b FalseAlarm := by
  unfold Visible Evident RecordsDiffer SomeLists
  simp only [headsDiffer_iff]
  constructor
  · rintro (h | ⟨s, hs, h | ⟨r, hr, h | h | h | h⟩⟩)
    · exact .inl (.inl h)
    · exact .inl (.inr ⟨s, hs, .inl h⟩)
    · exact .inl (.inr ⟨s, hs, .inr ⟨r, hr, .inl h⟩⟩)
    · exact .inl (.inr ⟨s, hs, .inr ⟨r, hr, .inr (.inl h)⟩⟩)
    · exact .inl (.inr ⟨s, hs, .inr ⟨r, hr, .inr (.inr h)⟩⟩)
    · exact .inr ⟨s, hs, r, hr, h⟩
  · rintro ((h | ⟨s, hs, h | ⟨r, hr, h | h | h⟩⟩) | ⟨s, hs, r, hr, h⟩)
    · exact .inl h
    · exact .inr ⟨s, hs, .inl h⟩
    · exact .inr ⟨s, hs, .inr ⟨r, hr, .inl h⟩⟩
    · exact .inr ⟨s, hs, .inr ⟨r, hr, .inr (.inl h)⟩⟩
    · exact .inr ⟨s, hs, .inr ⟨r, hr, .inr (.inr (.inl h))⟩⟩
    · exact .inr ⟨s, hs, .inr ⟨r, hr, .inr (.inr (.inr h))⟩⟩

/-- Stackmaps that do not match differ evidently or where the checker misses it. -/
theorem mismatch_iff {a b : List StackMapSection} (hin : IndicesInRange a b) :
    ¬ StackmapsMatch a b ↔ Evident a b ∨ SomeLists a b Missed := by
  constructor
  · intro hno
    by_contra hnone
    rw [not_or] at hnone
    obtain ⟨hev, hmiss⟩ := hnone
    refine hno ⟨?_, ?_, ?_⟩
    · by_contra h
      exact hev (.inl h)
    · intro s hs
      by_contra h
      exact hev (.inr ⟨s, hs, .inl h⟩)
    · intro s hs r hr
      constructor
      · obtain ⟨f, hf⟩ := Option.isSome_iff_exists.mp ((funcAddr_isSome s.1 r.1).mpr (hin s hs r hr).1)
        refine ⟨f, hf, ?_⟩
        by_contra h
        exact hev (.inr ⟨s, hs, .inr ⟨r, hr, .inl fun heq => h (heq ▸ hf)⟩⟩)
      · refine (forall₂_agrees_iff _ _).mpr ⟨?_, ?_⟩
        · by_contra h
          exact hev (.inr ⟨s, hs, .inr ⟨r, hr, .inr (.inl h)⟩⟩)
        · intro k l h
          rcases (differs_iff _ _).mp ⟨k, l, h⟩ with h | h
          · exact hev (.inr ⟨s, hs, .inr ⟨r, hr, .inr (.inr h)⟩⟩)
          · exact hmiss ⟨s, hs, r, hr, h⟩
  · intro h hm
    have hlists : ∀ s ∈ a.zip b, ∀ r ∈ s.1.callSites.zip s.2.callSites,
        numNonDup r.1.locations = numNonDup r.2.locations ∧ ¬ (Seen r.1.locations r.2.locations ∨ Missed r.1.locations r.2.locations) := by
      intro s hs r hr
      obtain ⟨hlen, hnone⟩ := (forall₂_agrees_iff _ _).mp (hm.matched s hs r hr).values
      refine ⟨hlen, fun h => ?_⟩
      obtain ⟨k, l, h⟩ := (differs_iff _ _).mpr h
      exact hnone k l h
    rcases h with (h | ⟨s, hs, h | ⟨r, hr, h | h | h⟩⟩) | ⟨s, hs, r, hr, h⟩
    · exact h hm.sections
    · exact h (hm.records s hs)
    · obtain ⟨f, h1, h2⟩ := (hm.matched s hs r hr).addr
      exact h (h1.trans h2.symm)
    · exact h (hlists s hs r hr).1
    · exact (hlists s hs r hr).2 (.inl h)
    · exact (hlists s hs r hr).2 (.inr h)

/-- The checker's answer is the right one just when the indices it follows are in range, and
    where nothing differs evidently, it misses a mismatch if and only if it raises a false alarm. -/
theorem check_stackmaps_exact_iff (a b : List StackMapSection) :
    (∃ ret, checkStackmaps a b = some ret ∧ (ret = true ↔ StackmapsMatch a b)) ↔
      IndicesInRange a b ∧ (Evident a b ∨ (SomeLists a b Missed ↔ SomeLists a b FalseAlarm)) := by
  classical
  have hexact : (∃ ret, checkStackmaps a b = some ret ∧ (ret = true ↔ StackmapsMatch a b)) ↔
      IndicesInRange a b ∧ (¬ Visible a b ↔ StackmapsMatch a b) := by
    simp only [checkStackmaps_eq_some]
    constructor
    · rintro ⟨ret, ⟨hin, hret⟩, hm⟩
      exact ⟨hin, hret.symm.trans hm⟩
    · rintro ⟨hin, hiff⟩
      exact ⟨decide (StackmapsMatch a b), ⟨hin, by rw [decide_eq_true_eq, hiff]⟩, by rw [decide_eq_true_eq]⟩
  rw [hexact]
  refine and_congr_right fun hin => ?_
  have hmiss := mismatch_iff hin
  have hshow := visible_iff a b
  tauto

theorem length_nil_lt {α : Type} : ([] : List α).length < 65536 := Nat.zero_lt_succ _

/-- A section of one function with one call site. -/
def oneRecord (locs : List LiveValue) (h : locs.length < 65536) : StackMapSection where
  version := 1
  reserved := 0
  reserved2 := 0
  functionRecords := [⟨0x1000, 32, 0, 0⟩]
  constants := []
  callSites := [⟨7, 0, 16, 0, locs, [], [], h, length_nil_lt, length_nil_lt⟩]

/-- A live value in a register, its backing stack slot and a second live value of `size` bytes. -/
def spilledValue (size : UInt8) : List LiveValue :=
  [⟨false, false, false, false, 1, 8, 3, 0, 0⟩, ⟨true, false, false, false, 3, 8, 6, -8, 0⟩,
    ⟨false, false, false, false, 1, size, 12, 0, 0⟩]

/-- The second value has 4 bytes in one binary and 8 in the other: the checker says SUCCESS. -/
theorem check_misses_size :
    checkStackmaps [oneRecord (spilledValue 4) (by decide)] [oneRecord (spilledValue 8) (by decide)] = some true ∧
      ¬ StackmapsMatch [oneRecord (spilledValue 4) (by decide)] [oneRecord (spilledValue 8) (by decide)] := by
  constructor
  · have hcmp : compareLocations (spilledValue 4) (spilledValue 8) 0 0 = true := by
      rw [compareLocations, compareLocations]
      decide
    simp [checkStackmaps, checkSection, checkRecord, checkRound, oneRecord, funcAddr, hcmp]
    decide
  · intro h
    have hv := (h.matched _ (by simp; rfl) _ (by simp [oneRecord]; rfl)).values
    simp [spilledValue, nonDuplicates, Agrees] at hv

end Popcorn.Metadata
