/-
  Popcorn.Pyalign.Symbol — a symbol of the alignment tool (`Symbol.py`, `Arch.py`).

  What a symbol has on each architecture is kept in dictionaries indexed by the architecture;
  -1 stands for an architecture that does not reference the symbol. A symbol read from one
  map file is new; one found in a second map file too is merged into the first.

  Proved: a symbol read from map files is `Fresh` (`new_fresh`, `merge_fresh`); on one that is,
  the largest size bounds every size (`getLargetSizeVal_spec`) and the largest alignment is a
  multiple of every alignment (`largest_alignment`).
-/

import Mathlib.Algebra.Order.Ring.Int
import Mathlib.Tactic.Common

namespace Popcorn.Pyalign

inductive Arch where
  | x86
  | arm
  | power
  deriving DecidableEq, Repr

/-- A dictionary with an entry for every architecture. -/
structure PerArch (α : Type) where
  x86 : α
  arm : α
  power : α
  deriving DecidableEq, Repr

namespace PerArch

variable {α : Type}

def get (d : PerArch α) : Arch → α
  | .x86 => d.x86
  | .arm => d.arm
  | .power => d.power

def set (d : PerArch α) (arch : Arch) (v : α) : PerArch α :=
  match arch with
  | .x86 => { d with x86 := v }
  | .arm => { d with arm := v }
  | .power => { d with power := v }

def all (v : α) : PerArch α := ⟨v, v, v⟩

/-- `d[arch] += n`. -/
def incr (d : PerArch Int) (arch : Arch) (n : Int) : PerArch Int := d.set arch (d.get arch + n)

/-- The keys of a dictionary, in its order. -/
def keys : List Arch := [.x86, .arm, .power]

theorem mem_keys (arch : Arch) : arch ∈ keys := by
  cases arch <;> decide

theorem keys_nodup : keys.Nodup := by decide

@[simp] theorem get_all (v : α) (arch : Arch) : (all v).get arch = v := by
  cases arch <;> rfl

@[simp] theorem get_set (d : PerArch α) (a b : Arch) (v : α) : (d.set a v).get b = if b = a then v else d.get b := by
  cases a <;> cases b <;> rfl

theorem foldl_set (as : List Arch) (d : PerArch α) (v : α) (b : Arch) :
    (as.foldl (fun d a => d.set a v) d).get b = if b ∈ as then v else d.get b := by
  induction as generalizing d with
  | nil => rfl
  | cons a as ih =>
    rw [List.foldl_cons, ih, get_set]
    by_cases hb : b ∈ as
    · rw [if_pos hb, if_pos (.tail _ hb)]
    · rw [if_neg hb]
      by_cases hab : b = a
      · rw [if_pos hab, if_pos (hab ▸ .head _)]
      · rw [if_neg hab, if_neg (by simp [hab, hb])]

theorem foldl_incr {as : List Arch} (has : as.Nodup) (f : Arch → Int) (d : PerArch Int) (b : Arch) :
    (as.foldl (fun d a => d.incr a (f a)) d).get b = d.get b + if b ∈ as then f b else 0 := by
  induction as generalizing d with
  | nil => exact (Int.add_zero _).symm
  | cons a as ih =>
    obtain ⟨ha, has⟩ := List.nodup_cons.1 has
    rw [List.foldl_cons, ih has, incr, get_set]
    by_cases hab : b = a
    · subst hab
      rw [if_pos rfl, if_neg ha, if_pos (.head _), Int.add_zero]
    · rw [if_neg hab]
      by_cases hb : b ∈ as
      · rw [if_pos hb, if_pos (.tail _ hb)]
      · rw [if_neg hb, if_neg (by simp [hab, hb])]

end PerArch

/-! ## The symbol -/

structure Symbol where
  name : String
  addresses : PerArch Int
  sizes : PerArch Int
  alignments : PerArch Int
  isReferenced : PerArch Bool
  paddingBefore : PerArch Int
  paddingAfter : PerArch Int
  objectFiles : PerArch String
  deriving DecidableEq, Repr

/-- Whether the string starts, after a first character and on its first line, with a path to a
    `.o`; an archive's `.a(….o)` does too. -/
def symbolObjectFileSanityCheck (obj : String) : Bool :=
  ((obj.toList.takeWhile (· != '\n')).drop 1).tails.any fun rest => ['.', 'o'].isPrefixOf rest

namespace Symbol

/-- `Symbol(name, …, arch)`; `none` is the exit on a bad object file. -/
def new (name : String) (address size alignment : Int) (objectFile : String) (arch : Arch) : Option Symbol :=
  if symbolObjectFileSanityCheck objectFile then
    some {
      name := name
      addresses := (PerArch.all (-1)).set arch address
      sizes := (PerArch.all (-1)).set arch size
      alignments := (PerArch.all (-1)).set arch alignment
      isReferenced := (PerArch.all false).set arch true
      paddingBefore := PerArch.all 0
      paddingAfter := PerArch.all 0
      objectFiles := (PerArch.all "NULL").set arch objectFile }
  else none

def getObjectFile (s : Symbol) (arch : Arch) : String := s.objectFiles.get arch

def setObjectFile (s : Symbol) (obj : String) (arch : Arch) : Option Symbol :=
  if symbolObjectFileSanityCheck obj then some { s with objectFiles := s.objectFiles.set arch obj } else none

def getAddress (s : Symbol) (arch : Arch) : Int := s.addresses.get arch

def setAddress (s : Symbol) (address : Int) (arch : Arch) : Symbol := { s with addresses := s.addresses.set arch address }

def getSize (s : Symbol) (arch : Arch) : Int := s.sizes.get arch

def setSize (s : Symbol) (size : Int) (arch : Arch) : Symbol := { s with sizes := s.sizes.set arch size }

def getAlignment (s : Symbol) (arch : Arch) : Int := s.alignments.get arch

def setAlignment (s : Symbol) (alignment : Int) (arch : Arch) : Symbol :=
  { s with alignments := s.alignments.set arch alignment }

def getReference (s : Symbol) (arch : Arch) : Bool := s.isReferenced.get arch

def setReference (s : Symbol) (arch : Arch) : Symbol := { s with isReferenced := s.isReferenced.set arch true }

def getPaddingBefore (s : Symbol) (arch : Arch) : Int := s.paddingBefore.get arch

def getPaddingAfter (s : Symbol) (arch : Arch) : Int := s.paddingAfter.get arch

def incrPaddingBefore (s : Symbol) (paddingToAdd : Int) (arch : Arch) : Symbol :=
  { s with paddingBefore := s.paddingBefore.incr arch paddingToAdd }

def incrPaddingAfter (s : Symbol) (paddingToAdd : Int) (arch : Arch) : Symbol :=
  { s with paddingAfter := s.paddingAfter.incr arch paddingToAdd }

def getArchitecturesReferencing (s : Symbol) : List Arch := PerArch.keys.filter s.getReference

def getArchitecturesNotReferencing (s : Symbol) : List Arch := PerArch.keys.filter (· ∉ s.getArchitecturesReferencing)

/-- The loop that looks for the largest value of some architectures and whose it is. -/
def largest (f : Arch → Int) (archs : List Arch) (res : Option Arch × Int) : Option Arch × Int :=
  archs.foldl (fun r arch => if f arch > r.2 then (some arch, f arch) else r) res

def getLargetSizeArch (s : Symbol) : Option Arch := (largest s.getSize PerArch.keys (none, -1)).1

/-- `none` where no size is over -1: `getSize` exits on what is not an architecture. -/
def getLargetSizeVal (s : Symbol) : Option Int := s.getLargetSizeArch.map s.getSize

def setLargestAlignment (s : Symbol) : Symbol × Int :=
  let largestAlignment := (largest s.getAlignment PerArch.keys (none, -1)).2
  (s.getArchitecturesReferencing.foldl (fun s arch => s.setAlignment largestAlignment arch) s, largestAlignment)

/-- What `updateSymbolsList` does with a symbol of `arch` found in the list already. -/
def merge (existingSymbol symbol : Symbol) (arch : Arch) : Option Symbol :=
  if existingSymbol.getReference arch then none
  else
    ((((existingSymbol.setAddress (symbol.getAddress arch) arch).setSize (symbol.getSize arch) arch).setAlignment
      (symbol.getAlignment arch) arch).setReference arch).setObjectFile (symbol.getObjectFile arch) arch

/-! ## Symbols of map files -/

/-- A symbol as the map files give it: what it has where it is referenced, -1 elsewhere, and no
    padding yet. -/
structure Fresh (s : Symbol) : Prop where
  address : ∀ arch, s.getReference arch = true → 0 ≤ s.getAddress arch
  size : ∀ arch, s.getReference arch = true → 0 ≤ s.getSize arch
  alignment : ∀ arch, s.getReference arch = true → ∃ k : Nat, s.getAlignment arch = 2 ^ k
  absent : ∀ arch, s.getReference arch = false → s.getAddress arch = -1 ∧ s.getSize arch = -1 ∧ s.getAlignment arch = -1
  considered : s.getReference .power = false
  referenced : s.getReference .x86 = true ∨ s.getReference .arm = true
  unpadded : s.paddingBefore = .all 0 ∧ s.paddingAfter = .all 0

theorem new_fresh {name objectFile : String} {address size : Int} {k : Nat} {arch : Arch} {s : Symbol} (haddr : 0 ≤ address)
    (hsize : 0 ≤ size) (harch : arch ≠ .power) (h : new name address size (2 ^ k) objectFile arch = some s) : s.Fresh := by
  unfold new at h
  split at h
  · obtain rfl := Option.some.inj h
    have href : ∀ a, ((PerArch.all false).set arch true).get a = true ↔ a = arch := by
      intro a
      rw [PerArch.get_set, PerArch.get_all]
      by_cases ha : a = arch <;> simp [ha]
    refine ⟨?_, ?_, ?_, ?_, ?_, ?_, rfl, rfl⟩
    · intro a ha
      obtain rfl := (href a).1 ha
      simpa [getAddress] using haddr
    · intro a ha
      obtain rfl := (href a).1 ha
      simpa [getSize] using hsize
    · intro a ha
      obtain rfl := (href a).1 ha
      exact ⟨k, by simp [getAlignment]⟩
    · intro a ha
      have hne : a ≠ arch := by
        intro e
        rw [getReference, (href a).2 e] at ha
        cases ha
      simp [getAddress, getSize, getAlignment, hne]
    · simp [getReference, harch.symm]
    · cases arch with
      | x86 => exact .inl rfl
      | arm => exact .inr rfl
      | power => exact absurd rfl harch
  · cases h

theorem merge_fresh {existing symbol out : Symbol} {arch : Arch} (he : existing.Fresh) (hs : symbol.Fresh)
    (hin : symbol.getReference arch = true) (h : existing.merge symbol arch = some out) : out.Fresh := by
  unfold merge setObjectFile at h
  split at h
  · cases h
  split at h
  · obtain rfl := Option.some.inj h
    have harch : arch ≠ .power := by
      intro e
      rw [e, hs.considered] at hin
      cases hin
    refine ⟨?_, ?_, ?_, ?_, ?_, ?_, he.unpadded⟩
    all_goals simp only [getAddress, getSize, getAlignment, getReference, setAddress, setSize, setAlignment, setReference, PerArch.get_set]
    · intro a ha
      by_cases hab : a = arch
      · rw [if_pos hab]
        exact hs.address arch hin
      · rw [if_neg hab] at ha ⊢
        exact he.address a ha
    · intro a ha
      by_cases hab : a = arch
      · rw [if_pos hab]
        exact hs.size arch hin
      · rw [if_neg hab] at ha ⊢
        exact he.size a ha
    · intro a ha
      by_cases hab : a = arch
      · rw [if_pos hab]
        exact hs.alignment arch hin
      · rw [if_neg hab] at ha ⊢
        exact he.alignment a ha
    · intro a ha
      by_cases hab : a = arch
      · rw [if_pos hab] at ha
        cases ha
      · rw [if_neg hab] at ha
        rw [if_neg hab, if_neg hab, if_neg hab]
        exact he.absent a ha
    · rw [if_neg harch.symm]
      exact he.considered
    · rcases he.referenced with hx | hx
      · left
        split
        · rfl
        · exact hx
      · right
        split
        · rfl
        · exact hx
  · cases h

/-! ## The largest size and alignment -/

/-- What the loop has found: nothing yet, or the value of the architecture it names. -/
def Found (f : Arch → Int) (r : Option Arch × Int) : Prop := r = (none, -1) ∨ ∃ arch, r = (some arch, f arch)

theorem largest_spec (f : Arch → Int) (archs : List Arch) {r : Option Arch × Int} (hr : Found f r) :
    Found f (largest f archs r) ∧ r.2 ≤ (largest f archs r).2 ∧ ∀ arch ∈ archs, f arch ≤ (largest f archs r).2 := by
  induction archs generalizing r with
  | nil => exact ⟨hr, Int.le_refl _, fun _ h => absurd h List.not_mem_nil⟩
  | cons b archs ih =>
    unfold largest at ih ⊢
    rw [List.foldl_cons]
    by_cases hb : f b > r.2
    · rw [if_pos hb]
      obtain ⟨hfound, hle, hall⟩ := ih (r := (some b, f b)) (.inr ⟨b, rfl⟩)
      refine ⟨hfound, Int.le_trans (Int.le_of_lt hb) hle, ?_⟩
      intro a ha
      rcases List.mem_cons.1 ha with rfl | ha
      · exact hle
      · exact hall a ha
    · rw [if_neg hb]
      obtain ⟨hfound, hle, hall⟩ := ih hr
      refine ⟨hfound, hle, ?_⟩
      intro a ha
      rcases List.mem_cons.1 ha with rfl | ha
      · omega
      · exact hall a ha

/-- Over a dictionary with a value over -1, the loop ends at a largest one. -/
theorem largest_keys (f : Arch → Int) {b : Arch} (hb : 0 ≤ f b) :
    ∃ arch, largest f PerArch.keys (none, -1) = (some arch, f arch) ∧ ∀ a, f a ≤ f arch := by
  obtain ⟨hfound, -, hall⟩ := largest_spec f PerArch.keys (r := (none, -1)) (.inl rfl)
  rcases hfound with h | ⟨arch, h⟩
  · have := hall b (PerArch.mem_keys b)
    rw [h] at this
    omega
  · rw [h] at hall
    exact ⟨arch, h, fun a => hall a (PerArch.mem_keys a)⟩

namespace Fresh

variable {s : Symbol} (h : s.Fresh)

include h in
theorem exists_reference : ∃ arch, s.getReference arch = true :=
  h.referenced.elim (fun hx => ⟨.x86, hx⟩) (fun hx => ⟨.arm, hx⟩)

include h in
theorem getLargetSizeVal_spec : ∃ size, s.getLargetSizeVal = some size ∧ 0 ≤ size ∧ ∀ arch, s.getSize arch ≤ size := by
  obtain ⟨b, hb⟩ := h.exists_reference
  obtain ⟨arch, hl, hall⟩ := largest_keys s.getSize (h.size b hb)
  refine ⟨s.getSize arch, ?_, Int.le_trans (h.size b hb) (hall b), hall⟩
  rw [getLargetSizeVal, getLargetSizeArch, hl]
  rfl

include h in
theorem alignment_pos {arch : Arch} (ha : s.getReference arch = true) : 0 < s.getAlignment arch := by
  obtain ⟨k, hk⟩ := h.alignment arch ha
  rw [hk]
  exact Int.pow_pos (by decide)

include h in
/-- The largest alignment is one of those referenced, and every one divides it. -/
theorem largest_alignment : ∃ arch, s.getReference arch = true ∧ s.setLargestAlignment.2 = s.getAlignment arch ∧
    ∀ a, s.getReference a = true → s.getAlignment a ∣ s.getAlignment arch := by
  obtain ⟨b, hb⟩ := h.exists_reference
  obtain ⟨arch, hl, hall⟩ := largest_keys s.getAlignment (Int.le_of_lt (h.alignment_pos hb))
  have href : s.getReference arch = true := by
    cases hr : s.getReference arch with
    | true => rfl
    | false =>
      have hle := hall b
      have hpos := h.alignment_pos hb
      rw [(h.absent arch hr).2.2] at hle
      omega
  refine ⟨arch, href, by rw [setLargestAlignment, hl], ?_⟩
  intro a ha
  obtain ⟨j, hj⟩ := h.alignment a ha
  obtain ⟨k, hk⟩ := h.alignment arch href
  have hle := hall a
  rw [hj, hk] at hle ⊢
  exact pow_dvd_pow 2 ((pow_le_pow_iff_right₀ (by decide)).1 hle)

include h in
theorem largest_pos : 0 < s.setLargestAlignment.2 := by
  obtain ⟨arch, href, hmax, -⟩ := h.largest_alignment
  rw [hmax]
  exact h.alignment_pos href

end Fresh

end Symbol

end Popcorn.Pyalign
