/-
  Popcorn.Pyalign.Align — ordering and padding the symbols of a section (`__main__.py`).

  `orderSymbolList` puts the symbols more architectures reference first. `align` then goes
  through them with an address relative to the section: a symbol gets the largest of its
  alignments, the architectures that do not reference it get the padding before it that the
  linker's ALIGN gives the others, and each architecture gets what it lacks of the largest size
  as padding after.

  Proved: ordering loses nothing (`order_perm`) and leaves the symbols both architectures
  reference in front (`order_shared`); `align` returns (`align_spec`), and `AlignedFrom` says what.
-/

import Popcorn.Lib.LocationCounter
import Popcorn.Pyalign.Symbol

namespace Popcorn.Pyalign

open Lib.LocationCounter Pyalign.Symbol

/-! ## The code -/

def consideredArchs : List Arch := [.x86, .arm]

/-- `referencingArchs`, the count in `orderSymbolList`. -/
def referencingArchs (s : Symbol) : Nat :=
  consideredArchs.foldl (fun n arch => if s.getAddress arch = -1 then n - 1 else n) consideredArchs.length

def orderSymbolList (sl : List Symbol) : List Symbol :=
  (List.range' 1 consideredArchs.length).reverse.flatMap fun order => sl.filter fun s => referencingArchs s = order

/-- `while ((address + padBefore) % alignment) != 0: padBefore += 1`; `none` where `%` fails or
    the fuel runs out. -/
def padLoop (address alignment : Int) : Nat → Int → Option Int
  | 0, _ => none
  | fuel + 1, padBefore =>
    if alignment = 0 then none
    else if (address + padBefore) % alignment = 0 then some padBefore
    else padLoop address alignment fuel (padBefore + 1)

/-- One round of `align`: the symbol and the next address. -/
def alignSymbol (fuel : Nat) (address : Int) (s : Symbol) : Option (Symbol × Int) := do
  let (s, alignment) := s.setLargestAlignment
  let padBefore ← padLoop address alignment fuel 0
  let s := s.getArchitecturesNotReferencing.foldl (fun s arch => s.incrPaddingBefore padBefore arch) s
  let largestSize ← s.getLargetSizeVal
  let s := s.getArchitecturesReferencing.foldl (fun s arch => s.incrPaddingAfter (largestSize - s.getSize arch) arch) s
  let s := s.getArchitecturesNotReferencing.foldl (fun s arch => s.incrPaddingAfter largestSize arch) s
  pure (s, address + (padBefore + largestSize))

def alignFrom (fuel : Nat) : Int → List Symbol → Option (List Symbol)
  | _, [] => some []
  | address, s :: sl => do
    let (s, address) ← alignSymbol fuel address s
    let sl ← alignFrom fuel address sl
    pure (s :: sl)

def align (fuel : Nat) (sl : List Symbol) : Option (List Symbol) := alignFrom fuel 0 sl

/-! ## Ordering -/

theorem Symbol.Fresh.address_absent {s : Symbol} (h : s.Fresh) (arch : Arch) : s.getAddress arch = -1 ↔ s.getReference arch = false := by
  constructor
  · intro ha
    cases hr : s.getReference arch with
    | false => rfl
    | true =>
      have := h.address arch hr
      omega
  · exact fun hr => (h.absent arch hr).1

theorem Symbol.Fresh.count {s : Symbol} (h : s.Fresh) :
    referencingArchs s = (if s.getReference .x86 then 1 else 0) + if s.getReference .arm then 1 else 0 := by
  simp only [referencingArchs, consideredArchs, List.foldl, h.address_absent]
  cases s.getReference .x86 <;> cases s.getReference .arm <;> rfl

/-- The symbol is referenced by both considered architectures. -/
def Symbol.shared (s : Symbol) : Bool := s.getReference .x86 && s.getReference .arm

theorem orderSymbolList_eq {sl : List Symbol} (hsl : ∀ s ∈ sl, s.Fresh) :
    orderSymbolList sl = sl.filter Symbol.shared ++ sl.filter (fun s => !s.shared) := by
  have htwo : sl.filter (fun s => referencingArchs s = 2) = sl.filter Symbol.shared := by
    refine List.filter_congr fun s hs => ?_
    rw [(hsl s hs).count, Symbol.shared]
    cases s.getReference .x86 <;> cases s.getReference .arm <;> rfl
  have hone : sl.filter (fun s => referencingArchs s = 1) = sl.filter (fun s => !s.shared) := by
    refine List.filter_congr fun s hs => ?_
    rw [(hsl s hs).count, Symbol.shared]
    rcases (hsl s hs).referenced with hr | hr <;> rw [hr]
    · cases s.getReference .arm <;> rfl
    · cases s.getReference .x86 <;> rfl
  rw [orderSymbolList, ← htwo, ← hone]
  exact congrArg _ (List.append_nil _)

theorem order_perm {sl : List Symbol} (hsl : ∀ s ∈ sl, s.Fresh) : (orderSymbolList sl).Perm sl := by
  rw [orderSymbolList_eq hsl]
  exact List.filter_append_perm _ _

/-- Up to a symbol both architectures reference, every symbol is one. -/
theorem order_shared {sl : List Symbol} (hsl : ∀ s ∈ sl, s.Fresh) {k : Nat} {s : Symbol} (hk : (orderSymbolList sl)[k]? = some s)
    (hs : s.shared = true) : ∀ t ∈ (orderSymbolList sl).take (k + 1), t.shared = true := by
  rw [orderSymbolList_eq hsl] at hk ⊢
  have hlt : k < (sl.filter Symbol.shared).length := by
    by_contra hge
    rw [List.getElem?_append_right (by omega)] at hk
    have := (List.mem_filter.1 (List.mem_of_getElem? hk)).2
    rw [hs] at this
    cases this
  intro t ht
  rw [List.take_append_of_le_length hlt] at ht
  exact (List.mem_filter.1 (List.mem_of_mem_take ht)).2

/-! ## One round -/

theorem padLoop_some {address alignment padBefore : Int} (ha : alignment ≠ 0) (hstop : alignment ∣ address + padBefore) :
    ∀ (n : Nat) (start : Int), start + n = padBefore → (∀ q, start ≤ q → q < padBefore → ¬ alignment ∣ address + q) →
      ∀ fuel, n < fuel → padLoop address alignment fuel start = some padBefore := by
  intro n
  induction n with
  | zero =>
    intro start hn hlow fuel hf
    obtain ⟨fuel, rfl⟩ := Nat.exists_eq_succ_of_ne_zero (Nat.ne_of_gt hf)
    obtain rfl : start = padBefore := by omega
    rw [padLoop, if_neg ha, if_pos (Int.emod_eq_zero_of_dvd hstop)]
  | succ n ih =>
    intro start hn hlow fuel hf
    obtain ⟨fuel, rfl⟩ := Nat.exists_eq_succ_of_ne_zero (Nat.ne_of_gt (Nat.lt_of_le_of_lt (Nat.zero_le _) hf))
    have hgo : ¬ (address + start) % alignment = 0 := fun h => hlow start (Int.le_refl _) (by omega) (Int.dvd_of_emod_eq_zero h)
    rw [padLoop, if_neg ha, if_neg hgo]
    exact ih (start + 1) (by omega) (fun q hq => hlow q (by omega)) fuel (by omega)

/-- The loop ends at the next multiple of the alignment. -/
theorem padLoop_spec (address : Int) {alignment : Int} (ha : 0 < alignment) (fuel : Nat) (hf : alignment ≤ fuel) :
    padLoop address alignment fuel 0 = some (alignUp alignment address - address) := by
  obtain ⟨hle, hlt⟩ := alignUp_bounds ha address
  have hdvd := alignUp_dvd alignment address
  refine padLoop_some (Int.ne_of_gt ha) (by rwa [show address + (alignUp alignment address - address) = alignUp alignment address by omega]) (alignUp alignment address - address).toNat 0 (by omega) ?_ fuel
    (by omega)
  intro q hq hqlt hq'
  have := alignUp_eq hq' (by omega) (show address + q < address + alignment by omega)
  omega

theorem foldl_setAlignment (as : List Arch) (v : Int) (s : Symbol) :
    as.foldl (fun s a => s.setAlignment v a) s = { s with alignments := as.foldl (fun d a => d.set a v) s.alignments } := by
  induction as generalizing s with
  | nil => rfl
  | cons a as ih => exact ih _

theorem foldl_incrPaddingBefore (as : List Arch) (v : Int) (s : Symbol) :
    as.foldl (fun s a => s.incrPaddingBefore v a) s =
      { s with paddingBefore := as.foldl (fun d a => d.incr a v) s.paddingBefore } := by
  induction as generalizing s with
  | nil => rfl
  | cons a as ih => exact ih _

theorem foldl_incrPaddingAfter (as : List Arch) (f : PerArch Int → Arch → Int) (s : Symbol) :
    as.foldl (fun s a => s.incrPaddingAfter (f s.sizes a) a) s =
      { s with paddingAfter := as.foldl (fun d a => d.incr a (f s.sizes a)) s.paddingAfter } := by
  induction as generalizing s with
  | nil => rfl
  | cons a as ih => exact ih _

/-- What a round makes of a symbol at an address. -/
structure AlignedBy (padBefore alignment largestSize : Int) (s out : Symbol) : Prop where
  name : out.name = s.name
  sizes : out.sizes = s.sizes
  references : out.isReferenced = s.isReferenced
  objectFiles : out.objectFiles = s.objectFiles
  alignments : ∀ arch, s.getReference arch = true → out.getAlignment arch = alignment
  before : ∀ arch, s.getReference arch = false → out.getPaddingBefore arch = padBefore
  after : ∀ arch, out.getPaddingAfter arch = if s.getReference arch then largestSize - s.getSize arch else largestSize

theorem mem_referencing (s : Symbol) (arch : Arch) : arch ∈ s.getArchitecturesReferencing ↔ s.getReference arch = true := by
  rw [getArchitecturesReferencing, List.mem_filter]
  exact and_iff_right (PerArch.mem_keys arch)

theorem mem_notReferencing (s : Symbol) (arch : Arch) : arch ∈ s.getArchitecturesNotReferencing ↔ s.getReference arch = false := by
  rw [getArchitecturesNotReferencing, List.mem_filter, decide_eq_true_eq, mem_referencing, Bool.not_eq_true]
  exact and_iff_right (PerArch.mem_keys arch)

theorem referencing_nodup (s : Symbol) : s.getArchitecturesReferencing.Nodup := PerArch.keys_nodup.filter _

theorem notReferencing_nodup (s : Symbol) : s.getArchitecturesNotReferencing.Nodup := PerArch.keys_nodup.filter _

theorem alignSymbol_spec {s : Symbol} (h : s.Fresh) (address : Int) : ∃ largestSize out,
    (∀ fuel : Nat, s.setLargestAlignment.2 ≤ fuel →
      alignSymbol fuel address s =
        some (out, alignUp s.setLargestAlignment.2 address + largestSize)) ∧
    0 ≤ largestSize ∧ (∀ arch, s.getSize arch ≤ largestSize) ∧
    AlignedBy (alignUp s.setLargestAlignment.2 address - address) s.setLargestAlignment.2 largestSize s out := by
  obtain ⟨largestSize, hsize, hnonneg, hall⟩ := h.getLargetSizeVal_spec
  have hpos := h.largest_pos
  generalize halign : s.setLargestAlignment.2 = alignment at *
  generalize hpad : alignUp alignment address - address = padBefore
  let on := s.getArchitecturesReferencing
  let off := s.getArchitecturesNotReferencing
  let aligned : Symbol := { s with
    alignments := on.foldl (fun d a => d.set a alignment) s.alignments
    paddingBefore := off.foldl (fun d a => d.incr a padBefore) s.paddingBefore }
  let padded := on.foldl (fun d a => d.incr a (largestSize - s.sizes.get a)) s.paddingAfter
  refine ⟨largestSize, { aligned with paddingAfter := off.foldl (fun d a => d.incr a largestSize) padded }, ?_, hnonneg, hall, ?_⟩
  · intro fuel hf
    have hfirst : s.setLargestAlignment = ({ s with alignments := on.foldl (fun d a => d.set a alignment) s.alignments }, alignment) := by
      rw [← halign]
      exact Prod.ext (foldl_setAlignment _ _ s) rfl
    rw [alignSymbol, hfirst]
    simp only [padLoop_spec address hpos fuel hf, hpad, Option.bind_eq_bind, Option.bind_some]
    rw [foldl_incrPaddingBefore]
    have hon := foldl_incrPaddingAfter on (fun sizes a => largestSize - sizes.get a) aligned
    have hoff := foldl_incrPaddingAfter off (fun _ _ => largestSize) { aligned with paddingAfter := padded }
    -- the paddings are no part of what the largest size is read from
    refine (congrArg (Option.bind · _) (show getLargetSizeVal _ = some largestSize from hsize)).trans ?_
    let padOff (t : Symbol) := t.getArchitecturesNotReferencing.foldl (fun s arch => s.incrPaddingAfter largestSize arch) t
    exact congrArg some (Prod.ext ((congrArg padOff hon).trans hoff) (show address + (padBefore + largestSize) = _ by omega))
  · refine ⟨rfl, rfl, rfl, rfl, ?_, ?_, ?_⟩
    · intro a ha
      exact (PerArch.foldl_set on s.alignments alignment a).trans (if_pos ((mem_referencing s a).2 ha))
    · intro a ha
      rw [getPaddingBefore, PerArch.foldl_incr (notReferencing_nodup s), if_pos ((mem_notReferencing s a).2 ha), h.unpadded.1,
        PerArch.get_all, Int.zero_add]
    · intro a
      rw [getPaddingAfter, PerArch.foldl_incr (notReferencing_nodup s), PerArch.foldl_incr (referencing_nodup s), h.unpadded.2,
        PerArch.get_all, Int.zero_add]
      simp only [mem_referencing, mem_notReferencing]
      cases s.getReference a with
      | true => exact Int.add_zero _
      | false => exact Int.zero_add _

/-! ## The whole list -/

/-- What `align` makes of a list of symbols from an address on. -/
inductive AlignedFrom : Int → List Symbol → List Symbol → Prop
  | nil (address : Int) : AlignedFrom address [] []
  | cons {address largestSize : Int} {s out : Symbol} {sl outs : List Symbol} (fresh : s.Fresh)
      (size : ∀ arch, s.getSize arch ≤ largestSize) (nonneg : 0 ≤ largestSize)
      (aligned : AlignedBy (alignUp s.setLargestAlignment.2 address - address) s.setLargestAlignment.2 largestSize s out)
      (rest : AlignedFrom (alignUp s.setLargestAlignment.2 address + largestSize) sl outs) : AlignedFrom address (s :: sl) (out :: outs)

theorem alignFrom_spec {sl : List Symbol} (hsl : ∀ s ∈ sl, s.Fresh) (address : Int) :
    ∃ n outs, (∀ fuel, n ≤ fuel → alignFrom fuel address sl = some outs) ∧ AlignedFrom address sl outs := by
  induction sl generalizing address with
  | nil => exact ⟨0, [], fun _ _ => rfl, .nil address⟩
  | cons s sl ih =>
    obtain ⟨largestSize, out, hround, hnonneg, hsize, hout⟩ := alignSymbol_spec (hsl s (.head _)) address
    obtain ⟨n, outs, hrest, haligned⟩ :=
      ih (fun t ht => hsl t (.tail _ ht)) (alignUp s.setLargestAlignment.2 address + largestSize)
    refine ⟨max s.setLargestAlignment.2.toNat n, out :: outs, ?_, .cons (hsl s (.head _)) hsize hnonneg hout haligned⟩
    intro fuel hf
    rw [alignFrom, hround fuel (by omega)]
    simp only [Option.bind_eq_bind, Option.bind_some, hrest fuel (by omega)]
    rfl

theorem align_spec {sl : List Symbol} (hsl : ∀ s ∈ sl, s.Fresh) :
    ∃ n outs, (∀ fuel, n ≤ fuel → align fuel sl = some outs) ∧ AlignedFrom 0 sl outs :=
  alignFrom_spec hsl 0

theorem AlignedFrom.take {address : Int} {sl outs : List Symbol} (h : AlignedFrom address sl outs) (k : Nat) :
    AlignedFrom address (sl.take k) (outs.take k) := by
  induction h generalizing k with
  | nil address =>
    rw [List.take_nil]
    exact .nil address
  | cons fresh size nonneg aligned rest ih =>
    cases k with
    | zero => exact .nil _
    | succ k => exact .cons fresh size nonneg aligned (ih k)

end Popcorn.Pyalign
