/-
  Popcorn.Pyalign.Match — the symbols of the map files put together
  (`AbstractArchitecture.updateSymbolsList`).

  Each architecture adds the symbols of its map file to a list per section: a symbol goes into
  the first entry it compares equal to, or to the end of the list. The program ends in an error
  where that entry has a symbol of the architecture already. The sections of the executable,
  which say where a symbol belongs, are a parameter.

  Proved: `symbols_matched_iff`: for which map files each symbol ends up in one entry, with the
  symbol of the other architecture that has its name and comes from its source.
-/

import Popcorn.Pyalign.Compare
import Popcorn.Pyalign.Linker
import Mathlib.Data.List.Nodup

namespace Popcorn.Pyalign

/-! ## The lists -/

/-- A section of an executable (`ReadElfParser.Section`). -/
structure SectionInfo where
  name : Section
  address : Int
  size : Int
  deriving DecidableEq, Repr

def getSection (arch : Arch) (symbol : Symbol) : List SectionInfo → Option Section
  | [] => none
  | sec :: sectionInfo =>
    let addr := symbol.getAddress arch
    if addr ≥ sec.address ∧ addr < sec.address + sec.size then some sec.name
    -- a symbol at the section's very end
    else if addr = sec.address + sec.size ∧ sec.name.name.toList.isPrefixOf symbol.name.toList then some sec.name
    else getSection arch symbol sectionInfo

/-- The loop over a section's entries. -/
def updateEntries (arch : Arch) (symbol : Symbol) : List Symbol → Option (List Symbol)
  | [] => some [symbol]
  | existingSymbol :: rest =>
    match symbol.compare existingSymbol with
    | none => none
    | some true => (existingSymbol.merge symbol arch).map (· :: rest)
    | some false => (updateEntries arch symbol rest).map (existingSymbol :: ·)

def updateSymbolsList (arch : Arch) (sectionsInfo : List SectionInfo) (symbolsToAdd : List Symbol)
    (symbolsList : Section → List Symbol) : Option (Section → List Symbol) :=
  symbolsToAdd.foldlM (fun symbolsList symbol =>
    match getSection arch symbol sectionsInfo with
    | none => some symbolsList
    | some sec =>
      if symbol.name ∈ symbolsBlacklist sec then some symbolsList
      else (updateEntries arch symbol (symbolsList sec)).map (Function.update symbolsList sec)) symbolsList

/-! ## The property -/

/-- The list a symbol belongs to. -/
def placed (arch : Arch) (sectionsInfo : List SectionInfo) (symbol : Symbol) : Option Section :=
  match getSection arch symbol sectionsInfo with
  | none => none
  | some sec => if symbol.name ∈ symbolsBlacklist sec then none else some sec

def objectName (arch : Arch) (s : Symbol) : List Char := baseName (s.getObjectFile arch)

/-- A symbol's name and the source it comes from. -/
def key (arch : Arch) (s : Symbol) : String × List Char := (s.name, sourceObject (objectName arch s))

/-- What an architecture's map file and executable have. -/
structure Binary where
  symbols : List Symbol
  sectionsInfo : List SectionInfo

/-- The symbols that belong to a section's list. -/
def Binary.ofSection (b : Binary) (arch : Arch) (sec : Section) : List Symbol :=
  b.symbols.filter fun s => placed arch b.sectionsInfo s = some sec

/-- The symbols of a map file; of those of a section no two share both name and source. -/
structure Binary.Ok (b : Binary) (arch : Arch) : Prop where
  parsed : ∀ s ∈ b.symbols, ∃ name address size alignment objectFile, Symbol.new name address size alignment objectFile arch = some s
  distinct : ∀ sec, ((b.ofSection arch sec).map (key arch)).Nodup

/-- The entry has the symbol's data for the architecture. -/
structure EntryOf (arch : Arch) (s e : Symbol) : Prop where
  reference : e.getReference arch = true
  name : e.name = s.name
  address : e.getAddress arch = s.getAddress arch
  size : e.getSize arch = s.getSize arch
  alignment : e.getAlignment arch = s.getAlignment arch
  objectFile : e.getObjectFile arch = s.getObjectFile arch

instance (arch : Arch) (s e : Symbol) : Decidable (EntryOf arch s e) :=
  decidable_of_iff (e.getReference arch = true ∧ e.name = s.name ∧ e.getAddress arch = s.getAddress arch ∧
      e.getSize arch = s.getSize arch ∧ e.getAlignment arch = s.getAlignment arch ∧ e.getObjectFile arch = s.getObjectFile arch)
    ⟨fun ⟨hr, hn, ha, hs, hl, ho⟩ => ⟨hr, hn, ha, hs, hl, ho⟩, fun h => ⟨h.1, h.2, h.3, h.4, h.5, h.6⟩⟩

/-- The lists have each symbol once, and two symbols in one entry where they have the same
    section, name and source. -/
structure Matched (binaries : Arch → Binary) (lists : Section → List Symbol) : Prop where
  once : ∀ arch, arch ≠ .power → ∀ s ∈ (binaries arch).symbols, ∀ sec, placed arch (binaries arch).sectionsInfo s = some sec →
    ∀ sec', (lists sec').countP (fun e => EntryOf arch s e) = if sec' = sec then 1 else 0
  together : ∀ x ∈ (binaries .x86).symbols, ∀ a ∈ (binaries .arm).symbols, ∀ sec sec', placed .x86 (binaries .x86).sectionsInfo x = some sec →
    placed .arm (binaries .arm).sectionsInfo a = some sec' →
      ((∃ sec, ∃ e ∈ lists sec, EntryOf .x86 x e ∧ EntryOf .arm a e) ↔ sec = sec' ∧ key .x86 x = key .arm a)
  apart : ∀ arch, arch ≠ .power → ∀ s ∈ (binaries arch).symbols, ∀ t ∈ (binaries arch).symbols, s ≠ t →
    (placed arch (binaries arch).sectionsInfo s).isSome = true → (placed arch (binaries arch).sectionsInfo t).isSome = true →
      ∀ sec, ∀ e ∈ lists sec, ¬ (EntryOf arch s e ∧ EntryOf arch t e)

/-- The two architectures add their symbols to empty lists, `first` first. -/
def updateBoth (binaries : Arch → Binary) (first second : Arch) : Option (Section → List Symbol) := do
  let lists ← updateSymbolsList first (binaries first).sectionsInfo (binaries first).symbols fun _ => []
  updateSymbolsList second (binaries second).sectionsInfo (binaries second).symbols lists

structure SymbolsMatched (binaries : Arch → Binary) : Prop where
  /-- A symbol of each architecture: the comparison tells whether they come from one source. -/
  compared : ∀ x ∈ (binaries .x86).symbols, ∀ a ∈ (binaries .arm).symbols, x.name = a.name →
    x.compare a = some (decide (key .x86 x = key .arm a)) ∧ a.compare x = x.compare a
  x86First : ∃ lists, updateBoth binaries .x86 .arm = some lists ∧ Matched binaries lists
  armFirst : ∃ lists, updateBoth binaries .arm .x86 = some lists ∧ Matched binaries lists

/-- What the names of the object files must be. -/
structure NamesOk (binaries : Arch → Binary) : Prop where
  across : ∀ x ∈ (binaries .x86).symbols, ∀ a ∈ (binaries .arm).symbols, x.name = a.name →
    Comparable (objectName .x86 x) (objectName .arm a)
  /-- In one map file a symbol is not taken for an earlier one. -/
  within : ∀ arch, arch ≠ .power → ∀ sec, ((binaries arch).ofSection arch sec).Pairwise fun s t =>
    s.name = t.name → Unmatched (objectName arch t) (objectName arch s)

/-! ## Symbols of one architecture -/

structure Single (arch : Arch) (s : Symbol) : Prop where
  reference : ∀ a, s.getReference a = true ↔ a = arch
  accepted : symbolObjectFileSanityCheck (s.getObjectFile arch) = true
  absent : ∀ a, a ≠ arch → s.getObjectFile a = "NULL"

theorem new_single {name objectFile : String} {address size alignment : Int} {arch : Arch} {s : Symbol}
    (h : Symbol.new name address size alignment objectFile arch = some s) : Single arch s := by
  unfold Symbol.new at h
  split at h
  · rename_i hok
    obtain rfl := Option.some.inj h
    refine ⟨fun a => ?_, ?_, fun a ha => ?_⟩
    · rw [Symbol.getReference, PerArch.get_set, PerArch.get_all]
      by_cases ha : a = arch <;> simp [ha]
    · rw [Symbol.getObjectFile, PerArch.get_set, if_pos rfl]
      exact hok
    · rw [Symbol.getObjectFile, PerArch.get_set, if_neg ha, PerArch.get_all]
  · cases h

theorem accepted_ne_null {obj : String} (h : symbolObjectFileSanityCheck obj = true) : obj ≠ "NULL" := by
  rintro rfl
  revert h
  decide

theorem mem_objects {s : Symbol} {o : String} : o ∈ s.objects ↔ o ≠ "NULL" ∧ ∃ a, s.getObjectFile a = o := by
  rw [Symbol.objects, List.mem_filter, List.mem_map, bne_iff_ne, and_comm]
  exact and_congr_right fun _ => ⟨fun ⟨a, _, ha⟩ => ⟨a, ha⟩, fun ⟨a, ha⟩ => ⟨a, PerArch.mem_keys a, ha⟩⟩

theorem Single.mem_objects {arch : Arch} {s : Symbol} (hs : Single arch s) {o : String} : o ∈ s.objects ↔ o = s.getObjectFile arch := by
  rw [Pyalign.mem_objects]
  constructor
  · rintro ⟨hne, a, rfl⟩
    by_contra h
    exact hne (hs.absent a fun ha => h (ha ▸ rfl))
  · rintro rfl
    exact ⟨accepted_ne_null hs.accepted, arch, rfl⟩

/-- Comparing a symbol of one architecture: its object file with each one the other has. -/
theorem Single.compare {arch : Arch} {s e : Symbol} (hs : Single arch s) {o : String} (ho : o ∈ e.objects) (hname : s.name = e.name) :
    ∃ r, s.compare e = some r ∧ (r = true ↔ ∀ o ∈ e.objects, sameObject (objectName arch s) (baseName o) = true) := by
  have hmem : ∀ p : String × String, p ∈ (s.objects.flatMap fun o1 => e.objects.map fun o2 => (o1, o2)) ↔
      p.1 = s.getObjectFile arch ∧ p.2 ∈ e.objects := by
    intro p
    simp only [List.mem_flatMap, List.mem_map, hs.mem_objects]
    constructor
    · rintro ⟨o1, rfl, o2, ho2, rfl⟩
      exact ⟨rfl, ho2⟩
    · rintro ⟨h1, h2⟩
      exact ⟨p.1, h1, p.2, h2, rfl⟩
  have hnonempty : (s.objects.flatMap fun o1 => e.objects.map fun o2 => (o1, o2)).isEmpty = false := by
    rw [List.isEmpty_eq_false_iff]
    exact List.ne_nil_of_mem ((hmem (s.getObjectFile arch, o)).mpr ⟨rfl, ho⟩)
  have hcompare : s.compare e = some ((s.objects.flatMap fun o1 => e.objects.map fun o2 => (o1, o2)).all
      fun p => sameObject (baseName p.1) (baseName p.2)) := by
    unfold Symbol.compare
    rw [if_neg (not_not_intro hname)]
    dsimp only
    rw [hnonempty, if_neg Bool.false_ne_true]
  refine ⟨_, hcompare, ?_⟩
  rw [List.all_eq_true]
  constructor
  · intro h o' ho'
    exact h (s.getObjectFile arch, o') ((hmem _).mpr ⟨rfl, ho'⟩)
  · rintro h ⟨o1, o2⟩ hp
    obtain ⟨h1, h2⟩ := (hmem _).mp hp
    rw [show o1 = s.getObjectFile arch from h1]
    exact h o2 h2

theorem compare_of_name_ne {s e : Symbol} (h : s.name ≠ e.name) : s.compare e = some false := if_pos h

/-- Of two architectures, or of one. -/
theorem Single.compare_single {arch arch' : Arch} {s e : Symbol} (hs : Single arch s) (he : Single arch' e) (hname : s.name = e.name) :
    s.compare e = some (sameObject (objectName arch s) (objectName arch' e)) := by
  obtain ⟨r, hr, hiff⟩ := hs.compare (he.mem_objects.mpr rfl) hname
  rw [hr]
  refine congrArg some (Bool.eq_iff_iff.mpr (hiff.trans ?_))
  exact ⟨fun h => h _ (he.mem_objects.mpr rfl), fun h o ho => he.mem_objects.mp ho ▸ h⟩

/-! ## Entries -/

section
variable {p q : Arch}

/-- An entry with a symbol that the comparison tells apart is passed over. -/
theorem Single.passes {s e x : Symbol} (hs : Single q s) (hobject : x.getObjectFile p ∈ e.objects)
    (h : s.name = e.name → sameObject (objectName q s) (objectName p x) = false) : s.compare e = some false := by
  by_cases hname : s.name = e.name
  · obtain ⟨r, hr, hiff⟩ := hs.compare hobject hname
    have hfalse : r = false := by
      refine Bool.eq_false_iff.mpr fun hr' => ?_
      have htrue := hiff.mp hr' _ hobject
      exact Bool.noConfusion ((h hname).symm.trans htrue)
    rw [hr, hfalse]
  · exact compare_of_name_ne hname

theorem updateEntries_passes (arch : Arch) {s : Symbol} {pre : List Symbol} (hpre : ∀ e ∈ pre, s.compare e = some false) (rest : List Symbol) :
    updateEntries arch s (pre ++ rest) = (updateEntries arch s rest).map (pre ++ ·) := by
  induction pre with
  | nil =>
    rw [List.nil_append]
    exact Option.map_id'.symm
  | cons e pre ih =>
    rw [List.cons_append, updateEntries, hpre e (.head _)]
    show (updateEntries arch s (pre ++ rest)).map (e :: ·) = _
    rw [ih fun e' he' => hpre e' (.tail _ he'), Option.map_map]
    rfl

/-- Among symbols of its own architecture a symbol is added at the end, or the program exits. -/
theorem updateEntries_own {s : Symbol} {es l : List Symbol} (hs : Single p s) (hes : ∀ e ∈ es, Single p e) :
    updateEntries p s es = some l ↔
      (∀ e ∈ es, s.name = e.name → sameObject (objectName p s) (objectName p e) = false) ∧ l = es ++ [s] := by
  constructor
  · intro h
    have hall : ∀ e ∈ es, s.name = e.name → sameObject (objectName p s) (objectName p e) = false := by
      induction es generalizing l with
      | nil => exact fun e he => absurd he List.not_mem_nil
      | cons e es ih =>
        have he := hes e (.head _)
        rw [updateEntries] at h
        by_cases hname : s.name = e.name
        · rw [hs.compare_single he hname] at h
          cases hsame : sameObject (objectName p s) (objectName p e) with
          | true =>
            rw [hsame] at h
            have hmerge : e.merge s p = none := if_pos ((he.reference p).mpr rfl)
            change (e.merge s p).map (· :: es) = some l at h
            rw [hmerge] at h
            cases h
          | false =>
            rw [hsame] at h
            obtain ⟨l', hl', -⟩ := Option.map_eq_some_iff.mp h
            intro e' he' hname'
            rcases List.mem_cons.mp he' with rfl | he'
            · exact hsame
            · exact ih (fun e he => hes e (.tail _ he)) hl' e' he' hname'
        · rw [compare_of_name_ne hname] at h
          obtain ⟨l', hl', -⟩ := Option.map_eq_some_iff.mp h
          intro e' he' hname'
          rcases List.mem_cons.mp he' with rfl | he'
          · exact absurd hname' hname
          · exact ih (fun e he => hes e (.tail _ he)) hl' e' he' hname'
    refine ⟨hall, ?_⟩
    have hpass : ∀ e ∈ es, s.compare e = some false :=
      fun e he => hs.passes ((hes e he).mem_objects.mpr rfl) (hall e he)
    have hend := updateEntries_passes p hpass []
    rw [List.append_nil, h] at hend
    exact Option.some.inj hend
  · rintro ⟨hall, rfl⟩
    have hpass : ∀ e ∈ es, s.compare e = some false :=
      fun e he => hs.passes ((hes e he).mem_objects.mpr rfl) (hall e he)
    have hend := updateEntries_passes p hpass []
    rwa [List.append_nil] at hend

/-- The first architecture's symbols, one entry each. -/
theorem own_run {syms es l : List Symbol} (hsyms : ∀ s ∈ syms, Single p s) (hes : ∀ e ∈ es, Single p e) :
    syms.foldlM (fun es s => updateEntries p s es) es = some l ↔
      (∀ s ∈ syms, ∀ e ∈ es, s.name = e.name → sameObject (objectName p s) (objectName p e) = false) ∧
        (syms.Pairwise fun s t => t.name = s.name → sameObject (objectName p t) (objectName p s) = false) ∧ l = es ++ syms := by
  induction syms generalizing es with
  | nil =>
    rw [List.foldlM_nil, List.append_nil]
    exact ⟨fun h => ⟨fun s hs => absurd hs List.not_mem_nil, .nil, (Option.some.inj h).symm⟩, fun h => congrArg some h.2.2.symm⟩
  | cons s syms ih =>
    have hs := hsyms s (.head _)
    have hes' : ∀ e ∈ es ++ [s], Single p e := by
      intro e he
      rcases List.mem_append.mp he with he | he
      · exact hes e he
      · exact List.mem_singleton.mp he ▸ hs
    rw [List.foldlM_cons, Option.bind_eq_bind, Option.bind_eq_some_iff, List.pairwise_cons]
    constructor
    · rintro ⟨mid, hmid, hrest⟩
      obtain ⟨hall, rfl⟩ := (updateEntries_own hs hes).mp hmid
      obtain ⟨hlater, hpair, rfl⟩ := (ih (fun t ht => hsyms t (.tail _ ht)) hes').mp hrest
      refine ⟨?_, ⟨fun t ht => hlater t ht s (List.mem_append_right _ (.head _)), hpair⟩, by rw [List.append_assoc]; rfl⟩
      intro t ht e he
      rcases List.mem_cons.mp ht with rfl | ht
      · exact hall e he
      · exact hlater t ht e (List.mem_append_left _ he)
    · rintro ⟨hall, ⟨hfirst, hpair⟩, rfl⟩
      refine ⟨es ++ [s], (updateEntries_own hs hes).mpr ⟨hall s (.head _), rfl⟩, ?_⟩
      refine (ih (fun t ht => hsyms t (.tail _ ht)) hes').mpr ⟨?_, hpair, by rw [List.append_assoc]; rfl⟩
      intro t ht e he
      rcases List.mem_append.mp he with he | he
      · exact hall t (.tail _ ht) e he
      · exact List.mem_singleton.mp he ▸ hfirst t ht

/-! ## The second architecture -/

/-- The symbol of the second architecture that goes into the entry of `x`. -/
def partner (p q : Arch) (as : List Symbol) (x : Symbol) : Option Symbol := as.find? fun a => key q a = key p x

def joined (p q : Arch) (as : List Symbol) (x : Symbol) : Symbol :=
  match partner p q as x with
  | some a => (x.merge a q).getD x
  | none => x

/-- The first architecture's entries with what they are joined with, and the second's other
    symbols behind them. -/
def joinedList (p q : Arch) (xs as : List Symbol) : List Symbol :=
  xs.map (joined p q as) ++ as.filter fun a => ∀ x ∈ xs, key p x ≠ key q a

theorem merge_entries {x a : Symbol} (hx : Single p x) (ha : Single q a) (hpq : p ≠ q) (hname : x.name = a.name) :
    ∃ e, x.merge a q = some e ∧ EntryOf p x e ∧ EntryOf q a e := by
  have href : x.getReference q = false := Bool.eq_false_iff.mpr fun h => hpq ((hx.reference q).mp h).symm
  refine ⟨{ x with
      addresses := x.addresses.set q (a.getAddress q)
      sizes := x.sizes.set q (a.getSize q)
      alignments := x.alignments.set q (a.getAlignment q)
      isReferenced := x.isReferenced.set q true
      objectFiles := x.objectFiles.set q (a.getObjectFile q) }, ?_, ?_, ?_⟩
  · unfold Symbol.merge Symbol.setObjectFile
    rw [href, if_neg Bool.false_ne_true, if_pos ha.accepted]
    rfl
  · have hx' := (hx.reference p).mpr rfl
    constructor <;> simp only [Symbol.getAddress, Symbol.getSize, Symbol.getAlignment, Symbol.getReference, Symbol.getObjectFile,
      PerArch.get_set, if_neg hpq]
    exact hx'
  · constructor <;> simp only [Symbol.getAddress, Symbol.getSize, Symbol.getAlignment, Symbol.getReference, Symbol.getObjectFile,
      PerArch.get_set, if_true]
    exact hname

theorem Single.entry {x : Symbol} (hx : Single p x) : EntryOf p x x := ⟨(hx.reference p).mpr rfl, rfl, rfl, rfl, rfl, rfl⟩

theorem key_name {x a : Symbol} (h : key q a = key p x) : a.name = x.name := congrArg Prod.fst h

theorem partner_some {as : List Symbol} {x a : Symbol} (h : partner p q as x = some a) : a ∈ as ∧ key q a = key p x := by
  unfold partner at h
  refine ⟨List.mem_of_find?_eq_some h, ?_⟩
  have hfound := List.find?_some h
  rwa [decide_eq_true_iff] at hfound

theorem joined_none {as : List Symbol} {x : Symbol} (h : partner p q as x = none) : joined p q as x = x := by
  unfold joined
  rw [h]

theorem joined_some {as : List Symbol} {x a : Symbol} (h : partner p q as x = some a) : joined p q as x = (x.merge a q).getD x := by
  unfold joined
  rw [h]

/-- An entry keeps what it has of the first architecture. -/
theorem joined_entry {as : List Symbol} {x : Symbol} (hx : Single p x) (has : ∀ a ∈ as, Single q a) (hpq : p ≠ q) :
    EntryOf p x (joined p q as x) ∧ ∀ a, partner p q as x = some a → EntryOf q a (joined p q as x) := by
  cases hpartner : partner p q as x with
  | none =>
    rw [joined_none hpartner]
    exact ⟨hx.entry, fun a h => by cases h⟩
  | some a =>
    obtain ⟨hmem, hkey⟩ := partner_some hpartner
    obtain ⟨e, he, hex, hea⟩ := merge_entries hx (has a hmem) hpq (key_name hkey).symm
    rw [joined_some hpartner, he]
    exact ⟨hex, fun a' h => Option.some.inj h ▸ hea⟩

theorem EntryOf.object {x e : Symbol} (h : EntryOf p x e) (hx : Single p x) : x.getObjectFile p ∈ e.objects :=
  mem_objects.mpr ⟨accepted_ne_null hx.accepted, p, h.objectFile⟩

/-- What two map files' symbols of a section are. -/
structure Pair (p q : Arch) (xs as : List Symbol) : Prop where
  ne : p ≠ q
  first : ∀ x ∈ xs, Single p x
  second : ∀ a ∈ as, Single q a
  firstKeys : (xs.map (key p)).Nodup
  secondKeys : (as.map (key q)).Nodup
  right : ∀ x ∈ xs, ∀ a ∈ as, x.name = a.name → (sameObject (objectName q a) (objectName p x) = true ↔ key q a = key p x)
  own : as.Pairwise fun s t => t.name = s.name → sameObject (objectName q t) (objectName q s) = false

theorem partner_snoc {done : List Symbol} {a x : Symbol} (h : key q a ≠ key p x) : partner p q (done ++ [a]) x = partner p q done x := by
  have hnone : [a].find? (fun a => decide (key q a = key p x)) = none := by
    rw [List.find?_cons, decide_eq_false h]
    rfl
  rw [partner, List.find?_append, hnone, Option.or_none]
  rfl

theorem joined_snoc {done : List Symbol} {a x : Symbol} (h : key q a ≠ key p x) : joined p q (done ++ [a]) x = joined p q done x := by
  unfold joined
  rw [partner_snoc h]

theorem partner_none {as : List Symbol} {x : Symbol} (h : ∀ a ∈ as, key q a ≠ key p x) : partner p q as x = none := by
  unfold partner
  rw [List.find?_eq_none]
  intro a ha hkey
  exact h a ha (of_decide_eq_true hkey)

theorem partner_last {done : List Symbol} {a x : Symbol} (hdone : ∀ d ∈ done, key q d ≠ key p x) (ha : key q a = key p x) :
    partner p q (done ++ [a]) x = some a := by
  have hnone : done.find? (fun a => decide (key q a = key p x)) = none := partner_none hdone
  rw [partner, List.find?_append, hnone, Option.none_or, List.find?_cons, decide_eq_true ha]

namespace Pair
variable {xs as : List Symbol}

/-- A symbol is told apart from the entry of another one. -/
theorem passes_joined (h : Pair p q xs as) {done : List Symbol} (hdone : ∀ d ∈ done, d ∈ as) {a x : Symbol} (ha : a ∈ as) (hx : x ∈ xs)
    (hkey : key q a ≠ key p x) : a.compare (joined p q done x) = some false := by
  obtain ⟨hentry, -⟩ := joined_entry (h.first x hx) (fun d hd => h.second d (hdone d hd)) h.ne
  refine (h.second a ha).passes (hentry.object (h.first x hx)) fun hname => ?_
  have hname' : x.name = a.name := (hname.trans hentry.name).symm
  exact Bool.eq_false_iff.mpr fun hsame => hkey ((h.right x hx a ha hname').mp hsame)

theorem compare_own (h : Pair p q xs as) {a x : Symbol} (ha : a ∈ as) (hx : x ∈ xs) (hkey : key q a = key p x) :
    a.compare x = some true := by
  rw [(h.second a ha).compare_single (h.first x hx) (key_name hkey)]
  exact congrArg some ((h.right x hx a ha (key_name hkey).symm).mpr hkey)

theorem passes_own (h : Pair p q xs as) {done rest : List Symbol} {a d : Symbol} (hsplit : as = done ++ a :: rest) (hd : d ∈ done) :
    a.compare d = some false := by
  have hmem : d ∈ as := hsplit ▸ List.mem_append_left _ hd
  have ha : a ∈ as := hsplit ▸ List.mem_append_right _ (.head _)
  have hpair := h.own
  rw [hsplit, List.pairwise_append] at hpair
  have hfalse := hpair.2.2 d hd a (.head _)
  exact (h.second a ha).passes ((h.second d hmem).mem_objects.mpr rfl) hfalse

/-- No two symbols have one key. -/
theorem key_ne (h : Pair p q xs as) {done rest : List Symbol} {a : Symbol} (hsplit : as = done ++ a :: rest) :
    ∀ d ∈ done, key q d ≠ key q a := by
  have hkeys := h.secondKeys
  rw [hsplit, List.map_append, List.nodup_append] at hkeys
  intro d hd
  exact hkeys.2.2 _ (List.mem_map_of_mem hd) _ (List.mem_map_of_mem (.head _))

/-- A symbol of the second architecture goes into the entry of its key, or to the end. -/
theorem step (h : Pair p q xs as) {done rest : List Symbol} {a : Symbol} (hsplit : as = done ++ a :: rest) :
    updateEntries q a (joinedList p q xs done) = some (joinedList p q xs (done ++ [a])) := by
  have ha : a ∈ as := hsplit ▸ List.mem_append_right _ (.head _)
  have hdone : ∀ d ∈ done, d ∈ as := fun d hd => hsplit ▸ List.mem_append_left _ hd
  have hunjoined : ∀ x, key q a ≠ key p x → joined p q (done ++ [a]) x = joined p q done x := fun x => joined_snoc
  by_cases hex : ∃ x ∈ xs, key q a = key p x
  · obtain ⟨x, hx, hkey⟩ := hex
    obtain ⟨pre, post, hxs⟩ := List.append_of_mem hx
    have hkeys := h.firstKeys
    rw [hxs, List.map_append, List.nodup_append, List.map_cons, List.nodup_cons] at hkeys
    have hpre : ∀ y ∈ pre, key q a ≠ key p y := fun y hy heq =>
      hkeys.2.2 _ (List.mem_map_of_mem hy) _ (.head _) (heq.symm.trans hkey)
    have hpost : ∀ y ∈ post, key q a ≠ key p y := fun y hy heq =>
      hkeys.2.1.1 (List.mem_map.mpr ⟨y, hy, heq.symm.trans hkey⟩)
    have hfresh : ∀ d ∈ done, key q d ≠ key p x := fun d hd => hkey ▸ h.key_ne hsplit d hd
    obtain ⟨e, he, -, -⟩ := merge_entries (h.first x hx) (h.second a ha) h.ne (key_name hkey).symm
    have hafter : joined p q (done ++ [a]) x = e := by
      rw [joined_some (partner_last hfresh hkey), he]
      rfl
    have hlast : (done ++ [a]).filter (fun a => ∀ x ∈ xs, key p x ≠ key q a) = done.filter fun a => ∀ x ∈ xs, key p x ≠ key q a := by
      have hout : ¬ ∀ x ∈ xs, key p x ≠ key q a := fun hall => hall x hx hkey.symm
      rw [List.filter_append, List.filter_cons_of_neg (by rwa [decide_eq_true_iff]), List.filter_nil, List.append_nil]
    have hpass : ∀ e ∈ pre.map (joined p q done), a.compare e = some false := by
      intro e he
      obtain ⟨y, hy, rfl⟩ := List.mem_map.mp he
      exact h.passes_joined hdone ha (hxs ▸ List.mem_append_left _ hy) (hpre y hy)
    unfold joinedList
    rw [hlast]
    generalize done.filter (fun a => ∀ x ∈ xs, key p x ≠ key q a) = others
    rw [hxs, List.map_append, List.map_append, List.map_cons, List.map_cons, List.append_assoc, List.append_assoc, List.cons_append,
      List.cons_append, updateEntries_passes q hpass, joined_none (partner_none hfresh), updateEntries, h.compare_own ha hx hkey]
    show ((x.merge a q).map _).map _ = _
    rw [he, hafter, List.map_congr_left fun y hy => hunjoined y (hpre y hy), List.map_congr_left fun y hy => hunjoined y (hpost y hy)]
    rfl
  · have hnone : ∀ x ∈ xs, key q a ≠ key p x := fun x hx hkey => hex ⟨x, hx, hkey⟩
    have hpass : ∀ e ∈ joinedList p q xs done, a.compare e = some false := by
      intro e he
      rcases List.mem_append.mp he with he | he
      · obtain ⟨x, hx, rfl⟩ := List.mem_map.mp he
        exact h.passes_joined hdone ha hx (hnone x hx)
      · exact h.passes_own hsplit (List.mem_filter.mp he).1
    have hend := updateEntries_passes q hpass []
    rw [List.append_nil] at hend
    have hin : ∀ x ∈ xs, key p x ≠ key q a := fun x hx => Ne.symm (hnone x hx)
    rw [hend]
    show some (joinedList p q xs done ++ [a]) = _
    unfold joinedList
    rw [List.map_congr_left fun x hx => hunjoined x (hnone x hx), List.filter_append,
      List.filter_cons_of_pos (l := []) (by rwa [decide_eq_true_iff]), List.filter_nil, List.append_assoc]

theorem run (h : Pair p q xs as) {done rest : List Symbol} (hsplit : as = done ++ rest) :
    rest.foldlM (fun es s => updateEntries q s es) (joinedList p q xs done) = some (joinedList p q xs as) := by
  induction rest generalizing done with
  | nil =>
    rw [List.append_nil] at hsplit
    rw [hsplit]
    rfl
  | cons a rest ih =>
    rw [List.foldlM_cons, h.step hsplit]
    exact ih (by rw [hsplit, List.append_assoc]; rfl)

end Pair

theorem partner_eq {as : List Symbol} (h : (as.map (key q)).Nodup) {a x : Symbol} (ha : a ∈ as) :
    partner p q as x = some a ↔ key q a = key p x := by
  refine ⟨fun hpartner => (partner_some hpartner).2, fun hkey => ?_⟩
  have hsome : (partner p q as x).isSome = true := by
    rw [partner, List.find?_isSome]
    exact ⟨a, ha, decide_eq_true hkey⟩
  obtain ⟨a', ha'⟩ := Option.isSome_iff_exists.mp hsome
  obtain ⟨hmem, hkey'⟩ := partner_some ha'
  rw [ha', List.inj_on_of_nodup_map h hmem ha (hkey'.trans hkey.symm)]

/-! ## The sections -/

theorem updateSymbolsList_cons (arch : Arch) (info : List SectionInfo) (s : Symbol) (syms : List Symbol) (lists : Section → List Symbol) :
    updateSymbolsList arch info (s :: syms) lists = match placed arch info s with
      | none => updateSymbolsList arch info syms lists
      | some sec => (updateEntries arch s (lists sec)).bind fun l => updateSymbolsList arch info syms (Function.update lists sec l) := by
  unfold updateSymbolsList placed
  rw [List.foldlM_cons]
  cases getSection arch s info with
  | none => rfl
  | some sec =>
    dsimp only
    by_cases hblack : s.name ∈ symbolsBlacklist sec
    · rw [if_pos hblack, if_pos hblack]
      rfl
    · rw [if_neg hblack, if_neg hblack]
      rw [Option.bind_eq_bind, Option.bind_map]
      rfl

/-- Each section's list is built from its own symbols. -/
theorem updateSymbolsList_iff {arch : Arch} {info : List SectionInfo} {syms : List Symbol} {lists lists' : Section → List Symbol} :
    updateSymbolsList arch info syms lists = some lists' ↔
      ∀ sec, (syms.filter fun s => placed arch info s = some sec).foldlM (fun es s => updateEntries arch s es) (lists sec) = some (lists' sec) := by
  induction syms generalizing lists with
  | nil =>
    constructor
    · intro h sec
      rw [← Option.some.inj h]
      rfl
    · intro h
      exact congrArg some (funext fun sec => Option.some.inj (h sec))
  | cons s syms ih =>
    rw [updateSymbolsList_cons]
    cases hplaced : placed arch info s with
    | none =>
      dsimp only
      rw [ih]
      refine forall_congr' fun sec => ?_
      rw [List.filter_cons_of_neg (by rw [hplaced, decide_eq_true_iff]; exact (Option.some_ne_none sec).symm)]
    | some sec0 =>
      dsimp only
      have hkept : (s :: syms).filter (fun s => placed arch info s = some sec0) = s :: syms.filter fun s => placed arch info s = some sec0 :=
        List.filter_cons_of_pos (by rw [hplaced, decide_eq_true_iff])
      have hother : ∀ sec, sec ≠ sec0 → (s :: syms).filter (fun s => placed arch info s = some sec) =
          syms.filter fun s => placed arch info s = some sec := by
        intro sec hsec
        refine List.filter_cons_of_neg ?_
        rw [hplaced, decide_eq_true_iff]
        exact fun h => hsec (Option.some.inj h).symm
      rw [Option.bind_eq_some_iff]
      constructor
      · rintro ⟨l, hl, hrest⟩ sec
        have hsec := (ih.mp hrest) sec
        by_cases heq : sec = sec0
        · subst heq
          rw [hkept, List.foldlM_cons, hl]
          rwa [Function.update_self] at hsec
        · rw [hother sec heq]
          rwa [Function.update_of_ne heq] at hsec
      · intro h
        have hfirst := h sec0
        rw [hkept, List.foldlM_cons, Option.bind_eq_bind, Option.bind_eq_some_iff] at hfirst
        obtain ⟨l, hl, hrest⟩ := hfirst
        refine ⟨l, hl, ih.mpr fun sec => ?_⟩
        by_cases heq : sec = sec0
        · subst heq
          rwa [Function.update_self]
        · rw [Function.update_of_ne heq, ← hother sec heq]
          exact h sec

theorem placed_congr {arch : Arch} {info : List SectionInfo} {s t : Symbol} (hname : s.name = t.name) (haddress : s.getAddress arch = t.getAddress arch) :
    placed arch info s = placed arch info t := by
  have hsection : getSection arch s info = getSection arch t info := by
    induction info with
    | nil => rfl
    | cons sec info ih => rw [getSection, getSection, hname, haddress, ih]
  unfold placed
  rw [hsection, hname]

namespace Binary

theorem mem_ofSection {b : Binary} {arch : Arch} {sec : Section} {s : Symbol} :
    s ∈ b.ofSection arch sec ↔ s ∈ b.symbols ∧ placed arch b.sectionsInfo s = some sec := by
  rw [ofSection, List.mem_filter, decide_eq_true_iff]

variable {b : Binary} {arch : Arch}

theorem Ok.single (h : b.Ok arch) {s : Symbol} (hs : s ∈ b.symbols) : Single arch s := by
  obtain ⟨name, address, size, alignment, objectFile, hnew⟩ := h.parsed s hs
  exact new_single hnew

/-- No two symbols have one entry. -/
theorem Ok.same (h : b.Ok arch) {s t e : Symbol} {sec : Section} (hs : s ∈ b.symbols) (ht : t ∈ b.symbols)
    (hsec : placed arch b.sectionsInfo s = some sec) (hse : EntryOf arch s e) (hte : EntryOf arch t e) : s = t := by
  have hname : s.name = t.name := hse.name.symm.trans hte.name
  have hsec' : placed arch b.sectionsInfo t = some sec := by
    rw [← hsec]
    exact (placed_congr hname (hse.address.symm.trans hte.address)).symm
  have hkey : key arch s = key arch t := by
    unfold key objectName
    rw [hname, hse.objectFile.symm.trans hte.objectFile]
  exact List.inj_on_of_nodup_map (h.distinct sec) (mem_ofSection.mpr ⟨hs, hsec⟩) (mem_ofSection.mpr ⟨ht, hsec'⟩) hkey

end Binary

/-- Alone the first architecture's lists are its symbols. -/
theorem first_run {b : Binary} (hok : b.Ok p) {lists : Section → List Symbol} :
    updateSymbolsList p b.sectionsInfo b.symbols (fun _ => []) = some lists ↔
      (∀ sec, (b.ofSection p sec).Pairwise fun s t => s.name = t.name → Unmatched (objectName p t) (objectName p s)) ∧
        lists = b.ofSection p := by
  have hpair : ∀ sec, ((b.ofSection p sec).Pairwise fun s t => t.name = s.name → sameObject (objectName p t) (objectName p s) = false) ↔
      (b.ofSection p sec).Pairwise fun s t => s.name = t.name → Unmatched (objectName p t) (objectName p s) := by
    intro sec
    have hkeys := List.pairwise_map.mp (hok.distinct sec)
    have hsource : ∀ s t : Symbol, s.name = t.name → key p s ≠ key p t → sourceObject (objectName p t) ≠ sourceObject (objectName p s) :=
      fun s t hname hne h => hne (Prod.ext hname h.symm)
    constructor
    · intro h
      exact (hkeys.and h).imp fun ⟨hne, hst⟩ hname => (sameObject_false_iff (hsource _ _ hname hne)).mp (hst hname.symm)
    · intro h
      exact (hkeys.and h).imp fun ⟨hne, hst⟩ hname => (sameObject_false_iff (hsource _ _ hname.symm hne)).mpr (hst hname.symm)
  have hrun : ∀ sec l, (b.ofSection p sec).foldlM (fun es s => updateEntries p s es) [] = some l ↔
      ((b.ofSection p sec).Pairwise fun s t => s.name = t.name → Unmatched (objectName p t) (objectName p s)) ∧ l = b.ofSection p sec := by
    intro sec l
    rw [own_run (fun s hs => hok.single (Binary.mem_ofSection.mp hs).1) (fun e he => absurd he List.not_mem_nil), hpair, List.nil_append]
    exact and_iff_right fun s _ e he => absurd he List.not_mem_nil
  rw [updateSymbolsList_iff]
  constructor
  · intro h
    exact ⟨fun sec => ((hrun sec _).mp (h sec)).1, funext fun sec => ((hrun sec _).mp (h sec)).2⟩
  · rintro ⟨h, rfl⟩ sec
    exact (hrun sec _).mpr ⟨h sec, rfl⟩

/-! ## Both architectures -/

/-- The lists the two architectures build, `p` first. -/
structure Built (binaries : Arch → Binary) (p q : Arch) (lists : Section → List Symbol) : Prop where
  ne : p ≠ q
  first : (binaries p).Ok p
  second : (binaries q).Ok q
  eq : ∀ sec, lists sec = joinedList p q ((binaries p).ofSection p sec) ((binaries q).ofSection q sec)

theorem not_entry {arch arch' : Arch} {s e : Symbol} (hs : Single arch' e) (hne : arch ≠ arch') : ¬ EntryOf arch s e :=
  fun h => hne ((hs.reference arch).mp h.reference)

namespace Built
variable {binaries : Arch → Binary} {lists : Section → List Symbol}

theorem mem (h : Built binaries p q lists) {sec : Section} {e : Symbol} (he : e ∈ lists sec) :
    (∃ x ∈ (binaries p).ofSection p sec, e = joined p q ((binaries q).ofSection q sec) x) ∨ e ∈ (binaries q).ofSection q sec := by
  rw [h.eq] at he
  rcases List.mem_append.mp he with he | he
  · obtain ⟨x, hx, rfl⟩ := List.mem_map.mp he
    exact .inl ⟨x, hx, rfl⟩
  · exact .inr (List.mem_filter.mp he).1

theorem ofFirst (h : Built binaries p q lists) {sec : Section} {x : Symbol} (hx : x ∈ (binaries p).ofSection p sec) :
    EntryOf p x (joined p q ((binaries q).ofSection q sec) x) ∧
      ∀ a, partner p q ((binaries q).ofSection q sec) x = some a → EntryOf q a (joined p q ((binaries q).ofSection q sec) x) :=
  joined_entry (h.first.single (Binary.mem_ofSection.mp hx).1) (fun _ ha => h.second.single (Binary.mem_ofSection.mp ha).1) h.ne

/-- The entry of a symbol of the first architecture is the one it was put into. -/
theorem entry_first (h : Built binaries p q lists) {s x : Symbol} {sec sec' : Section} (hs : s ∈ (binaries p).symbols)
    (hsec : placed p (binaries p).sectionsInfo s = some sec) (hx : x ∈ (binaries p).ofSection p sec') :
    EntryOf p s (joined p q ((binaries q).ofSection q sec') x) ↔ x = s := by
  constructor
  · intro hentry
    exact (h.first.same hs (Binary.mem_ofSection.mp hx).1 hsec hentry (h.ofFirst hx).1).symm
  · rintro rfl
    exact (h.ofFirst hx).1

/-- A symbol of the second architecture is in the entry it is the partner for. -/
theorem entry_second (h : Built binaries p q lists) {s x : Symbol} {sec sec' : Section} (hs : s ∈ (binaries q).symbols)
    (hsec : placed q (binaries q).sectionsInfo s = some sec) (hx : x ∈ (binaries p).ofSection p sec') :
    EntryOf q s (joined p q ((binaries q).ofSection q sec') x) ↔ partner p q ((binaries q).ofSection q sec') x = some s := by
  refine ⟨fun hentry => ?_, (h.ofFirst hx).2 s⟩
  cases hpartner : partner p q ((binaries q).ofSection q sec') x with
  | none =>
    rw [joined_none hpartner] at hentry
    exact absurd hentry (not_entry (h.first.single (Binary.mem_ofSection.mp hx).1) h.ne.symm)
  | some a =>
    have ha := (partner_some hpartner).1
    exact congrArg some (h.second.same hs (Binary.mem_ofSection.mp ha).1 hsec hentry ((h.ofFirst hx).2 a hpartner)).symm

theorem entry_rest (h : Built binaries p q lists) {s d : Symbol} {sec sec' : Section} (hs : s ∈ (binaries q).symbols)
    (hsec : placed q (binaries q).sectionsInfo s = some sec) (hd : d ∈ (binaries q).ofSection q sec') : EntryOf q s d ↔ d = s := by
  have hd' := (Binary.mem_ofSection.mp hd).1
  constructor
  · intro hentry
    exact (h.second.same hs hd' hsec hentry (h.second.single hd').entry).symm
  · rintro rfl
    exact (h.second.single hs).entry

theorem keys (h : Built binaries p q lists) (sec : Section) : ((binaries p).ofSection p sec).Nodup := (h.first.distinct sec).of_map

theorem once_first (h : Built binaries p q lists) {s : Symbol} {sec : Section} (hs : s ∈ (binaries p).symbols)
    (hsec : placed p (binaries p).sectionsInfo s = some sec) (sec' : Section) :
    (lists sec').countP (fun e => EntryOf p s e) = if sec' = sec then 1 else 0 := by
  have hrest : (((binaries q).ofSection q sec').filter fun a => ∀ x ∈ (binaries p).ofSection p sec', key p x ≠ key q a).countP
      (fun e => EntryOf p s e) = 0 := by
    rw [List.countP_eq_zero]
    intro d hd hentry
    have hd' := Binary.mem_ofSection.mp (List.mem_filter.mp hd).1
    exact not_entry (h.second.single hd'.1) h.ne (of_decide_eq_true hentry)
  have hmap : (((binaries p).ofSection p sec').map (joined p q ((binaries q).ofSection q sec'))).countP (fun e => EntryOf p s e) =
      ((binaries p).ofSection p sec').count s := by
    rw [List.countP_map, List.count]
    refine List.countP_congr fun x hx => ?_
    rw [Function.comp_apply, decide_eq_true_iff, h.entry_first hs hsec hx, beq_iff_eq]
  rw [h.eq, joinedList, List.countP_append, hrest, hmap, Nat.add_zero, (h.keys sec').count]
  refine if_congr ?_ rfl rfl
  rw [Binary.mem_ofSection, hsec, Option.some.injEq]
  exact ⟨fun hm => hm.2.symm, fun heq => ⟨hs, heq.symm⟩⟩

theorem once_second (h : Built binaries p q lists) {s : Symbol} {sec : Section} (hs : s ∈ (binaries q).symbols)
    (hsec : placed q (binaries q).sectionsInfo s = some sec) (sec' : Section) :
    (lists sec').countP (fun e => EntryOf q s e) = if sec' = sec then 1 else 0 := by
  by_cases heq : sec' = sec
  · subst heq
    have hmem : s ∈ (binaries q).ofSection q sec' := Binary.mem_ofSection.mpr ⟨hs, hsec⟩
    have hmap : (((binaries p).ofSection p sec').map (joined p q ((binaries q).ofSection q sec'))).countP (fun e => EntryOf q s e) =
        (((binaries p).ofSection p sec').map (key p)).count (key q s) := by
      rw [List.countP_map, List.count, List.countP_map]
      refine List.countP_congr fun x hx => ?_
      rw [Function.comp_apply, Function.comp_apply, decide_eq_true_iff, h.entry_second hs hsec hx, beq_iff_eq,
        partner_eq (h.second.distinct sec') hmem]
      exact eq_comm
    have hrest : (((binaries q).ofSection q sec').filter fun a => ∀ x ∈ (binaries p).ofSection p sec', key p x ≠ key q a).countP
        (fun e => EntryOf q s e) = if key q s ∈ ((binaries p).ofSection p sec').map (key p) then 0 else 1 := by
      have hcount : (((binaries q).ofSection q sec').filter fun a => ∀ x ∈ (binaries p).ofSection p sec', key p x ≠ key q a).countP
          (fun e => EntryOf q s e) =
          (((binaries q).ofSection q sec').filter fun a => ∀ x ∈ (binaries p).ofSection p sec', key p x ≠ key q a).count s := by
        refine List.countP_congr fun d hd => ?_
        rw [decide_eq_true_iff, h.entry_rest hs hsec (List.mem_filter.mp hd).1, beq_iff_eq]
      rw [hcount, (((h.second.distinct sec').of_map).filter _).count]
      by_cases hkey : key q s ∈ ((binaries p).ofSection p sec').map (key p)
      · obtain ⟨x, hx, hx'⟩ := List.mem_map.mp hkey
        rw [if_pos hkey, if_neg]
        rw [List.mem_filter, decide_eq_true_iff]
        exact fun hall => hall.2 x hx hx'
      · rw [if_neg hkey, if_pos]
        rw [List.mem_filter, decide_eq_true_iff]
        exact ⟨hmem, fun x hx hx' => hkey (List.mem_map.mpr ⟨x, hx, hx'⟩)⟩
    rw [if_pos rfl, h.eq, joinedList, List.countP_append, hmap, hrest, (h.first.distinct sec').count]
    split_ifs <;> rfl
  · rw [if_neg heq, List.countP_eq_zero]
    intro e he hentry
    have hentry' := of_decide_eq_true hentry
    have hplaced : ∃ d, d ∈ (binaries q).ofSection q sec' ∧ d = s := by
      rcases h.mem he with ⟨x, hx, rfl⟩ | hd
      · exact ⟨s, (partner_some ((h.entry_second hs hsec hx).mp hentry')).1, rfl⟩
      · exact ⟨e, hd, (h.entry_rest hs hsec hd).mp hentry'⟩
    obtain ⟨d, hd, rfl⟩ := hplaced
    have := (Binary.mem_ofSection.mp hd).2
    rw [hsec] at this
    exact heq (Option.some.inj this).symm

/-- Two symbols in one entry. -/
theorem together (h : Built binaries p q lists) {x a : Symbol} {sec sec' : Section} (hx : x ∈ (binaries p).symbols)
    (ha : a ∈ (binaries q).symbols) (hsec : placed p (binaries p).sectionsInfo x = some sec)
    (hsec' : placed q (binaries q).sectionsInfo a = some sec') :
    (∃ sec, ∃ e ∈ lists sec, EntryOf p x e ∧ EntryOf q a e) ↔ sec = sec' ∧ key p x = key q a := by
  constructor
  · rintro ⟨sec0, e, he, hxe, hae⟩
    rcases h.mem he with ⟨y, hy, rfl⟩ | hd
    · obtain rfl := (h.entry_first hx hsec hy).mp hxe
      obtain ⟨hmem, hkey⟩ := partner_some ((h.entry_second ha hsec' hy).mp hae)
      have h1 := (Binary.mem_ofSection.mp hy).2
      have h2 := (Binary.mem_ofSection.mp hmem).2
      rw [hsec] at h1
      rw [hsec'] at h2
      exact ⟨(Option.some.inj h1).trans (Option.some.inj h2).symm, hkey.symm⟩
    · exact absurd hxe (not_entry (h.second.single (Binary.mem_ofSection.mp hd).1) h.ne)
  · rintro ⟨rfl, hkey⟩
    have hx' := Binary.mem_ofSection.mpr ⟨hx, hsec⟩
    have ha' := Binary.mem_ofSection.mpr ⟨ha, hsec'⟩
    refine ⟨sec, joined p q ((binaries q).ofSection q sec) x, ?_, (h.ofFirst hx').1, ?_⟩
    · rw [h.eq]
      exact List.mem_append_left _ (List.mem_map_of_mem hx')
    · exact (h.entry_second ha hsec' hx').mpr ((partner_eq (h.second.distinct sec) ha').mpr hkey.symm)

theorem apart {arch : Arch} (hok : (binaries arch).Ok arch) {s t : Symbol} (hs : s ∈ (binaries arch).symbols) (ht : t ∈ (binaries arch).symbols)
    (hne : s ≠ t) (hplaced : (placed arch (binaries arch).sectionsInfo s).isSome = true) (e : Symbol) :
    ¬ (EntryOf arch s e ∧ EntryOf arch t e) := by
  obtain ⟨sec, hsec⟩ := Option.isSome_iff_exists.mp hplaced
  exact fun ⟨hse, hte⟩ => hne (hok.same hs ht hsec hse hte)

end Built

variable {binaries : Arch → Binary}

theorem matched_x86_first {lists : Section → List Symbol} (h : Built binaries .x86 .arm lists) : Matched binaries lists where
  once arch harch s hs sec hsec sec' := by
    cases arch with
    | x86 => exact h.once_first hs hsec sec'
    | arm => exact h.once_second hs hsec sec'
    | power => exact absurd rfl harch
  together x hx a ha sec sec' hsec hsec' := h.together hx ha hsec hsec'
  apart arch harch s hs t ht hne hplaced _ sec e _ := by
    cases arch with
    | x86 => exact Built.apart h.first hs ht hne hplaced e
    | arm => exact Built.apart h.second hs ht hne hplaced e
    | power => exact absurd rfl harch

theorem matched_arm_first {lists : Section → List Symbol} (h : Built binaries .arm .x86 lists) : Matched binaries lists where
  once arch harch s hs sec hsec sec' := by
    cases arch with
    | x86 => exact h.once_second hs hsec sec'
    | arm => exact h.once_first hs hsec sec'
    | power => exact absurd rfl harch
  together x hx a ha sec sec' hsec hsec' := by
    have htogether := h.together ha hx hsec' hsec
    constructor
    · rintro ⟨sec0, e, he, hxe, hae⟩
      obtain ⟨heq, hkey⟩ := htogether.mp ⟨sec0, e, he, hae, hxe⟩
      exact ⟨heq.symm, hkey.symm⟩
    · rintro ⟨heq, hkey⟩
      obtain ⟨sec0, e, he, hae, hxe⟩ := htogether.mpr ⟨heq.symm, hkey.symm⟩
      exact ⟨sec0, e, he, hxe, hae⟩
  apart arch harch s hs t ht hne hplaced _ sec e _ := by
    cases arch with
    | x86 => exact Built.apart h.second hs ht hne hplaced e
    | arm => exact Built.apart h.first hs ht hne hplaced e
    | power => exact absurd rfl harch

/-- The names may be compared, whichever architecture is first. -/
theorem NamesOk.right (h : NamesOk binaries) (hpq : p ≠ q) (hp : p ≠ .power) (hq : q ≠ .power) {x a : Symbol} (hx : x ∈ (binaries p).symbols)
    (ha : a ∈ (binaries q).symbols) (hname : x.name = a.name) : Right (objectName p x) (objectName q a) := by
  rw [sameObject_right_iff]
  cases p with
  | x86 =>
    cases q with
    | x86 => exact absurd rfl hpq
    | arm => exact h.across x hx a ha hname
    | power => exact absurd rfl hq
  | arm =>
    cases q with
    | x86 => exact (h.across a ha x hx hname.symm).symm
    | arm => exact absurd rfl hpq
    | power => exact absurd rfl hq
  | power => exact absurd rfl hp

theorem key_iff {x a : Symbol} (hname : x.name = a.name) :
    key p x = key q a ↔ sourceObject (objectName p x) = sourceObject (objectName q a) :=
  ⟨fun h => congrArg Prod.snd h, fun h => Prod.ext hname h⟩

theorem NamesOk.run (h : NamesOk binaries) (hok : ∀ arch, arch ≠ .power → (binaries arch).Ok arch) (hpq : p ≠ q) (hp : p ≠ .power)
    (hq : q ≠ .power) : ∃ lists, updateBoth binaries p q = some lists ∧ Built binaries p q lists := by
  have hfirst := (first_run (hok p hp)).mpr ⟨h.within p hp, rfl⟩
  have hown := ((first_run (hok q hq)).mpr ⟨h.within q hq, rfl⟩)
  refine ⟨_, ?_, hpq, hok p hp, hok q hq, fun sec => rfl⟩
  unfold updateBoth
  rw [hfirst]
  refine updateSymbolsList_iff.mpr fun sec => ?_
  have hpair : Pair p q ((binaries p).ofSection p sec) ((binaries q).ofSection q sec) := by
    refine ⟨hpq, fun x hx => (hok p hp).single (Binary.mem_ofSection.mp hx).1, fun a ha => (hok q hq).single (Binary.mem_ofSection.mp ha).1,
      (hok p hp).distinct sec, (hok q hq).distinct sec, fun x hx a ha hname => ?_, ?_⟩
    · have hright := h.right hpq hp hq (Binary.mem_ofSection.mp hx).1 (Binary.mem_ofSection.mp ha).1 hname
      rw [hright.swap, hright.same, ← key_iff hname]
      exact eq_comm
    · have hsec := (updateSymbolsList_iff.mp hown) sec
      exact ((own_run (fun s hs => (hok q hq).single (Binary.mem_ofSection.mp hs).1) (fun e he => absurd he List.not_mem_nil)).mp hsec).2.1
  have hempty : joinedList p q ((binaries p).ofSection p sec) [] = (binaries p).ofSection p sec := by
    rw [joinedList, List.filter_nil, List.append_nil, List.map_congr_left fun x _ => joined_none rfl]
    exact List.map_id' _
  have hrun := @Pair.run _ _ _ _ hpair [] _ rfl
  rwa [hempty] at hrun

/-- The symbols are matched, whichever architecture is first, exactly where the comparison is
    right about the names. -/
theorem symbols_matched_iff (binaries : Arch → Binary) (hok : ∀ arch, arch ≠ .power → (binaries arch).Ok arch) :
    SymbolsMatched binaries ↔ NamesOk binaries := by
  have hcompare : ∀ x ∈ (binaries .x86).symbols, ∀ a ∈ (binaries .arm).symbols, x.name = a.name →
      x.compare a = some (sameObject (objectName .x86 x) (objectName .arm a)) ∧
        a.compare x = some (sameObject (objectName .arm a) (objectName .x86 x)) := by
    intro x hx a ha hname
    have hx' := (hok .x86 (by decide)).single hx
    have ha' := (hok .arm (by decide)).single ha
    exact ⟨hx'.compare_single ha' hname, ha'.compare_single hx' hname.symm⟩
  have hwithin : ∀ p q, p ≠ .power → (∃ lists, updateBoth binaries p q = some lists ∧ Matched binaries lists) → ∀ sec,
      ((binaries p).ofSection p sec).Pairwise fun s t => s.name = t.name → Unmatched (objectName p t) (objectName p s) := by
    rintro p q hp ⟨lists, hlists, -⟩
    obtain ⟨mid, hmid, -⟩ := Option.bind_eq_some_iff.mp hlists
    exact ((first_run (hok p hp)).mp hmid).1
  constructor
  · intro h
    refine ⟨fun x hx a ha hname => ?_, fun arch harch => ?_⟩
    · obtain ⟨hxa, hax⟩ := hcompare x hx a ha hname
      obtain ⟨hsame, hswap⟩ := h.compared x hx a ha hname
      rw [hax, hxa] at hswap
      rw [hxa] at hsame
      refine (sameObject_right_iff _ _).mp ⟨?_, Option.some.inj hswap⟩
      rw [Option.some.inj hsame, decide_eq_true_iff, key_iff hname]
    · cases arch with
      | x86 => exact hwithin .x86 .arm harch h.x86First
      | arm => exact hwithin .arm .x86 harch h.armFirst
      | power => exact absurd rfl harch
  · intro h
    refine ⟨fun x hx a ha hname => ?_, ?_, ?_⟩
    · obtain ⟨hxa, hax⟩ := hcompare x hx a ha hname
      have hright := (sameObject_right_iff _ _).mpr (h.across x hx a ha hname)
      rw [hax, hxa, hright.swap]
      refine ⟨congrArg some (Bool.eq_iff_iff.mpr ?_), rfl⟩
      rw [decide_eq_true_iff, key_iff hname, hright.same]
    · obtain ⟨lists, hlists, hbuilt⟩ := h.run hok (show Arch.x86 ≠ .arm by decide) (by decide) (by decide)
      exact ⟨lists, hlists, matched_x86_first hbuilt⟩
    · obtain ⟨lists, hlists, hbuilt⟩ := h.run hok (show Arch.arm ≠ .x86 by decide) (by decide) (by decide)
      exact ⟨lists, hlists, matched_arm_first hbuilt⟩

end

/-! ## Two map files -/

/-- A function compiled for both architectures. -/
def twoFiles (objectX86 objectArm : String) : Arch → Binary
  | .x86 => ⟨(Symbol.new ".text.f" 0x401000 0x20 0x10 objectX86 .x86).toList, [⟨.text, 0x400000, 0x2000⟩]⟩
  | .arm => ⟨(Symbol.new ".text.f" 0x402000 0x30 0x4 objectArm .arm).toList, [⟨.text, 0x400000, 0x4000⟩]⟩
  | .power => ⟨[], []⟩

theorem pairwise_short {α : Type} {R : α → α → Prop} {l : List α} (h : l.length ≤ 1) : l.Pairwise R := by
  match l with
  | [] => exact .nil
  | [s] => exact List.pairwise_singleton R s
  | s :: t :: l => exact absurd h (by rw [List.length_cons, List.length_cons]; omega)

theorem twoFiles_length (objectX86 objectArm : String) (arch : Arch) (sec : Section) :
    ((twoFiles objectX86 objectArm arch).ofSection arch sec).length ≤ 1 := by
  have hone : ∀ o : Option Symbol, o.toList.length ≤ 1 := by
    intro o
    cases o with
    | none => exact Nat.zero_le _
    | some s => exact Nat.le_refl _
  refine (List.length_filter_le _ _).trans ?_
  cases arch with
  | x86 => exact hone _
  | arm => exact hone _
  | power => exact Nat.zero_le _

theorem twoFiles_ok (objectX86 objectArm : String) (arch : Arch) : (twoFiles objectX86 objectArm arch).Ok arch := by
  refine ⟨fun s hs => ?_, fun sec => List.pairwise_map.mpr (pairwise_short (twoFiles_length objectX86 objectArm arch sec))⟩
  cases arch with
  | x86 => exact ⟨_, _, _, _, _, Option.mem_toList.mp hs⟩
  | arm => exact ⟨_, _, _, _, _, Option.mem_toList.mp hs⟩
  | power => exact absurd hs List.not_mem_nil

theorem symbols_matched_main : SymbolsMatched (twoFiles "obj/main_x86_64.o" "obj/main.o") := by
  have hx' : ∀ x ∈ (twoFiles "obj/main_x86_64.o" "obj/main.o" .x86).symbols, objectName .x86 x = "main_x86_64.o".toList := by decide
  have ha' : ∀ a ∈ (twoFiles "obj/main_x86_64.o" "obj/main.o" .arm).symbols, objectName .arm a = "main.o".toList := by decide
  have hsource : sourceObject "main_x86_64.o".toList = sourceObject "main.o".toList := by decide
  refine (symbols_matched_iff _ fun arch _ => twoFiles_ok _ _ arch).mpr ⟨fun x hx a ha _ => ?_, fun arch _ sec => ?_⟩
  · rw [hx' x hx, ha' a ha]
    exact ⟨by decide, by decide, fun hne => absurd hsource hne⟩
  · exact pairwise_short (twoFiles_length _ _ arch sec)

/-- A suffix inside the source's name: the two objects of `my.old.c` are not matched. -/
theorem dotted_name_unmatched : (∀ arch, arch ≠ .power → (twoFiles "obj/my.old_x86_64.o" "obj/my.old.o" arch).Ok arch) ∧
    (∃ x ∈ (twoFiles "obj/my.old_x86_64.o" "obj/my.old.o" .x86).symbols, ∃ a ∈ (twoFiles "obj/my.old_x86_64.o" "obj/my.old.o" .arm).symbols,
      key .x86 x = key .arm a ∧ x.compare a = some false) ∧
    ¬ SymbolsMatched (twoFiles "obj/my.old_x86_64.o" "obj/my.old.o") := by
  have hcompare : ∃ x ∈ (twoFiles "obj/my.old_x86_64.o" "obj/my.old.o" .x86).symbols,
      ∃ a ∈ (twoFiles "obj/my.old_x86_64.o" "obj/my.old.o" .arm).symbols, key .x86 x = key .arm a ∧ x.compare a = some false := by
    decide
  refine ⟨fun arch _ => twoFiles_ok _ _ arch, hcompare, fun h => ?_⟩
  obtain ⟨x, hx, a, ha, hkey, hfalse⟩ := hcompare
  have hright := (h.compared x hx a ha (congrArg Prod.fst hkey)).1
  rw [hfalse, decide_eq_true hkey] at hright
  cases hright

end Popcorn.Pyalign
