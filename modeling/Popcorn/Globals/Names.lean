/-
  Popcorn.Globals.Names — the names a module's globals get before code is generated: first
  `NameStringLiterals`, then `StaticVarSections`.

  The first pass makes private globals external, under a name made of the module's, the global's
  and the start of a string's contents. The second puts every internal global in a section named
  after the module and the global. In both, what is not alphanumeric becomes an underscore. A
  character of a `Name` stands for a byte. The module's symbol table is LLVM's: it adds a number to
  a name that is taken in the module.

  Proved: `generated_names_unique_iff`: for which modules of a program no two private globals get
  one name and no two internal ones one section.
-/

import Popcorn.Lib.NameTable
import Mathlib.Data.List.Forall2

namespace Popcorn.Globals

open Popcorn.Lib

/-! ## Modules -/

/-- `GlobalValue::LinkageTypes`. -/
inductive Linkage where
  | externalLinkage | availableExternallyLinkage | linkOnceAnyLinkage | linkOnceODRLinkage
  | weakAnyLinkage | weakODRLinkage | appendingLinkage | internalLinkage | privateLinkage
  | externalWeakLinkage | commonLinkage
  deriving DecidableEq, Repr

structure Initializer where
  /-- The characters of a `ConstantDataSequential` that is a string. -/
  string : Option Name
  isZeroValue : Bool
  deriving DecidableEq, Repr

structure GlobalVariable where
  name : Name
  linkage : Linkage
  isConstant : Bool
  isThreadLocal : Bool
  hasUnnamedAddr : Bool
  sectionName : Name
  initializer : Option Initializer
  deriving DecidableEq, Repr

structure Module (σ : Type) where
  name : Name
  globals : List GlobalVariable
  symbolTable : σ

/-- `std::replace_if` with the passes' `filter`. -/
def underscore (name : Name) : Name := name.map fun c => if c.isAlphanum then c else '_'

/-! ## `NameStringLiterals` -/

namespace NameStringLiterals

def charsForName : Nat := 10

/-- `newName.substr(0, newName.find_last_of('.'))`. -/
def stem (name : Name) : Name := if '.' ∈ name then (name.reverse.dropWhile (· ≠ '.')).tail.reverse else name

/-- The start of the string a global is initialised with. -/
def literal (Sym : GlobalVariable) : Name :=
  match Sym.initializer with
  | some ⟨some data, _⟩ => data.take charsForName
  | _ => []

def uniquifySymbol (M : Name) (Sym : GlobalVariable) : Name :=
  underscore (stem M ++ '_' :: Sym.name ++ ['_']) ++ underscore (literal Sym)

variable {σ : Type}

/-- The loop over the globals. -/
def nameGlobals (T : NameTable σ) (M : Name) : σ → List GlobalVariable → List GlobalVariable × σ
  | table, [] => ([], table)
  | table, gl :: gls =>
    if gl.linkage = .privateLinkage then
      let (newName, table') := T.setName table gl.name (uniquifySymbol M gl)
      let (gls', table'') := nameGlobals T M table' gls
      ({ gl with linkage := .externalLinkage, name := newName, hasUnnamedAddr := false } :: gls', table'')
    else
      let (gls', table') := nameGlobals T M table gls
      (gl :: gls', table')

def runOnModule (T : NameTable σ) (M : Module σ) : Module σ :=
  { M with
    globals := (nameGlobals T M.name M.symbolTable M.globals).1
    symbolTable := (nameGlobals T M.name M.symbolTable M.globals).2 }

end NameStringLiterals

/-! ## `StaticVarSections` -/

namespace StaticVarSections

def uniquifySymbol (M sec : Name) (Sym : GlobalVariable) : Name := sec ++ underscore (M ++ '_' :: Sym.name)

/-- The section an internal global goes to, up to its name. A constant is not thread-local, and
    an internal global has an initializer; both are asserted. -/
def sectionKind (gl : GlobalVariable) : Option Name :=
  let secName := if gl.isThreadLocal then ['.', 't'] else ['.']
  if gl.isConstant then
    if gl.isThreadLocal then none else some (secName ++ "rodata.".toList)
  else
    match gl.initializer with
    | none => none
    | some init => some (secName ++ (if init.isZeroValue then "bss.".toList else "data.".toList))

/-- A common global whose name has `.cache.` in it becomes internal. -/
def isCache (gl : GlobalVariable) : Bool :=
  gl.linkage = .commonLinkage && gl.name.tails.any fun rest => ".cache.".toList.isPrefixOf rest

/-- One round of the loop; `none` is a failed assertion. -/
def runOnGlobal (M : Name) (global : GlobalVariable) : Option GlobalVariable :=
  let gl := if isCache global then { global with linkage := .internalLinkage } else global
  if gl.linkage = .internalLinkage then
    (sectionKind gl).map fun secName => { gl with sectionName := uniquifySymbol M secName gl }
  else some gl

def runOnGlobals (M : Name) : List GlobalVariable → Option (List GlobalVariable)
  | [] => some []
  | gl :: gls => do
    let gl' ← runOnGlobal M gl
    let gls' ← runOnGlobals M gls
    some (gl' :: gls')

def runOnModule {σ : Type} (M : Module σ) : Option (Module σ) :=
  (runOnGlobals M.name M.globals).map fun globals => { M with globals := globals }

end StaticVarSections

/-! ## The property -/

section
variable {σ : Type} {T : NameTable σ}

/-- The names in a module are in its symbol table, and differ. -/
structure Module.Ok (T : NameTable σ) (M : Module σ) : Prop where
  uses : ∀ gl ∈ M.globals, gl.name ≠ [] → T.uses M.symbolTable gl.name
  distinct : M.globals.Pairwise fun gl gl' => gl.name ≠ [] → gl.name ≠ gl'.name

/-- A module the two passes have run on. -/
structure Compiled (T : NameTable σ) where
  source : Module σ
  out : Module σ
  ok : source.Ok T
  run : StaticVarSections.runOnModule (NameStringLiterals.runOnModule T source) = some out

namespace Compiled

/-- The names of the globals that were private. -/
def externalNames (c : Compiled T) : List Name :=
  ((c.source.globals.zip c.out.globals).filter fun p => p.1.linkage = .privateLinkage).map fun p => p.2.name

/-- The sections of the internal globals of a kind. -/
def sections (kind : Name) (c : Compiled T) : List Name :=
  (c.out.globals.filter fun gl => gl.linkage = .internalLinkage ∧ StaticVarSections.sectionKind gl = some kind).map fun gl => gl.sectionName

end Compiled

structure NamesUnique (program : List (Compiled T)) : Prop where
  symbols : (program.flatMap Compiled.externalNames).Nodup
  sections : ∀ kind, (program.flatMap (Compiled.sections kind)).Nodup

/-! ## What the names must be -/

/-- Alike but for the characters that are not alphanumeric. -/
def Alike (name name' : Name) : Prop :=
  List.Forall₂ (fun c c' => c = c' ∨ c.isAlphanum = false ∧ c'.isAlphanum = false) name name'

/-- The private globals, with the number the symbol table adds to each one's name. -/
def numbers (T : NameTable σ) (M : Name) : σ → List GlobalVariable → List (GlobalVariable × Name)
  | _, [] => []
  | table, gl :: gls =>
    if gl.linkage = .privateLinkage then
      let newName := NameStringLiterals.uniquifySymbol M gl
      (gl, (T.setName table gl.name newName).1.drop newName.length) :: numbers T M (T.setName table gl.name newName).2 gls
    else numbers T M table gls

/-- A private global's module, name, string and number. -/
def symbolText (M : Name) (p : GlobalVariable × Name) : Name :=
  NameStringLiterals.stem M ++ '_' :: p.1.name ++ '_' :: NameStringLiterals.literal p.1 ++ p.2

def Module.symbolTexts (T : NameTable σ) (M : Module σ) : List Name :=
  (numbers T M.name M.symbolTable M.globals).map (symbolText M.name)

/-- A static global's module and name. -/
def sectionText (M : Name) (gl : GlobalVariable) : Name := M ++ '_' :: gl.name

def isStatic (gl : GlobalVariable) : Bool := gl.linkage = .internalLinkage || StaticVarSections.isCache gl

def Module.sectionTexts (kind : Name) (M : Module σ) : List Name :=
  (M.globals.filter fun gl => isStatic gl ∧ StaticVarSections.sectionKind gl = some kind).map (sectionText M.name)

structure TextsDiffer (program : List (Compiled T)) : Prop where
  /-- In different modules. -/
  symbols : program.Pairwise fun c c' => ∀ text ∈ c.source.symbolTexts T, ∀ text' ∈ c'.source.symbolTexts T, ¬ Alike text text'
  sections : ∀ kind, (program.flatMap fun c => c.source.sectionTexts kind).Pairwise fun text text' => ¬ Alike text text'

/-! ## Underscores -/

theorem underscore_append (a b : Name) : underscore (a ++ b) = underscore a ++ underscore b := List.map_append

theorem underscore_eq_iff (a b : Name) : underscore a = underscore b ↔ Alike a b := by
  have hchar : ∀ c d : Char, ((if c.isAlphanum then c else '_') = if d.isAlphanum then d else '_') ↔
      c = d ∨ c.isAlphanum = false ∧ d.isAlphanum = false := by
    intro c d
    have hunder : ('_' : Char).isAlphanum = false := by decide
    cases hc : c.isAlphanum <;> cases hd : d.isAlphanum
    · exact iff_of_true rfl (.inr ⟨rfl, rfl⟩)
    · refine iff_of_false (fun h => ?_) (fun h => ?_)
      · rw [← show '_' = d from h, hunder] at hd
        cases hd
      · rcases h with rfl | ⟨-, h⟩
        · rw [hc] at hd
          cases hd
        · cases h
    · refine iff_of_false (fun h => ?_) (fun h => ?_)
      · rw [show c = '_' from h, hunder] at hc
        cases hc
      · rcases h with rfl | ⟨h, -⟩
        · rw [hc] at hd
          cases hd
        · cases h
    · exact ⟨.inl, fun h => h.resolve_right fun h => Bool.noConfusion h.1⟩
  unfold underscore Alike
  rw [← List.forall₂_eq_eq_eq, List.forall₂_map_left_iff, List.forall₂_map_right_iff]
  constructor
  · exact fun h => h.imp fun c d => (hchar c d).mp
  · exact fun h => h.imp fun c d => (hchar c d).mpr

theorem underscore_digits {digits : Name} (h : ∀ c ∈ digits, c.isDigit = true) : underscore digits = digits := by
  refine (List.map_congr_left fun c hc => ?_).trans (List.map_id _)
  rw [if_pos (by rw [Char.isAlphanum, h c hc, Bool.or_true])]
  rfl

/-- A private global's name is its text with underscores. -/
theorem underscore_symbolText (M : Name) (gl : GlobalVariable) {digits : Name} (h : ∀ c ∈ digits, c.isDigit = true) :
    underscore (symbolText M (gl, digits)) = NameStringLiterals.uniquifySymbol M gl ++ digits := by
  unfold symbolText NameStringLiterals.uniquifySymbol
  rw [underscore_append, underscore_digits h, ← underscore_append, List.append_assoc (NameStringLiterals.stem M ++ _) _ _]
  rfl

/-! ## What the passes give -/

theorem uniquifySymbol_ne_nil (M : Name) (gl : GlobalVariable) : NameStringLiterals.uniquifySymbol M gl ≠ [] := by
  intro h
  have hlength := congrArg List.length h
  rw [NameStringLiterals.uniquifySymbol, underscore, List.length_append, List.length_map, List.length_append] at hlength
  exact absurd hlength (by rw [List.length_singleton, List.length_nil]; omega)

/-- The name a private global is given. -/
theorem given_eq (hT : T.Lawful) (M : Name) (table : σ) (gl : GlobalVariable) :
    underscore (symbolText M (gl, (T.setName table gl.name (NameStringLiterals.uniquifySymbol M gl)).1.drop
      (NameStringLiterals.uniquifySymbol M gl).length)) = (T.setName table gl.name (NameStringLiterals.uniquifySymbol M gl)).1 := by
  obtain ⟨digits, hdigits, heq⟩ := hT.number table gl.name (NameStringLiterals.uniquifySymbol M gl)
  rw [heq, List.drop_left, underscore_symbolText M gl hdigits]

/-- What the second pass makes of an internal global. -/
structure Placed (M kind : Name) (gl gl' : GlobalVariable) : Prop where
  ofKind : StaticVarSections.sectionKind gl = some kind
  keeps : StaticVarSections.sectionKind gl' = StaticVarSections.sectionKind gl
  name : gl'.name = gl.name
  linkage : gl'.linkage = .internalLinkage
  sectionName : gl'.sectionName = kind ++ underscore (sectionText M gl)

theorem runOnGlobal_static {M : Name} {gl gl' : GlobalVariable} (h : StaticVarSections.runOnGlobal M gl = some gl') (hstatic : isStatic gl = true) :
    ∃ kind, Placed M kind gl gl' := by
  unfold StaticVarSections.runOnGlobal at h
  cases hcache : StaticVarSections.isCache gl with
  | true =>
    rw [hcache, if_pos rfl, if_pos rfl] at h
    obtain ⟨kind, hkind, rfl⟩ := Option.map_eq_some_iff.mp h
    exact ⟨kind, hkind, rfl, rfl, rfl, rfl⟩
  | false =>
    have hinternal : gl.linkage = .internalLinkage := by
      rw [isStatic, hcache, Bool.or_false] at hstatic
      exact of_decide_eq_true hstatic
    rw [hcache, if_neg Bool.false_ne_true, if_pos hinternal] at h
    obtain ⟨kind, hkind, rfl⟩ := Option.map_eq_some_iff.mp h
    exact ⟨kind, hkind, rfl, rfl, hinternal, rfl⟩

theorem runOnGlobal_other {M : Name} {gl gl' : GlobalVariable} (h : StaticVarSections.runOnGlobal M gl = some gl') (hstatic : isStatic gl = false) :
    gl' = gl ∧ gl.linkage ≠ .internalLinkage := by
  obtain ⟨hlinkage, hcache⟩ := Bool.or_eq_false_iff.mp hstatic
  have hother := of_decide_eq_false hlinkage
  unfold StaticVarSections.runOnGlobal at h
  rw [hcache, if_neg Bool.false_ne_true, if_neg hother] at h
  exact ⟨(Option.some.inj h).symm, hother⟩

theorem runOnGlobal_name {M : Name} {gl gl' : GlobalVariable} (h : StaticVarSections.runOnGlobal M gl = some gl') : gl'.name = gl.name := by
  cases hstatic : isStatic gl with
  | true =>
    obtain ⟨kind, hplaced⟩ := runOnGlobal_static h hstatic
    exact hplaced.name
  | false => rw [(runOnGlobal_other h hstatic).1]

theorem runOnGlobals_cons {M : Name} {gl : GlobalVariable} {gls out : List GlobalVariable} (h : StaticVarSections.runOnGlobals M (gl :: gls) = some out) :
    ∃ gl' gls', StaticVarSections.runOnGlobal M gl = some gl' ∧ StaticVarSections.runOnGlobals M gls = some gls' ∧ out = gl' :: gls' := by
  obtain ⟨gl', hgl, hrest⟩ := Option.bind_eq_some_iff.mp h
  obtain ⟨gls', hgls, heq⟩ := Option.bind_eq_some_iff.mp hrest
  exact ⟨gl', gls', hgl, hgls, (Option.some.inj heq).symm⟩

/-- Both passes over a module's globals: the names of those that were private. -/
theorem names_given (hT : T.Lawful) (M : Name) {table : σ} {gls out : List GlobalVariable}
    (h : StaticVarSections.runOnGlobals M (NameStringLiterals.nameGlobals T M table gls).1 = some out) :
    ((gls.zip out).filter fun p => p.1.linkage = .privateLinkage).map (fun p => p.2.name) =
      (numbers T M table gls).map fun p => underscore (symbolText M p) := by
  induction gls generalizing table out with
  | nil => rfl
  | cons gl gls ih =>
    unfold NameStringLiterals.nameGlobals at h
    unfold numbers
    by_cases hprivate : gl.linkage = .privateLinkage
    · rw [if_pos hprivate] at h
      obtain ⟨gl', gls', hgl, hgls, rfl⟩ := runOnGlobals_cons h
      have hname : gl'.name = (T.setName table gl.name (NameStringLiterals.uniquifySymbol M gl)).1 := runOnGlobal_name hgl
      rw [if_pos hprivate, List.zip_cons_cons, List.filter_cons_of_pos (by rwa [decide_eq_true_iff]), List.map_cons, List.map_cons, ih hgls, hname]
      exact congrArg (· :: _) (given_eq hT M table gl).symm
    · rw [if_neg hprivate] at h
      obtain ⟨gl', gls', -, hgls, rfl⟩ := runOnGlobals_cons h
      rw [if_neg hprivate, List.zip_cons_cons, List.filter_cons_of_neg (by rwa [decide_eq_true_iff]), ih hgls]

/-- The private globals with their names and the new ones. -/
def renamings (M : Name) (gls : List GlobalVariable) : List (Name × Name) :=
  (gls.filter fun gl => gl.linkage = .privateLinkage).map fun gl => (gl.name, NameStringLiterals.uniquifySymbol M gl)

theorem numbers_renames (hT : T.Lawful) (M : Name) (table : σ) (gls : List GlobalVariable) :
    (numbers T M table gls).map (fun p => underscore (symbolText M p)) = T.renames table (renamings M gls) := by
  induction gls generalizing table with
  | nil => rfl
  | cons gl gls ih =>
    unfold numbers renamings
    by_cases hprivate : gl.linkage = .privateLinkage
    · rw [if_pos hprivate, List.filter_cons_of_pos (by rwa [decide_eq_true_iff]), List.map_cons, List.map_cons, NameTable.renames]
      exact congrArg₂ List.cons (given_eq hT M table gl) (ih _)
    · rw [if_neg hprivate, List.filter_cons_of_neg (by rwa [decide_eq_true_iff])]
      exact ih table

theorem Module.Ok.valid {M : Module σ} (h : M.Ok T) : T.Valid M.symbolTable (renamings M.name M.globals) := by
  refine ⟨fun p hp hne => ?_, ?_, fun p hp => ?_⟩
  · obtain ⟨gl, hgl, rfl⟩ := List.mem_map.mp hp
    exact h.uses gl (List.mem_filter.mp hgl).1 hne
  · exact List.pairwise_map.mpr (h.distinct.sublist List.filter_sublist)
  · obtain ⟨gl, -, rfl⟩ := List.mem_map.mp hp
    exact uniquifySymbol_ne_nil M.name gl

theorem sections_given (M : Name) (kind : Name) {table : σ} {gls out : List GlobalVariable}
    (h : StaticVarSections.runOnGlobals M (NameStringLiterals.nameGlobals T M table gls).1 = some out) :
    (out.filter fun gl => gl.linkage = .internalLinkage ∧ StaticVarSections.sectionKind gl = some kind).map (fun gl => gl.sectionName) =
      (gls.filter fun gl => isStatic gl ∧ StaticVarSections.sectionKind gl = some kind).map
        fun gl => kind ++ underscore (sectionText M gl) := by
  induction gls generalizing table out with
  | nil =>
    obtain rfl := Option.some.inj h
    rfl
  | cons gl gls ih =>
    unfold NameStringLiterals.nameGlobals at h
    by_cases hprivate : gl.linkage = .privateLinkage
    · rw [if_pos hprivate] at h
      obtain ⟨gl', gls', hgl, hgls, rfl⟩ := runOnGlobals_cons h
      have hstatic : isStatic gl = false := by rw [isStatic, StaticVarSections.isCache, hprivate]; rfl
      obtain rfl := Option.some.inj hgl
      rw [List.filter_cons_of_neg (by rw [decide_eq_true_iff]; exact fun hand => by cases hand.1),
        List.filter_cons_of_neg (by rw [decide_eq_true_iff, hstatic]; exact fun hand => by cases hand.1)]
      exact ih hgls
    · rw [if_neg hprivate] at h
      obtain ⟨gl', gls', hgl, hgls, rfl⟩ := runOnGlobals_cons h
      cases hstatic : isStatic gl with
      | true =>
        obtain ⟨kind', hplaced⟩ := runOnGlobal_static hgl hstatic
        by_cases hkind : StaticVarSections.sectionKind gl = some kind
        · obtain rfl : kind' = kind := Option.some.inj (hplaced.ofKind.symm.trans hkind)
          rw [List.filter_cons_of_pos (by rw [decide_eq_true_iff]; exact ⟨hplaced.linkage, hplaced.keeps.trans hkind⟩),
            List.filter_cons_of_pos (by rw [decide_eq_true_iff]; exact ⟨hstatic, hkind⟩), List.map_cons, List.map_cons, hplaced.sectionName, ih hgls]
        · rw [List.filter_cons_of_neg (by rw [decide_eq_true_iff, hplaced.keeps]; exact fun hand => hkind hand.2),
            List.filter_cons_of_neg (by rw [decide_eq_true_iff]; exact fun hand => hkind hand.2), ih hgls]
      | false =>
        obtain ⟨rfl, hother⟩ := runOnGlobal_other hgl hstatic
        rw [List.filter_cons_of_neg (by rw [decide_eq_true_iff]; exact fun hand => hother hand.1),
          List.filter_cons_of_neg (by rw [decide_eq_true_iff, hstatic]; exact fun hand => by cases hand.1), ih hgls]

namespace Compiled

theorem globals_run (c : Compiled T) : StaticVarSections.runOnGlobals c.source.name
    (NameStringLiterals.nameGlobals T c.source.name c.source.symbolTable c.source.globals).1 = some c.out.globals := by
  obtain ⟨globals, hglobals, hout⟩ := Option.map_eq_some_iff.mp c.run
  rw [← hout]
  exact hglobals

theorem externalNames_eq (hT : T.Lawful) (c : Compiled T) : c.externalNames = (c.source.symbolTexts T).map underscore := by
  rw [Module.symbolTexts, List.map_map]
  exact names_given hT c.source.name c.globals_run

/-- The symbol table keeps the names of a module apart. -/
theorem externalNames_nodup (hT : T.Lawful) (c : Compiled T) : c.externalNames.Nodup := by
  have hrenames := numbers_renames hT c.source.name c.source.symbolTable c.source.globals
  have hgiven : c.externalNames = _ := (names_given hT c.source.name c.globals_run).trans hrenames
  rw [hgiven]
  exact NameTable.renames_nodup hT c.ok.valid

theorem sections_eq (c : Compiled T) (kind : Name) :
    c.sections kind = (c.source.sectionTexts kind).map fun text => kind ++ underscore text := by
  rw [Module.sectionTexts, List.map_map]
  exact sections_given c.source.name kind c.globals_run

end Compiled

/-! ## When they are unique -/

theorem symbols_unique_iff (hT : T.Lawful) (program : List (Compiled T)) : (program.flatMap Compiled.externalNames).Nodup ↔
    program.Pairwise fun c c' => ∀ text ∈ c.source.symbolTexts T, ∀ text' ∈ c'.source.symbolTexts T, ¬ Alike text text' := by
  have hdisjoint : ∀ c c' : Compiled T, c.externalNames.Disjoint c'.externalNames ↔
      ∀ text ∈ c.source.symbolTexts T, ∀ text' ∈ c'.source.symbolTexts T, ¬ Alike text text' := by
    intro c c'
    rw [c.externalNames_eq hT, c'.externalNames_eq hT]
    constructor
    · intro h text htext text' htext' halike
      have hname := (underscore_eq_iff text text').mpr halike
      exact h (List.mem_map_of_mem htext) (hname ▸ List.mem_map_of_mem htext')
    · intro h name hname hname'
      obtain ⟨text, htext, rfl⟩ := List.mem_map.mp hname
      obtain ⟨text', htext', heq⟩ := List.mem_map.mp hname'
      exact h text htext text' htext' ((underscore_eq_iff text text').mp heq.symm)
  rw [List.nodup_flatMap, and_iff_right fun c _ => c.externalNames_nodup hT]
  constructor
  · exact fun h => h.imp fun {c c'} => (hdisjoint c c').mp
  · exact fun h => h.imp fun {c c'} => (hdisjoint c c').mpr

theorem sections_unique_iff (kind : Name) (program : List (Compiled T)) : (program.flatMap (Compiled.sections kind)).Nodup ↔
    (program.flatMap fun c => c.source.sectionTexts kind).Pairwise fun text text' => ¬ Alike text text' := by
  have hmap : program.flatMap (Compiled.sections kind) =
      (program.flatMap fun c => c.source.sectionTexts kind).map fun text => kind ++ underscore text := by
    rw [List.map_flatMap]
    exact congrArg List.flatten (List.map_congr_left fun c _ => c.sections_eq kind)
  have hname : ∀ text text' : Name, kind ++ underscore text ≠ kind ++ underscore text' ↔ ¬ Alike text text' :=
    fun text text' => not_congr (List.append_right_inj kind |>.trans (underscore_eq_iff text text'))
  rw [hmap, List.Nodup, List.pairwise_map]
  constructor
  · exact fun h => h.imp fun {text text'} => (hname text text').mp
  · exact fun h => h.imp fun {text text'} => (hname text text').mpr

/-- The names are unique exactly where the texts they are made from differ in more than
    characters that are not alphanumeric. -/
theorem generated_names_unique_iff (hT : T.Lawful) (program : List (Compiled T)) : NamesUnique program ↔ TextsDiffer program := by
  constructor
  · intro h
    exact ⟨(symbols_unique_iff hT program).mp h.symbols, fun kind => (sections_unique_iff kind program).mp (h.sections kind)⟩
  · intro h
    exact ⟨(symbols_unique_iff hT program).mpr h.symbols, fun kind => (sections_unique_iff kind program).mpr (h.sections kind)⟩

end

/-! ## Two programs -/

instance (name name' : Name) : Decidable (Alike name name') := decidable_of_iff _ (underscore_eq_iff name name')

/-- A string literal ends in a null byte. -/
def stringLiteral (data : String) : GlobalVariable :=
  ⟨".str".toList, .privateLinkage, true, false, true, [], some ⟨some (data.toList ++ ['\x00']), false⟩⟩

def staticCounter (name : String) : GlobalVariable := ⟨name.toList, .internalLinkage, false, false, false, [], some ⟨none, true⟩⟩

def loaded (name : String) (globals : List GlobalVariable) : Module (List Name × Nat) :=
  ⟨name.toList, globals, (globals.map (·.name), 0)⟩

theorem loaded_ok {name : String} {globals : List GlobalVariable} (h : (globals.map (·.name)).Nodup) : (loaded name globals).Ok NameTable.numbered := by
  refine ⟨fun gl hgl _ => List.mem_map_of_mem hgl, (List.pairwise_map.mp h).imp ?_⟩
  intro gl gl' hne _
  exact hne

def compiled (name : String) (globals : List GlobalVariable) (h : (globals.map (·.name)).Nodup)
    (hrun : (StaticVarSections.runOnModule (NameStringLiterals.runOnModule NameTable.numbered (loaded name globals))).isSome = true) :
    Compiled NameTable.numbered :=
  ⟨loaded name globals, _, loaded_ok h, (Option.some_get hrun).symm⟩

def usageGlobals : List GlobalVariable := [stringLiteral "usage: ", staticCounter "count"]

theorem usage_distinct : (usageGlobals.map (·.name)).Nodup := by decide

theorem usage_runs {name : String} :
    (StaticVarSections.runOnModule (NameStringLiterals.runOnModule NameTable.numbered (loaded name usageGlobals))).isSome = true := rfl

theorem two_sources_unique : NamesUnique [compiled "main.c" usageGlobals usage_distinct usage_runs, compiled "util.c" usageGlobals usage_distinct usage_runs] := by
  refine (generated_names_unique_iff NameTable.numbered_lawful _).mpr ⟨by decide, fun kind => ?_⟩
  have hall : ((usageGlobals.map (sectionText "main.c".toList)) ++ ((usageGlobals.map (sectionText "util.c".toList)) ++ [])).Pairwise
      fun text text' => ¬ Alike text text' := by decide
  exact hall.sublist ((List.filter_sublist.map _).append ((List.filter_sublist.map _).append (List.Sublist.refl [])))

/-- A function's static variable and a file's. -/
def counterGlobals : List GlobalVariable := [stringLiteral "usage: ", staticCounter "next.id", staticCounter "next_id"]

theorem counter_distinct : (counterGlobals.map (·.name)).Nodup := by decide

theorem counter_runs {name : String} :
    (StaticVarSections.runOnModule (NameStringLiterals.runOnModule NameTable.numbered (loaded name counterGlobals))).isSome = true := rfl

def clashing : List (Compiled NameTable.numbered) :=
  [compiled "list.c" counterGlobals counter_distinct counter_runs, compiled "list.cpp" usageGlobals usage_distinct usage_runs]

/-- Two modules whose names differ in the extension, and two static variables in one section. -/
theorem extension_clash : (clashing.map fun c => c.source.name).Nodup ∧
    clashing.flatMap Compiled.externalNames = ["list__str_usage___".toList, "list__str_usage___".toList] ∧
    clashing.flatMap (Compiled.sections ".bss.".toList) =
      [".bss.list_c_next_id".toList, ".bss.list_c_next_id".toList, ".bss.list_cpp_count".toList] ∧
    ¬ NamesUnique clashing := by
  have hnames : clashing.flatMap Compiled.externalNames = ["list__str_usage___".toList, "list__str_usage___".toList] := by decide
  refine ⟨by decide, hnames, by decide, fun h => ?_⟩
  have hsymbols := h.symbols
  rw [hnames] at hsymbols
  exact absurd hsymbols (by decide)

end Popcorn.Globals
