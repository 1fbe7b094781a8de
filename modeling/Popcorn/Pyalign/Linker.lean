/-
  Popcorn.Pyalign.Linker — the linker scripts of the alignment tool (`Linker.py`).

  `produceLinkerScript` copies an architecture's template and puts a section's description in
  place of the line with the section's marker: a statement for each padding, and for each symbol
  the architecture has, its alignment and its input section. A linker runs the statements of a
  section from the section's address.

  Proved: from the same address, a multiple of 0x1000, the two architectures' statements for a
  list of symbols that was ordered and aligned place every symbol once and apart from the others,
  the symbols both have at one address that suits both (`symbols_aligned`).
-/

import Popcorn.Pyalign.Align

namespace Popcorn.Pyalign

open Lib.LocationCounter Pyalign.Symbol

/-! ## The script -/

/-- `considered_sections`. -/
inductive Section where
  | text
  | data
  | bss
  | rodata
  | tdata
  | tbss
  deriving DecidableEq, Repr

def Section.name : Section → String
  | .text => ".text"
  | .data => ".data"
  | .bss => ".bss"
  | .rodata => ".rodata"
  | .tdata => ".tdata"
  | .tbss => ".tbss"

def consideredSections : List Section := [.text, .data, .bss, .rodata, .tdata, .tbss]

def getSectionMarker : Section → String
  | .text => "__TEXT__"
  | .data => "__DATA__"
  | .bss => "__BSS__"
  | .rodata => "__RODATA__"
  | .tdata => "__TDATA__"
  | .tbss => "__TBSS__"

/-- `SYMBOLS_BLACKLIST`. -/
def symbolsBlacklist : Section → List String
  | .text => [".text"]
  | .data => [".data"]
  | .bss => [".bss"]
  | .rodata => [".rodata"]
  | .tdata | .tbss => []

/-- A line of a script. -/
inductive Line where
  | template (line : String)
  /-- `section : ALIGN(n)` -/
  | opening (sec : Section) (n : Int)
  | lbrace
  /-- `. = . + n;` -/
  | advance (n : Int)
  /-- `. = ALIGN(n);` -/
  | alignDot (n : Int)
  /-- `"objectFile"(name); /* size n */` -/
  | input (objectFile name : String) (size : Int)
  /-- `*(name);` -/
  | wildcard (name : String)
  | rbrace
  deriving DecidableEq, Repr

def symbolLines (arch : Arch) (s : Symbol) : List Line :=
  (if !s.getReference arch && s.getPaddingBefore arch ≠ 0 then [.advance (s.getPaddingBefore arch)] else []) ++
  (if s.getSize arch ≥ 0 then [.alignDot (s.getAlignment arch), .input (s.getObjectFile arch) s.name (s.getSize arch)] else []) ++
  (if s.getPaddingAfter arch ≠ 0 then [.advance (s.getPaddingAfter arch)] else [])

/-- Up to the last of some symbols. -/
def symbolsPart (arch : Arch) (symbols : List Symbol) : List Line :=
  [.advance 1, .alignDot 0x1000] ++ symbols.flatMap (symbolLines arch)

def sectionBody (sec : Section) (arch : Arch) (symbols : List Symbol) : List Line :=
  symbolsPart arch symbols ++ (symbolsBlacklist sec).map .wildcard

def sectionLines (sec : Section) (arch : Arch) (symbols : List Symbol) : List Line :=
  [.opening sec 0x100000, .lbrace] ++ sectionBody sec arch symbols ++ [.rbrace]

def startsWith (line marker : String) : Bool := marker.toList.isPrefixOf line.toList

def produceLinkerScript (template : List String) (symbolsList : Section → List Symbol) (arch : Arch) : List Line :=
  template.flatMap fun line =>
    match consideredSections.filter fun sec => startsWith line (getSectionMarker sec) with
    | [] => [.template line]
    | found => found.flatMap fun sec => sectionLines sec arch (symbolsList sec)

/-! ## The linker -/

/-- What the linker places: an input section of an object file, or whatever is left of a name. -/
inductive Input where
  | file (objectFile name : String)
  | rest (name : String)
  deriving DecidableEq, Repr

/-- What a line does to the location counter; `residue` is the size of what is left of a name. -/
def Line.stmt (residue : String → Nat) : Line → Option (Stmt Input)
  | .opening _ n => some (.align n)
  | .advance n => some (.advance n)
  | .alignDot n => some (.align n)
  | .input objectFile name size => some (.input (.file objectFile name) size)
  | .wildcard name => some (.input (.rest name) (residue name))
  | .template _ | .lbrace | .rbrace => none

def link (residue : String → Nat) (start : Int) (lines : List Line) : Layout Input :=
  run (lines.filterMap (Line.stmt residue)) ⟨start, []⟩

theorem link_append (residue : String → Nat) (start : Int) (ls ms : List Line) :
    link residue start (ls ++ ms) = run (ms.filterMap (Line.stmt residue)) (link residue start ls) := by
  rw [link, List.filterMap_append, run_append]
  rfl

def fileOf : Input × Int → Option (String × String × Int)
  | (.file objectFile name, size) => some (objectFile, name, size)
  | (.rest _, _) => none

/-- The input sections of object files that were placed, with their sizes. -/
def files (l : Layout Input) : List (String × String × Int) := (l.placed.map fun p => (p.input, p.size)).filterMap fileOf

/-! ## A symbol's lines -/

section
variable {residue : String → Nat} {padBefore alignment largestSize : Int} {s out : Symbol}
  (fresh : s.Fresh) (haligned : AlignedBy padBefore alignment largestSize s out)

def symbolStmts (residue : String → Nat) (arch : Arch) (s : Symbol) : List (Stmt Input) :=
  (symbolLines arch s).filterMap (Line.stmt residue)

include fresh haligned in
theorem stmts_referenced {arch : Arch} (hr : s.getReference arch = true) : symbolStmts residue arch out =
    [.align alignment, .input (.file (s.getObjectFile arch) s.name) (s.getSize arch)] ++
      if largestSize - s.getSize arch ≠ 0 then [.advance (largestSize - s.getSize arch)] else [] := by
  have hr' : out.getReference arch = true := by rw [getReference, haligned.references]; exact hr
  have hsize : out.getSize arch = s.getSize arch := by rw [getSize, haligned.sizes]; rfl
  have hobj : out.getObjectFile arch = s.getObjectFile arch := by rw [getObjectFile, haligned.objectFiles]; rfl
  have hafter : out.getPaddingAfter arch = largestSize - s.getSize arch := (haligned.after arch).trans (if_pos hr)
  rw [symbolStmts, symbolLines, hr', hsize, hobj, hafter, haligned.alignments arch hr, haligned.name, if_pos (fresh.size arch hr)]
  by_cases hl : largestSize - s.getSize arch = 0 <;> simp [hl, Line.stmt]

include fresh haligned in
theorem stmts_absent {arch : Arch} (hr : s.getReference arch = false) : symbolStmts residue arch out =
    (if padBefore ≠ 0 then [.advance padBefore] else []) ++ if largestSize ≠ 0 then [.advance largestSize] else [] := by
  have hr' : out.getReference arch = false := by rw [getReference, haligned.references]; exact hr
  have hsize : out.getSize arch = -1 := by rw [getSize, haligned.sizes]; exact (fresh.absent arch hr).2.1
  have hafter : out.getPaddingAfter arch = largestSize := (haligned.after arch).trans (if_neg (by rw [hr]; exact Bool.false_ne_true))
  rw [symbolStmts, symbolLines, hr', hsize, hafter, haligned.before arch hr]
  by_cases hb : padBefore = 0 <;> by_cases hl : largestSize = 0 <;> simp [hb, hl, Line.stmt]

/-- Padding of no bytes is left out, which changes nothing. -/
theorem run_padding (n : Int) (l : Layout Input) : run (if n ≠ 0 then [.advance n] else []) l = ⟨l.dot + n, l.placed⟩ := by
  split
  · rfl
  · rename_i hn
    rw [Decidable.not_not.1 hn, Int.add_zero]
    rfl

include fresh haligned in
/-- An architecture with the symbol aligns the counter, places the symbol and goes on past the
    largest size. -/
theorem run_referenced {arch : Arch} (hr : s.getReference arch = true) (l : Layout Input) :
    run (symbolStmts residue arch out) l = ⟨alignUp alignment l.dot + largestSize,
      l.placed ++ [⟨.file (s.getObjectFile arch) s.name, alignUp alignment l.dot, s.getSize arch⟩]⟩ := by
  rw [stmts_referenced fresh haligned hr, run_append, run_padding]
  simp only [run_cons, run_nil, align_step, input_step, Layout.mk.injEq, and_true]
  omega

include fresh haligned in
theorem run_absent {arch : Arch} (hr : s.getReference arch = false) (l : Layout Input) :
    run (symbolStmts residue arch out) l = ⟨l.dot + padBefore + largestSize, l.placed⟩ := by
  rw [stmts_absent fresh haligned hr, run_append, run_padding, run_padding]

theorem padding_forward {n : Int} (hn : 0 ≤ n) : ∀ t ∈ (if n ≠ 0 then [Stmt.advance n] else [] : List (Stmt Input)), t.Forward := by
  intro t ht
  split at ht
  · rw [List.mem_singleton.1 ht]
    exact hn
  · cases ht

include fresh haligned in
theorem stmts_forward (hpad : 0 ≤ padBefore) (hpos : 0 < alignment) (hsize : ∀ arch, s.getSize arch ≤ largestSize)
    (hnonneg : 0 ≤ largestSize) (arch : Arch) : ∀ t ∈ symbolStmts residue arch out, t.Forward := by
  cases hr : s.getReference arch with
  | false =>
    rw [stmts_absent fresh haligned hr, List.forall_mem_append]
    exact ⟨padding_forward hpad, padding_forward hnonneg⟩
  | true =>
    rw [stmts_referenced fresh haligned hr, List.forall_mem_append]
    have := hsize arch
    refine ⟨?_, padding_forward (by omega)⟩
    intro t ht
    rcases List.mem_cons.1 ht with rfl | ht
    · exact hpos
    · rw [List.mem_singleton.1 ht]
      exact fresh.size arch hr

include fresh haligned in
theorem stmts_named (arch : Arch) : (symbolStmts residue arch out).filterMap Stmt.named =
    if s.getReference arch then [(.file (s.getObjectFile arch) s.name, s.getSize arch)] else [] := by
  have hpadding : ∀ n : Int, (if n ≠ 0 then [Stmt.advance n] else [] : List (Stmt Input)).filterMap Stmt.named = [] := by
    intro n
    split <;> rfl
  cases hr : s.getReference arch with
  | false => rw [stmts_absent fresh haligned hr, List.filterMap_append, hpadding, hpadding]; rfl
  | true => rw [stmts_referenced fresh haligned hr, List.filterMap_append, hpadding]; rfl

end

/-! ## The lines of a list -/

namespace AlignedFrom

variable {residue : String → Nat} {address : Int} {sl outs : List Symbol}

/-- Two architectures that both have every symbol stay at the same address, whatever it is. -/
theorem same_dot (h : AlignedFrom address sl outs) {a b : Arch} (ha : ∀ s ∈ sl, s.getReference a = true)
    (hb : ∀ s ∈ sl, s.getReference b = true) {residue' : String → Nat} {l l' : Layout Input} (hdot : l.dot = l'.dot) :
    (run (outs.flatMap (symbolStmts residue a)) l).dot = (run (outs.flatMap (symbolStmts residue' b)) l').dot := by
  induction h generalizing l l' with
  | nil => exact hdot
  | cons fresh size nonneg aligned rest ih =>
    rw [List.flatMap_cons, List.flatMap_cons, run_append, run_append, run_referenced fresh aligned (ha _ (.head _)),
      run_referenced fresh aligned (hb _ (.head _))]
    exact ih (fun s hs => ha s (.tail _ hs)) (fun s hs => hb s (.tail _ hs)) (by rw [hdot])

/-- From a base that every alignment divides, an architecture is at the base plus `align`'s
    address after every symbol, whether it has the symbol or not. -/
theorem base_dot {base : Int} (h : AlignedFrom address sl outs) (hbase : ∀ s ∈ sl, s.setLargestAlignment.2 ∣ base) :
    ∃ address', ∀ (arch : Arch) (residue : String → Nat) (l : Layout Input), l.dot = base + address →
      (run (outs.flatMap (symbolStmts residue arch)) l).dot = base + address' := by
  induction h with
  | nil address => exact ⟨address, fun _ _ _ hl => hl⟩
  | @cons address largestSize s out sl outs fresh size nonneg aligned rest ih =>
    obtain ⟨address', hrest⟩ := ih fun t ht => hbase t (.tail _ ht)
    refine ⟨address', ?_⟩
    intro arch residue l hl
    rw [List.flatMap_cons, run_append]
    refine hrest arch residue _ ?_
    cases hr : s.getReference arch with
    | false =>
      rw [run_absent fresh aligned hr]
      change l.dot + _ + _ = _
      omega
    | true =>
      rw [run_referenced fresh aligned hr]
      change alignUp _ l.dot + _ = _
      rw [hl, alignUp_add fresh.largest_pos (hbase s (.head _)), Int.add_assoc]

theorem forward (h : AlignedFrom address sl outs) (arch : Arch) : ∀ t ∈ outs.flatMap (symbolStmts residue arch), t.Forward := by
  induction h with
  | nil => exact fun t ht => absurd ht List.not_mem_nil
  | @cons address largestSize s out sl outs fresh size nonneg aligned rest ih =>
    rw [List.flatMap_cons, List.forall_mem_append]
    have hle := (alignUp_bounds fresh.largest_pos address).1
    exact ⟨stmts_forward fresh aligned (by omega) fresh.largest_pos size nonneg arch, ih⟩

theorem named (h : AlignedFrom address sl outs) (arch : Arch) : (outs.flatMap (symbolStmts residue arch)).filterMap Stmt.named =
    (sl.filter fun s => s.getReference arch).map fun s => (.file (s.getObjectFile arch) s.name, s.getSize arch) := by
  induction h with
  | nil => rfl
  | @cons address largestSize s out sl outs fresh size nonneg aligned rest ih =>
    rw [List.flatMap_cons, List.filterMap_append, ih, stmts_named fresh aligned]
    cases hr : s.getReference arch with
    | false => rw [List.filter_cons_of_neg (by rw [hr]; exact Bool.false_ne_true)]; rfl
    | true => rw [List.filter_cons_of_pos (by rw [hr])]; rfl

/-- A symbol of the list, with what it became and what is around it. -/
theorem split (h : AlignedFrom address sl outs) {k : Nat} {s : Symbol} (hk : sl[k]? = some s) :
    ∃ padBefore largestSize out, outs = outs.take k ++ out :: outs.drop (k + 1) ∧ s.Fresh ∧
      AlignedBy padBefore s.setLargestAlignment.2 largestSize s out := by
  induction h generalizing k with
  | nil => cases hk
  | @cons address largestSize t out sl outs fresh size nonneg aligned rest ih =>
    cases k with
    | zero =>
      obtain rfl := Option.some.inj hk
      exact ⟨_, largestSize, out, rfl, fresh, aligned⟩
    | succ k =>
      obtain ⟨padBefore, largest, o, houts, hfresh, ho⟩ := ih hk
      exact ⟨padBefore, largest, o, congrArg (out :: ·) houts, hfresh, ho⟩

end AlignedFrom

/-! ## The section -/

/-- The lines up to a symbol: the two assignments in front, then those of the symbols. -/
theorem link_symbolsPart (residue : String → Nat) (start : Int) (arch : Arch) (outs : List Symbol) :
    link residue start (symbolsPart arch outs) = run (outs.flatMap (symbolStmts residue arch)) ⟨alignUp 0x1000 (start + 1), []⟩ := by
  rw [symbolsPart, link_append, List.filterMap_flatMap]
  rfl

theorem link_body (residue : String → Nat) (start : Int) (sec : Section) (arch : Arch) (outs : List Symbol) :
    link residue start (sectionBody sec arch outs) =
      run ((symbolsBlacklist sec).map fun name => .input (.rest name) (residue name)) (link residue start (symbolsPart arch outs)) := by
  rw [sectionBody, link_append, List.filterMap_map]
  exact congrArg (run · _) (congrFun (List.filterMap_eq_map (f := fun name => Stmt.input (Input.rest name) (residue name))) _)

section
variable (sec : Section) (residue : Arch → String → Nat) (start : Int) (outs : List Symbol)

/-- The `k`-th symbol of the list is placed at an address: the section's input sections are those
    of the symbols before it, this one there, and the rest. -/
def PlacedAt (arch : Arch) (k : Nat) (s : Symbol) (addr : Int) : Prop := ∃ rest,
  (link (residue arch) start (sectionBody sec arch outs)).placed =
    (link (residue arch) start (symbolsPart arch (outs.take k))).placed ++
      ⟨.file (s.getObjectFile arch) s.name, addr, s.getSize arch⟩ :: rest

/-- What the statements for a list of symbols, aligned to `outs`, do on the architectures. -/
structure SectionAligned (sl : List Symbol) : Prop where
  same_address : ∀ k s, sl[k]? = some s → s.getReference .x86 = true → s.getReference .arm = true →
    ∃ addr, PlacedAt sec residue start outs .x86 k s addr ∧ PlacedAt sec residue start outs .arm k s addr ∧
      s.getAlignment .x86 ∣ addr ∧ s.getAlignment .arm ∣ addr
  apart : ∀ arch, (link (residue arch) start (sectionBody sec arch outs)).placed.Pairwise fun p q => p.addr + p.size ≤ q.addr
  once : ∀ arch, files (link (residue arch) start (sectionBody sec arch outs)) =
    (sl.filter fun s => s.getReference arch).map fun s => (s.getObjectFile arch, s.name, s.getSize arch)
  same_counter : (∀ s ∈ sl, ∀ arch, s.getReference arch = true → s.getAlignment arch ∣ 0x1000) →
    ∀ k, (link (residue .x86) start (symbolsPart .x86 (outs.take k))).dot =
      (link (residue .arm) start (symbolsPart .arm (outs.take k))).dot

variable {sec residue outs}

theorem AlignedFrom.packed {address : Int} {sl : List Symbol} (h : AlignedFrom address sl outs) (arch : Arch) :
    (link (residue arch) start (sectionBody sec arch outs)).Packed := by
  rw [link_body, link_symbolsPart]
  refine run_packed ?_ (run_packed (h.forward arch) (Layout.packed_nil _))
  intro t ht
  obtain ⟨name, -, rfl⟩ := List.mem_map.1 ht
  exact Int.natCast_nonneg _

theorem AlignedFrom.files {address : Int} {sl : List Symbol} (h : AlignedFrom address sl outs) (arch : Arch) :
    files (link (residue arch) start (sectionBody sec arch outs)) =
      (sl.filter fun s => s.getReference arch).map fun s => (s.getObjectFile arch, s.name, s.getSize arch) := by
  have hrest : ∀ names : List String,
      ((names.map fun name => Stmt.input (Input.rest name) (residue arch name)).filterMap Stmt.named).filterMap fileOf = [] := by
    intro names
    induction names with
    | nil => rfl
    | cons name names ih => exact ih
  rw [Pyalign.files, link_body, link_symbolsPart, run_inputs, run_inputs, h.named, List.map_nil, List.nil_append, List.filterMap_append,
    hrest, List.append_nil, List.filterMap_map]
  exact congrFun (List.filterMap_eq_map (f := fun s : Symbol => (s.getObjectFile arch, s.name, s.getSize arch))) _

theorem AlignedFrom.placedAt {address : Int} {sl : List Symbol} (h : AlignedFrom address sl outs) {k : Nat} {s : Symbol}
    (hk : sl[k]? = some s) {arch : Arch} (hr : s.getReference arch = true) :
    PlacedAt sec residue start outs arch k s
      (alignUp s.setLargestAlignment.2 (link (residue arch) start (symbolsPart arch (outs.take k))).dot) := by
  obtain ⟨padBefore, largestSize, out, houts, fresh, aligned⟩ := h.split hk
  have hrun : run (symbolStmts (residue arch) arch out) (link (residue arch) start (symbolsPart arch (outs.take k))) = _ :=
    run_referenced fresh aligned hr _
  have hbody : link (residue arch) start (sectionBody sec arch outs) =
      run ((outs.drop (k + 1)).flatMap (symbolStmts (residue arch) arch) ++
          (symbolsBlacklist sec).map fun name => Stmt.input (.rest name) (residue arch name))
        (run (symbolStmts (residue arch) arch out) (link (residue arch) start (symbolsPart arch (outs.take k)))) := by
    rw [link_body, link_symbolsPart, link_symbolsPart, ← run_append, ← run_append, ← run_append]
    conv_lhs => rw [houts]
    simp only [List.flatMap_append, List.flatMap_cons, List.append_assoc]
  obtain ⟨rest, hrest⟩ := run_placed ((outs.drop (k + 1)).flatMap (symbolStmts (residue arch) arch) ++
    (symbolsBlacklist sec).map fun name => Stmt.input (.rest name) (residue arch name))
    (run (symbolStmts (residue arch) arch out) (link (residue arch) start (symbolsPart arch (outs.take k))))
  refine ⟨rest, ?_⟩
  rw [hbody, ← hrest, hrun, List.append_assoc]
  rfl

theorem AlignedFrom.sectionAligned {sl : List Symbol} (h : AlignedFrom 0 sl outs) (hstart : 0x1000 ∣ start)
    (hshared : ∀ (k : Nat) (s : Symbol), sl[k]? = some s → s.shared = true → ∀ t ∈ sl.take (k + 1), t.shared = true) :
    SectionAligned sec residue start outs sl := by
  refine ⟨?_, fun arch => (h.packed start arch).apart, fun arch => h.files start arch, ?_⟩
  · intro k s hk hx ha
    have hall : ∀ t ∈ sl.take k, t.getReference .x86 = true ∧ t.getReference .arm = true := by
      intro t ht
      have := hshared k s hk (by rw [Symbol.shared, hx, ha]; rfl) t (List.take_subset_take_left _ (Nat.le_succ k) ht)
      exact Bool.and_eq_true_iff.1 this
    have hdot : (link (residue .x86) start (symbolsPart .x86 (outs.take k))).dot =
        (link (residue .arm) start (symbolsPart .arm (outs.take k))).dot := by
      rw [link_symbolsPart, link_symbolsPart]
      exact (h.take k).same_dot (fun t ht => (hall t ht).1) (fun t ht => (hall t ht).2) rfl
    obtain ⟨-, -, -, -, fresh, -⟩ := h.split hk
    obtain ⟨arch, -, hmax, hdvd⟩ := fresh.largest_alignment
    refine ⟨_, h.placedAt start hk hx, hdot ▸ h.placedAt start hk ha, ?_, ?_⟩
    · exact Int.dvd_trans (hmax ▸ hdvd .x86 hx) (alignUp_dvd _ _)
    · exact Int.dvd_trans (hmax ▸ hdvd .arm ha) (alignUp_dvd _ _)
  · intro hdiv k
    have hfirst : alignUp 0x1000 (start + 1) = start + 0x1000 :=
      alignUp_eq (Int.dvd_add hstart (Int.dvd_refl _)) (by omega) (by omega)
    have hbase : ∀ s ∈ sl.take k, s.setLargestAlignment.2 ∣ start + 0x1000 := by
      intro s hs
      obtain ⟨i, hi⟩ := List.mem_iff_getElem?.1 (List.mem_of_mem_take hs)
      obtain ⟨-, -, -, -, fresh, -⟩ := h.split hi
      obtain ⟨arch, href, hmax, -⟩ := fresh.largest_alignment
      have hd := hdiv s (List.mem_of_getElem? hi) arch href
      rw [← hmax] at hd
      exact Int.dvd_add (Int.dvd_trans hd hstart) hd
    obtain ⟨address', hall⟩ := (h.take k).base_dot hbase
    rw [link_symbolsPart, link_symbolsPart, hfirst, hall .x86 (residue .x86) _ (Int.add_zero _).symm,
      hall .arm (residue .arm) _ (Int.add_zero _).symm]

end

theorem symbols_aligned {sl : List Symbol} (hsl : ∀ s ∈ sl, s.Fresh) : ∃ n outs,
    (∀ fuel, n ≤ fuel → align fuel (orderSymbolList sl) = some outs) ∧ (orderSymbolList sl).Perm sl ∧
    ∀ (sec : Section) (residue : Arch → String → Nat) (start : Int), 0x1000 ∣ start →
      SectionAligned sec residue start outs (orderSymbolList sl) := by
  have hperm := order_perm hsl
  obtain ⟨n, outs, hrun, hout⟩ := align_spec fun s hs => hsl s (hperm.subset hs)
  exact ⟨n, outs, hrun, hperm, fun sec residue start hstart => hout.sectionAligned start hstart fun k s => order_shared hsl⟩

/-- Data only ARM has. -/
def bufSymbol : Symbol where
  name := ".data.buf"
  addresses := ⟨-1, 0x500000, -1⟩
  sizes := ⟨-1, 0x18, -1⟩
  alignments := ⟨-1, 0x10, -1⟩
  isReferenced := ⟨false, true, false⟩
  paddingBefore := ⟨0, 0, 0⟩
  paddingAfter := ⟨0, 0, 0⟩
  objectFiles := ⟨"NULL", "b.o", "NULL"⟩

/-- Data of both, with different sizes and alignments. -/
def countSymbol : Symbol where
  name := ".data.count"
  addresses := ⟨0x600000, 0x500040, -1⟩
  sizes := ⟨3, 5, -1⟩
  alignments := ⟨8, 4, -1⟩
  isReferenced := ⟨true, true, false⟩
  paddingBefore := ⟨0, 0, 0⟩
  paddingAfter := ⟨0, 0, 0⟩
  objectFiles := ⟨"a_x86_64.o", "a.o", "NULL"⟩

theorem bufSymbol_fresh : bufSymbol.Fresh := by
  refine ⟨?_, ?_, ?_, ?_, rfl, .inr rfl, rfl, rfl⟩
  · intro arch h; cases arch <;> revert h <;> decide
  · intro arch h; cases arch <;> revert h <;> decide
  · intro arch h
    cases arch with
    | arm => exact ⟨4, rfl⟩
    | x86 | power => cases h
  · intro arch h; cases arch <;> revert h <;> decide

theorem countSymbol_fresh : countSymbol.Fresh := by
  refine ⟨?_, ?_, ?_, ?_, rfl, .inr rfl, rfl, rfl⟩
  · intro arch h; cases arch <;> revert h <;> decide
  · intro arch h; cases arch <;> revert h <;> decide
  · intro arch h
    cases arch with
    | x86 => exact ⟨3, rfl⟩
    | arm => exact ⟨2, rfl⟩
    | power => cases h
  · intro arch h; cases arch <;> revert h <;> decide

theorem symbols_aligned_sample : ∃ n outs,
    (∀ fuel, n ≤ fuel → align fuel (orderSymbolList [bufSymbol, countSymbol]) = some outs) ∧
    SectionAligned .data (fun _ _ => 0) 0x600000 outs (orderSymbolList [bufSymbol, countSymbol]) := by
  obtain ⟨n, outs, hrun, -, hall⟩ := symbols_aligned (List.forall_mem_cons.2 ⟨bufSymbol_fresh, List.forall_mem_singleton.2 countSymbol_fresh⟩)
  exact ⟨n, outs, hrun, hall .data (fun _ _ => 0) 0x600000 (by decide)⟩

example : (align 16 (orderSymbolList [bufSymbol, countSymbol])).map (fun outs => (link (fun _ => 0) 0x600000 (sectionBody .data .arm outs)).placed) =
    some [⟨.file "a.o" ".data.count", 0x601000, 5⟩, ⟨.file "b.o" ".data.buf", 0x601010, 0x18⟩, ⟨.rest ".data", 0x601028, 0⟩] := by
  rfl

end Popcorn.Pyalign
