/-
  Popcorn.Metadata.ElfLayout — adding the metadata sections to an ELF file
  (tool/stack_metadata/src/{write,util}.c).

  `add_sections` updates each of the four sections in place where the file has it, and
  else appends it to the header table and its name to the section-name table. Then it puts
  the last four sections of the header table one after another from the end of the section
  before them, and the header table after these. The tool asks libelf to leave the layout
  to it, overlaps included (`ELF_F_LAYOUT_OVERLAP`).

  `Buffers` is what `create_call_site_metadata` and the sorts leave. libelf writes each
  section and the header table at the offsets of their headers, in an order left open
  (`Written`). A section of type `SHT_NULL` or `SHT_NOBITS` has no bytes in the file.

  Proved:
  - `addSections_headers`: where the sections stand in the end, from the file's headers.
  - `keeps_layout_iff`: the layout stays sound just when the file is free behind the
    sections that grow in place, and where the last four of the header table and the table
    itself go, behind the section before them (`layout_not_kept`).
-/

import Mathlib.Data.List.TakeWhile
import Popcorn.Lib.Ranges
import Popcorn.Lib.Run
import Popcorn.Metadata.CallSite
import Popcorn.Metadata.Elf

namespace Popcorn.Metadata.Layout

open Popcorn.Lib

/-! ## Model -/

inductive Ret where
  | findSectionFailed
  | readElfFailed
  | invalidMetadata
  | createMetadataFailed
  | updateSectionFailed
  | writeElfFailed
  deriving DecidableEq, Repr

/-- `BUF_SIZE` of definitions.h. -/
def bufSize : Nat := 512

/-- `add_section_name`: the offset of the name in the section-name table, 0 for failure. -/
def addSectionName (e : Elf) (name : Name) : Elf × Nat :=
  match elfGetshdrstrndx e with
  | none => (e, 0)
  | some shdrstrndx =>
    match e.scns[shdrstrndx]? with
    | some ⟨shdr, some data⟩ =>
      let old := data.getD []
      let shstrtab := old ++ name.take bufSize ++ [0]
      let scn : Scn := ⟨{ shdr with shSize := UInt64.ofNat shstrtab.length }, some (some shstrtab)⟩
      ({ e with scns := e.scns.set shdrstrndx scn }, old.length)
    | _ => (e, 0)

/-- One of the four sections: its name, its entry size and its new data. -/
structure Item where
  name : Name
  entrySize : Nat
  buf : List UInt8

/-- `add_section`. -/
def addSection (e : Elf) (it : Item) : Except Ret Elf :=
  let (e, nameOff) := addSectionName e it.name
  if nameOff = 0 then .error .writeElfFailed
  else
    let shdr : Shdr :=
      { shName := UInt32.ofNat nameOff
        shType := shtProgbits
        shOffset := 0
        shSize := UInt64.ofNat it.buf.length
        shLink := 0
        shEntsize := UInt64.ofNat it.entrySize }
    .ok { e with scns := e.scns ++ [⟨shdr, some (some it.buf)⟩] }

/-- `update_section`. -/
def updateSection (e : Elf) (i : Nat) (it : Item) : Except Ret Elf :=
  match e.scns[i]? with
  | some ⟨shdr, some _⟩ =>
    .ok { e with scns := e.scns.set i ⟨{ shdr with shSize := UInt64.ofNat it.buf.length }, some (some it.buf)⟩ }
  | _ => .error .updateSectionFailed

def writeSection (e : Elf) (it : Item) : Except Ret Elf :=
  match getSection e it.name with
  | some i => updateSection e i it
  | none => addSection e it

/-- The records of the four sections as they are written. -/
structure Buffers where
  idSites : List UInt8
  addrSites : List UInt8
  liveVals : List UInt8
  archlive : List UInt8
  small : ∀ buf ∈ [idSites, addrSites, liveVals, archlive], buf.length < 18446744073709551616

/-- `snprintf(sec_name, BUF_SIZE, "%s.%s", sec, post)`. -/
def secName (sec post : Name) : Name := (dotted sec post).take (bufSize - 1)

/-- `unwind_addr_name` of `main`. -/
def unwindName : Name := dotted sectionPrefix sectionUnwindAddr

def items (sec : Name) (b : Buffers) : List Item :=
  [⟨secName sec sectionId, sizeofCallSite, b.idSites⟩, ⟨secName sec sectionAddr, sizeofCallSite, b.addrSites⟩,
    ⟨secName sec sectionLive, sizeofLiveValue, b.liveVals⟩, ⟨secName sec sectionArch, sizeofArchLiveValue, b.archlive⟩]

/-- The loop over the last sections, and `cur_offset` after it. -/
def placeLoop (curOffset : UInt64) : List Scn → List Scn × UInt64
  | [] => ([], curOffset)
  | scn :: rest =>
    let (placed, stop) := placeLoop (curOffset + scn.shdr.shSize) rest
    ({ scn with shdr := { scn.shdr with shOffset := curOffset } } :: placed, stop)

/-- New offsets for the last `added` sections and the header table. -/
def layout (added : Nat) (e : Elf) : Except Ret Elf :=
  if e.scns.length < added + 1 then .error .readElfFailed
  else
    match e.scns[e.scns.length - (added + 1)]?, elf64Getehdr e with
    | some scn, some ehdr =>
      let curOffset := scn.shdr.shOffset + scn.shdr.shSize
      let (placed, stop) := placeLoop curOffset (e.scns.drop (e.scns.length - added))
      .ok { ehdr := some { ehdr with eShoff := stop }, scns := e.scns.take (e.scns.length - added) ++ placed }
    | _, _ => .error .readElfFailed

/-! ## Ranges of a file -/

/-- Sections without bytes in the file. -/
def Occupies (s : Shdr) : Prop := s.shType ≠ shtNull ∧ s.shType ≠ shtNobits

instance (s : Shdr) : Decidable (Occupies s) := inferInstanceAs (Decidable (_ ∧ _))

def extent (s : Shdr) : Range := (s.shOffset.toNat, if Occupies s then s.shSize.toNat else 0)

/-- `sizeof(Elf64_Shdr)`. -/
def sizeofShdr : Nat := 64

def eShoff (e : Elf) : UInt64 := (e.ehdr.map (·.eShoff)).getD 0

def tableExtent (e : Elf) : Range := ((eShoff e).toNat, sizeofShdr * e.scns.length)

def extents (e : Elf) : List Range := e.scns.map (extent ·.shdr) ++ [tableExtent e]

/-- No two sections overlap each other or the header table. -/
def LaidOut (e : Elf) : Prop := (extents e).Pairwise Range.Apart

instance (e : Elf) : Decidable (LaidOut e) := inferInstanceAs (Decidable (List.Pairwise _ _))

/-- `elf_update` succeeds: every section's data was read, and no range ends past the largest
    `off_t`. -/
def ElfUpdate (e : Elf) : Prop :=
  (∀ scn ∈ e.scns.tail, scn.shdr.shType ≠ shtNull → scn.data.isSome) ∧ ∀ r ∈ extents e, r.1 + r.2 < 9223372036854775808

instance (e : Elf) : Decidable (ElfUpdate e) := inferInstanceAs (Decidable (_ ∧ _))

/-- The reads of the unwind section, whose records the metadata is made from. -/
def readUnwind (e : Elf) (unwindSec : Name) : Except Ret (List UInt8 × UInt64) :=
  match (getSection e unwindSec).bind (e.scns[·]?) with
  | none => .error .findSectionFailed
  | some scn =>
    if scn.shdr.shSize = 0 ∨ scn.shdr.shEntsize = 0 then .error .invalidMetadata
    else
      match scn.data.join with
      | none => .error .readElfFailed
      | some unwind => .ok (unwind, scn.shdr.shSize / scn.shdr.shEntsize)

/-- `add_sections`; `create` is `create_call_site_metadata` with the sorts. -/
def addSections (create : List UInt8 → UInt64 → Option Buffers) (sec unwindSec : Name) (e : Elf) : Except Ret Elf := do
  let (unwind, numUnwind) ← readUnwind e unwindSec
  match create unwind numUnwind with
  | none => .error .createMetadataFailed
  | some b =>
    let e ← (items sec b).foldlM writeSection e
    let e ← layout (items sec b).length e
    if ElfUpdate e then .ok e else .error .writeElfFailed

/-! ## Where the sections stand with the metadata in place -/

/-- What a header says about the file: whether it has bytes there, and which. -/
structure Slot where
  bits : Bool
  offset : UInt64
  size : UInt64
  deriving DecidableEq, Repr

def slot (s : Shdr) : Slot := ⟨decide (Occupies s), s.shOffset, s.shSize⟩

def Slot.extent (s : Slot) : Range := (s.offset.toNat, if s.bits then s.size.toNat else 0)

/-- The sections that the file does not have yet. -/
def missing (e : Elf) (its : List Item) : List Item := its.filter fun it => (getSection e it.name).isNone

/-- The size of section `i`: the section-name table grows by the missing names, a metadata
    section takes its new data's. -/
def grownSize (e : Elf) (its : List Item) (i : Nat) (s : Shdr) : UInt64 :=
  if elfGetshdrstrndx e = some i then s.shSize + UInt64.ofNat ((missing e its).map (·.name.length + 1)).sum
  else
    match its.find? (getSection e ·.name = some i) with
    | some it => UInt64.ofNat it.buf.length
    | none => s.shSize

/-- The header table before offsets are assigned: the file's sections as they have grown,
    and the missing ones behind them. -/
def headersWith (e : Elf) (its : List Item) : List Slot :=
  (e.scns.mapIdx fun i scn => { slot scn.shdr with size := grownSize e its i scn.shdr }) ++
    (missing e its).map fun it => ⟨true, 0, UInt64.ofNat it.buf.length⟩

/-- The loop's placement on slots. -/
def lay (cur : UInt64) : List Slot → List Slot × UInt64
  | [] => ([], cur)
  | s :: rest => ({ s with offset := cur } :: (lay (cur + s.size) rest).1, (lay (cur + s.size) rest).2)

/-- The sections whose offset stays. -/
def stays (hs : List Slot) : List Slot := hs.take (hs.length - 4)

/-- Where the section before the last four ends. -/
def lastEnd (hs : List Slot) : UInt64 :=
  match hs[hs.length - 5]? with
  | some s => s.offset + s.size
  | none => 0

/-- The ranges of the last four sections and the header table, one after another. -/
def placedExtents (hs : List Slot) : List Range :=
  (lay (lastEnd hs) (hs.drop (hs.length - 4))).1.map Slot.extent ++
    [((lay (lastEnd hs) (hs.drop (hs.length - 4))).2.toNat, sizeofShdr * hs.length)]

/-! ## The section-name table -/

/-- The section-name table is section `i` and holds `tab`. -/
structure NameTable (e : Elf) (i : Nat) (tab : List UInt8) : Prop where
  index : elfGetshdrstrndx e = some i
  ne_zero : i ≠ 0
  scn : ∃ shdr, e.scns[i]? = some ⟨shdr, some (some tab)⟩ ∧ shdr.shType = shtStrtab ∧ shdr.shSize = UInt64.ofNat tab.length

theorem elfStrptr_eq {e : Elf} {i : Nat} {tab : List UInt8} (h : NameTable e i tab) (off : UInt32) :
    elfStrptr e i off = stringAt tab off.toNat := by
  obtain ⟨shdr, hs, ht, -⟩ := h.scn
  simp [elfStrptr, hs, ht, h.ne_zero]

/-- `getSectionLoop` on the sections' name offsets. -/
def findName (tab : List UInt8) (sec : Name) : Nat → List UInt32 → Option Nat
  | _, [] => none
  | i, off :: rest => if stringAt tab off.toNat = some sec then some i else findName tab sec (i + 1) rest

theorem getSectionLoop_eq {e : Elf} {i : Nat} {tab : List UInt8} (h : NameTable e i tab) (sec : Name) (j : Nat) (scns : List Scn) :
    getSectionLoop e i sec j scns = findName tab sec j (scns.map (·.shdr.shName)) := by
  induction scns generalizing j with
  | nil => rfl
  | cons scn rest ih => rw [getSectionLoop, elfStrptr_eq h, ih, List.map_cons, findName]

theorem getSection_eq {e : Elf} {i : Nat} {tab : List UInt8} (h : NameTable e i tab) (sec : Name) :
    getSection e sec = findName tab sec 1 (e.scns.tail.map (·.shdr.shName)) := by
  rw [getSection, h.index]
  exact getSectionLoop_eq h sec 1 e.scns.tail

/-- A name found at an index is the name of the section there. -/
theorem findName_getElem? {tab : List UInt8} {sec : Name} {i j : Nat} {offs : List UInt32} (h : findName tab sec i offs = some j) :
    ∃ off, offs[j - i]? = some off ∧ i ≤ j ∧ stringAt tab off.toNat = some sec := by
  induction offs generalizing i with
  | nil => simp [findName] at h
  | cons off rest ih =>
    rw [findName] at h
    split at h
    · next hs =>
      obtain rfl := Option.some.inj h
      exact ⟨off, by simp, Nat.le_refl _, hs⟩
    · obtain ⟨off', hoff, hle, hs⟩ := ih h
      refine ⟨off', ?_, by omega, hs⟩
      have : j - i = j - (i + 1) + 1 := by omega
      rw [this, List.getElem?_cons_succ, hoff]

/-- Two names are not found at one section. -/
theorem getSection_inj {e : Elf} {i j : Nat} {tab : List UInt8} {sec sec' : Name} (h : NameTable e i tab)
    (hs : getSection e sec = some j) (hs' : getSection e sec' = some j) : sec = sec' := by
  rw [getSection_eq h] at hs hs'
  obtain ⟨off, hoff, -, hn⟩ := findName_getElem? hs
  obtain ⟨off', hoff', -, hn'⟩ := findName_getElem? hs'
  obtain rfl := Option.some.inj (hoff.symm.trans hoff')
  exact Option.some.inj (hn.symm.trans hn')

theorem findName_congr {tab tab' : List UInt8} {sec : Name} (i : Nat) {offs : List UInt32}
    (h : ∀ off ∈ offs, stringAt tab' off.toNat = some sec ↔ stringAt tab off.toNat = some sec) :
    findName tab' sec i offs = findName tab sec i offs := by
  induction offs generalizing i with
  | nil => rfl
  | cons off rest ih =>
    simp only [findName, h off (by simp)]
    rw [ih _ fun off' hoff' => h off' (by simp [hoff'])]

/-- A section with another name behind the last one is not found. -/
theorem findName_snoc {tab : List UInt8} {sec : Name} (i : Nat) {offs : List UInt32} {off : UInt32}
    (h : stringAt tab off.toNat ≠ some sec) : findName tab sec i (offs ++ [off]) = findName tab sec i offs := by
  induction offs generalizing i with
  | nil => simp [findName, h]
  | cons off' rest ih => simp only [List.cons_append, findName, ih]

/-- A section behind the last one is found under a name that none of the others has. -/
theorem findName_new {tab : List UInt8} {sec : Name} {i : Nat} {offs : List UInt32} {off : UInt32} (h : findName tab sec i offs = none)
    (hs : stringAt tab off.toNat = some sec) : findName tab sec i (offs ++ [off]) = some (i + offs.length) := by
  induction offs generalizing i with
  | nil => simp [findName, hs]
  | cons off' rest ih =>
    rw [findName] at h
    split at h
    · cases h
    · next hne =>
      rw [List.cons_append, findName, if_neg hne, ih h, List.length_cons, Nat.add_assoc, Nat.add_comm 1]

/-! ## Strings of a table that grows -/

theorem takeWhile_append_zero {xs : List UInt8} (h : 0 ∉ xs) (ys : List UInt8) :
    (xs ++ 0 :: ys).takeWhile (· ≠ 0) = xs := by
  rw [List.takeWhile_append_of_pos]
  · simp
  · intro x hx
    have : x ≠ 0 := fun h0 => h (h0 ▸ hx)
    simp [this]

/-- The name appended to a table is found where it was put. -/
theorem stringAt_new {tab name : List UInt8} (h : 0 ∉ name) : stringAt (tab ++ name ++ [0]) tab.length = some name := by
  rw [stringAt, List.append_assoc, List.drop_left' rfl, if_pos (by simp), takeWhile_append_zero h]

/-- A string that ends inside the table stays. -/
theorem stringAt_more {tab : List UInt8} {off : Nat} (hz : 0 ∈ tab.drop off) (more : List UInt8) :
    stringAt (tab ++ more) off = stringAt tab off := by
  have hsplit : (tab ++ more).drop off = tab.drop off ++ more.drop (off - tab.length) := List.drop_append
  have hlen : ((tab.drop off).takeWhile (· ≠ 0)).length ≠ (tab.drop off).length := by
    intro hl
    have heq := (List.takeWhile_prefix (p := fun b : UInt8 => decide (b ≠ 0)) (l := tab.drop off)).eq_of_length hl
    rw [← heq] at hz
    have := List.mem_takeWhile_imp hz
    simp at this
  have hz' : 0 ∈ (tab ++ more).drop off := by
    rw [hsplit]
    exact List.mem_append_left _ hz
  rw [stringAt, stringAt, if_pos hz, if_pos hz', hsplit, List.takeWhile_append, if_neg hlen]

/-- A string that ends otherwise than the appended name is in the longer table only if it
    was in the table before. -/
theorem stringAt_append {tab name sec : List UInt8} {off : Nat} (hname : 0 ∉ name) (hsec : sec ≠ [])
    (hlast : sec.getLast? ≠ name.getLast?) (hne : name ≠ []) :
    stringAt (tab ++ name ++ [0]) off = some sec ↔ stringAt tab off = some sec := by
  by_cases hz : 0 ∈ tab.drop off
  · -- the string ends inside the old table
    rw [List.append_assoc, stringAt_more hz]
  · -- and else it would run up to the new end
    have hnone : stringAt tab off = none := if_neg hz
    rw [hnone]
    constructor
    · intro h
      rw [stringAt] at h
      split at h
      · next hmem =>
        have hoff : off ≤ (tab ++ name).length := by
          by_contra hgt
          rw [List.drop_of_length_le (by simp only [List.length_append, List.length_singleton] at hgt ⊢; omega)] at hmem
          cases hmem
        have hu : 0 ∉ (tab ++ name).drop off := by
          rw [List.drop_append, List.mem_append, not_or]
          exact ⟨hz, fun h => hname (List.mem_of_mem_drop h)⟩
        rw [List.drop_append_of_le_length hoff, takeWhile_append_zero hu] at h
        obtain rfl := Option.some.inj h
        rw [List.getLast?_drop] at hlast
        split at hlast
        · next hle => exact absurd (List.drop_of_length_le hle) hsec
        · rw [List.getLast?_append_of_ne_nil _ hne] at hlast
          exact absurd rfl hlast
      · cases h
    · intro h
      cases h

/-! ## One section -/

/-- A name that fits the buffers and ends with a character of its own. -/
structure Item.Ok (it : Item) : Prop where
  ne_nil : it.name ≠ []
  no_zero : 0 ∉ it.name
  length : it.name.length ≤ bufSize

theorem stringAt_ok {tab : List UInt8} {it : Item} {sec : Name} (hit : it.Ok) (hsec : sec ≠ [])
    (hlast : sec.getLast? ≠ it.name.getLast?) (off : Nat) :
    stringAt (tab ++ it.name ++ [0]) off = some sec ↔ stringAt tab off = some sec :=
  stringAt_append hit.no_zero hsec hlast hit.ne_nil

/-- A field that a replacement keeps is unchanged in the whole table. -/
theorem map_set_same {α β : Type} {f : α → β} {l : List α} {i : Nat} {a b : α} (hi : l[i]? = some a) (h : f b = f a) :
    (l.set i b).map f = l.map f := by
  apply List.ext_getElem?
  intro j
  rw [List.map_set, List.getElem?_set]
  split
  · next hj =>
    subst hj
    obtain ⟨hlt, hget⟩ := List.getElem?_eq_some_iff.mp hi
    simp [hlt, h, hget]
  · rfl

theorem shdrstrndx_set {e : Elf} {i : Nat} {scn : Scn} (h : ∀ s, e.scns[i]? = some s → scn.shdr.shLink = s.shdr.shLink) :
    elfGetshdrstrndx { e with scns := e.scns.set i scn } = elfGetshdrstrndx e := by
  have hhead : (e.scns.set i scn).head?.map (fun s => s.shdr.shLink.toNat) = e.scns.head?.map fun s => s.shdr.shLink.toNat := by
    cases hs : e.scns with
    | nil => simp
    | cons s rest =>
      cases i with
      | zero =>
        have := h s (by simp [hs])
        simp [this]
      | succ i => simp
  simp only [elfGetshdrstrndx, hhead]

/-- Updating a metadata section. -/
theorem writeSection_found {e e' : Elf} {it : Item} {k i : Nat} {tab : List UInt8} (hn : NameTable e k tab)
    (hs : getSection e it.name = some i) (hne : i ≠ k) (h : writeSection e it = .ok e') :
    ∃ scn, e.scns[i]? = some scn ∧
      e' = { e with scns := e.scns.set i ⟨{ scn.shdr with shSize := UInt64.ofNat it.buf.length }, some (some it.buf)⟩ } ∧
      NameTable e' k tab ∧ ∀ sec, getSection e' sec = getSection e sec := by
  simp only [writeSection, hs, updateSection] at h
  split at h
  · next shdr d hscn =>
    obtain rfl := Except.ok.inj h
    have hn' : NameTable { e with scns := e.scns.set i ⟨{ shdr with shSize := UInt64.ofNat it.buf.length }, some (some it.buf)⟩ } k tab := by
      refine ⟨?_, hn.ne_zero, ?_⟩
      · rw [shdrstrndx_set, hn.index]
        intro s hs'
        rw [hscn] at hs'
        obtain rfl := Option.some.inj hs'
        rfl
      · obtain ⟨shdr', hk, ht⟩ := hn.scn
        exact ⟨shdr', by simp [List.getElem?_set_ne hne, hk], ht⟩
    refine ⟨_, hscn, rfl, hn', fun sec => ?_⟩
    rw [getSection_eq hn', getSection_eq hn, List.map_tail, List.map_tail, map_set_same hscn]
    rfl
  · cases h

/-- The section-name table after a name was appended. -/
def withName (scn : Scn) (tab : List UInt8) : Scn := ⟨{ scn.shdr with shSize := UInt64.ofNat tab.length }, some (some tab)⟩

/-- The section that is appended under the name at `off`. -/
def newScn (it : Item) (off : Nat) : Scn :=
  ⟨⟨UInt32.ofNat off, shtProgbits, 0, UInt64.ofNat it.buf.length, 0, UInt64.ofNat it.entrySize⟩, some (some it.buf)⟩

theorem addSection_eq {e e' : Elf} {it : Item} {k : Nat} {tab : List UInt8} (hn : NameTable e k tab) (hit : it.Ok)
    (h : addSection e it = .ok e') :
    ∃ scn, e.scns[k]? = some scn ∧
      e' = { e with scns := e.scns.set k (withName scn (tab ++ it.name ++ [0])) ++ [newScn it tab.length] } := by
  obtain ⟨shdr, hk, -⟩ := hn.scn
  have htake : it.name.take bufSize = it.name := List.take_of_length_le hit.length
  simp only [addSection, addSectionName, hn.index, hk, Option.getD_some, htake] at h
  split at h
  · cases h
  · exact ⟨_, hk, (Except.ok.inj h).symm⟩

theorem nameTable_add {e : Elf} {it : Item} {k : Nat} {tab : List UInt8} {scn : Scn} (hn : NameTable e k tab)
    (hk : e.scns[k]? = some scn) :
    NameTable { e with scns := e.scns.set k (withName scn (tab ++ it.name ++ [0])) ++ [newScn it tab.length] } k
      (tab ++ it.name ++ [0]) := by
  have hlt : k < e.scns.length := (List.getElem?_eq_some_iff.mp hk).1
  obtain ⟨shdr, hk', ht, -⟩ := hn.scn
  obtain rfl := Option.some.inj (hk.symm.trans hk')
  refine ⟨?_, hn.ne_zero, ?_⟩
  · have hset : elfGetshdrstrndx { e with scns := e.scns.set k (withName ⟨shdr, some (some tab)⟩ (tab ++ it.name ++ [0])) } = some k := by
      rw [shdrstrndx_set, hn.index]
      intro s hs
      rw [hk] at hs
      obtain rfl := Option.some.inj hs
      rfl
    have hhead : (e.scns.set k (withName ⟨shdr, some (some tab)⟩ (tab ++ it.name ++ [0])) ++ [newScn it tab.length]).head? =
        (e.scns.set k (withName ⟨shdr, some (some tab)⟩ (tab ++ it.name ++ [0]))).head? := by
      rw [List.head?_append_of_ne_nil]
      intro h0
      rw [List.set_eq_nil_iff] at h0
      simp [h0] at hlt
    rw [elfGetshdrstrndx] at hset ⊢
    rw [← hset]
    simp only [hhead]
  · refine ⟨{ shdr with shSize := UInt64.ofNat (tab ++ it.name ++ [0]).length }, ?_, ht, rfl⟩
    rw [List.getElem?_append_left (by rwa [List.length_set]), List.getElem?_set_self hlt]
    rfl

/-- The names of the sections after one is appended. -/
theorem names_add {e : Elf} {it : Item} {k : Nat} {tab : List UInt8} {scn : Scn} (hk : e.scns[k]? = some scn) :
    (e.scns.set k (withName scn (tab ++ it.name ++ [0])) ++ [newScn it tab.length]).tail.map (·.shdr.shName) =
      e.scns.tail.map (·.shdr.shName) ++ [UInt32.ofNat tab.length] := by
  have hne : e.scns.set k (withName scn (tab ++ it.name ++ [0])) ≠ [] := by
    rw [Ne, List.set_eq_nil_iff]
    rintro h0
    simp [h0] at hk
  have hmap : (e.scns.set k (withName scn (tab ++ it.name ++ [0]))).map (·.shdr.shName) = e.scns.map (·.shdr.shName) :=
    map_set_same hk rfl
  rw [List.tail_append_of_ne_nil hne, List.map_append, List.map_tail, List.map_tail, hmap]
  rfl

/-- Appending a section. -/
theorem writeSection_missing {e e' : Elf} {it : Item} {k : Nat} {tab : List UInt8} (hn : NameTable e k tab) (hit : it.Ok)
    (hfit : tab.length < 4294967296) (hs : getSection e it.name = none) (h : writeSection e it = .ok e') :
    ∃ scn, e.scns[k]? = some scn ∧
      e' = { e with scns := e.scns.set k (withName scn (tab ++ it.name ++ [0])) ++ [newScn it tab.length] } ∧
      NameTable e' k (tab ++ it.name ++ [0]) ∧
      ∀ sec, sec ≠ [] → sec.getLast? ≠ it.name.getLast? → getSection e' sec = getSection e sec := by
  simp only [writeSection, hs] at h
  obtain ⟨scn, hk, rfl⟩ := addSection_eq hn hit h
  have hn' : NameTable { e with scns := e.scns.set k (withName scn (tab ++ it.name ++ [0])) ++ [newScn it tab.length] } k
      (tab ++ it.name ++ [0]) := nameTable_add hn hk
  refine ⟨scn, hk, rfl, hn', fun sec hsec hlast => ?_⟩
  rw [getSection_eq hn', getSection_eq hn, names_add hk, findName_snoc, findName_congr]
  · intro off _
    exact stringAt_ok hit hsec hlast _
  · rw [UInt32.toNat_ofNat', Nat.mod_eq_of_lt hfit, stringAt_new hit.no_zero]
    intro heq
    exact hlast (by rw [Option.some.inj heq])

/-! ## All four -/

theorem missing_congr {e e' : Elf} {its : List Item} (h : ∀ it ∈ its, getSection e' it.name = getSection e it.name) :
    missing e' its = missing e its := by
  apply List.filter_congr
  intro it hit
  rw [h it hit]

theorem find_congr {e e' : Elf} {its : List Item} (h : ∀ it ∈ its, getSection e' it.name = getSection e it.name) (i : Nat) :
    its.find? (getSection e' ·.name = some i) = its.find? (getSection e ·.name = some i) := by
  induction its with
  | nil => rfl
  | cons it its ih =>
    rw [List.find?_cons, List.find?_cons, h it (by simp), ih fun it' hit' => h it' (by simp [hit'])]

theorem find_none {e : Elf} {its : List Item} {i : Nat} (h : ∀ it ∈ its, getSection e it.name ≠ some i) :
    its.find? (getSection e ·.name = some i) = none := by
  rw [List.find?_eq_none]
  intro it hit
  simp [h it hit]

/-- Updating one section and then growing by the others is growing by all. -/
theorem headersWith_found {e e' : Elf} {it : Item} {its : List Item} {k i : Nat} {tab : List UInt8} {scn : Scn}
    (hn : NameTable e k tab) (hs : getSection e it.name = some i) (hne : i ≠ k) (hscn : e.scns[i]? = some scn)
    (hdist : ∀ it' ∈ its, it'.name ≠ it.name)
    (he' : e' = { e with scns := e.scns.set i ⟨{ scn.shdr with shSize := UInt64.ofNat it.buf.length }, some (some it.buf)⟩ })
    (hn' : NameTable e' k tab) (hsame : ∀ sec, getSection e' sec = getSection e sec) :
    headersWith e' its = headersWith e (it :: its) := by
  have hmiss : missing e' its = missing e (it :: its) := by
    rw [missing_congr fun it' _ => hsame it'.name, missing, missing, List.filter_cons_of_neg (by simp [hs])]
  have hfree : ∀ it' ∈ its, getSection e it'.name ≠ some i := fun it' hit' h' => hdist it' hit' (getSection_inj hn h' hs)
  rw [headersWith, headersWith, hmiss]
  congr 1
  apply List.ext_getElem?
  intro j
  rw [List.getElem?_mapIdx, List.getElem?_mapIdx]
  by_cases hj : j = i
  · subst hj
    have hlt := (List.getElem?_eq_some_iff.mp hscn).1
    have hk : some k ≠ some j := fun h => hne (Option.some.inj h).symm
    have hX : e'.scns[j]? = some ⟨{ scn.shdr with shSize := UInt64.ofNat it.buf.length }, some (some it.buf)⟩ := by
      rw [he', List.getElem?_set_self hlt]
    rw [hX, hscn, Option.map_some, Option.map_some, grownSize, grownSize, hn'.index, hn.index,
      find_congr fun it' _ => hsame it'.name, find_none hfree, List.find?_cons_of_pos (by simp [hs])]
    rw [if_neg hk, if_neg hk]
    rfl
  · have hget : e'.scns[j]? = e.scns[j]? := by rw [he', List.getElem?_set_ne (Ne.symm hj)]
    have hskip : (it :: its).find? (getSection e ·.name = some j) = its.find? (getSection e ·.name = some j) := by
      rw [List.find?_cons_of_neg]
      simp [hs, Ne.symm hj]
    rw [hget]
    congr 1
    funext s
    rw [grownSize, grownSize, hn'.index, hn.index, hmiss, find_congr fun it' _ => hsame it'.name, hskip]

/-- Appending one section and then growing by the others is growing by all. -/
theorem headersWith_missing {e e' : Elf} {it : Item} {its : List Item} {k : Nat} {tab : List UInt8} {scn : Scn}
    (hn : NameTable e k tab) (hs : getSection e it.name = none) (hk : e.scns[k]? = some scn)
    (he' : e' = { e with scns := e.scns.set k (withName scn (tab ++ it.name ++ [0])) ++ [newScn it tab.length] })
    (hn' : NameTable e' k (tab ++ it.name ++ [0])) (hsame : ∀ it' ∈ its, getSection e' it'.name = getSection e it'.name) :
    headersWith e' its = headersWith e (it :: its) := by
  have hlt : k < e.scns.length := (List.getElem?_eq_some_iff.mp hk).1
  have hcons : missing e (it :: its) = it :: missing e its := by
    rw [missing, missing, List.filter_cons_of_pos (by simp [hs])]
  have hmiss : missing e' its = missing e its := missing_congr hsame
  have hsize : scn.shdr.shSize = UInt64.ofNat tab.length := by
    obtain ⟨shdr, hk', -, hz⟩ := hn.scn
    obtain rfl := Option.some.inj (hk.symm.trans hk')
    exact hz
  have hnew : ∀ it' ∈ its, getSection e' it'.name ≠ some e.scns.length := by
    intro it' hit' h'
    rw [hsame it' hit'] at h'
    exact absurd (getSection_lt h').2 (Nat.lt_irrefl _)
  have hold : ((e.scns.set k (withName scn (tab ++ it.name ++ [0]))).mapIdx fun i s =>
      { slot s.shdr with size := grownSize e' its i s.shdr }) =
      e.scns.mapIdx fun i s => { slot s.shdr with size := grownSize e (it :: its) i s.shdr } := by
    apply List.ext_getElem?
    intro j
    rw [List.getElem?_mapIdx, List.getElem?_mapIdx]
    by_cases hj : j = k
    · subst hj
      rw [List.getElem?_set_self hlt, hk, Option.map_some, Option.map_some, grownSize, grownSize, hn'.index, hn.index,
        if_pos rfl, if_pos rfl, hmiss, hcons, List.map_cons, List.sum_cons]
      have hsum : (withName scn (tab ++ it.name ++ [0])).shdr.shSize + UInt64.ofNat ((missing e its).map (·.name.length + 1)).sum =
          scn.shdr.shSize + UInt64.ofNat (it.name.length + 1 + ((missing e its).map (·.name.length + 1)).sum) := by
        rw [hsize, UInt64.ofNat_add, ← UInt64.add_assoc, ← UInt64.ofNat_add]
        simp [withName]
      rw [hsum]
      rfl
    · rw [List.getElem?_set_ne (Ne.symm hj)]
      congr 1
      funext s
      have hkj : some k ≠ some j := fun h => hj (Option.some.inj h).symm
      have hskip : (it :: its).find? (getSection e ·.name = some j) = its.find? (getSection e ·.name = some j) := by
        rw [List.find?_cons_of_neg]
        simp [hs]
      rw [grownSize, grownSize, hn'.index, hn.index, if_neg hkj, if_neg hkj, find_congr hsame, hskip]
  have hlast : grownSize e' its e.scns.length (newScn it tab.length).shdr = UInt64.ofNat it.buf.length := by
    have hkn : some k ≠ some e.scns.length := fun h => absurd (Option.some.inj h) (Nat.ne_of_lt hlt)
    rw [grownSize, hn'.index, if_neg hkn, find_none hnew]
    rfl
  have hslot : { slot (newScn it tab.length).shdr with size := UInt64.ofNat it.buf.length } =
      (⟨true, 0, UInt64.ofNat it.buf.length⟩ : Slot) := rfl
  have hscns : e'.scns = e.scns.set k (withName scn (tab ++ it.name ++ [0])) ++ [newScn it tab.length] := by rw [he']
  rw [headersWith, headersWith, hmiss, hcons, hscns, List.mapIdx_append, hold, List.map_cons, List.append_assoc]
  congr 1
  simp only [List.mapIdx_cons, List.mapIdx_nil, List.length_set, Nat.zero_add, hlast, hslot, List.singleton_append]

/-- The bytes a section has in the file. -/
def scnBytes (scn : Scn) : List UInt8 := if Occupies scn.shdr then scn.data.join.getD [] else []

/-- Every section has as many bytes as its header says. -/
def Sized (e : Elf) : Prop := ∀ scn ∈ e.scns, (scnBytes scn).length = (extent scn.shdr).2

theorem scnBytes_length {shdr : Shdr} {buf : List UInt8} (hbuf : buf.length < 18446744073709551616)
    (hsize : shdr.shSize = UInt64.ofNat buf.length) : (scnBytes ⟨shdr, some (some buf)⟩).length = (extent shdr).2 := by
  simp only [scnBytes, extent]
  split
  · rw [hsize, UInt64.toNat_ofNat', Nat.mod_eq_of_lt hbuf]
    rfl
  · rfl

/-- What is left of the file `e` once the sections are in place. -/
structure Grown (e d : Elf) (its : List Item) : Prop where
  headers : d.scns.map (slot ·.shdr) = headersWith e its
  kept : ∀ i scn, e.scns[i]? = some scn → elfGetshdrstrndx e ≠ some i → (∀ it ∈ its, getSection e it.name ≠ some i) →
    d.scns[i]? = some scn
  sized : Sized e → Sized d

theorem grown_nil (e : Elf) : Grown e e [] where
  headers := by
    rw [headersWith]
    apply List.ext_getElem?
    intro i
    have hsize : ∀ s : Shdr, grownSize e [] i s = s.shSize := by
      intro s
      rw [grownSize]
      split
      · simp [missing]
      · rfl
    simp only [missing, List.filter_nil, List.map_nil, List.append_nil, List.getElem?_map, List.getElem?_mapIdx, hsize]
    rfl
  kept := fun _ _ h _ _ => h
  sized := id

theorem sized_set {e : Elf} {i : Nat} {scn : Scn} (h : Sized e) (hscn : (scnBytes scn).length = (extent scn.shdr).2) :
    ∀ s ∈ e.scns.set i scn, (scnBytes s).length = (extent s.shdr).2 := by
  intro s hs
  rcases List.mem_or_eq_of_mem_set hs with hs | rfl
  · exact h s hs
  · exact hscn

/-- What the four calls leave, from the file as it was. -/
theorem grown_items {its : List Item} {k : Nat} {d : Elf} :
    ∀ {e : Elf} {tab : List UInt8}, NameTable e k tab → (∀ it ∈ its, it.Ok ∧ it.buf.length < 18446744073709551616) →
      its.Pairwise (fun a b => b.name.getLast? ≠ a.name.getLast?) → (∀ it ∈ its, getSection e it.name ≠ some k) →
      tab.length + (its.map (·.name.length + 1)).sum < 4294967296 → its.foldlM writeSection e = .ok d → Grown e d its := by
  induction its with
  | nil =>
    intro e tab _ _ _ _ _ h
    obtain rfl := Except.ok.inj h
    exact grown_nil e
  | cons it its ih =>
    intro e tab hn hok hp hapart hfit h
    rw [List.foldlM_cons] at h
    obtain ⟨e', he', hrest⟩ := bind_ok.mp h
    obtain ⟨hlast, hp⟩ := List.pairwise_cons.mp hp
    rw [List.map_cons, List.sum_cons] at hfit
    obtain ⟨hit, hbuf⟩ := hok it (by simp)
    cases hs : getSection e it.name with
    | some i =>
      have hne : i ≠ k := fun h => hapart it (by simp) (by rw [hs, h])
      obtain ⟨scn, hscn, rfl, hn', hsame⟩ := writeSection_found hn hs hne he'
      have hdist : ∀ it' ∈ its, it'.name ≠ it.name := fun it' hit' heq => hlast it' hit' (by rw [heq])
      have hg := ih hn' (fun it' h' => hok it' (by simp [h'])) hp (fun it' h' => by rw [hsame]; exact hapart it' (by simp [h']))
        (by omega) hrest
      refine ⟨?_, ?_, fun hsz => hg.sized (sized_set hsz (scnBytes_length hbuf rfl))⟩
      · rw [hg.headers, headersWith_found hn hs hne hscn hdist rfl hn' hsame]
      · intro j s hj hjk hfree
        have hji : i ≠ j := fun h => hfree it (by simp) (by rw [hs, h])
        refine hg.kept j s ?_ (by rw [hn'.index, ← hn.index]; exact hjk) fun it' h' => by rw [hsame]; exact hfree it' (by simp [h'])
        rw [List.getElem?_set_ne hji, hj]
    | none =>
      obtain ⟨scn, hk, rfl, hn', hsame'⟩ := writeSection_missing hn hit (by omega) hs he'
      have hsame : ∀ it' ∈ its, getSection _ it'.name = getSection e it'.name := fun it' h' =>
        hsame' it'.name (hok it' (by simp [h'])).1.ne_nil (hlast it' h')
      have hlen : (tab ++ it.name ++ [0]).length = tab.length + (it.name.length + 1) := by simp
      have hg := ih hn' (fun it' h' => hok it' (by simp [h'])) hp
        (fun it' h' => by rw [hsame it' h']; exact hapart it' (by simp [h'])) (by omega) hrest
      refine ⟨?_, ?_, fun hsz => hg.sized ?_⟩
      · rw [hg.headers, headersWith_missing hn hs hk rfl hn' hsame]
      · intro j s hj hjk hfree
        have hlt := (List.getElem?_eq_some_iff.mp hj).1
        have hkj : k ≠ j := fun h => hjk (by rw [hn.index, h])
        refine hg.kept j s ?_ (by rw [hn'.index, ← hn.index]; exact hjk) fun it' h' => by
          rw [hsame it' h']; exact hfree it' (by simp [h'])
        rw [List.getElem?_append_left (by rwa [List.length_set]), List.getElem?_set_ne hkj, hj]
      · intro s hs'
        rcases List.mem_append.mp hs' with hs' | hs'
        · exact sized_set hsz (scnBytes_length (by omega) rfl) s hs'
        · rw [List.mem_singleton.mp hs']
          exact scnBytes_length hbuf rfl

/-! ## The layout -/

theorem extent_slot (s : Shdr) : (slot s).extent = extent s := by simp [slot, Slot.extent, extent]

theorem placeLoop_slots (cur : UInt64) (scns : List Scn) :
    (placeLoop cur scns).1.map (slot ·.shdr) = (lay cur (scns.map (slot ·.shdr))).1 ∧
      (placeLoop cur scns).2 = (lay cur (scns.map (slot ·.shdr))).2 := by
  induction scns generalizing cur with
  | nil => exact ⟨rfl, rfl⟩
  | cons scn rest ih =>
    obtain ⟨h1, h2⟩ := ih (cur + scn.shdr.shSize)
    simp only [placeLoop, List.map_cons, lay]
    exact ⟨congrArg₂ _ rfl h1, h2⟩

/-- A section that is placed keeps all but its offset. -/
theorem placeLoop_getElem? {cur : UInt64} {scns : List Scn} {i : Nat} {scn : Scn} (h : scns[i]? = some scn) :
    ∃ off, (placeLoop cur scns).1[i]? = some { scn with shdr := { scn.shdr with shOffset := off } } := by
  induction scns generalizing cur i with
  | nil => simp at h
  | cons s rest ih =>
    cases i with
    | zero =>
      obtain rfl := Option.some.inj h
      exact ⟨cur, rfl⟩
    | succ i => exact ih (i := i) h

theorem placeLoop_length (cur : UInt64) (scns : List Scn) : (placeLoop cur scns).1.length = scns.length := by
  induction scns generalizing cur with
  | nil => rfl
  | cons s rest ih => simp [placeLoop, ih]

theorem placeLoop_sized {cur : UInt64} {scns : List Scn} (h : ∀ scn ∈ scns, (scnBytes scn).length = (extent scn.shdr).2) :
    ∀ scn ∈ (placeLoop cur scns).1, (scnBytes scn).length = (extent scn.shdr).2 := by
  intro scn hscn
  obtain ⟨i, hi⟩ := List.mem_iff_getElem?.mp hscn
  have hlt : i < scns.length := by
    rw [← placeLoop_length cur scns]
    exact (List.getElem?_eq_some_iff.mp hi).1
  obtain ⟨off, hoff⟩ : ∃ off, (placeLoop cur scns).1[i]? = some { scns[i] with shdr := { scns[i].shdr with shOffset := off } } :=
    placeLoop_getElem? (List.getElem?_eq_getElem hlt)
  obtain rfl := Option.some.inj (hi.symm.trans hoff)
  have hsize := h scns[i] (List.getElem_mem hlt)
  exact hsize

/-- What `layout` leaves of the table `d`. -/
theorem layout_ok {d out : Elf} (h : layout 4 d = .ok out) :
    ∃ cur, cur = lastEnd (d.scns.map (slot ·.shdr)) ∧
      out.scns = d.scns.take (d.scns.length - 4) ++ (placeLoop cur (d.scns.drop (d.scns.length - 4))).1 ∧
      eShoff out = (placeLoop cur (d.scns.drop (d.scns.length - 4))).2 := by
  unfold layout at h
  split at h
  · cases h
  · split at h
    · next scn ehdr hscn _ =>
      obtain rfl := Except.ok.inj h
      refine ⟨_, ?_, rfl, rfl⟩
      simp only [lastEnd, List.length_map, List.getElem?_map, hscn, Option.map_some]
      rfl
    · cases h

theorem layout_length {d out : Elf} (h : layout 4 d = .ok out) : out.scns.length = d.scns.length := by
  obtain ⟨cur, -, hs, -⟩ := layout_ok h
  rw [hs, List.length_append, placeLoop_length, List.length_take, List.length_drop]
  omega

/-- The ranges of the file that is written. -/
theorem layout_extents {d out : Elf} (h : layout 4 d = .ok out) :
    extents out = (stays (d.scns.map (slot ·.shdr))).map Slot.extent ++ placedExtents (d.scns.map (slot ·.shdr)) := by
  obtain ⟨cur, rfl, hs, hoff⟩ := layout_ok h
  obtain ⟨h1, h2⟩ := placeLoop_slots (lastEnd (d.scns.map (slot ·.shdr))) (d.scns.drop (d.scns.length - 4))
  have hmap : ∀ l : List Scn, l.map (extent ·.shdr) = (l.map (slot ·.shdr)).map Slot.extent := by
    intro l
    simp only [List.map_map, Function.comp_def, extent_slot]
  rw [extents, tableExtent, layout_length h, hoff, hs, List.map_append, hmap, hmap, h1, h2, stays, placedExtents,
    List.length_map, List.map_take, List.map_drop, List.append_assoc]

theorem layout_sized {d out : Elf} (h : layout 4 d = .ok out) (hd : Sized d) : Sized out := by
  obtain ⟨cur, -, hs, -⟩ := layout_ok h
  intro scn hscn
  rw [hs] at hscn
  rcases List.mem_append.mp hscn with hscn | hscn
  · exact hd scn (List.mem_of_mem_take hscn)
  · exact placeLoop_sized (fun s hs' => hd s (List.mem_of_mem_drop hs')) scn hscn

/-- A section keeps all but its offset. -/
theorem layout_getElem? {d out : Elf} (h : layout 4 d = .ok out) {i : Nat} {scn : Scn} (hi : d.scns[i]? = some scn) :
    ∃ off, out.scns[i]? = some { scn with shdr := { scn.shdr with shOffset := off } } := by
  obtain ⟨cur, -, hs, -⟩ := layout_ok h
  have hlt := (List.getElem?_eq_some_iff.mp hi).1
  rw [hs, List.getElem?_append, List.length_take, Nat.min_eq_left (Nat.sub_le _ _)]
  split
  · next hlo => exact ⟨scn.shdr.shOffset, by rw [List.getElem?_take_of_lt hlo, hi]⟩
  · next hge =>
    apply placeLoop_getElem?
    rw [List.getElem?_drop, Nat.add_sub_cancel' (Nat.le_of_not_lt hge), hi]

/-! ## What libelf writes -/

/-- The writes of libelf: each section's bytes at its offset, the header table at `e_shoff`. -/
def writes (e : Elf) (table : List UInt8) : List Write :=
  e.scns.map (fun scn => (scn.shdr.shOffset.toNat, scnBytes scn)) ++ [((eShoff e).toNat, table)]

/-- `m` is what the writes leave, in some order, of a file that held anything else. -/
def Written (e : Elf) (m : Mem) : Prop :=
  ∃ blank table ws, table.length = sizeofShdr * e.scns.length ∧ List.Perm ws (writes e table) ∧ m = storeAll blank ws

theorem writes_ranges {e : Elf} {table : List UInt8} (hs : Sized e) (ht : table.length = sizeofShdr * e.scns.length) :
    (writes e table).map Write.range = extents e := by
  rw [writes, extents, List.map_append, List.map_map]
  congr 1
  · apply List.map_congr_left
    intro scn hscn
    simp only [Function.comp_apply, Write.range, hs scn hscn, extent]
  · simp only [List.map_singleton, Write.range, ht]
    rfl

/-- In a file that is laid out every section has its bytes. -/
theorem written_section {e : Elf} {m : Mem} {scn : Scn} (hl : LaidOut e) (hs : Sized e) (hw : Written e m) (hscn : scn ∈ e.scns) :
    load m scn.shdr.shOffset.toNat (extent scn.shdr).2 = scnBytes scn := by
  obtain ⟨blank, table, ws, ht, hperm, rfl⟩ := hw
  have hpair : (writes e table).Pairwise fun a b => a.range.Apart b.range := by
    rw [← List.pairwise_map, writes_ranges hs ht]
    exact hl
  have hpair' : ws.Pairwise fun a b => a.range.Apart b.range := (hperm.pairwise_iff Range.Apart.symm).mpr hpair
  have hmem : (scn.shdr.shOffset.toNat, scnBytes scn) ∈ ws :=
    hperm.mem_iff.mpr (List.mem_append_left _ (List.mem_map_of_mem hscn))
  rw [← hs scn hscn]
  exact load_storeAll hpair' hmem

/-! ## The file that is read -/

def openElf (image : List UInt8) (ehdr : Ehdr) (shdrs : List Shdr) : Elf := ⟨some ehdr, cookScns (fun _ b => some b) image shdrs⟩

/-- The names of the stack-transform sections. -/
def metaNames : List Name := [sectionId, sectionAddr, sectionLive, sectionArch].map (secName sectionPrefix)

/-- An ELF file whose sections and header table lie in it and do not overlap. The offsets
    of the section-name table reach past the names that may be appended to it, and it is
    none of the stack-transform sections itself. -/
structure ElfFile where
  image : List UInt8
  ehdr : Ehdr
  shdrs : List Shdr
  small : image.length < 9223372036854775808
  inFile : ∀ s ∈ shdrs, Occupies s → s.shOffset.toNat + s.shSize.toNat ≤ image.length
  disjoint : LaidOut (openElf image ehdr shdrs)
  names : ∀ i s, elfGetshdrstrndx (openElf image ehdr shdrs) = some i → shdrs[i]? = some s → s.shSize.toNat + 128 < 4294967296
  apart : ∀ name ∈ metaNames, ∀ i, elfGetshdrstrndx (openElf image ehdr shdrs) = some i →
    getSection (openElf image ehdr shdrs) name ≠ some i

def ElfFile.elf (f : ElfFile) : Elf := openElf f.image f.ehdr f.shdrs

/-- The bytes of a section of the file. -/
def ElfFile.contents (f : ElfFile) (s : Shdr) : List UInt8 :=
  if Occupies s then (f.image.drop s.shOffset.toNat).take s.shSize.toNat else []

/-- No two sections of `out` overlap each other or the header table, and the sections of the
    file other than the metadata and the section names have the bytes they had. -/
structure KeepsLayout (f : ElfFile) (out : Elf) : Prop where
  laidOut : LaidOut out
  contents : ∀ m, Written out m → ∀ i s, f.shdrs[i]? = some s → elfGetshdrstrndx f.elf ≠ some i →
    (∀ name ∈ metaNames, getSection f.elf name ≠ some i) →
    ∃ scn, out.scns[i]? = some scn ∧ load m scn.shdr.shOffset.toNat (extent scn.shdr).2 = f.contents s

theorem elf_getElem? {f : ElfFile} {i : Nat} {s : Shdr} (h : f.shdrs[i]? = some s) :
    f.elf.scns[i]? = some ⟨s, elfGetdata (fun _ b => some b) f.image s⟩ := by
  simp [ElfFile.elf, openElf, cookScns, h]

theorem shdr_of_elf {f : ElfFile} {i : Nat} {scn : Scn} (h : f.elf.scns[i]? = some scn) : f.shdrs[i]? = some scn.shdr := by
  simp only [ElfFile.elf, openElf, cookScns, List.getElem?_map, Option.map_eq_some_iff] at h
  obtain ⟨s, hs, rfl⟩ := h
  exact hs

theorem mem_elf {f : ElfFile} {scn : Scn} (h : scn ∈ f.elf.scns) :
    ∃ s ∈ f.shdrs, scn = ⟨s, elfGetdata (fun _ b => some b) f.image s⟩ := by
  obtain ⟨s, hs, rfl⟩ := List.mem_map.mp h
  exact ⟨s, hs, rfl⟩

/-- What `elf_getdata` reads of a section that lies in the file. -/
theorem elfGetdata_occupies (f : ElfFile) {s : Shdr} (hs : s ∈ f.shdrs) (ho : Occupies s) :
    elfGetdata (fun _ b => some b) f.image s = if s.shSize = 0 then some none else some (some (f.contents s)) := by
  have hin := f.inFile s hs ho
  have hsmall := f.small
  have hlen : (UInt64.ofNat f.image.length).toNat = f.image.length := by
    rw [UInt64.toNat_ofNat', Nat.mod_eq_of_lt (by omega)]
  have hoff : ¬ UInt64.ofNat f.image.length < s.shOffset := by
    rw [UInt64.lt_iff_toNat_lt, hlen]
    omega
  have hend : ¬ UInt64.ofNat f.image.length < s.shOffset + s.shSize := by
    rw [UInt64.lt_iff_toNat_lt, hlen, UInt64.toNat_add, Nat.mod_eq_of_lt (by omega)]
    omega
  have hcond : (s.shType = shtNobits ∨ s.shSize = 0) ↔ s.shSize = 0 := or_iff_right ho.2
  simp only [elfGetdata, if_neg ho.1, if_neg hoff, if_neg hend, hcond, ElfFile.contents, if_pos ho, Option.map_some]

theorem scnBytes_elf (f : ElfFile) {s : Shdr} (hs : s ∈ f.shdrs) :
    scnBytes ⟨s, elfGetdata (fun _ b => some b) f.image s⟩ = f.contents s := by
  rw [scnBytes]
  split
  · next ho =>
    rw [elfGetdata_occupies f hs ho]
    split
    · next hz => simp [ElfFile.contents, hz]
    · rfl
  · next ho => rw [ElfFile.contents, if_neg ho]

theorem contents_length (f : ElfFile) {s : Shdr} (hs : s ∈ f.shdrs) : (f.contents s).length = (extent s).2 := by
  rw [ElfFile.contents, extent]
  split
  · next ho =>
    have := f.inFile s hs ho
    rw [List.length_take, List.length_drop]
    dsimp only
    omega
  · rfl

theorem sized_elf (f : ElfFile) : Sized f.elf := by
  intro scn hscn
  obtain ⟨s, hs, rfl⟩ := mem_elf hscn
  rw [scnBytes_elf f hs, contents_length f hs]

/-! ## The whole of `add_sections` -/

theorem strptr_of_loop {e : Elf} {k : Nat} {sec : Name} {j i : Nat} {scns : List Scn} (h : getSectionLoop e k sec j scns = some i) :
    ∃ off, elfStrptr e k off = some sec := by
  induction scns generalizing j with
  | nil => simp [getSectionLoop] at h
  | cons scn rest ih =>
    rw [getSectionLoop] at h
    split at h
    · next hs => exact ⟨_, hs⟩
    · exact ih h

/-- A file in which a section is found by its name has a section-name table. -/
theorem nameTable_of_found {f : ElfFile} {sec : Name} {j : Nat} (h : getSection f.elf sec = some j) :
    ∃ k tab, NameTable f.elf k tab ∧ tab.length + 128 < 4294967296 := by
  unfold getSection at h
  split at h
  · cases h
  · next k hk =>
    obtain ⟨off, hoff⟩ := strptr_of_loop h
    unfold elfStrptr at hoff
    split at hoff
    · cases hoff
    · next scn hscn =>
      obtain ⟨s, hs, rfl⟩ := mem_elf (List.mem_of_getElem? hscn)
      have hks : f.shdrs[k]? = some s := shdr_of_elf hscn
      dsimp only at hoff
      split at hoff
      · cases hoff
      · next hcond =>
        rw [not_or, not_not] at hcond
        have ho : Occupies s := by
          rw [Occupies, hcond.2]
          decide
        have hdata := elfGetdata_occupies f hs ho
        split at hoff
        · next tab htab =>
          rw [hdata] at htab
          split at htab
          · cases Option.some.inj htab
          · obtain rfl := Option.some.inj (Option.some.inj htab)
            have hlen : (f.contents s).length = s.shSize.toNat := by
              rw [contents_length f hs, extent, if_pos ho]
            refine ⟨k, f.contents s, ⟨hk, hcond.1, s, ?_, hcond.2, ?_⟩, ?_⟩
            · rw [hscn, hdata, if_neg (by assumption)]
            · rw [hlen, UInt64.ofNat_toNat]
            · rw [hlen]
              exact f.names k s hk hks
        · cases hoff

theorem items_names (b : Buffers) : (items sectionPrefix b).map (·.name) = metaNames := rfl

theorem item_name {b : Buffers} {it : Item} (hit : it ∈ items sectionPrefix b) : it.name ∈ metaNames := by
  rw [← items_names b]
  exact List.mem_map_of_mem hit

theorem items_ok (b : Buffers) : ∀ it ∈ items sectionPrefix b, it.Ok ∧ it.buf.length < 18446744073709551616 := by
  have hnames : ∀ name ∈ metaNames, name ≠ [] ∧ 0 ∉ name ∧ name.length ≤ bufSize := by decide
  intro it hit
  obtain ⟨h1, h2, h3⟩ := hnames it.name (item_name hit)
  refine ⟨⟨h1, h2, h3⟩, b.small _ ?_⟩
  simp only [items, List.mem_cons, List.not_mem_nil, or_false] at hit ⊢
  rcases hit with rfl | rfl | rfl | rfl <;> simp

theorem items_distinct (b : Buffers) : (items sectionPrefix b).Pairwise fun a c => c.name.getLast? ≠ a.name.getLast? := by
  have hnames : metaNames.Pairwise fun a c => c.getLast? ≠ a.getLast? := by decide
  rw [← items_names b] at hnames
  exact List.pairwise_map.mp hnames

theorem items_sum (b : Buffers) : ((items sectionPrefix b).map (·.name.length + 1)).sum ≤ 128 := by
  have hsum : (metaNames.map (·.length + 1)).sum ≤ 128 := by decide
  rw [← items_names b, List.map_map] at hsum
  exact hsum

/-- The steps of a run that succeeds. -/
theorem addSections_steps {create : List UInt8 → UInt64 → Option Buffers} {sec unwindSec : Name} {e out : Elf} :
    addSections create sec unwindSec e = .ok out ↔ ∃ unwind n b d, readUnwind e unwindSec = .ok (unwind, n) ∧ create unwind n = some b ∧
      (items sec b).foldlM writeSection e = .ok d ∧ layout 4 d = .ok out ∧ ElfUpdate out := by
  constructor
  · intro h
    obtain ⟨⟨unwind, n⟩, hread, h⟩ := bind_ok.mp h
    dsimp only at h
    split at h
    · cases h
    · next b hb =>
      obtain ⟨d, hd, h⟩ := bind_ok.mp h
      obtain ⟨out', hout, h⟩ := bind_ok.mp h
      split at h
      · next hu =>
        obtain rfl := Except.ok.inj h
        exact ⟨unwind, n, b, d, hread, hb, hd, hout, hu⟩
      · cases h
  · intro ⟨unwind, n, b, d, hread, hb, hd, hout, hu⟩
    refine bind_ok.mpr ⟨(unwind, n), hread, ?_⟩
    dsimp only
    rw [hb]
    exact bind_ok.mpr ⟨d, hd, bind_ok.mpr ⟨out, hout, if_pos hu⟩⟩

theorem found_of_read {e : Elf} {unwindSec : Name} {p : List UInt8 × UInt64} (h : readUnwind e unwindSec = .ok p) :
    ∃ j, getSection e unwindSec = some j := by
  unfold readUnwind at h
  split at h
  · cases h
  · next scn hscn =>
    obtain ⟨j, hj, -⟩ := Option.bind_eq_some_iff.mp hscn
    exact ⟨j, hj⟩

theorem items_apart (f : ElfFile) (b : Buffers) {k : Nat} {tab : List UInt8} (hn : NameTable f.elf k tab) :
    ∀ it ∈ items sectionPrefix b, getSection f.elf it.name ≠ some k := by
  exact fun it hit => f.apart it.name (item_name hit) k hn.index

theorem addSections_ok {create : List UInt8 → UInt64 → Option Buffers} {unwindSec : Name} {f : ElfFile} {out : Elf}
    (h : addSections create sectionPrefix unwindSec f.elf = .ok out) :
    ∃ unwind n b d, readUnwind f.elf unwindSec = .ok (unwind, n) ∧ create unwind n = some b ∧
      Grown f.elf d (items sectionPrefix b) ∧ layout 4 d = .ok out := by
  obtain ⟨unwind, n, b, d, hread, hb, hd, hout, -⟩ := addSections_steps.mp h
  obtain ⟨j, hj⟩ := found_of_read hread
  obtain ⟨k, tab, hn, hfit⟩ := nameTable_of_found hj
  have hsum := items_sum b
  have hg := grown_items hn (items_ok b) (items_distinct b) (items_apart f b hn) (by omega) hd
  exact ⟨unwind, n, b, d, hread, hb, hg, hout⟩

/-- Where the sections and the header table of the written file stand, from the headers of
    the file and the new data. -/
theorem addSections_headers {create : List UInt8 → UInt64 → Option Buffers} {unwindSec : Name} {f : ElfFile} {out : Elf}
    (h : addSections create sectionPrefix unwindSec f.elf = .ok out) :
    ∃ unwind n b, readUnwind f.elf unwindSec = .ok (unwind, n) ∧ create unwind n = some b ∧
      extents out = (stays (headersWith f.elf (items sectionPrefix b))).map Slot.extent ++
        placedExtents (headersWith f.elf (items sectionPrefix b)) := by
  obtain ⟨unwind, n, b, d, hread, hb, hg, hout⟩ := addSections_ok h
  exact ⟨unwind, n, b, hread, hb, by rw [layout_extents hout, hg.headers]⟩

/-- A section that is neither metadata nor the section names keeps its bytes. -/
theorem addSections_kept {create : List UInt8 → UInt64 → Option Buffers} {unwindSec : Name} {f : ElfFile} {out : Elf}
    (h : addSections create sectionPrefix unwindSec f.elf = .ok out) {i : Nat} {s : Shdr} (hi : f.shdrs[i]? = some s)
    (hstr : elfGetshdrstrndx f.elf ≠ some i) (hmeta : ∀ name ∈ metaNames, getSection f.elf name ≠ some i) :
    ∃ scn, out.scns[i]? = some scn ∧ scnBytes scn = f.contents s := by
  obtain ⟨unwind, n, b, d, hread, hb, hg, hout⟩ := addSections_ok h
  have hfree : ∀ it ∈ items sectionPrefix b, getSection f.elf it.name ≠ some i := fun it hit => hmeta it.name (item_name hit)
  obtain ⟨off, hoff⟩ := layout_getElem? hout (hg.kept i _ (elf_getElem? hi) hstr hfree)
  have hbytes := scnBytes_elf f (List.mem_of_getElem? hi)
  exact ⟨_, hoff, hbytes⟩

theorem addSections_sized {create : List UInt8 → UInt64 → Option Buffers} {unwindSec : Name} {f : ElfFile} {out : Elf}
    (h : addSections create sectionPrefix unwindSec f.elf = .ok out) : Sized out := by
  obtain ⟨unwind, n, b, d, hread, hb, hg, hout⟩ := addSections_ok h
  exact layout_sized hout (hg.sized (sized_elf f))

/-! ## Room in the file -/

/-- A section that keeps its offset, and its size with the metadata in place. -/
structure Kept where
  shdr : Shdr
  size : UInt64

def Kept.extent (k : Kept) : Range := (k.shdr.shOffset.toNat, if Occupies k.shdr then k.size.toNat else 0)

/-- What it gains at its end. -/
def Kept.gain (k : Kept) : Range :=
  (k.shdr.shOffset.toNat + k.shdr.shSize.toNat, if Occupies k.shdr then k.size.toNat - k.shdr.shSize.toNat else 0)

/-- The sections of the file but the last four of the header table, the missing ones counted. -/
def keptSections (f : ElfFile) (its : List Item) : List Kept :=
  (f.shdrs.mapIdx fun i s => ⟨s, grownSize f.elf its i s⟩).take (f.shdrs.length + (missing f.elf its).length - 4)

/-- The last four. -/
def lastFour (f : ElfFile) (its : List Item) : List Slot :=
  (headersWith f.elf its).drop (f.shdrs.length + (missing f.elf its).length - 4)

/-- Pieces of the sizes of `ss` and one of `n` bytes, one after another from `start` on. -/
def consecutive (start : Nat) (ss : List Slot) (n : Nat) : List Range :=
  (ss.mapIdx fun k s => ((start + ((ss.take k).map (·.size.toNat)).sum) % 18446744073709551616, if s.bits then s.size.toNat else 0)) ++
    [((start + (ss.map (·.size.toNat)).sum) % 18446744073709551616, n)]

/-- The places of the last four sections and the header table. -/
def moved (f : ElfFile) (its : List Item) : List Range :=
  consecutive (lastEnd (headersWith f.elf its)).toNat (lastFour f its) (sizeofShdr * (f.shdrs.length + (missing f.elf its).length))

structure HasRoom (f : ElfFile) (its : List Item) : Prop where
  /-- What a section gains in place runs into none of the others that keep their offset. -/
  grows : (keptSections f its).Pairwise fun a b => a.gain.Apart b.extent ∧ b.gain.Apart a.extent
  /-- None of them stands where the last four and the header table go. -/
  behind : ∀ a ∈ keptSections f its, ∀ r ∈ moved f its, a.extent.Apart r
  /-- Offsets that wrap round 64 bits do not bring these back over each other. -/
  inOrder : (moved f its).Pairwise Range.Apart

instance (f : ElfFile) (its : List Item) : Decidable (HasRoom f its) :=
  decidable_of_iff ((keptSections f its).Pairwise (fun a b => a.gain.Apart b.extent ∧ b.gain.Apart a.extent) ∧
    (∀ a ∈ keptSections f its, ∀ r ∈ moved f its, a.extent.Apart r) ∧ (moved f its).Pairwise Range.Apart)
    ⟨fun h => ⟨h.1, h.2.1, h.2.2⟩, fun h => ⟨h.grows, h.behind, h.inOrder⟩⟩

theorem headersWith_length (f : ElfFile) (its : List Item) :
    (headersWith f.elf its).length = f.shdrs.length + (missing f.elf its).length := by
  simp [headersWith, ElfFile.elf, openElf, cookScns]

/-- The loop's offsets in one formula. -/
theorem lay_consecutive (cur : UInt64) (ss : List Slot) (n : Nat) :
    (lay cur ss).1.map Slot.extent ++ [((lay cur ss).2.toNat, n)] = consecutive cur.toNat ss n := by
  have hlay : ∀ (ss : List Slot) (cur : UInt64), ((lay cur ss).1.map Slot.extent =
      ss.mapIdx fun k s => ((cur.toNat + ((ss.take k).map (·.size.toNat)).sum) % 18446744073709551616, if s.bits then s.size.toNat else 0)) ∧
      (lay cur ss).2.toNat = (cur.toNat + (ss.map (·.size.toNat)).sum) % 18446744073709551616 := by
    intro ss
    induction ss with
    | nil =>
      intro cur
      exact ⟨rfl, (Nat.mod_eq_of_lt cur.toNat_lt).symm⟩
    | cons s rest ih =>
      intro cur
      obtain ⟨h1, h2⟩ := ih (cur + s.size)
      have hstep (m : Nat) : ((cur + s.size).toNat + m) % 18446744073709551616 = (cur.toNat + (s.size.toNat + m)) % 18446744073709551616 := by
        rw [UInt64.toNat_add, Nat.mod_add_mod, Nat.add_assoc]
      simp only [lay, List.map_cons, List.mapIdx_cons, List.take_zero, List.map_nil, List.sum_nil, Nat.add_zero, List.take_succ_cons,
        List.sum_cons, h1, h2, hstep]
      exact ⟨congrArg₂ _ (Prod.ext (Nat.mod_eq_of_lt cur.toNat_lt).symm rfl) rfl, trivial⟩
  obtain ⟨h1, h2⟩ := hlay ss cur
  rw [consecutive, h1, h2]

theorem placedExtents_moved (f : ElfFile) (its : List Item) : placedExtents (headersWith f.elf its) = moved f its := by
  rw [placedExtents, lay_consecutive, headersWith_length]
  rfl

theorem keptSections_extents (f : ElfFile) {its : List Item} (hfour : its.length ≤ 4) :
    (keptSections f its).map Kept.extent = (stays (headersWith f.elf its)).map Slot.extent := by
  have hmiss : (missing f.elf its).length ≤ 4 := (List.length_filter_le _ _).trans hfour
  have hlen : (f.elf.scns.mapIdx fun i scn => { slot scn.shdr with size := grownSize f.elf its i scn.shdr }).length = f.shdrs.length := by
    simp [ElfFile.elf, openElf, cookScns]
  rw [stays, headersWith_length, headersWith, List.take_append_of_le_length (by omega), keptSections, List.map_take, List.map_take]
  congr 1
  apply List.ext_getElem?
  intro i
  simp only [List.getElem?_map, List.getElem?_mapIdx, ElfFile.elf, openElf, cookScns, Option.map_map]
  cases f.shdrs[i]? with
  | none => rfl
  | some s => simp [Kept.extent, Slot.extent, slot]

/-- Sections that are apart stay so just when none grows into another. -/
theorem grows_iff (f : ElfFile) (its : List Item) : ((keptSections f its).map Kept.extent).Pairwise Range.Apart ↔
    (keptSections f its).Pairwise fun a b => a.gain.Apart b.extent ∧ b.gain.Apart a.extent := by
  have hold : (keptSections f its).Pairwise fun a b => (extent a.shdr).Apart (extent b.shdr) := by
    have hfile := (List.pairwise_append.mp f.disjoint).1
    have hshdrs : (openElf f.image f.ehdr f.shdrs).scns.map (extent ·.shdr) =
        (f.shdrs.mapIdx fun i s => (⟨s, grownSize f.elf its i s⟩ : Kept)).map (extent ·.shdr) := by
      apply List.ext_getElem?
      intro i
      simp only [List.getElem?_map, List.getElem?_mapIdx, openElf, cookScns, Option.map_map]
      rfl
    rw [hshdrs, List.pairwise_map] at hfile
    exact hfile.sublist (List.take_sublist _ _)
  have hpair (a b : Kept) (h : (extent a.shdr).Apart (extent b.shdr)) :
      a.extent.Apart b.extent ↔ a.gain.Apart b.extent ∧ b.gain.Apart a.extent := by
    have hresize := @Range.Apart.resize_iff _ _ _ a.extent.2 _ b.extent.2 h
    unfold Kept.extent Kept.gain extent at *
    split_ifs at * <;> simp_all [Range.Apart]
  rw [List.pairwise_map]
  constructor
  · exact fun h => (hold.and h).imp fun h => (hpair _ _ h.1).mp h.2
  · exact fun h => (hold.and h).imp fun h => (hpair _ _ h.1).mpr h.2

theorem laidOut_iff {f : ElfFile} {its : List Item} {out : Elf} (hfour : its.length ≤ 4)
    (hext : extents out = (stays (headersWith f.elf its)).map Slot.extent ++ placedExtents (headersWith f.elf its)) :
    LaidOut out ↔ HasRoom f its := by
  rw [LaidOut, hext, ← keptSections_extents f hfour, placedExtents_moved, List.pairwise_append, grows_iff]
  constructor
  · rintro ⟨h1, h2, h3⟩
    exact ⟨h1, fun a ha r hr => h3 _ (List.mem_map_of_mem ha) r hr, h2⟩
  · intro h
    refine ⟨h.grows, h.inOrder, fun x hx r hr => ?_⟩
    obtain ⟨a, ha, rfl⟩ := List.mem_map.mp hx
    exact h.behind a ha r hr

/-! ## Pieces below 2^64 -/

section
variable {start n : Nat} {ss : List Slot}

theorem consecutive_cons (start : Nat) (s : Slot) (ss : List Slot) (n : Nat) : consecutive start (s :: ss) n =
    (start % 18446744073709551616, if s.bits then s.size.toNat else 0) :: consecutive (start + s.size.toNat) ss n := by
  simp [consecutive, List.mapIdx_cons, Nat.add_assoc]

theorem consecutive_ge (h : start + (ss.map (·.size.toNat)).sum < 18446744073709551616) : ∀ r ∈ consecutive start ss n, start ≤ r.1 := by
  induction ss generalizing start with
  | nil =>
    intro r hr
    obtain rfl := List.mem_singleton.mp hr
    exact (Nat.mod_eq_of_lt h).ge
  | cons s rest ih =>
    rw [List.map_cons, List.sum_cons] at h
    intro r hr
    rw [consecutive_cons] at hr
    rcases List.mem_cons.mp hr with rfl | hr
    · exact (Nat.mod_eq_of_lt (show start < 18446744073709551616 by omega)).ge
    · have := ih (by omega) r hr
      omega

theorem consecutive_pairwise (h : start + (ss.map (·.size.toNat)).sum < 18446744073709551616) :
    (consecutive start ss n).Pairwise Range.Apart := by
  induction ss generalizing start with
  | nil => exact List.pairwise_singleton _ _
  | cons s rest ih =>
    rw [List.map_cons, List.sum_cons] at h
    have hrest : start + s.size.toNat + (rest.map (·.size.toNat)).sum < 18446744073709551616 := by omega
    rw [consecutive_cons, Nat.mod_eq_of_lt (by omega)]
    refine List.pairwise_cons.mpr ⟨fun r hr => ?_, ih hrest⟩
    have hge := consecutive_ge hrest r hr
    unfold Range.Apart
    dsimp only
    split_ifs <;> omega

/-- With bytes in every piece, what is apart from all of them is apart from the range they make. -/
theorem consecutive_apart_iff (h : start + (ss.map (·.size.toNat)).sum < 18446744073709551616) (hbits : ∀ s ∈ ss, s.bits = true)
    (hn : 0 < n) (a : Range) : (∀ r ∈ consecutive start ss n, a.Apart r) ↔ a.Apart (start, (ss.map (·.size.toNat)).sum + n) := by
  induction ss generalizing start with
  | nil =>
    have hone : consecutive start [] n = [(start, n)] := by
      simp only [List.map_nil, List.sum_nil, Nat.add_zero] at h
      simp [consecutive, Nat.mod_eq_of_lt h]
    rw [hone, List.forall_mem_singleton, List.map_nil, List.sum_nil, Nat.zero_add]
  | cons s rest ih =>
    rw [List.map_cons, List.sum_cons] at h
    rw [consecutive_cons, List.forall_mem_cons, ih (by omega) (fun t ht => hbits t (List.mem_cons_of_mem _ ht)), hbits s (by simp),
      if_pos rfl, Nat.mod_eq_of_lt (show start < 18446744073709551616 by omega), List.map_cons, List.sum_cons]
    unfold Range.Apart
    dsimp only
    omega

end

/-- Where the last four sections have bytes and end below 2^64, there is room when no section that
    keeps its offset stands between where they start and the end of the header table. -/
theorem hasRoom_iff {f : ElfFile} {its : List Item}
    (h : (lastEnd (headersWith f.elf its)).toNat + ((lastFour f its).map (·.size.toNat)).sum < 18446744073709551616)
    (hbits : ∀ s ∈ lastFour f its, s.bits = true) (hsome : f.shdrs ≠ []) :
    HasRoom f its ↔ ((keptSections f its).Pairwise fun a b => a.gain.Apart b.extent ∧ b.gain.Apart a.extent) ∧
      ∀ a ∈ keptSections f its, a.extent.Apart ((lastEnd (headersWith f.elf its)).toNat,
        ((lastFour f its).map (·.size.toNat)).sum + sizeofShdr * (f.shdrs.length + (missing f.elf its).length)) := by
  have hpos : 0 < sizeofShdr * (f.shdrs.length + (missing f.elf its).length) := by
    have := List.length_pos_of_ne_nil hsome
    exact Nat.mul_pos (by decide) (by omega)
  have hrange (a : Kept) := consecutive_apart_iff h hbits hpos a.extent
  constructor
  · exact fun hr => ⟨hr.grows, fun a ha => (hrange a).mp (hr.behind a ha)⟩
  · exact fun hr => ⟨hr.1, fun a ha => (hrange a).mpr (hr.2 a ha), consecutive_pairwise h⟩

/-- The written file is laid out just when the file has room for the metadata. -/
theorem keeps_layout_iff {create : List UInt8 → UInt64 → Option Buffers} {unwindSec : Name} {f : ElfFile} {out : Elf}
    (h : addSections create sectionPrefix unwindSec f.elf = .ok out) :
    KeepsLayout f out ↔ ∀ unwind n b, readUnwind f.elf unwindSec = .ok (unwind, n) → create unwind n = some b →
      HasRoom f (items sectionPrefix b) := by
  obtain ⟨unwind, n, b, hread, hb, hext⟩ := addSections_headers h
  have hlaid : LaidOut out ↔ HasRoom f (items sectionPrefix b) := laidOut_iff (Nat.le_refl 4) hext
  constructor
  · intro hk unwind' n' b' hread' hb'
    obtain ⟨rfl, rfl⟩ := Prod.mk.inj (Except.ok.inj (hread.symm.trans hread'))
    obtain rfl := Option.some.inj (hb.symm.trans hb')
    exact hlaid.mp hk.laidOut
  · intro hroom
    have hl := hlaid.mpr (hroom unwind n b hread hb)
    refine ⟨hl, fun m hm i s hi hstr hmeta => ?_⟩
    obtain ⟨scn, hscn, hbytes⟩ := addSections_kept h hi hstr hmeta
    exact ⟨scn, hscn, by rw [written_section hl (addSections_sized h) hm (List.mem_of_getElem? hscn), hbytes]⟩

/-! ## Three small files -/

def smallNames : List UInt8 := [0] ++ cstr ".shstrtab" ++ [0] ++ unwindName ++ [0]

/-- The metadata of one call site with one live value. -/
def oneSite : Buffers where
  idSites := List.replicate 52 0
  addrSites := List.replicate 52 0
  liveVals := List.replicate 12 0
  archlive := []
  small := by decide

theorem apart_of_none {e : Elf} (h : ∀ name ∈ metaNames, getSection e name = none) :
    ∀ name ∈ metaNames, ∀ i, elfGetshdrstrndx e = some i → getSection e name ≠ some i := by
  intro name hname i _
  rw [h name hname]
  simp

/-- The section names stand last, in the file and in the header table. -/
def namesLast : ElfFile where
  image := List.replicate 80 0 ++ smallNames ++ List.replicate 192 0
  ehdr := ⟨elfclass64, 62, 122, 2⟩
  shdrs := [⟨0, shtNull, 0, 0, 0, 0⟩, ⟨11, shtProgbits, 64, 16, 0, 16⟩, ⟨1, shtStrtab, 80, 42, 0, 0⟩]
  small := by decide +kernel
  inFile := by decide +kernel
  disjoint := by decide +kernel
  names := by
    intro i s hi hs
    obtain rfl : 2 = i := Option.some.inj hi
    obtain rfl := Option.some.inj hs
    decide
  apart := apart_of_none (by decide +kernel)

/-- The section names stand before another section. -/
def namesFirst : ElfFile where
  image := List.replicate 64 0 ++ smallNames ++ List.replicate 208 0
  ehdr := ⟨elfclass64, 62, 122, 2⟩
  shdrs := [⟨0, shtNull, 0, 0, 0, 0⟩, ⟨11, shtProgbits, 106, 16, 0, 16⟩, ⟨1, shtStrtab, 64, 42, 0, 0⟩]
  small := by decide +kernel
  inFile := by decide +kernel
  disjoint := by decide +kernel
  names := by
    intro i s hi hs
    obtain rfl : 2 = i := Option.some.inj hi
    obtain rfl := Option.some.inj hs
    decide
  apart := apart_of_none (by decide +kernel)

/-- The last section of the header table does not stand last in the file. -/
def lastBefore : ElfFile where
  image := List.replicate 80 0 ++ smallNames ++ List.replicate 192 0
  ehdr := ⟨elfclass64, 62, 122, 1⟩
  shdrs := [⟨0, shtNull, 0, 0, 0, 0⟩, ⟨1, shtStrtab, 80, 42, 0, 0⟩, ⟨11, shtProgbits, 64, 16, 0, 16⟩]
  small := by decide +kernel
  inFile := by decide +kernel
  disjoint := by decide +kernel
  names := by
    intro i s hi hs
    obtain rfl : 1 = i := Option.some.inj hi
    obtain rfl := Option.some.inj hs
    decide
  apart := apart_of_none (by decide +kernel)

/-- The tool's run on a file, with one call site. -/
def addOneSite (f : ElfFile) : Except Ret Elf := addSections (fun _ _ => some oneSite) sectionPrefix unwindName f.elf

def succeeds (r : Except Ret Elf) (p : Elf → Bool) : Bool :=
  match r with
  | .ok out => p out
  | .error _ => false

theorem succeeds_iff {r : Except Ret Elf} {p : Elf → Bool} (h : succeeds r p = true) : ∃ out, r = .ok out ∧ p out = true := by
  cases r with
  | ok out => exact ⟨out, rfl, h⟩
  | error _ => cases h

/-- With the section names last there is room. -/
theorem keeps_layout_names_last : ∃ out, addOneSite namesLast = .ok out ∧ KeepsLayout namesLast out := by
  obtain ⟨out, hout, -⟩ := succeeds_iff (r := addOneSite namesLast) (p := fun _ => true) (by decide +kernel)
  refine ⟨out, hout, (keeps_layout_iff hout).mpr fun unwind n b _ hb => ?_⟩
  obtain rfl := Option.some.inj hb
  exact (hasRoom_iff (by decide +kernel) (by decide +kernel) (List.cons_ne_nil _ _)).mpr ⟨by decide +kernel, by decide +kernel⟩

/-- The table of section names grows into the section behind it; and the sections laid
    behind the last one of the header table run over one that stands further back. -/
theorem layout_not_kept :
    (∃ out, addOneSite namesFirst = .ok out ∧ ¬ KeepsLayout namesFirst out) ∧
      ∃ out, addOneSite lastBefore = .ok out ∧ ¬ KeepsLayout lastBefore out := by
  constructor
  · obtain ⟨out, hout, hno⟩ := succeeds_iff (r := addOneSite namesFirst) (p := fun e => decide (¬ LaidOut e)) (by decide +kernel)
    exact ⟨out, hout, fun h => of_decide_eq_true hno h.laidOut⟩
  · obtain ⟨out, hout, hno⟩ := succeeds_iff (r := addOneSite lastBefore) (p := fun e => decide (¬ LaidOut e)) (by decide +kernel)
    exact ⟨out, hout, fun h => of_decide_eq_true hno h.laidOut⟩

end Popcorn.Metadata.Layout
