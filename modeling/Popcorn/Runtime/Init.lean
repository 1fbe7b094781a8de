/-
  Popcorn.Runtime.Init — opening a binary's metadata
  (lib/stack_transformation/src/{init,util}.c).

  `st_init` counts each table's records with `get_num_entries`, which answers -1 for a
  section that is absent or has no entry size, and keeps the count in an unsigned field: an
  absent section counts 2^64 - 1 records. What rejects it is the lookup of its data; a
  section with data and no entry size passes. The table sorted by address has no count of
  its own. A table of the handle is the bytes its pointer points at.

  `Opening` is what the system and libelf answer: `malloc`, `open`, `elf_begin`.

  Proved:
  - `stInit_isSome_iff`: the files that get a handle.
  - `initSound_iff`: a handle is given for readable tables only, and whenever the mandatory
    ones are readable, just when these are and the arch-specific section is there too, or
    neither holds (`handle_for_unreadable_tables`).
-/

import Popcorn.Metadata.Elf
import Popcorn.Runtime.Arch

namespace Popcorn.Runtime

open Popcorn.Metadata

/-! ## Model -/

/-- `EM_X86_64` and `EM_AARCH64`, the cases of `get_regops` and `get_properties`. -/
def machineArch (machine : UInt16) : Option Arch :=
  if machine = 183 then some .aarch64 else if machine = 62 then some .x86_64 else none

def stUnwindAddr : Name := dotted sectionPrefix sectionUnwindAddr
def stUnwind : Name := dotted sectionPrefix sectionUnwind
def stId : Name := dotted sectionPrefix sectionId
def stAddr : Name := dotted sectionPrefix sectionAddr
def stLive : Name := dotted sectionPrefix sectionLive
def stArchLive : Name := dotted sectionPrefix sectionArch

/-- The section a name is found to denote. -/
def sectionNamed (e : Elf) (sec : Name) : Option Scn := (getSection e sec).bind (e.scns[·]?)

/-- `get_num_entries`. -/
def getNumEntries (e : Elf) (sec : Name) : Int64 :=
  match sectionNamed e sec with
  | none => -1
  | some scn => if scn.shdr.shEntsize ≠ 0 then (scn.shdr.shSize / scn.shdr.shEntsize).toInt64 else -1

/-- `get_section_data`. -/
def getSectionData (e : Elf) (sec : Name) : Option (List UInt8) :=
  match sectionNamed e sec with
  | none => none
  | some scn => scn.data.join

/-- `struct _st_handle`. The pointer to the arch-specific records is not set where their
    count is zero. -/
structure StHandle where
  fd : Int
  elf : Elf
  fn : String
  arch : UInt16
  ptrSize : UInt16
  regops : RegOps
  props : Props
  unwindAddrCount : UInt64
  unwindAddrs : List UInt8
  unwindCount : UInt64
  unwindLocs : List UInt8
  sitesCount : UInt64
  sitesId : List UInt8
  sitesAddr : List UInt8
  liveValsCount : UInt64
  liveVals : List UInt8
  archLiveValsCount : UInt64
  archLiveVals : Option (List UInt8)

/-- A descriptor whose buffers lie in a 64-bit address space. -/
structure OpenElf where
  elf : Elf
  small : ∀ scn ∈ elf.scns, ∀ b, scn.data = some (some b) → b.length < 18446744073709551615

structure Opening where
  malloc : Bool
  openFd : Int
  elfBegin : Option OpenElf

/-- A count as the handle's field holds it. -/
def tableCount (e : Elf) (sec : Name) : UInt64 := (getNumEntries e sec).toUInt64

/-- How `st_init` reads a table: without records, or without data, it fails. -/
def readTable (e : Elf) (sec : Name) : Option (UInt64 × List UInt8) :=
  if tableCount e sec > 0 then (getSectionData e sec).map (tableCount e sec, ·) else none

/-- The arch-specific records may be none, and then nothing is read. -/
def readArchTable (e : Elf) : Option (UInt64 × Option (List UInt8)) :=
  if tableCount e stArchLive > 0 then (getSectionData e stArchLive).map fun b => (tableCount e stArchLive, some b)
  else some (tableCount e stArchLive, none)

/-- `st_init`: NULL from every `goto`. `elf_getident` answers the header once it is read. -/
def stInit (fn : Option String) (sys : Opening) : Option StHandle := do
  let fn ← fn
  guard (sys.malloc = true)
  guard (0 ≤ sys.openFd)
  let ⟨elf, _⟩ ← sys.elfBegin
  let ehdr ← elf64Getehdr elf
  let (unwindAddrCount, unwindAddrs) ← readTable elf stUnwindAddr
  let (unwindCount, unwindLocs) ← readTable elf stUnwind
  let (sitesCount, sitesId) ← readTable elf stId
  let sitesAddr ← getSectionData elf stAddr
  let (liveValsCount, liveVals) ← readTable elf stLive
  let (archLiveValsCount, archLiveVals) ← readArchTable elf
  let arch ← machineArch ehdr.eMachine
  some
    { fd := sys.openFd
      elf := elf
      fn := fn
      arch := ehdr.eMachine
      ptrSize := if ehdr.eiClass = elfclass64 then 8 else 4
      regops := getRegops arch
      props := getProperties arch
      unwindAddrCount := unwindAddrCount
      unwindAddrs := unwindAddrs
      unwindCount := unwindCount
      unwindLocs := unwindLocs
      sitesCount := sitesCount
      sitesId := sitesId
      sitesAddr := sitesAddr
      liveValsCount := liveValsCount
      liveVals := liveVals
      archLiveValsCount := archLiveValsCount
      archLiveVals := archLiveVals }

/-! ## Tables -/

/-- A section's header and data, where it has data. -/
def tableOf (e : Elf) (sec : Name) : Option (Shdr × List UInt8) :=
  (sectionNamed e sec).bind fun scn => scn.data.join.map (scn.shdr, ·)

/-- The header does not say that the section is empty. -/
def NonEmpty (s : Shdr) : Prop := s.shEntsize = 0 ∨ s.shEntsize ≤ s.shSize

instance (s : Shdr) : Decidable (NonEmpty s) := inferInstanceAs (Decidable (_ ∨ _))

/-- The entries the header speaks of, as records of `size` bytes, lie in `bytes`. -/
def HoldsRecords (s : Shdr) (size : Nat) (bytes : List UInt8) : Prop :=
  s.shEntsize ≠ 0 ∧ (s.shSize / s.shEntsize).toNat * size ≤ bytes.length

instance (s : Shdr) (size : Nat) (bytes : List UInt8) : Decidable (HoldsRecords s size bytes) :=
  inferInstanceAs (Decidable (_ ∧ _))

/-- The section has data and is not empty. -/
def Present (e : Elf) (sec : Name) : Prop := ∃ t, tableOf e sec = some t ∧ NonEmpty t.1

/-- The records of the section lie in its data. -/
def FitsRecords (e : Elf) (sec : Name) (size : Nat) : Prop := ∀ t, tableOf e sec = some t → HoldsRecords t.1 size t.2

/-- The sections without which there is no handle, and the size of their records. -/
def mandatory : List (Name × Nat) :=
  [(stUnwindAddr, sizeofUnwindAddr), (stUnwind, sizeofUnwindLoc), (stId, sizeofCallSite), (stLive, sizeofLiveValue)]

/-- Every mandatory section has records; the sites sorted by address have only data. -/
def MandatoryPresent (e : Elf) : Prop := (∀ m ∈ mandatory, Present e m.1) ∧ (tableOf e stAddr).isSome

/-- Every mandatory section holds its records, and the sites sorted by address are as many
    as those sorted by ID. -/
def MandatoryFits (e : Elf) : Prop :=
  (∀ m ∈ mandatory, FitsRecords e m.1 m.2) ∧
    ∀ t u, tableOf e stId = some t → tableOf e stAddr = some u → HoldsRecords t.1 sizeofCallSite u.2

/-- The arch-specific section is there, empty or with data. -/
def ArchPresent (e : Elf) : Prop := ∃ scn, sectionNamed e stArchLive = some scn ∧ (¬ NonEmpty scn.shdr ∨ scn.data.join.isSome)

/-- An arch-specific section that is not empty holds its records. -/
def ArchFits (e : Elf) : Prop :=
  ∀ scn, sectionNamed e stArchLive = some scn → NonEmpty scn.shdr → HoldsRecords scn.shdr sizeofArchLiveValue (scn.data.join.getD [])

/-- The file opens as one for a supported architecture. -/
structure Opens (fn : Option String) (sys : Opening) (e : OpenElf) : Prop where
  named : fn.isSome
  malloc : sys.malloc = true
  openFd : 0 ≤ sys.openFd
  elfBegin : sys.elfBegin = some e
  supported : ∃ ehdr, elf64Getehdr e.elf = some ehdr ∧ (machineArch ehdr.eMachine).isSome

/-- Every index below a count is a record of the table. -/
structure StHandle.Readable (h : StHandle) : Prop where
  unwindAddrs : h.unwindAddrCount.toNat * sizeofUnwindAddr ≤ h.unwindAddrs.length
  unwindLocs : h.unwindCount.toNat * sizeofUnwindLoc ≤ h.unwindLocs.length
  sitesId : h.sitesCount.toNat * sizeofCallSite ≤ h.sitesId.length
  sitesAddr : h.sitesCount.toNat * sizeofCallSite ≤ h.sitesAddr.length
  liveVals : h.liveValsCount.toNat * sizeofLiveValue ≤ h.liveVals.length
  archLiveVals : h.archLiveValsCount.toNat * sizeofArchLiveValue ≤ (h.archLiveVals.getD []).length

/-- A handle's tables can be read, and there is one whenever the mandatory sections are
    sound. -/
structure InitSound (fn : Option String) (sys : Opening) : Prop where
  readable : ∀ h, stInit fn sys = some h → h.Readable
  given : ∀ e, Opens fn sys e → MandatoryPresent e.elf → MandatoryFits e.elf → (stInit fn sys).isSome

/-! ## Counts -/

theorem tableCount_none {e : Elf} {sec : Name} (h : sectionNamed e sec = none) : tableCount e sec = 18446744073709551615 := by
  rw [tableCount, getNumEntries, h]
  rfl

theorem tableCount_some {e : Elf} {sec : Name} {scn : Scn} (h : sectionNamed e sec = some scn) :
    tableCount e sec = if scn.shdr.shEntsize ≠ 0 then scn.shdr.shSize / scn.shdr.shEntsize else 18446744073709551615 := by
  rw [tableCount, getNumEntries, h]
  dsimp only
  split
  · exact UInt64.toUInt64_toInt64 _
  · rfl

theorem tableCount_pos {e : Elf} {sec : Name} {scn : Scn} (h : sectionNamed e sec = some scn) :
    tableCount e sec > 0 ↔ NonEmpty scn.shdr := by
  rw [tableCount_some h, NonEmpty]
  split
  · next hz =>
    have hpos : 0 < scn.shdr.shEntsize.toNat := by
      rw [Nat.pos_iff_ne_zero]
      exact fun h0 => hz (UInt64.toNat_inj.mp h0)
    rw [or_iff_right hz, gt_iff_lt, UInt64.lt_iff_toNat_lt, UInt64.toNat_div, UInt64.le_iff_toNat_le, UInt64.toNat_zero,
      Nat.div_pos_iff, and_iff_right hpos]
  · next hz =>
    simp only [ne_eq, not_not] at hz
    simp [hz]

/-- The size a table needs, in the data `bytes`. -/
theorem tableCount_fits {e : Elf} {sec : Name} {scn : Scn} {size : Nat} {bytes : List UInt8}
    (h : sectionNamed e sec = some scn) (hsize : 0 < size) (hb : bytes.length < 18446744073709551615) :
    (tableCount e sec).toNat * size ≤ bytes.length ↔ HoldsRecords scn.shdr size bytes := by
  rw [tableCount_some h, HoldsRecords]
  split
  · next hz => rw [and_iff_right hz]
  · next hz =>
    have hbig : 18446744073709551615 ≤ 18446744073709551615 * size := Nat.le_mul_of_pos_right _ hsize
    have : ((18446744073709551615 : UInt64).toNat) = 18446744073709551615 := rfl
    rw [this]
    simp only [hz, false_and, iff_false]
    omega

theorem tableOf_eq_some {e : Elf} {sec : Name} {s : Shdr} {b : List UInt8} :
    tableOf e sec = some (s, b) ↔ ∃ scn, sectionNamed e sec = some scn ∧ scn.shdr = s ∧ scn.data.join = some b := by
  simp only [tableOf, Option.bind_eq_some_iff, Option.map_eq_some_iff, Prod.mk.injEq]
  constructor
  · rintro ⟨scn, hs, b', hb, rfl, rfl⟩
    exact ⟨scn, hs, rfl, hb⟩
  · rintro ⟨scn, hs, rfl, hb⟩
    exact ⟨scn, hs, b, hb, rfl, rfl⟩

theorem getSectionData_eq (e : Elf) (sec : Name) : getSectionData e sec = (tableOf e sec).map Prod.snd := by
  rw [getSectionData, tableOf]
  cases sectionNamed e sec with
  | none => rfl
  | some scn => simp [Function.comp_def]

theorem readTable_eq_some {e : Elf} {sec : Name} {n : UInt64} {b : List UInt8} :
    readTable e sec = some (n, b) ↔ n = tableCount e sec ∧ ∃ s, tableOf e sec = some (s, b) ∧ NonEmpty s := by
  rw [readTable, getSectionData_eq]
  constructor
  · intro h
    split at h
    · next hc =>
      simp only [Option.map_map, Option.map_eq_some_iff, Function.comp_apply, Prod.mk.injEq] at h
      obtain ⟨⟨s, b'⟩, ht, rfl, rfl⟩ := h
      obtain ⟨scn, hs, rfl, hb⟩ := tableOf_eq_some.mp ht
      exact ⟨rfl, scn.shdr, ht, (tableCount_pos hs).mp hc⟩
    · cases h
  · rintro ⟨rfl, s, ht, hne⟩
    obtain ⟨scn, hs, rfl, hb⟩ := tableOf_eq_some.mp ht
    rw [if_pos ((tableCount_pos hs).mpr hne), ht, Option.map_some, Option.map_some]

theorem readTable_isSome {e : Elf} {sec : Name} : (readTable e sec).isSome ↔ Present e sec := by
  rw [Option.isSome_iff_exists]
  constructor
  · rintro ⟨⟨n, b⟩, h⟩
    obtain ⟨-, s, ht, hne⟩ := readTable_eq_some.mp h
    exact ⟨(s, b), ht, hne⟩
  · rintro ⟨⟨s, b⟩, ht, hne⟩
    exact ⟨_, readTable_eq_some.mpr ⟨rfl, s, ht, hne⟩⟩

/-- An absent arch-specific section counts as one with records. -/
theorem readArchTable_isSome {e : Elf} : (readArchTable e).isSome ↔ ArchPresent e := by
  rw [readArchTable, ArchPresent, getSectionData]
  cases hs : sectionNamed e stArchLive with
  | none => simp [tableCount_none hs]
  | some scn =>
    have hpos := tableCount_pos hs
    by_cases hne : NonEmpty scn.shdr
    · simp [hpos.mpr hne, hne]
    · simp [mt hpos.mp hne, hne]

/-! ## The handle -/

/-- What the handle of a file holds. -/
structure HandleOf (e : Elf) (h : StHandle) : Prop where
  unwindAddrs : readTable e stUnwindAddr = some (h.unwindAddrCount, h.unwindAddrs)
  unwindLocs : readTable e stUnwind = some (h.unwindCount, h.unwindLocs)
  sitesId : readTable e stId = some (h.sitesCount, h.sitesId)
  sitesAddr : getSectionData e stAddr = some h.sitesAddr
  liveVals : readTable e stLive = some (h.liveValsCount, h.liveVals)
  archLiveVals : readArchTable e = some (h.archLiveValsCount, h.archLiveVals)

theorem guard_eq_some {p : Prop} [Decidable p] {u : Unit} : (guard p : Option Unit) = some u ↔ p := by
  unfold guard
  split
  · next hp => simp [hp]
  · next hp => simp [hp]

theorem stInit_eq_some {fn : Option String} {sys : Opening} {h : StHandle} (hi : stInit fn sys = some h) :
    ∃ e, Opens fn sys e ∧ HandleOf e.elf h ∧ ∃ ehdr, elf64Getehdr e.elf = some ehdr ∧ h.arch = ehdr.eMachine := by
  unfold stInit at hi
  obtain ⟨fn', hfn, hi⟩ := Option.bind_eq_some_iff.mp hi
  obtain ⟨_, hmalloc, hi⟩ := Option.bind_eq_some_iff.mp hi
  obtain ⟨_, hfd, hi⟩ := Option.bind_eq_some_iff.mp hi
  obtain ⟨e, he, hi⟩ := Option.bind_eq_some_iff.mp hi
  obtain ⟨ehdr, hehdr, hi⟩ := Option.bind_eq_some_iff.mp hi
  obtain ⟨_, h1, hi⟩ := Option.bind_eq_some_iff.mp hi
  obtain ⟨_, h2, hi⟩ := Option.bind_eq_some_iff.mp hi
  obtain ⟨_, h3, hi⟩ := Option.bind_eq_some_iff.mp hi
  obtain ⟨b4, h4, hi⟩ := Option.bind_eq_some_iff.mp hi
  obtain ⟨_, h5, hi⟩ := Option.bind_eq_some_iff.mp hi
  obtain ⟨_, h6, hi⟩ := Option.bind_eq_some_iff.mp hi
  obtain ⟨arch, harch, hi⟩ := Option.bind_eq_some_iff.mp hi
  cases hi
  exact ⟨e, ⟨by rw [hfn]; rfl, guard_eq_some.mp hmalloc, guard_eq_some.mp hfd, he, ehdr, hehdr, by rw [harch]; rfl⟩, ⟨h1, h2, h3, h4, h5, h6⟩,
    ehdr, hehdr, rfl⟩

theorem stInit_isSome {fn : Option String} {sys : Opening} {e : OpenElf} (ho : Opens fn sys e)
    (hm : MandatoryPresent e.elf) (ha : ArchPresent e.elf) : (stInit fn sys).isSome := by
  obtain ⟨fn', rfl⟩ := Option.isSome_iff_exists.mp ho.named
  obtain ⟨ehdr, hehdr, hsup⟩ := ho.supported
  obtain ⟨arch, harch⟩ := Option.isSome_iff_exists.mp hsup
  have hread : ∀ m ∈ mandatory, ∃ t, readTable e.elf m.1 = some t := fun m hm' =>
    Option.isSome_iff_exists.mp (readTable_isSome.mpr (hm.1 m hm'))
  obtain ⟨t1, h1⟩ := hread (stUnwindAddr, sizeofUnwindAddr) (by simp [mandatory])
  obtain ⟨t2, h2⟩ := hread (stUnwind, sizeofUnwindLoc) (by simp [mandatory])
  obtain ⟨t3, h3⟩ := hread (stId, sizeofCallSite) (by simp [mandatory])
  obtain ⟨t4, h4⟩ := Option.isSome_iff_exists.mp hm.2
  obtain ⟨t5, h5⟩ := hread (stLive, sizeofLiveValue) (by simp [mandatory])
  obtain ⟨t6, h6⟩ := Option.isSome_iff_exists.mp (readArchTable_isSome.mpr ha)
  have h4' : getSectionData e.elf stAddr = some t4.2 := by rw [getSectionData_eq, h4, Option.map_some]
  unfold stInit guard
  simp [ho.malloc, ho.openFd, ho.elfBegin, hehdr, h1, h2, h3, h4', h5, h6, harch]

theorem sectionNamed_mem {e : Elf} {sec : Name} {scn : Scn} (h : sectionNamed e sec = some scn) : scn ∈ e.scns := by
  obtain ⟨i, -, hi⟩ := Option.bind_eq_some_iff.mp h
  exact List.mem_of_getElem? hi

theorem data_small (e : OpenElf) {sec : Name} {scn : Scn} {b : List UInt8} (hs : sectionNamed e.elf sec = some scn)
    (hb : scn.data.join = some b) : b.length < 18446744073709551615 :=
  e.small scn (sectionNamed_mem hs) b (Option.join_eq_some_iff.mp hb)

theorem fits_iff {e : Elf} {sec : Name} {size : Nat} {s : Shdr} {b : List UInt8} (ht : tableOf e sec = some (s, b)) :
    FitsRecords e sec size ↔ HoldsRecords s size b := by
  rw [FitsRecords, ht]
  exact ⟨fun h => h (s, b) rfl, fun h t ht' => by obtain rfl := Option.some.inj ht'; exact h⟩

/-- A table that was read can be read up to its count just when the header's entries fit. -/
theorem readTable_fits (e : OpenElf) {sec : Name} {size : Nat} {n : UInt64} {b : List UInt8} (hsize : 0 < size)
    (h : readTable e.elf sec = some (n, b)) : n.toNat * size ≤ b.length ↔ FitsRecords e.elf sec size := by
  obtain ⟨rfl, s, ht, hne⟩ := readTable_eq_some.mp h
  obtain ⟨scn, hs, rfl, hb⟩ := tableOf_eq_some.mp ht
  rw [fits_iff ht, tableCount_fits hs hsize (data_small e hs hb)]

/-- The sites sorted by address are read up to the count of the others. -/
theorem sitesAddr_fits (e : OpenElf) {n : UInt64} {b c : List UInt8} (hid : readTable e.elf stId = some (n, b))
    (haddr : getSectionData e.elf stAddr = some c) :
    n.toNat * sizeofCallSite ≤ c.length ↔
      ∀ t u, tableOf e.elf stId = some t → tableOf e.elf stAddr = some u → HoldsRecords t.1 sizeofCallSite u.2 := by
  obtain ⟨rfl, s, ht, hne⟩ := readTable_eq_some.mp hid
  obtain ⟨scn, hs, rfl, hb⟩ := tableOf_eq_some.mp ht
  rw [getSectionData_eq, Option.map_eq_some_iff] at haddr
  obtain ⟨⟨s', c'⟩, hu, rfl⟩ := haddr
  obtain ⟨scn', hs', -, hc⟩ := tableOf_eq_some.mp hu
  rw [tableCount_fits hs (by decide) (data_small e hs' hc), ht, hu]
  constructor
  · intro h t u ht' hu'
    obtain rfl := Option.some.inj ht'
    obtain rfl := Option.some.inj hu'
    exact h
  · intro h
    exact h _ _ rfl rfl

theorem readArchTable_fits (e : OpenElf) {n : UInt64} {b : Option (List UInt8)} (h : readArchTable e.elf = some (n, b)) :
    n.toNat * sizeofArchLiveValue ≤ (b.getD []).length ↔ ArchFits e.elf := by
  rw [readArchTable, getSectionData] at h
  rw [ArchFits]
  cases hs : sectionNamed e.elf stArchLive with
  | none => simp [hs, tableCount_none hs] at h
  | some scn =>
    simp only [Option.some.injEq, forall_eq']
    have hpos := tableCount_pos hs
    by_cases hne : NonEmpty scn.shdr
    · rw [if_pos (hpos.mpr hne), hs] at h
      obtain ⟨c, hc, heq⟩ := Option.map_eq_some_iff.mp h
      obtain ⟨rfl, rfl⟩ := Prod.mk.inj heq
      have hfits : _ ↔ HoldsRecords scn.shdr sizeofArchLiveValue c := tableCount_fits hs (by decide) (data_small e hs hc)
      simp only [Option.getD_some, hfits, hc, hne, true_implies]
    · rw [if_neg (mt hpos.mp hne)] at h
      obtain ⟨rfl, rfl⟩ := Prod.mk.inj (Option.some.inj h)
      have hz : tableCount e.elf stArchLive = 0 := by
        have := mt hpos.mp hne
        rwa [gt_iff_lt, UInt64.pos_iff_ne_zero, not_not] at this
      simp [hz, hne]

theorem HandleOf.readable_iff {e : OpenElf} {h : StHandle} (hh : HandleOf e.elf h) :
    h.Readable ↔ MandatoryFits e.elf ∧ ArchFits e.elf := by
  have h1 : _ ↔ FitsRecords e.elf stUnwindAddr sizeofUnwindAddr := readTable_fits e (by decide) hh.unwindAddrs
  have h2 : _ ↔ FitsRecords e.elf stUnwind sizeofUnwindLoc := readTable_fits e (by decide) hh.unwindLocs
  have h3 : _ ↔ FitsRecords e.elf stId sizeofCallSite := readTable_fits e (by decide) hh.sitesId
  have h4 := sitesAddr_fits e hh.sitesId hh.sitesAddr
  have h5 : _ ↔ FitsRecords e.elf stLive sizeofLiveValue := readTable_fits e (by decide) hh.liveVals
  have h6 := readArchTable_fits e hh.archLiveVals
  constructor
  · intro hr
    refine ⟨⟨?_, h4.mp hr.sitesAddr⟩, h6.mp hr.archLiveVals⟩
    intro m hm
    simp only [mandatory, List.mem_cons, List.not_mem_nil, or_false] at hm
    rcases hm with rfl | rfl | rfl | rfl
    · exact h1.mp hr.unwindAddrs
    · exact h2.mp hr.unwindLocs
    · exact h3.mp hr.sitesId
    · exact h5.mp hr.liveVals
  · rintro ⟨⟨hm, ha⟩, harch⟩
    exact
      { unwindAddrs := h1.mpr (hm (stUnwindAddr, sizeofUnwindAddr) (by simp [mandatory]))
        unwindLocs := h2.mpr (hm (stUnwind, sizeofUnwindLoc) (by simp [mandatory]))
        sitesId := h3.mpr (hm (stId, sizeofCallSite) (by simp [mandatory]))
        sitesAddr := h4.mpr ha
        liveVals := h5.mpr (hm (stLive, sizeofLiveValue) (by simp [mandatory]))
        archLiveVals := h6.mpr harch }

theorem HandleOf.present {e : Elf} {h : StHandle} (hh : HandleOf e h) : MandatoryPresent e ∧ ArchPresent e := by
  refine ⟨⟨?_, ?_⟩, readArchTable_isSome.mp (by rw [hh.archLiveVals]; rfl)⟩
  · intro m hm
    rw [← readTable_isSome]
    simp only [mandatory, List.mem_cons, List.not_mem_nil, or_false] at hm
    rcases hm with rfl | rfl | rfl | rfl
    · rw [hh.unwindAddrs]; rfl
    · rw [hh.unwindLocs]; rfl
    · rw [hh.sitesId]; rfl
    · rw [hh.liveVals]; rfl
  · have h := hh.sitesAddr
    rw [getSectionData_eq, Option.map_eq_some_iff] at h
    obtain ⟨t, ht, -⟩ := h
    rw [ht]; rfl

/-! ## Files that get a handle -/

/-- The files that get a handle: no table is checked against its data, and the
    arch-specific section must be there. -/
theorem stInit_isSome_iff {fn : Option String} {sys : Opening} :
    (stInit fn sys).isSome ↔ ∃ e, Opens fn sys e ∧ MandatoryPresent e.elf ∧ ArchPresent e.elf := by
  constructor
  · intro h
    obtain ⟨hd, hh⟩ := Option.isSome_iff_exists.mp h
    obtain ⟨e, ho, hof, -⟩ := stInit_eq_some hh
    exact ⟨e, ho, hof.present⟩
  · rintro ⟨e, ho, hm, ha⟩
    exact stInit_isSome ho hm ha

theorem Opens.unique {fn : Option String} {sys : Opening} {e e' : OpenElf} (h : Opens fn sys e) (h' : Opens fn sys e') : e = e' :=
  Option.some.inj (h.elfBegin.symm.trans h'.elfBegin)

/-- A file whose mandatory sections are there is opened as it should be when these and the
    arch-specific section are present and hold their records. Without an arch-specific
    section there is no handle, which is right only when a mandatory table is short. -/
theorem initSound_iff (fn : Option String) (sys : Opening) :
    InitSound fn sys ↔ ∀ e, Opens fn sys e → MandatoryPresent e.elf →
      (ArchPresent e.elf ∧ MandatoryFits e.elf ∧ ArchFits e.elf) ∨ (¬ ArchPresent e.elf ∧ ¬ MandatoryFits e.elf) := by
  constructor
  · intro hs e ho hm
    by_cases ha : ArchPresent e.elf
    · obtain ⟨h, hh⟩ := Option.isSome_iff_exists.mp (stInit_isSome ho hm ha)
      obtain ⟨e', ho', hof, -⟩ := stInit_eq_some hh
      obtain rfl := ho.unique ho'
      exact .inl ⟨ha, hof.readable_iff.mp (hs.readable h hh)⟩
    · refine .inr ⟨ha, fun hf => ?_⟩
      obtain ⟨e', ho', -, ha'⟩ := stInit_isSome_iff.mp (hs.given e ho hm hf)
      obtain rfl := ho.unique ho'
      exact ha ha'
  · intro hc
    constructor
    · intro h hh
      obtain ⟨e, ho, hof, -⟩ := stInit_eq_some hh
      obtain ⟨hm, ha⟩ := hof.present
      rcases hc e ho hm with ⟨-, hf⟩ | ⟨hna, -⟩
      · exact hof.readable_iff.mpr hf
      · exact absurd ha hna
    · intro e ho hm hf
      rcases hc e ho hm with ⟨ha, -⟩ | ⟨-, hnf⟩
      · exact stInit_isSome ho hm ha
      · exact absurd hf hnf

/-! ## A file without an arch-specific section, and one without an entry size -/

theorem elfGetdata_length {image b : List UInt8} {s : Shdr} (h : elfGetdata (fun _ b => some b) image s = some (some b)) :
    b.length ≤ image.length := by
  simp only [elfGetdata, Option.map_some] at h
  split_ifs at h
  · cases Option.some.inj h
  · obtain rfl := Option.some.inj (Option.some.inj h)
    simp only [List.length_take, List.length_drop]
    omega

/-- The section-name table, the image and the sections of a file with one record in each
    mandatory table; the unwind records' entry size is given. -/
def smallNames : List UInt8 :=
  [0] ++ cstr ".shstrtab" ++ [0] ++ stUnwindAddr ++ [0] ++ stUnwind ++ [0] ++ stId ++ [0] ++ stAddr ++ [0] ++ stLive ++ [0] ++
    stArchLive ++ [0]

def smallImage : List UInt8 := List.replicate 64 0 ++ smallNames ++ List.replicate 136 0

def smallShdrs (entsize : UInt64) : List Shdr :=
  [⟨0, shtNull, 0, 0, 0, 0⟩, ⟨1, shtStrtab, 64, 158, 0, 0⟩, ⟨11, shtProgbits, 222, 16, 0, 16⟩, ⟨42, shtProgbits, 238, 4, 0, entsize⟩,
    ⟨66, shtProgbits, 242, 52, 0, 52⟩, ⟨86, shtProgbits, 294, 52, 0, 52⟩, ⟨108, shtProgbits, 346, 12, 0, 12⟩]

/-- An arch-specific section without records. -/
def emptyArch : Shdr := ⟨130, shtProgbits, 358, 0, 0, 20⟩

def smallElf (shdrs : List Shdr) : OpenElf where
  elf := ⟨some ⟨elfclass64, 62, 358, 1⟩, cookScns (fun _ b => some b) smallImage shdrs⟩
  small := by
    intro scn hscn b hb
    obtain ⟨s, -, rfl⟩ := List.mem_map.mp hscn
    have hlen : smallImage.length = 358 := by decide +kernel
    have := elfGetdata_length hb
    omega

def openSmall (shdrs : List Shdr) : Opening := ⟨true, 3, some (smallElf shdrs)⟩

theorem opens_small (shdrs : List Shdr) : Opens (some "a.out") (openSmall shdrs) (smallElf shdrs) :=
  ⟨rfl, rfl, (by decide : (0 : Int) ≤ 3), rfl, ⟨elfclass64, 62, 358, 1⟩, rfl, rfl⟩

def fitsCheck (e : Elf) (sec data : Name) (size : Nat) : Bool :=
  match tableOf e sec, tableOf e data with
  | some t, some u => decide (HoldsRecords t.1 size u.2)
  | _, _ => false

theorem fits_of_check {e : Elf} {sec data : Name} {size : Nat} (h : fitsCheck e sec data size = true) :
    ∀ t u, tableOf e sec = some t → tableOf e data = some u → HoldsRecords t.1 size u.2 := by
  intro t u ht hu
  rw [fitsCheck, ht, hu] at h
  exact of_decide_eq_true h

/-- Without an arch-specific section a file with sound tables gets no handle; with one, a
    file whose unwind records have no entry size gets a handle that counts 2^64 - 1 of
    them. -/
theorem handle_for_unreadable_tables :
    ¬ InitSound (some "a.out") (openSmall (smallShdrs 4)) ∧ ¬ InitSound (some "a.out") (openSmall (smallShdrs 0 ++ [emptyArch])) := by
  constructor
  · intro hs
    have hread : ∀ m ∈ mandatory, (readTable (smallElf (smallShdrs 4)).elf m.1).isSome := by decide +kernel
    have hfit : ∀ m ∈ mandatory, fitsCheck (smallElf (smallShdrs 4)).elf m.1 m.1 m.2 = true := by decide +kernel
    have hnone : (stInit (some "a.out") (openSmall (smallShdrs 4))).isSome = false := by decide +kernel
    have hgiven := hs.given (smallElf (smallShdrs 4)) (opens_small _) ⟨fun m hm => readTable_isSome.mp (hread m hm), by decide +kernel⟩
      ⟨fun m hm t ht => fits_of_check (hfit m hm) t t ht ht, fits_of_check (by decide +kernel)⟩
    rw [hnone] at hgiven
    cases hgiven
  · intro hs
    have hsome : (stInit (some "a.out") (openSmall (smallShdrs 0 ++ [emptyArch]))).isSome := by decide +kernel
    obtain ⟨h, hh⟩ := Option.isSome_iff_exists.mp hsome
    obtain ⟨e, ho, hof, -⟩ := stInit_eq_some hh
    obtain rfl := ho.unique (opens_small _)
    have hfit := (hof.readable_iff.mp (hs.readable h hh)).1.1 (stUnwind, sizeofUnwindLoc) (by simp [mandatory])
    have ht : (tableOf (smallElf (smallShdrs 0 ++ [emptyArch])).elf stUnwind).map (·.1.shEntsize) = some 0 := by decide +kernel
    obtain ⟨t, ht, hz⟩ := Option.map_eq_some_iff.mp ht
    exact (hfit t ht).1 hz

end Popcorn.Runtime
