/-
  Popcorn.Metadata.Rerun — gen-stackinfo on its own output.

  The second run finds the sections of the first, of the sizes it is going to write: nothing is
  appended, and every section stays where it is. It differs in what it writes. It takes the table of
  functions, which is sorted now, for the linked one and sums the counts in that order; and the
  padding of a call site is whatever its own `malloc` returned.

  Proved:
  - `Ran.again`: the second run succeeds, and keeps the layout of the first.
  - `gen_stackinfo_idempotent_iff`: in a file with room, it leaves the sections as they are just when
    the sums of the two orders agree and the padding happens to be the same
    (`gen_stackinfo_not_idempotent`).
-/

import Mathlib.Tactic.IntervalCases
import Popcorn.Metadata.Written

namespace Popcorn.Metadata.Layout

open Popcorn.Lib

/-! ## The same metadata -/

section
variable {s t : List UnwindAddr} (h : s.map (·.addr) = t.map (·.addr))

include h in
theorem addr_getElem? (i : Nat) : s[i]?.map (·.addr) = t[i]?.map (·.addr) := by
  rw [← List.getElem?_map, ← List.getElem?_map, h]

include h in
theorem inRange_congr (i : Nat) (addr : UInt64) : inRange s i addr = inRange t i addr := by
  have hlo := addr_getElem? h i
  have hhi := addr_getElem? h (i + 1)
  unfold inRange
  cases hs : s[i]? <;> cases ht : t[i]? <;> cases hs' : s[i + 1]? <;> cases ht' : t[i + 1]? <;> simp_all

include h in
/-- Whether a function is found depends on the addresses only. -/
theorem getFuncUnwindLoop_congr (addr : UInt64) : ∀ (fuel : Nat) (min max : Int),
    (getFuncUnwindLoop addr s fuel min max).isSome = (getFuncUnwindLoop addr t fuel min max).isSome := by
  have hlen : s.length = t.length := by
    have := congrArg List.length h
    rwa [List.length_map, List.length_map] at this
  intro fuel
  induction fuel with
  | zero => intro min max; rfl
  | succ fuel ih =>
    intro min max
    have hmid := addr_getElem? h ((max + min) / 2).toNat
    rw [getFuncUnwindLoop, getFuncUnwindLoop]
    split
    · dsimp only
      cases hs : s[((max + min) / 2).toNat]? with
      | none =>
        rw [hs] at hmid
        rw [Option.map_eq_none_iff.mp hmid.symm]
      | some ua =>
        rw [hs] at hmid
        obtain ⟨ua', ht, haddr⟩ := Option.map_eq_some_iff.mp hmid.symm
        rw [ht, hlen, inRange_congr h]
        dsimp only at haddr ⊢
        rw [haddr]
        split
        · split <;> rfl
        · split
          · rfl
          · split
            · exact ih _ _
            · exact ih _ _
    · rfl

include h in
theorem getFuncUnwindData_congr (addr : UInt64) : (getFuncUnwindData addr s).isSome = (getFuncUnwindData addr t).isSome := by
  have hlen : s.length = t.length := by
    have := congrArg List.length h
    rwa [List.length_map, List.length_map] at this
  unfold getFuncUnwindData
  rw [getFuncUnwindLoop_congr h, hlen]

include h in
/-- From a table of the same addresses the same metadata is made, but for the unwinding offsets. -/
theorem create_congr {arch : Arch} {startId : UInt64} {sm : List StackMapSection} {md : CallSiteMetadata}
    (hmd : createCallSiteMetadata arch startId sm s = .ok md) : ∃ md', createCallSiteMetadata arch startId sm t = .ok md' ∧
      md'.sites.length = md.sites.length ∧ md'.live = md.live ∧ md'.archLive = md.archLive := by
  obtain ⟨st, hb, rfl⟩ := create_built hmd
  obtain ⟨md', hmd'⟩ : ∃ md', createCallSiteMetadata arch startId sm t = .ok md' := by
    apply createCallSiteMetadata_ok
    intro p hp
    obtain ⟨k, hk⟩ := List.mem_iff_getElem?.mp hp
    have hlt : k < st.sites.length := by
      rw [hb.length]
      exact (List.getElem?_eq_some_iff.mp hk).1
    have hsite := hb.site k p _ hk (List.getElem?_eq_getElem hlt)
    obtain ⟨ua, hua, -⟩ := Option.map_eq_some_iff.mp hsite.unwind
    have hsome : (getFuncUnwindData (st.sites[k]).addr t).isSome = true := by
      rw [← getFuncUnwindData_congr h, hua]
      rfl
    obtain ⟨ua', hua'⟩ := Option.isSome_iff_exists.mp hsome
    exact ⟨_, ua', hsite.addr.symm, hua'⟩
  obtain ⟨st', hb', rfl⟩ := create_built hmd'
  exact ⟨_, hmd', hb'.length.trans hb.length.symm, hb'.locs.trans hb.locs.symm, hb'.archlive.trans hb.archlive.symm⟩

end

theorem newTable_addrs {t : List UnwindAddr} (h : t.Pairwise (·.addr ≤ ·.addr)) : (newTable t).map (·.addr) = t.map (·.addr) := by
  have hsame : newTable t = updateOffsets 0 t := List.Pairwise.insertionSort_eq (updateOffsets_pairwise h)
  have hrange := congrArg (List.map Prod.fst) (updateOffsets_range t 0)
  rw [List.map_map, List.map_map] at hrange
  rw [hsame]
  exact hrange

/-! ## The sizes of the buffers -/

/-- Metadata of the same sizes has buffers of the same sizes. -/
theorem metadataBuffers_congr {padding : Nat → UInt16} {md md' : CallSiteMetadata} {b : Buffers}
    (h : metadataBuffers padding md = some b) (padding' : Nat → UInt16) (hsites : md'.sites.length = md.sites.length) (hlive : md'.live = md.live)
    (harch : md'.archLive = md.archLive) : ∃ b', metadataBuffers padding' md' = some b' ∧
      sizes (items sectionPrefix b') = sizes (items sectionPrefix b) := by
  have hb := metadataBuffers_some h
  obtain ⟨hid, haddr⟩ := hb.lengths
  have hsmall := b.small
  have hsmall' : ∀ buf ∈ [siteBytes (sortedById (paddedSites padding' md'.sites)),
      siteBytes (sortedByAddr (sortedById (paddedSites padding' md'.sites))), md'.live.flatMap LiveValue.bytes,
      md'.archLive.flatMap ArchLiveValue.bytes], buf.length < 18446744073709551616 := by
    simp only [List.forall_mem_cons, List.not_mem_nil, false_implies, implies_true, and_true] at hsmall ⊢
    rw [siteBytes_length, siteBytes_length, sortedByAddr_length, sortedById_length, paddedSites_length, hsites, hlive, harch,
      ← hb.liveVals, ← hb.archlive, ← hid]
    exact ⟨hsmall.1, hsmall.1, hsmall.2.2⟩
  obtain ⟨b', hb'⟩ : ∃ b', metadataBuffers padding' md' = some b' := by
    unfold metadataBuffers
    dsimp only
    rw [dif_pos hsmall']
    exact ⟨_, rfl⟩
  have hbuf := metadataBuffers_some hb'
  obtain ⟨hid', haddr'⟩ := hbuf.lengths
  refine ⟨b', hb', ?_⟩
  simp only [sizes, items, List.map_cons, List.map_nil, hid, haddr, hid', haddr', hb.liveVals, hb.archlive, hbuf.liveVals, hbuf.archlive,
    hsites, hlive, harch]

/-! ## The second run -/

/-- With nothing missing and every size as it was, the headers stay. -/
theorem headersWith_same {e : Elf} {its : List Item} (hfound : ∀ it ∈ its, ∃ j scn, getSection e it.name = some j ∧
    e.scns[j]? = some scn ∧ scn.shdr.shSize = UInt64.ofNat it.buf.length) : headersWith e its = e.scns.map (slot ·.shdr) := by
  have hmiss : missing e its = [] := by
    rw [missing, List.filter_eq_nil_iff]
    intro it hit
    obtain ⟨j, -, hj, -⟩ := hfound it hit
    simp [hj]
  have hsize {j : Nat} {scn : Scn} (hscn : e.scns[j]? = some scn) : grownSize e its j scn.shdr = scn.shdr.shSize := by
    rw [grownSize, hmiss]
    split
    · simp
    · split
      · next it hit =>
        have hj : getSection e it.name = some j := by simpa using List.find?_some hit
        obtain ⟨j', scn', hj', hscn', hsz⟩ := hfound it (List.mem_of_find?_eq_some hit)
        obtain rfl := Option.some.inj (hj.symm.trans hj')
        obtain rfl := Option.some.inj (hscn.symm.trans hscn')
        exact hsz.symm
      · rfl
  rw [headersWith, hmiss, List.map_nil, List.append_nil]
  apply List.ext_getElem?
  intro j
  rw [List.getElem?_mapIdx, List.getElem?_map]
  cases hj : e.scns[j]? with
  | none => rfl
  | some scn =>
    rw [Option.map_some, Option.map_some, hsize hj]
    rfl

theorem lay_again (cur : UInt64) (hs : List Slot) : lay cur (lay cur hs).1 = lay cur hs := by
  induction hs generalizing cur with
  | nil => rfl
  | cons s rest ih => simp only [lay, ih]

theorem lay_length (cur : UInt64) (hs : List Slot) : (lay cur hs).1.length = hs.length := by
  induction hs generalizing cur with
  | nil => rfl
  | cons s rest ih => simp only [lay, List.length_cons, ih]

/-- Placing what was placed changes nothing. -/
theorem placed_again {hs : List Slot} (hlen : 4 < hs.length) :
    let placed := stays hs ++ (lay (lastEnd hs) (hs.drop (hs.length - 4))).1
    stays placed = stays hs ∧ placedExtents placed = placedExtents hs := by
  intro placed
  have hstays : (stays hs).length = hs.length - 4 := by rw [stays, List.length_take]; omega
  have hplaced : placed.length = hs.length := by
    rw [List.length_append, lay_length, hstays, List.length_drop]
    omega
  have hlast : lastEnd placed = lastEnd hs := by
    have hget : placed[hs.length - 5]? = hs[hs.length - 5]? := by
      rw [List.getElem?_append_left (by omega), stays, List.getElem?_take_of_lt (by omega)]
    rw [lastEnd, lastEnd, hplaced, hget]
  have hdrop : placed.drop (hs.length - 4) = (lay (lastEnd hs) (hs.drop (hs.length - 4))).1 := List.drop_left' hstays
  constructor
  · rw [stays, hplaced]
    exact List.take_left' hstays
  · rw [placedExtents, placedExtents, hplaced, hlast, hdrop, lay_again]

/-- The headers of the written file are laid out already. -/
theorem layout_again {d out : Elf} (h : layout 4 d = .ok out) :
    (stays (out.scns.map (slot ·.shdr))).map Slot.extent ++ placedExtents (out.scns.map (slot ·.shdr)) = extents out := by
  obtain ⟨-, -, -, -, hlen⟩ := layout_ehdr h
  obtain ⟨cur, rfl, hs, -⟩ := layout_ok h
  have hslots : out.scns.map (slot ·.shdr) = stays (d.scns.map (slot ·.shdr)) ++
      (lay (lastEnd (d.scns.map (slot ·.shdr))) ((d.scns.map (slot ·.shdr)).drop ((d.scns.map (slot ·.shdr)).length - 4))).1 := by
    rw [hs, List.map_append, (placeLoop_slots _ _).1, stays, List.length_map, List.map_take, List.map_drop]
  have hlen' : 4 < (d.scns.map (slot ·.shdr)).length := by rwa [List.length_map]
  obtain ⟨h1, h2⟩ := placed_again hlen'
  rw [hslots, h1, h2, layout_extents h]

section
variable {arch : Arch} {sm : List StackMapSection} {startId : UInt64} {padding : Nat → UInt16} {f f' : ElfFile} {i : Nat} {s : Shdr}
  {t : List UnwindAddr} {md : CallSiteMetadata} {b : Buffers} {d out : Elf} {image : List UInt8}
  (hr : Ran arch sm startId padding f f' i s t md b d out) (hl : LaidOut out) (hf : FileOf out image)

/-- The offsets of the table of names reach past the names of two runs. -/
def NamesFit (f : ElfFile) : Prop := ∀ k u, elfGetshdrstrndx f.elf = some k → f.shdrs[k]? = some u → u.shSize.toNat + 256 < 4294967296

/-- Where a metadata section of the file stands, with as many bytes as `it` has. -/
def Stands (f : ElfFile) (it : Item) : Prop :=
  ∃ j u, getSection f.elf it.name = some j ∧ f.shdrs[j]? = some u ∧ Occupies u ∧ u.shSize = UInt64.ofNat it.buf.length

/-- The names of the written file are those of the four updates. -/
structure Reopens (d out : Elf) (image : List UInt8) (k : Nat) (tab : List UInt8) : Prop where
  filled : NameTable d k tab
  named : Named d tab
  written : NameTable out k tab
  reopened : NameTable (reopen out image) k tab
  sections : ∀ sec, getSection (reopen out image) sec = getSection d sec

include hr hl hf in
theorem Ran.reopens : ∃ k tab, Reopens d out image k tab ∧ elfGetshdrstrndx f.elf = some k ∧
    (NamesFit f → tab.length + 128 < 4294967296) := by
  obtain ⟨k, tab, hn, hfit, -, hfill⟩ := hr.filled
  obtain ⟨tab', hnd, hnamed, hle⟩ := hfill.table
  obtain ⟨hi, -⟩ := hr.table
  have hno := layout_nameTable hr.layout hnd
  have hio : getSection out unwindName = some i := (layout_getSection hr.layout hnd _).trans hi
  have hn2 := reopen_nameTable hl hr.sized hf hno (nameTable_ne_nil hno hio)
  have hindex : elfGetshdrstrndx f.elf = some k := by rw [← hr.updated.strndx, hn.index]
  refine ⟨k, tab', ⟨hnd, hnamed, hno, hn2, fun sec => ?_⟩, hindex, fun hnames => ?_⟩
  · exact (getSection_congr hno hn2 (reopen_names out image) sec).trans (layout_getSection hr.layout hnd sec)
  · have hsum := items_sum b
    obtain ⟨shdr, hk, -, hsize⟩ := hn.scn
    have hshdr := shdr_of_elf hk
    rw [hr.updated.shdrs] at hshdr
    have hfits := hnames k shdr hindex hshdr
    rw [hsize, UInt64.toNat_ofNat', Nat.mod_eq_of_lt (by omega)] at hfits
    omega

/-- Where the section of `it` stands in the written file. -/
def StandsIn (out : Elf) (image : List UInt8) (k : Nat) (it : Item) : Prop :=
  ∃ j u, getSection (reopen out image) it.name = some j ∧ k ≠ j ∧ (out.scns.map (·.shdr))[j]? = some u ∧ Occupies u ∧
    u.shSize = UInt64.ofNat it.buf.length

include hr in
theorem Ran.standsIn {k : Nat} {tab : List UInt8} (ht : Reopens d out image k tab) {it : Item} (hit : it ∈ items sectionPrefix b) :
    StandsIn out image k it := by
  obtain ⟨j, scn, hp, ho, -⟩ := hr.placed hit
  obtain ⟨off, hoff⟩ := layout_getElem? hr.layout hp.present
  refine ⟨j, { scn.shdr with shOffset := off }, by rw [ht.sections, hp.index], ?_, by rw [List.getElem?_map, hoff]; rfl, ho, hp.size⟩
  have hne := hp.ne
  rw [ht.filled.index] at hne
  exact fun h => hne (congrArg some h)

theorem metaNames_item {name : Name} (hname : name ∈ metaNames) : ∃ it ∈ items sectionPrefix b, it.name = name := by
  rw [← items_names b] at hname
  exact List.mem_map.mp hname

include hr hl hf in
/-- What was written is a file. -/
theorem Ran.reopen_file {k : Nat} {tab : List UInt8} (ht : Reopens d out image k tab) (hlen : tab.length + 128 < 4294967296) :
    ∃ f2 : ElfFile, f2.image = image ∧ f2.elf = reopen out image ∧ f2.shdrs = out.scns.map (·.shdr) := by
  obtain ⟨ehdr, -, hoehdr, -, -⟩ := layout_ehdr hr.layout
  have helf : openElf image { ehdr with eShoff := eShoff out } (out.scns.map (·.shdr)) = reopen out image := by
    rw [reopen, hoehdr]
    rfl
  refine ⟨⟨image, { ehdr with eShoff := eShoff out }, out.scns.map fun scn : Scn => scn.shdr, hf.small, ?_, ?_, ?_, ?_⟩, rfl, helf, rfl⟩
  · intro u hu ho
    obtain ⟨scn, hscn, rfl⟩ := List.mem_map.mp hu
    have hin := hf.sections scn hscn ho.1
    rwa [extent, if_pos ho] at hin
  · have hext : extents (reopen out image) = extents out := by
      simp only [extents, tableExtent, eShoff, reopen, cookScns, List.map_map, Function.comp_def, List.length_map]
    rw [helf, LaidOut, hext]
    exact hl
  · rw [helf]
    intro k' u hk' hu
    obtain rfl := Option.some.inj (ht.reopened.index.symm.trans hk')
    obtain ⟨shdr, hk, -, hsize⟩ := ht.written.scn
    rw [List.getElem?_map, hk, Option.map_some] at hu
    rw [← Option.some.inj hu]
    dsimp only
    rw [hsize, UInt64.toNat_ofNat', Nat.mod_eq_of_lt (by omega)]
    exact hlen
  · rw [helf]
    intro name hname k' hk' hfound
    obtain ⟨it, hit, rfl⟩ := metaNames_item (b := b) hname
    obtain ⟨j, u, hj, hne, -⟩ := hr.standsIn ht hit
    rw [hj] at hfound
    obtain rfl := Option.some.inj hfound
    exact hne (Option.some.inj (ht.reopened.index.symm.trans hk'))

include hr hl hf in
/-- The written file is a linked file with the new table. -/
theorem Ran.reopened (hfit : NamesFit f) : ∃ (f2 : ElfFile) (s2 : Shdr), f2.elf = reopen out image ∧ f2.image = image ∧
    f2.shdrs = out.scns.map (·.shdr) ∧ Linked f2 i s2 (newTable t) ∧ ∀ it ∈ items sectionPrefix b, Stands f2 it := by
  obtain ⟨k, tab, ht, hindex, hlen⟩ := hr.reopens hl hf
  obtain ⟨f2, rfl, helf2, hshdrs2⟩ := hr.reopen_file hl hf ht (hlen hfit)
  obtain ⟨hi, hscn⟩ := hr.table
  obtain ⟨off, hoff⟩ := layout_getElem? hr.layout hscn
  have hmem := List.mem_of_getElem? hoff
  have hlinked := hr.updated.linked
  refine ⟨f2, { s with shOffset := off }, helf2, rfl, hshdrs2, ?_, fun it hit => ?_⟩
  · constructor
    case index => rw [helf2, ht.sections, hi]
    case shdr =>
      rw [hshdrs2, List.getElem?_map, hoff]
      rfl
    case occupies => exact hlinked.occupies
    case entsize => exact hlinked.entsize
    case contents =>
      rw [← scnBytes_elf f2 (by rw [hshdrs2]; exact List.mem_map_of_mem hmem)]
      exact (reopen_scnBytes hl hr.sized hf hmem).trans (if_pos hlinked.occupies)
    case apart =>
      rw [helf2, ht.reopened.index, ← hindex, ← hr.updated.strndx]
      exact hlinked.apart
    case named =>
      intro k' tab' hn'
      rw [helf2] at hn' ⊢
      obtain ⟨rfl, rfl⟩ := nameTable_unique ht.reopened hn'
      have hnames : (reopen out f2.image).scns.map (·.shdr.shName) = d.scns.map (·.shdr.shName) :=
        (reopen_names out f2.image).trans (layout_map hr.layout fun _ _ => rfl)
      have hnamed := ht.named
      unfold Named at hnamed ⊢
      rw [List.map_tail, hnames, ← List.map_tail]
      exact hnamed
    case metadata =>
      intro name hname j u hj hu
      obtain ⟨it, hit, rfl⟩ := metaNames_item (b := b) hname
      obtain ⟨j', u', hj', -, hu', ho, -⟩ := hr.standsIn ht hit
      rw [helf2] at hj
      obtain rfl := Option.some.inj (hj'.symm.trans hj)
      rw [hshdrs2] at hu
      obtain rfl := Option.some.inj (hu'.symm.trans hu)
      exact ho
  · obtain ⟨j, u, hj, -, hu, ho, hsize⟩ := hr.standsIn ht hit
    exact ⟨j, u, by rw [helf2, hj], by rw [hshdrs2, hu], ho, hsize⟩

include hr hl hf in
/-- The second run succeeds, and every section stays where it is. -/
theorem Ran.again (hfit : NamesFit f) (padding' : Nat → UInt16) : ∃ f2 f2' s2 md2 b2 d2 out2, f2.elf = reopen out image ∧
    Ran arch sm startId padding' f2 f2' i s2 (newTable t) md2 b2 d2 out2 ∧ LaidOut out2 := by
  obtain ⟨f2, s2, helf2, himage2, hshdrs2, hlinked, hstands⟩ := hr.reopened hl hf hfit
  have hne := newTable_ne hr.ne
  obtain ⟨f2', hf2'⟩ := hlinked.updated hne
  obtain ⟨md2, hmd2, hsites, hlive, harch⟩ := create_congr (newTable_addrs (qsortUnwindAddr_pairwise _)).symm hr.created
  obtain ⟨b2, hb2, hsame⟩ := metadataBuffers_congr hr.buffers padding' hsites hlive harch
  have hshdrs : f2'.shdrs = out.scns.map (·.shdr) := hf2'.shdrs.trans hshdrs2
  -- each of the four is found, with as many bytes as it is going to have
  have hstands2 : ∀ it ∈ items sectionPrefix b2, ∃ j u, getSection f2'.elf it.name = some j ∧ f2'.shdrs[j]? = some u ∧ Occupies u ∧
      u.shSize = UInt64.ofNat it.buf.length := by
    intro it hit
    have hmem : (it.name, it.buf.length) ∈ sizes (items sectionPrefix b2) := List.mem_map_of_mem hit
    rw [hsame] at hmem
    obtain ⟨it', hit', heq⟩ := List.mem_map.mp hmem
    obtain ⟨hname, hlen⟩ := Prod.mk.inj heq
    obtain ⟨j, u, hj, hu, ho, hsize⟩ := hstands it' hit'
    exact ⟨j, u, by rw [hf2'.names, ← hname, hj], by rw [hf2'.shdrs, hu], ho, by rw [hsize, hlen]⟩
  have hslots : headersWith f2'.elf (items sectionPrefix b2) = out.scns.map (slot ·.shdr) := by
    have hmap : f2'.elf.scns.map (·.shdr) = out.scns.map (·.shdr) := by
      rw [← hshdrs]
      simp only [ElfFile.elf, openElf, cookScns, List.map_map, List.map_id', Function.comp_def]
    have hslot := congrArg (List.map slot) hmap
    rw [List.map_map, List.map_map] at hslot
    rw [headersWith_same]
    · exact hslot
    · intro it hit
      obtain ⟨j, u, hj, hu, -, hsize⟩ := hstands2 it hit
      exact ⟨j, _, hj, elf_getElem? hu, hsize⟩
  obtain ⟨ehdr, -, hoehdr, hclass, hlen⟩ := layout_ehdr hr.layout
  have hehdr : f2.ehdr = { ehdr with eShoff := eShoff out } := by
    have hsrc : some f2.ehdr = out.ehdr := congrArg Elf.ehdr helf2
    rw [hoehdr] at hsrc
    exact Option.some.inj hsrc
  have hread : Readable f2 := by
    intro u hu htype
    rw [hshdrs2] at hu
    obtain ⟨scn, hscn, rfl⟩ := List.mem_map.mp hu
    rw [himage2]
    exact (Nat.le_add_right _ _).trans (hf.sections scn hscn htype)
  obtain ⟨d2, out2, hr2⟩ := hf2'.ran hne hmd2 hb2 (by rw [hehdr]; exact of_decide_eq_true (Option.filter_eq_some_iff.mp hclass).2) hread
    (fun it hit j u hj hu => by
      obtain ⟨j', u', hj', hu', ho, -⟩ := hstands2 it hit
      rw [hf2'.names] at hj'
      rw [hf2'.shdrs] at hu'
      obtain rfl := Option.some.inj (hj'.symm.trans hj)
      obtain rfl := Option.some.inj (hu'.symm.trans hu)
      exact ho)
    (by rw [hshdrs2, List.length_map, layout_length hr.layout]; omega)
    (by rw [hslots, layout_again hr.layout]; exact hr.update.2)
  obtain ⟨k, tab, -, -, hg, -⟩ := hr2.filled
  refine ⟨f2, f2', s2, md2, b2, d2, out2, helf2, hr2, ?_⟩
  rw [LaidOut, layout_extents hr2.layout, hg.headers, hslots, layout_again hr.layout]
  exact hl

end

/-! ## What changes -/

/-- The five sections read the same in both. -/
def Unchanged (e e' : Elf) : Prop := ∀ name ∈ unwindName :: metaNames, sectionBytes e' name = sectionBytes e name

/-- Encodings of one length agree on a list just when they agree on its elements. -/
theorem flatMap_eq_iff {α : Type} {sz : Nat} {enc enc' : α → List UInt8} (hsz : ∀ x, (enc x).length = sz)
    (hsz' : ∀ x, (enc' x).length = sz) (xs : List α) : xs.flatMap enc = xs.flatMap enc' ↔ ∀ x ∈ xs, enc x = enc' x := by
  induction xs with
  | nil => simp
  | cons x xs ih =>
    have hlen : (enc x).length = (enc' x).length := (hsz x).trans (hsz' x).symm
    rw [List.flatMap_cons, List.flatMap_cons, List.append_eq_append_iff_of_size_eq_left hlen, List.forall_mem_cons, ih]

theorem callSite_bytes_inj {s : CallSite} {p q : UInt16} : s.bytes p = s.bytes q ↔ p = q := by
  unfold CallSite.bytes
  have hp : p.toNat < 256 ^ 2 := p.toNat_lt
  have hq : q.toNat < 256 ^ 2 := q.toNat_lt
  rw [List.append_cancel_left_eq, leBytes_inj_iff, Nat.mod_eq_of_lt hp, Nat.mod_eq_of_lt hq, UInt16.toNat_inj]

/-- The sorts do not look at the padding. -/
theorem sortedById_padded (padding : Nat → UInt16) (sites : List CallSite) : sortedById (paddedSites padding sites) =
    (sites.zipIdx.insertionSort fun a b => a.1.id ≤ b.1.id).map fun s => (s.1, padding s.2) := by
  symm
  apply List.map_insertionSort
  exact fun _ _ _ _ => Iff.rfl

theorem sortedByAddr_padded (padding : Nat → UInt16) (sites : List CallSite) : sortedByAddr (sortedById (paddedSites padding sites)) =
    ((sites.zipIdx.insertionSort fun a b => a.1.id ≤ b.1.id).insertionSort fun a b => a.1.addr ≤ b.1.addr).map fun s =>
      (s.1, padding s.2) := by
  rw [sortedById_padded]
  symm
  apply List.map_insertionSort
  exact fun _ _ _ _ => Iff.rfl

/-- In whatever order the sites are written, their bytes agree when their padding does. -/
theorem siteBytes_padded_iff {padding padding' : Nat → UInt16} {sites : List CallSite} {xs : List (CallSite × Nat)}
    (hperm : xs.Perm sites.zipIdx) : siteBytes (xs.map fun s => (s.1, padding' s.2)) = siteBytes (xs.map fun s => (s.1, padding s.2)) ↔
      ∀ k < sites.length, padding' k = padding k := by
  unfold siteBytes
  rw [List.flatMap_map, List.flatMap_map, flatMap_eq_iff (fun s => s.1.bytes_length _) (fun s => s.1.bytes_length _)]
  simp only [callSite_bytes_inj, hperm.mem_iff]
  constructor
  · intro h k hk
    exact h (sites[k], k) (List.mk_mem_zipIdx_iff_getElem?.mpr (List.getElem?_eq_getElem hk))
  · rintro h ⟨site, k⟩ hmem
    exact h k (List.getElem?_eq_some_iff.mp (List.mk_mem_zipIdx_iff_getElem?.mp hmem)).1

/-- From the same metadata the same buffers are made but for the padding. -/
theorem buffered_eq_iff {padding padding' : Nat → UInt16} {md : CallSiteMetadata} {b b' : Buffers} (h : BufferedAs padding md b)
    (h' : BufferedAs padding' md b') : b'.idSites = b.idSites ∧ b'.addrSites = b.addrSites ∧ b'.liveVals = b.liveVals ∧
      b'.archlive = b.archlive ↔ ∀ k < md.sites.length, padding' k = padding k := by
  have hid := List.perm_insertionSort (fun a b : CallSite × Nat => a.1.id ≤ b.1.id) md.sites.zipIdx
  have haddr := (List.perm_insertionSort (fun a b : CallSite × Nat => a.1.addr ≤ b.1.addr) _).trans hid
  rw [h.idSites, h'.idSites, h.addrSites, h'.addrSites, h.liveVals, h'.liveVals, h.archlive, h'.archlive]
  rw [sortedByAddr_padded, sortedByAddr_padded, sortedById_padded, sortedById_padded]
  rw [siteBytes_padded_iff hid, siteBytes_padded_iff haddr]
  simp only [and_true, and_self]

theorem tableBytes_inj {t u : List UnwindAddr} (h : tableBytes t = tableBytes u) : t = u := by
  have hlen := congrArg List.length h
  rw [tableBytes_length, tableBytes_length] at hlen
  have heq : t.length = u.length := Nat.eq_of_mul_eq_mul_left (by decide) hlen
  rw [← readArray_table t, ← readArray_table u, h, heq]

/-- The second rebuild leaves the table alone just when the sums of the two orders agree. -/
theorem newTable_again_iff (t : List UnwindAddr) : newTable (newTable t) = newTable t ↔ SumsAgree t := by
  rw [← updateOffsets_sorted_iff]
  have hsorted : newTable (newTable t) = updateOffsets 0 (newTable t) :=
    List.Pairwise.insertionSort_eq (updateOffsets_pairwise (qsortUnwindAddr_pairwise _))
  rw [hsorted]
  rfl

section
variable {arch : Arch} {sm : List StackMapSection} {startId : UInt64} {padding padding' : Nat → UInt16} {f f' f2 f2' : ElfFile}
  {i i2 : Nat} {s s2 : Shdr} {t t2 : List UnwindAddr} {md md2 : CallSiteMetadata} {b b2 : Buffers} {d d2 out out2 : Elf}
  {image image2 : List UInt8} (hr : Ran arch sm startId padding f f' i s t md b d out)
  (hr2 : Ran arch sm startId padding' f2 f2' i2 s2 t2 md2 b2 d2 out2)

include hr hr2 in
/-- Two files with room agree on the five sections when the tables and the buffers agree. -/
theorem unchanged_iff_written (hl : LaidOut out) (hf : FileOf out image) (hl2 : LaidOut out2) (hf2 : FileOf out2 image2) :
    Unchanged (reopen out image) (reopen out2 image2) ↔ newTable t2 = newTable t ∧ b2.idSites = b.idSites ∧
      b2.addrSites = b.addrSites ∧ b2.liveVals = b.liveVals ∧ b2.archlive = b.archlive := by
  obtain ⟨hunwind, hmeta⟩ := hr.contents hl hf
  obtain ⟨hunwind2, hmeta2⟩ := hr2.contents hl2 hf2
  simp only [items, List.forall_mem_cons, List.not_mem_nil, false_implies, implies_true, and_true] at hmeta hmeta2
  unfold Unchanged
  rw [← items_names b]
  simp only [items, List.map_cons, List.map_nil, List.forall_mem_cons, List.not_mem_nil, false_implies, implies_true, and_true,
    hunwind, hunwind2, hmeta, hmeta2, Option.some.injEq]
  refine and_congr_left fun _ => ⟨tableBytes_inj, fun h => by rw [h]⟩

variable (hr' : Ran arch sm startId padding' f2 f2' i2 s2 (newTable t) md2 b2 d2 out2)

include hr hr' in
/-- A run on the table of another one. -/
theorem rerun_unchanged_iff (hl : LaidOut out) (hf : FileOf out image) (hl2 : LaidOut out2) (hf2 : FileOf out2 image2) :
    Unchanged (reopen out image) (reopen out2 image2) ↔ SumsAgree t ∧ ∀ k < sitesNum sm, padding' k = padding k := by
  rw [unchanged_iff_written hr hr' hl hf hl2 hf2, newTable_again_iff]
  refine and_congr_right fun hsums => ?_
  have hmd : md2 = md := by
    have hcreated := hr'.created
    rw [(newTable_again_iff t).mpr hsums, hr.created] at hcreated
    exact (Except.ok.inj hcreated).symm
  subst hmd
  rw [buffered_eq_iff (metadataBuffers_some hr.buffers) (metadataBuffers_some hr'.buffers), (metadata_lengths hr.created).1]

end

/-- Running the tool on a file that it has written, where there was room for the metadata, leaves the
    five sections as they are just when the offsets of the linked order are those of the address order
    and the padding of the call sites is the same. -/
theorem gen_stackinfo_idempotent_iff (arch : Arch) (sm : List StackMapSection) (startId : UInt64) (padding padding' : Nat → UInt16)
    {f : ElfFile} {i : Nat} {s : Shdr} {t : List UnwindAddr} {out : Elf} {image : List UInt8} (hlinked : Linked f i s t)
    (hfit : NamesFit f) (hrun : genStackinfo arch sm startId padding f.elf = .ok out)
    (hroom : HasRoom f (blankItems (sitesNum sm) (locNum sm) (archNum sm))) (hf : FileOf out image) :
    ∃ out', genStackinfo arch sm startId padding' (reopen out image) = .ok out' ∧ ∀ image', FileOf out' image' →
      (Unchanged (reopen out image) (reopen out' image') ↔ SumsAgree t ∧ ∀ k < sitesNum sm, padding' k = padding k) := by
  obtain ⟨f', md, b, d, hr⟩ := hlinked.ran hrun
  have hl := hr.room_iff.mpr hroom
  obtain ⟨f2, f2', s2, md2, b2, d2, out2, helf2, hr2, hl2⟩ := hr.again hl hf hfit padding'
  refine ⟨out2, ?_, fun image' hf' => ?_⟩
  · rw [← helf2]
    exact hr2.run
  · exact rerun_unchanged_iff hr hr2 hl hf hl2 hf'

/-! ## Two functions -/

/-- Two functions with three and two saved registers. -/
def pairSaved : List (Nat × List RegOffset) := [(10, [⟨6, 0⟩, ⟨16, 8⟩, ⟨3, -8⟩]), (20, [⟨6, 0⟩, ⟨16, 8⟩])]

theorem pairSaved_ascending : pairSaved.Pairwise (·.1 < ·.1) := by simp [pairSaved]

/-- They stand at `base + x` and `base + y`. -/
def pairObject (x y : UInt64) : Object := ⟨⟨pairSaved, pairSaved_ascending⟩, fun s => if s = 10 then 0x400000 + x else 0x400000 + y⟩

/-- The linked table; the second function may lie below the first. -/
def pairTable (swapped : Bool) : List UnwindAddr := linkedAddrRange [if swapped then pairObject 0x100 0 else pairObject 0 0x100]

def pairUnwind : Shdr := ⟨11, shtProgbits, 64, 32, 0, 16⟩

/-- The linked binary, before the tool has run on it. -/
def pairFile (swapped : Bool) : ElfFile where
  image := List.replicate 64 0 ++ tableBytes (pairTable swapped) ++ smallNames ++ List.replicate 192 0
  ehdr := ⟨elfclass64, 62, 138, 2⟩
  shdrs := [⟨0, shtNull, 0, 0, 0, 0⟩, pairUnwind, ⟨1, shtStrtab, 96, 42, 0, 0⟩]
  small := by cases swapped <;> decide +kernel
  inFile := by cases swapped <;> decide +kernel
  disjoint := by cases swapped <;> decide +kernel
  names := by
    intro i s hi hs
    obtain rfl : 2 = i := Option.some.inj hi
    obtain rfl := Option.some.inj hs
    decide
  apart := apart_of_none (by cases swapped <;> decide +kernel)

theorem pairFile_linked (swapped : Bool) : Linked (pairFile swapped) 1 pairUnwind (pairTable swapped) where
  index := by cases swapped <;> decide +kernel
  shdr := rfl
  occupies := by decide
  entsize := rfl
  contents := by cases swapped <;> decide +kernel
  apart := by cases swapped <;> decide +kernel
  named := by
    intro k tab hn
    have hn' : NameTable (pairFile swapped).elf 2 smallNames :=
      ⟨rfl, by decide, ⟨1, shtStrtab, 96, 42, 0, 0⟩, by cases swapped <;> decide +kernel, rfl, by decide +kernel⟩
    obtain ⟨rfl, rfl⟩ := nameTable_unique hn' hn
    have hoffs : (pairFile swapped).elf.scns.tail.map (·.shdr.shName) = [11, 1] := rfl
    unfold Named
    rw [hoffs, List.forall_mem_cons, List.forall_mem_singleton]
    exact ⟨by decide +kernel, by decide +kernel⟩
  metadata := by
    intro name hname j s hj
    have hnone : ∀ name ∈ metaNames, getSection (pairFile swapped).elf name = none := by cases swapped <;> decide +kernel
    rw [hnone name hname] at hj
    cases hj

theorem pairFile_fit (swapped : Bool) : NamesFit (pairFile swapped) := by
  intro k u hk hu
  obtain rfl : 2 = k := Option.some.inj hk
  obtain rfl := Option.some.inj hu
  decide

/-- The tool's run on a descriptor, with one start function. -/
def runPair (padding : Nat → UInt16) (e : Elf) : Except Ret Elf := genStackinfo .x86_64 [startSection 0x400000] 100 padding e

theorem pairFile_room (swapped : Bool) : HasRoom (pairFile swapped)
    (blankItems (sitesNum [startSection 0x400000]) (locNum [startSection 0x400000]) (archNum [startSection 0x400000])) := by
  cases swapped <;> decide +kernel

theorem pairFile_run (swapped : Bool) : ∃ out image, runPair (fun _ => 0) (pairFile swapped).elf = .ok out ∧ FileOf out image := by
  obtain ⟨out, hout, hu⟩ := succeeds_iff (r := runPair (fun _ => 0) (pairFile swapped).elf) (p := fun e => decide (ElfUpdate e))
    (by cases swapped <;> decide +kernel)
  obtain ⟨image, himage⟩ := exists_file (of_decide_eq_true hu)
  exact ⟨out, image, hout, himage⟩

theorem pairTable_agree : SumsAgree (pairTable false) := by
  intro i ua h
  have hlen : (pairTable false).length = 2 := rfl
  have hi := (List.getElem?_eq_some_iff.mp h).1
  rw [hlen] at hi
  interval_cases i <;> cases h <;> rfl

theorem pairTable_differ : ¬ SumsAgree (pairTable true) := by
  intro h
  exact absurd (h 0 _ rfl) (by decide)

theorem gen_stackinfo_idempotent_iff_pair : ∃ out image out', runPair (fun _ => 0) (pairFile false).elf = .ok out ∧ FileOf out image ∧
    runPair (fun _ => 0) (reopen out image) = .ok out' ∧ ∀ image', FileOf out' image' → Unchanged (reopen out image) (reopen out' image') := by
  obtain ⟨out, image, hrun, hf⟩ := pairFile_run false
  obtain ⟨out', hrun', hall⟩ := gen_stackinfo_idempotent_iff .x86_64 [startSection 0x400000] 100 (fun _ => 0) (fun _ => 0)
    (pairFile_linked false) (pairFile_fit false) hrun (pairFile_room false) hf
  exact ⟨out, image, out', hrun, hf, hrun', fun image' hf' => (hall image' hf').mpr ⟨pairTable_agree, fun _ _ => rfl⟩⟩

/-- A second run on the file changes what it holds. -/
def Changes (padding padding' : Nat → UInt16) (f : ElfFile) : Prop := ∃ out image out', runPair padding f.elf = .ok out ∧ FileOf out image ∧
  runPair padding' (reopen out image) = .ok out' ∧ ∀ image', FileOf out' image' → ¬ Unchanged (reopen out image) (reopen out' image')

theorem changes_pair {swapped : Bool} {padding' : Nat → UInt16}
    (h : ¬ (SumsAgree (pairTable swapped) ∧ ∀ k < sitesNum [startSection 0x400000], padding' k = 0)) :
    Changes (fun _ => 0) padding' (pairFile swapped) := by
  obtain ⟨out, image, hrun, hf⟩ := pairFile_run swapped
  obtain ⟨f', md, b, d, hr⟩ := (pairFile_linked swapped).ran hrun
  have hl := hr.room_iff.mpr (pairFile_room swapped)
  obtain ⟨f2, f2', s2, md2, b2, d2, out2, helf2, hr2, hl2⟩ := hr.again hl hf (pairFile_fit swapped) padding'
  have hrun2 := hr2.run
  rw [helf2] at hrun2
  exact ⟨out, image, out2, hrun, hf, hrun2, fun image' hf' hun => h ((rerun_unchanged_iff hr hr2 hl hf hl2 hf').mp hun)⟩

/-- Where the second function lies below the first, a second run moves the offsets of both; and
    where it does not, the padding of the call sites may be other. -/
theorem gen_stackinfo_not_idempotent : Changes (fun _ => 0) (fun _ => 0) (pairFile true) ∧ Changes (fun _ => 0) (fun _ => 1) (pairFile false) := by
  constructor
  · exact changes_pair fun h => pairTable_differ h.1
  · exact changes_pair fun h => absurd (h.2 0 (by decide)) (by decide)

end Popcorn.Metadata.Layout
