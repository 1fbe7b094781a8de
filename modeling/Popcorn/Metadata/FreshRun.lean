/-
  Popcorn.Metadata.FreshRun — gen-stackinfo on a file that it has not written to yet.

  None of the four sections is there, so each is added, with the size of its records in the header.
  `Table` is what the runtime goes by: the section's header and data.

  Proved:
  - `Linked.run_ok`: the run succeeds if libelf can write the file (`Writable`).
  - `Ran.unwindTable`, `Ran.itemTable`, `Ran.otherTable`: in a file with room the table of functions
    and the metadata read back as written, and any other section as it was.
-/

import Popcorn.Metadata.Written

namespace Popcorn.Metadata.Layout

open Popcorn.Lib

/-- The metadata is not in the file yet. -/
def Fresh (f : ElfFile) : Prop := ∀ name ∈ metaNames, getSection f.elf name = none

/-- libelf can read the sections, and write the file with those of `its` in it. -/
structure Writable (f : ElfFile) (its : List Item) : Prop where
  class64 : f.ehdr.eiClass = elfclass64
  readable : Readable f
  sized : ∀ it ∈ its, it.buf.length < 18446744073709551616
  bounded : ∀ r ∈ (keptSections f its).map Kept.extent ++ moved f its, r.1 + r.2 < 9223372036854775808

/-! ## The run -/

section
variable {arch : Arch} {sm : List StackMapSection} {startId : UInt64} {f : ElfFile} {i : Nat} {s : Shdr} {t : List UnwindAddr}
  {md : CallSiteMetadata}

theorem metadataBuffers_ok (padding : Nat → UInt16) (hmd : createCallSiteMetadata arch startId sm t = .ok md)
    (hsized : ∀ it ∈ blankItems (sitesNum sm) (locNum sm) (archNum sm), it.buf.length < 18446744073709551616) :
    ∃ b, metadataBuffers padding md = some b := by
  obtain ⟨hsites, hlive, harch⟩ := metadata_lengths hmd
  have hsmall : ∀ buf ∈ [siteBytes (sortedById (paddedSites padding md.sites)),
      siteBytes (sortedByAddr (sortedById (paddedSites padding md.sites))), md.live.flatMap LiveValue.bytes,
      md.archLive.flatMap ArchLiveValue.bytes], buf.length < 18446744073709551616 := by
    simp only [blankItems, List.forall_mem_cons, List.not_mem_nil, false_implies, implies_true, and_true, List.length_replicate] at hsized
    simp only [List.forall_mem_cons, List.not_mem_nil, false_implies, implies_true, and_true]
    rw [siteBytes_length, siteBytes_length, sortedByAddr_length, sortedById_length, paddedSites_length, hsites,
      flatMap_length _ LiveValue.bytes_length, hlive, flatMap_length _ ArchLiveValue.bytes_length, harch]
    exact hsized
  unfold metadataBuffers
  dsimp only
  rw [dif_pos hsmall]
  exact ⟨_, rfl⟩

theorem missing_fresh (hfresh : Fresh f) (b : Buffers) : missing f.elf (items sectionPrefix b) = items sectionPrefix b := by
  unfold missing
  rw [List.filter_eq_self]
  intro it hit
  rw [hfresh it.name (item_name hit)]
  rfl

/-- The tool writes every file that libelf can write. -/
theorem Linked.run_ok (h : Linked f i s t) (hne : t ≠ []) (hfresh : Fresh f)
    (hw : Writable f (blankItems (sitesNum sm) (locNum sm) (archNum sm)))
    (hmd : createCallSiteMetadata arch startId sm (newTable t) = .ok md) (padding : Nat → UInt16) :
    ∃ out, genStackinfo arch sm startId padding f.elf = .ok out := by
  obtain ⟨f', hf'⟩ := h.updated hne
  obtain ⟨b, hb⟩ := metadataBuffers_ok padding hmd hw.sized
  obtain ⟨hkept, hmoved⟩ := hf'.placement hmd hb
  have hfour : (items sectionPrefix b).length ≤ 4 := Nat.le_refl 4
  have hbound := hw.bounded
  rw [← hkept, ← hmoved, keptSections_extents f' hfour, ← placedExtents_moved] at hbound
  have hlen : 4 < f.shdrs.length + (missing f.elf (items sectionPrefix b)).length := by
    have hpos := (List.getElem?_eq_some_iff.mp h.shdr).1
    rw [missing_fresh hfresh]
    change 4 < f.shdrs.length + 4
    omega
  obtain ⟨d, out, hr⟩ := hf'.ran hne hmd hb hw.class64 hw.readable (fun it hit j u hj => by
    rw [hfresh it.name (item_name hit)] at hj
    cases hj) hlen hbound
  exact ⟨out, hr.run⟩

end

/-! ## What the runtime reads -/

/-- The section `sec` holds records of `size` bytes, and these are their bytes. -/
structure Table (e : Elf) (sec : Name) (size : Nat) (bs : List UInt8) : Prop where
  small : bs.length < 18446744073709551616
  scn : ∃ scn, (getSection e sec).bind (e.scns[·]?) = some scn ∧ scn.shdr.shEntsize = UInt64.ofNat size ∧
    scn.shdr.shSize.toNat = bs.length ∧ scn.data = some (if bs = [] then none else some bs)

section
variable {arch : Arch} {sm : List StackMapSection} {startId : UInt64} {padding : Nat → UInt16} {f f' : ElfFile} {i j size : Nat} {s : Shdr}
  {t : List UnwindAddr} {md : CallSiteMetadata} {b : Buffers} {d out : Elf} {image : List UInt8} {sec : Name} {scn : Scn}
  (hr : Ran arch sm startId padding f f' i s t md b d out) (hl : LaidOut out) (hf : FileOf out image)

include hr hl hf in
theorem Ran.tableOf (hj : getSection d sec = some j) (hscn : d.scns[j]? = some scn) (ho : Occupies scn.shdr)
    (hent : scn.shdr.shEntsize = UInt64.ofNat size) : Table (reopen out image) sec size (scnBytes scn) := by
  obtain ⟨k, tab, -, -, -, hfill⟩ := hr.filled
  obtain ⟨tab', hn, -, -⟩ := hfill.table
  have hno := layout_nameTable hr.layout hn
  have hjo : getSection out sec = some j := (layout_getSection hr.layout hn sec).trans hj
  have hn2 := reopen_nameTable hl hr.sized hf hno (nameTable_ne_nil hno hjo)
  have hj2 : getSection (reopen out image) sec = some j := (getSection_congr hno hn2 (reopen_names out image) sec).trans hjo
  obtain ⟨off, hoff⟩ := layout_getElem? hr.layout hscn
  have hmem := List.mem_of_getElem? hoff
  have hlen := hr.sized _ hmem
  have hocc : Occupies { scn.shdr with shOffset := off } := ho
  rw [extent, if_pos hocc] at hlen
  have hbytes : scnBytes { scn with shdr := { scn.shdr with shOffset := off } } = scnBytes scn := rfl
  rw [hbytes] at hlen
  constructor
  case small =>
    rw [hlen]
    exact scn.shdr.shSize.toNat_lt
  case scn =>
    refine ⟨⟨{ scn.shdr with shOffset := off }, elfGetdata (fun _ b => some b) image { scn.shdr with shOffset := off }⟩, ?_, hent,
      hlen.symm, ?_⟩
    · rw [hj2, Option.bind_some, reopen_getElem? hoff]
    · have hdata := reopen_data hl hr.sized hf hmem hocc
      have hiff : scn.shdr.shSize = 0 ↔ scnBytes scn = [] := by
        rw [← List.length_eq_zero_iff, hlen, ← UInt64.toNat_inj]
        rfl
      rw [hbytes] at hdata
      rw [hdata]
      by_cases hz : scn.shdr.shSize = 0
      · rw [if_pos hz, if_pos (hiff.mp hz)]
      · rw [if_neg hz, if_neg (mt hiff.mpr hz)]

include hr hl hf in
theorem Ran.unwindTable : Table (reopen out image) unwindName sizeofUnwindAddr (tableBytes (newTable t)) := by
  have hlinked := hr.updated.linked
  obtain ⟨hi, hscn⟩ := hr.table
  have htable := hr.tableOf hl hf hi hscn hlinked.occupies hlinked.entsize
  rwa [scnBytes, if_pos hlinked.occupies] at htable

include hr hl hf in
theorem Ran.itemTable {it : Item} (hit : it ∈ items sectionPrefix b) (hnew : getSection f.elf it.name = none) :
    Table (reopen out image) it.name it.entrySize it.buf := by
  obtain ⟨j, scn, hp, ho, hbytes⟩ := hr.placed hit
  obtain ⟨-, -, hent⟩ | ⟨s', hs', -⟩ := hp.shdr
  · have htable := hr.tableOf hl hf hp.index hp.present ho hent
    rwa [hbytes] at htable
  · rw [hr.updated.names, hnew] at hs'
    cases hs'

include hr hl hf in
/-- A section that is none of those written keeps its bytes. -/
theorem Ran.otherTable {u : Nat} {v : Shdr} (hu : getSection f.elf sec = some u) (hv : f.shdrs[u]? = some v) (ho : Occupies v)
    (hent : v.shEntsize = UInt64.ofNat size) (hstr : elfGetshdrstrndx f.elf ≠ some u) (hname : sec ∉ unwindName :: metaNames) :
    Table (reopen out image) sec size (f.contents v) := by
  obtain ⟨k, tab, hn, -, hg, hfill⟩ := hr.filled
  rw [List.mem_cons, not_or] at hname
  have hother : ∀ it ∈ items sectionPrefix b, it.name ≠ sec := fun it hit h => hname.2 (h ▸ item_name hit)
  have hu' : getSection f'.elf sec = some u := by rw [hr.updated.names, hu]
  have hui : u ≠ i := by
    rintro rfl
    exact hname.1 (getSection_inj hn hu' hr.updated.linked.index)
  have hscn : f'.elf.scns[u]? = some ⟨v, elfGetdata (fun _ b => some b) f.image v⟩ := by rw [hr.updated.kept u hui, elf_getElem? hv]
  have hd := hg.kept u _ hscn (by rw [hr.updated.strndx]; exact hstr) fun it hit h => hother it hit (getSection_inj hn h hu')
  have htable := hr.tableOf hl hf ((hfill.other sec hother).trans hu') hd ho hent
  rwa [scnBytes_elf f (List.mem_of_getElem? hv)] at htable

end

end Popcorn.Metadata.Layout
