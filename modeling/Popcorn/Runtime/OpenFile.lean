/-
  Popcorn.Runtime.OpenFile — from the linked file to the handle that the runtime opens.

  gen-stackinfo writes the metadata of a linked program into its ELF file, and `st_init` opens what
  has been written. `Makes` is a run in a file with room for the metadata: a file without it loses
  sections (`layout_not_kept`). `OpensAs` is a handle of the written file, its tables read record by
  record (`Decodes`).

  Proved:
  - `MetadataTables.opened`: the handle holds the records that gen-stackinfo made.
  - `call_sites_found`: gen-stackinfo writes a linked program's file, and in the file that it makes
    the runtime finds each call site, and nothing else.
-/

import Popcorn.Metadata.FreshRun
import Popcorn.Metadata.Toolchain
import Popcorn.Runtime.Init

namespace Popcorn.Runtime

open Popcorn.Lib Popcorn.Metadata
open Popcorn.Metadata.Layout (ElfFile Linked Fresh Writable HasRoom FileOf reopen blankItems Table Occupies metaNames Ran)

/-! ## Model -/

/-- The tables of a handle as records. -/
structure Decodes (h : StHandle) (hd : Handle) : Prop where
  arch : machineArch h.arch = some hd.arch
  unwindAddrs : hd.unwindAddrs = readArray sizeofUnwindAddr readUnwindAddr (memOf h.unwindAddrs) 0 h.unwindAddrCount.toNat
  unwindLocs : hd.unwindLocs = readArray sizeofUnwindLoc readUnwindLoc (memOf h.unwindLocs) 0 h.unwindCount.toNat
  sitesId : hd.sitesId = readArray sizeofCallSite readCallSite (memOf h.sitesId) 0 h.sitesCount.toNat
  sitesAddr : hd.sitesAddr = readArray sizeofCallSite readCallSite (memOf h.sitesAddr) 0 h.sitesCount.toNat
  liveValsCount : hd.liveValsCount = h.liveValsCount.toNat
  /-- What lies past the last record is not said. -/
  liveVals : ∀ i v, (readArray sizeofLiveValue readLiveValue (memOf h.liveVals) 0 h.liveValsCount.toNat)[i]? = some v → hd.liveVals i = v
  archLiveVals : hd.archLiveVals =
    readArray sizeofArchLiveValue readArchLiveValue (memOf (h.archLiveVals.getD [])) 0 h.archLiveValsCount.toNat

/-- `st_init` on the file `e` gives a handle that reads as `hd`. -/
def OpensAs (e : Elf) (hd : Handle) : Prop :=
  ∃ fn sys oe h, sys.elfBegin = some oe ∧ oe.elf = e ∧ stInit fn sys = some h ∧ Decodes h hd

/-- The file that the linker makes of the object files. -/
structure LinkedFile (arch : Arch) (os : List ObjectFile) (f : ElfFile) : Prop where
  machine : machineArch f.ehdr.eMachine = some arch
  addrs : ∃ i s, Linked f i s (linkedAddrRange (unwindObjects os))
  locs : ∃ u v, getSection f.elf stUnwind = some u ∧ f.shdrs[u]? = some v ∧ Occupies v ∧ v.shEntsize = 4 ∧
    elfGetshdrstrndx f.elf ≠ some u ∧ f.contents v = (linkedUnwind (unwindObjects os)).flatMap UnwindLoc.bytes
  fresh : Fresh f

/-- The sections of the program's metadata. -/
def programItems (os : List ObjectFile) : List Layout.Item :=
  blankItems (calls os).length ((calls os).map (·.2.locations.length)).sum ((calls os).map (·.2.vals.length)).sum

/-- gen-stackinfo makes the file `e` of the linked program, whose stackmaps lie at `buf` in its memory. -/
def Makes (L : Llvm) (arch : Arch) (startId : UInt64) (os : List ObjectFile) (e : Elf) : Prop :=
  ∃ f m buf sm padding out image, LinkedFile arch os f ∧ buf % 8 = 0 ∧ At m buf (linkedStackmaps L os) ∧
    initStackmap m (some ⟨(linkedStackmaps L os).length, 1, buf⟩) = .ok sm ∧
    Layout.genStackinfo arch sm startId padding f.elf = .ok out ∧ HasRoom f (programItems os) ∧ FileOf out image ∧ e = reopen out image

/-! ## Reading a table -/

section
variable {e : Elf} {sec : Metadata.Name} {size : Nat} {bs : List UInt8} (h : Table e sec size bs)

include h in
theorem table_count (hlt : size < 18446744073709551616) (hpos : 0 < size) : (tableCount e sec).toNat = bs.length / size := by
  obtain ⟨scn, hscn, hent, hsize, -⟩ := h.scn
  have hentsize : scn.shdr.shEntsize.toNat = size := by rw [hent, UInt64.toNat_ofNat', Nat.mod_eq_of_lt hlt]
  have hne : scn.shdr.shEntsize ≠ 0 := by
    intro hz
    rw [hz] at hentsize
    change 0 = size at hentsize
    omega
  have hnamed : sectionNamed e sec = some scn := hscn
  rw [tableCount_some hnamed, if_pos hne, UInt64.toNat_div, hsize, hentsize]

include h in
theorem table_data : getSectionData e sec = if bs = [] then none else some bs := by
  obtain ⟨scn, hscn, -, -, hdata⟩ := h.scn
  have hnamed : sectionNamed e sec = some scn := hscn
  rw [getSectionData, hnamed]
  dsimp only
  rw [hdata]
  by_cases hz : bs = []
  · rw [if_pos hz]
    rfl
  · rw [if_neg hz]
    rfl

include h in
theorem table_data_eq {b : List UInt8} (hb : getSectionData e sec = some b) : b = bs := by
  rw [table_data h] at hb
  split at hb
  · cases hb
  · exact (Option.some.inj hb).symm

include h in
theorem table_present (hlt : size < 18446744073709551616) (hpos : 0 < size) (hle : size ≤ bs.length) : Present e sec := by
  obtain ⟨scn, hscn, hent, hsize, hdata⟩ := h.scn
  have hnil : bs ≠ [] := fun hnil => by
    rw [hnil, List.length_nil] at hle
    omega
  rw [if_neg hnil] at hdata
  refine ⟨(scn.shdr, bs), tableOf_eq_some.mpr ⟨scn, hscn, rfl, by rw [hdata]; rfl⟩, .inr ?_⟩
  rw [UInt64.le_iff_toNat_le, hent, UInt64.toNat_ofNat', Nat.mod_eq_of_lt hlt, hsize]
  exact hle

end

/-- A table of records reads back record by record. -/
theorem table_records {α β : Type} {e : Elf} {sec : Metadata.Name} {size : Nat} {enc : α → List UInt8} {rd : Mem → Nat → β} {val : α → β}
    {xs : List α} {n : UInt64} {b : List UInt8} (h : Table e sec size (xs.flatMap enc)) (hsz : ∀ x, (enc x).length = size)
    (hlt : size < 18446744073709551616) (hpos : 0 < size) (hread : ∀ x ∈ xs, ∀ m a, At m a (enc x) → rd m a = val x)
    (hr : readTable e sec = some (n, b)) : n.toNat = xs.length ∧ readArray size rd (memOf b) 0 n.toNat = xs.map val := by
  obtain ⟨rfl, s, ht, -⟩ := readTable_eq_some.mp hr
  obtain rfl := table_data_eq h (by rw [getSectionData_eq, ht]; rfl)
  have hcount : (tableCount e sec).toNat = xs.length := by
    rw [table_count h hlt hpos, flatMap_length xs hsz, Nat.mul_div_cancel_left _ hpos]
  rw [hcount]
  exact ⟨rfl, array_read hsz hread⟩

theorem table_records_present {α : Type} {e : Elf} {sec : Metadata.Name} {size : Nat} {enc : α → List UInt8} {xs : List α}
    (h : Table e sec size (xs.flatMap enc)) (hsz : ∀ x, (enc x).length = size) (hlt : size < 18446744073709551616) (hpos : 0 < size)
    (hne : xs ≠ []) : Present e sec := by
  apply table_present h hlt hpos
  rw [flatMap_length xs hsz]
  exact Nat.le_mul_of_pos_right _ (List.length_pos_of_ne_nil hne)

/-- The arch-specific table may be empty, but it is there. -/
theorem table_archPresent {e : Elf} {bs : List UInt8} (h : Table e stArchLive sizeofArchLiveValue bs) : ArchPresent e := by
  obtain ⟨scn, hscn, hent, hsize, hdata⟩ := h.scn
  refine ⟨scn, hscn, ?_⟩
  by_cases hnil : bs = []
  · refine .inl ?_
    have hzero : scn.shdr.shSize = 0 := by
      apply UInt64.toNat_inj.mp
      rw [hsize, hnil]
      rfl
    rw [NonEmpty, hent, hzero]
    decide
  · rw [if_neg hnil] at hdata
    exact .inr (by rw [hdata]; rfl)

theorem table_values {α : Type} {e : Elf} {sec : Metadata.Name} {size : Nat} {enc : α → List UInt8} {rd : Mem → Nat → α} {xs : List α} {n : UInt64}
    {b : List UInt8} (h : Table e sec size (xs.flatMap enc)) (hsz : ∀ x, (enc x).length = size) (hlt : size < 18446744073709551616)
    (hpos : 0 < size) (hread : ∀ x ∈ xs, ∀ m a, At m a (enc x) → rd m a = x) (hr : readTable e sec = some (n, b)) :
    n.toNat = xs.length ∧ readArray size rd (memOf b) 0 n.toNat = xs := by
  obtain ⟨hn, hrec⟩ : n.toNat = xs.length ∧ readArray size rd (memOf b) 0 n.toNat = xs.map id := table_records h hsz hlt hpos hread hr
  exact ⟨hn, by rw [hrec, List.map_id]⟩

/-! ## The file that is made -/

/-- What the file holds of the metadata `md` and of the linked sections. -/
structure MetadataTables (arch : Arch) (os : List ObjectFile) (md : CallSiteMetadata) (padding : Nat → UInt16) (e : Elf) : Prop where
  small : ∀ scn ∈ e.scns, ∀ b, scn.data = some (some b) → b.length < 18446744073709551615
  machine : ∃ ehdr, elf64Getehdr e = some ehdr ∧ machineArch ehdr.eMachine = some arch
  unwindAddrs : Table e stUnwindAddr sizeofUnwindAddr ((rebuilt os).flatMap UnwindAddr.bytes)
  unwindLocs : Table e stUnwind sizeofUnwindLoc ((linkedUnwind (unwindObjects os)).flatMap UnwindLoc.bytes)
  sitesId : Table e stId sizeofCallSite ((Layout.sortedById (Layout.paddedSites padding md.sites)).flatMap fun s => s.1.bytes s.2)
  sitesAddr : Table e stAddr sizeofCallSite
    ((Layout.sortedByAddr (Layout.sortedById (Layout.paddedSites padding md.sites))).flatMap fun s => s.1.bytes s.2)
  liveVals : Table e stLive sizeofLiveValue (md.live.flatMap LiveValue.bytes)
  archLiveVals : Table e stArchLive sizeofArchLiveValue (md.archLive.flatMap ArchLiveValue.bytes)

theorem locNum_program {os : List ObjectFile} {sm : List StackMapSection} (h : List.Forall₂ ReadsAs (calls os) (records sm)) :
    Layout.locNum sm = ((calls os).map (·.2.locations.length)).sum := by
  have heq : List.Forall₂ (fun p q => p = q) ((calls os).map (·.2.locations.length)) ((records sm).map (·.2.locations.length)) := by
    rw [List.forall₂_map_left_iff, List.forall₂_map_right_iff]
    exact h.imp fun p q hpq => hpq.call.locations.length_eq
  rw [List.forall₂_eq_eq_eq] at heq
  rw [heq]
  rfl

theorem archNum_program {os : List ObjectFile} {sm : List StackMapSection} (h : List.Forall₂ ReadsAs (calls os) (records sm)) :
    Layout.archNum sm = ((calls os).map (·.2.vals.length)).sum := by
  have heq : List.Forall₂ (fun p q => p = q) ((calls os).map (·.2.vals.length)) ((records sm).map (·.2.archLive.length)) := by
    rw [List.forall₂_map_left_iff, List.forall₂_map_right_iff]
    exact h.imp fun p q hpq => hpq.call.archLive.length_eq
  rw [List.forall₂_eq_eq_eq] at heq
  rw [heq]
  rfl

/-- The sizes of the metadata follow from the program. -/
theorem blankItems_program {os : List ObjectFile} {sm : List StackMapSection} (h : List.Forall₂ ReadsAs (calls os) (records sm)) :
    blankItems (sitesNum sm) (Layout.locNum sm) (Layout.archNum sm) = programItems os := by
  rw [programItems, locNum_program h, archNum_program h, h.length_eq, records_length]

theorem reopen_small {out : Elf} {image : List UInt8} (hf : FileOf out image) :
    ∀ scn ∈ (reopen out image).scns, ∀ b, scn.data = some (some b) → b.length < 18446744073709551615 := by
  intro scn hscn b hb
  obtain ⟨u, hu, rfl⟩ := List.mem_map.mp hscn
  have hle : b.length ≤ image.length := by
    dsimp only at hb
    unfold elfGetdata at hb
    dsimp only at hb
    split at hb
    · cases hb
    · split at hb
      · cases hb
      · split at hb
        · cases hb
        · split at hb
          · cases hb
          · obtain rfl := Option.some.inj (Option.some.inj hb)
            rw [List.length_take, List.length_drop]
            omega
  have hsmall := hf.small
  omega

/-- The file of a run in a linked file with room. -/
theorem LinkedFile.tables {arch : Arch} {startId : UInt64} {os : List ObjectFile} {f : ElfFile} (hlf : LinkedFile arch os f)
    {sm : List StackMapSection} (hread : List.Forall₂ ReadsAs (calls os) (records sm)) {padding : Nat → UInt16} {out : Elf}
    {image : List UInt8} (hrun : Layout.genStackinfo arch sm startId padding f.elf = .ok out) (hroom : HasRoom f (programItems os)) (hf : FileOf out image) :
    ∃ md, createCallSiteMetadata arch startId sm (rebuilt os) = .ok md ∧ MetadataTables arch os md padding (reopen out image) := by
  obtain ⟨i, s, hlinked⟩ := hlf.addrs
  obtain ⟨f', md, b, d, hr⟩ := hlinked.ran hrun
  have hl : Layout.LaidOut out := by
    rw [hr.room_iff, blankItems_program hread]
    exact hroom
  have hb := Layout.metadataBuffers_some hr.buffers
  obtain ⟨u, v, hu, hv, ho, hent, hstr, hlocs⟩ := hlf.locs
  have hitem {it : Layout.Item} (hit : it ∈ Layout.items sectionPrefix b) : Table (reopen out image) it.name it.entrySize it.buf :=
    hr.itemTable hl hf hit (hlf.fresh it.name (Layout.item_name hit))
  simp only [Layout.items, List.mem_cons, List.not_mem_nil, or_false, forall_eq_or_imp, forall_eq] at hitem
  obtain ⟨hid, haddr, hlive, harch⟩ := hitem
  refine ⟨md, hr.created, reopen_small hf, ?_, hr.unwindTable hl hf, ?_, ?_, ?_, ?_, ?_⟩
  · obtain ⟨k, tab, -, -, -, hfill⟩ := hr.filled
    obtain ⟨ehdr, hd, hout, hclass, -⟩ := Layout.layout_ehdr hr.layout
    have hsame : some ehdr = some f.ehdr := by
      rw [← hd, hfill.ehdr, ← hr.updated.ehdr]
      rfl
    obtain rfl := Option.some.inj hsame
    have hget : elf64Getehdr (reopen out image) = some { f.ehdr with eShoff := Layout.eShoff out } := by
      show out.ehdr.filter _ = _
      rw [hout]
      exact Option.filter_eq_some_iff.mpr ⟨rfl, (Option.filter_eq_some_iff.mp hclass).2⟩
    exact ⟨_, hget, hlf.machine⟩
  · rw [← hlocs]
    exact hr.otherTable hl hf hu hv ho hent hstr (by decide)
  · rw [← Layout.siteBytes, ← hb.idSites]
    exact hid
  · rw [← Layout.siteBytes, ← hb.addrSites]
    exact haddr
  · rw [← hb.liveVals]
    exact hlive
  · rw [← hb.archlive]
    exact harch

/-- The records of the sites have 64-bit offsets. -/
theorem sites_fit {arch : Arch} {startId : UInt64} {sm : List StackMapSection} {t : List UnwindAddr} {md : CallSiteMetadata}
    (h : createCallSiteMetadata arch startId sm t = .ok md) (hlive : md.live.length < 18446744073709551616)
    (harch : md.archLive.length < 18446744073709551616) : ∀ site ∈ md.sites, site.Fits := by
  obtain ⟨st, hb, rfl⟩ := create_built h
  intro site hmem
  obtain ⟨k, hk⟩ := List.mem_iff_getElem?.mp hmem
  have hlt : k < (records sm).length := hb.length ▸ (List.getElem?_eq_some_iff.mp hk).1
  have hq := List.getElem?_eq_getElem hlt
  have hof := hb.site k _ site hq hk
  have hl := slice_le (f := fun p : StackMapSection × CallSiteRecord => p.2.locations) hq
  have ha := slice_le (f := fun p : StackMapSection × CallSiteRecord => p.2.archLive) hq
  rw [← hb.locs, ← hof.liveOffset] at hl
  rw [← hb.archlive, ← hof.archLiveOffset] at ha
  dsimp only at hlive harch
  constructor
  case unwindOffset =>
    obtain ⟨ua, -, hoff⟩ := Option.map_eq_some_iff.mp hof.unwind
    have hlt32 := ua.unwindOffset.toNat_lt
    omega
  case liveOffset => omega
  case archLiveOffset => omega

theorem sortedById_sites (padding : Nat → UInt16) (sites : List CallSite) :
    (Layout.sortedById (Layout.paddedSites padding sites)).map Prod.fst = qsortId sites := by
  conv_rhs => rw [qsortId, ← Layout.paddedSites_map padding sites]
  apply List.map_insertionSort
  exact fun _ _ _ _ => Iff.rfl

theorem sortedByAddr_sites (padding : Nat → UInt16) (sites : List CallSite) :
    (Layout.sortedByAddr (Layout.sortedById (Layout.paddedSites padding sites))).map Prod.fst = qsortAddr (qsortId sites) := by
  rw [qsortAddr, ← sortedById_sites padding sites]
  apply List.map_insertionSort
  exact fun _ _ _ _ => Iff.rfl

section
variable {arch : Arch} {os : List ObjectFile} {md : CallSiteMetadata} {padding : Nat → UInt16} {e : Elf} {hd : Handle}
  (ht : MetadataTables arch os md padding e) (ho : OpensAs e hd)

include ht in
theorem MetadataTables.lengths : md.live.length < 18446744073709551616 ∧ md.archLive.length < 18446744073709551616 := by
  have hlive := ht.liveVals.small
  have harch := ht.archLiveVals.small
  rw [flatMap_length _ LiveValue.bytes_length] at hlive
  rw [flatMap_length _ ArchLiveValue.bytes_length] at harch
  have h12 : sizeofLiveValue = 12 := rfl
  have h20 : sizeofArchLiveValue = 20 := rfl
  rw [h12] at hlive
  rw [h20] at harch
  omega

include ht ho in
theorem MetadataTables.arch_eq : hd.arch = arch := by
  obtain ⟨fn, sys, oe, h, hsys, rfl, hinit, hdec⟩ := ho
  obtain ⟨oe', hopens, -, ehdr, hehdr, harch⟩ := stInit_eq_some hinit
  obtain rfl := Option.some.inj (hsys.symm.trans hopens.elfBegin)
  obtain ⟨ehdr', hehdr', hmachine⟩ := ht.machine
  obtain rfl := Option.some.inj (hehdr.symm.trans hehdr')
  have hdecoded := hdec.arch
  rw [harch, hmachine] at hdecoded
  exact (Option.some.inj hdecoded).symm

include ht in
/-- No table that a handle needs is empty. -/
theorem MetadataTables.present (haddrs : rebuilt os ≠ []) (hlocs : linkedUnwind (unwindObjects os) ≠ []) (hsites : md.sites ≠ [])
    (hlive : md.live ≠ []) : MandatoryPresent e := by
  have hid : Layout.sortedById (Layout.paddedSites padding md.sites) ≠ [] := by
    rw [← List.length_pos_iff, Layout.sortedById_length, Layout.paddedSites_length]
    exact List.length_pos_of_ne_nil hsites
  have haddr : Layout.sortedByAddr (Layout.sortedById (Layout.paddedSites padding md.sites)) ≠ [] := by
    rw [← List.length_pos_iff, Layout.sortedByAddr_length]
    exact List.length_pos_of_ne_nil hid
  constructor
  · intro m hm
    simp only [mandatory, List.mem_cons, List.not_mem_nil, or_false] at hm
    rcases hm with rfl | rfl | rfl | rfl
    · exact table_records_present ht.unwindAddrs UnwindAddr.bytes_length (by decide) (by decide) haddrs
    · exact table_records_present ht.unwindLocs UnwindLoc.bytes_length (by decide) (by decide) hlocs
    · exact table_records_present ht.sitesId (fun s => s.1.bytes_length s.2) (by decide) (by decide) hid
    · exact table_records_present ht.liveVals LiveValue.bytes_length (by decide) (by decide) hlive
  · obtain ⟨t, htable, -⟩ := table_records_present ht.sitesAddr (fun s => s.1.bytes_length s.2) (by decide) (by decide) haddr
    rw [htable]
    rfl

/-- A record of the call sites reads back as the site. -/
def ReadsBack (s : CallSite × UInt16) : Prop := ∀ m a, At m a (s.1.bytes s.2) → readCallSite m a = s.1

theorem sites_read (padding : Nat → UInt16) {sites : List CallSite} (hfits : ∀ site ∈ sites, site.Fits) :
    (∀ s ∈ Layout.sortedById (Layout.paddedSites padding sites), ReadsBack s) ∧
      ∀ s ∈ Layout.sortedByAddr (Layout.sortedById (Layout.paddedSites padding sites)), ReadsBack s := by
  have hid : ∀ s ∈ Layout.sortedById (Layout.paddedSites padding sites), ReadsBack s := by
    intro s hs m a hat
    have hperm : ((Layout.sortedById (Layout.paddedSites padding sites)).map Prod.fst).Perm sites := by
      rw [sortedById_sites]
      exact List.perm_insertionSort _ _
    exact readCallSite_bytes (hfits s.1 (hperm.mem_iff.mp (List.mem_map_of_mem hs))) hat
  exact ⟨hid, fun s hs => hid s ((List.perm_insertionSort _ _).mem_iff.mp hs)⟩

section
variable {h : StHandle} (hof : HandleOf e h)

include ht hof in
theorem MetadataTables.read_sites (hfits : ∀ site ∈ md.sites, site.Fits) :
    readArray sizeofCallSite readCallSite (memOf h.sitesId) 0 h.sitesCount.toNat = qsortId md.sites ∧
      readArray sizeofCallSite readCallSite (memOf h.sitesAddr) 0 h.sitesCount.toNat = qsortAddr (qsortId md.sites) := by
  obtain ⟨hreadId, hreadAddr⟩ := sites_read padding hfits
  obtain ⟨hn, hid⟩ := table_records ht.sitesId (fun s => s.1.bytes_length s.2) (by decide) (by decide) hreadId hof.sitesId
  constructor
  · rw [hid, sortedById_sites]
  · have hdata := table_data_eq ht.sitesAddr hof.sitesAddr
    have hnum : h.sitesCount.toNat = (Layout.sortedByAddr (Layout.sortedById (Layout.paddedSites padding md.sites))).length := by
      rw [hn, Layout.sortedByAddr_length]
    rw [hdata, hnum, array_read (fun s => s.1.bytes_length s.2) hreadAddr, sortedByAddr_sites]

include ht hof in
theorem MetadataTables.read_liveVals : h.liveValsCount.toNat = md.live.length ∧
    readArray sizeofLiveValue readLiveValue (memOf h.liveVals) 0 h.liveValsCount.toNat = md.live :=
  table_values ht.liveVals LiveValue.bytes_length (by decide) (by decide) (fun _ _ _ _ hat => readLiveValue_bytes hat) hof.liveVals

include ht hof in
/-- A handle without arch-specific records has no data of them either. -/
theorem MetadataTables.read_archLiveVals :
    readArray sizeofArchLiveValue readArchLiveValue (memOf (h.archLiveVals.getD [])) 0 h.archLiveValsCount.toNat = md.archLive := by
  have hread := hof.archLiveVals
  unfold readArchTable at hread
  by_cases hpos : tableCount e stArchLive > 0
  · rw [if_pos hpos] at hread
    obtain ⟨b, hb, heq⟩ := Option.map_eq_some_iff.mp hread
    obtain ⟨hcount, hptr⟩ := Prod.mk.inj heq
    rw [← hptr, ← hcount]
    refine (table_values ht.archLiveVals ArchLiveValue.bytes_length (by decide) (by decide)
      (fun _ _ _ _ hat => readArchLiveValue_bytes hat) ?_).2
    rw [readTable, if_pos hpos, hb]
    rfl
  · rw [if_neg hpos] at hread
    obtain ⟨hcount, -⟩ := Prod.mk.inj (Option.some.inj hread)
    have hzero : h.archLiveValsCount.toNat = 0 := by
      rw [← hcount]
      exact Nat.eq_zero_of_not_pos fun h0 => hpos (UInt64.lt_iff_toNat_lt.mpr h0)
    have hnum := table_count ht.archLiveVals (by decide) (by decide)
    rw [hcount, hzero, flatMap_length _ ArchLiveValue.bytes_length, Nat.mul_div_cancel_left _ (by decide)] at hnum
    rw [hzero, List.length_eq_zero_iff.mp hnum.symm]
    rfl

end

include ht ho in
/-- The handle holds the records that were made. -/
theorem MetadataTables.opened {startId : UInt64} {sm : List StackMapSection}
    (hmd : createCallSiteMetadata arch startId sm (rebuilt os) = .ok md) :
    Opened hd (rebuilt os) ⟨qsortId md.sites, qsortAddr (qsortId md.sites), md.live, md.archLive⟩ (linkedUnwind (unwindObjects os)) := by
  obtain ⟨hlive, harch⟩ := ht.lengths
  obtain ⟨fn, sys, oe, h, hsys, rfl, hinit, hdec⟩ := ho
  obtain ⟨oe', hopens, hof, -⟩ := stInit_eq_some hinit
  obtain rfl := Option.some.inj (hsys.symm.trans hopens.elfBegin)
  obtain ⟨hid, haddr⟩ := ht.read_sites hof (sites_fit hmd hlive harch)
  obtain ⟨hnum, hrec⟩ := ht.read_liveVals hof
  constructor
  case unwindAddrs =>
    rw [hdec.unwindAddrs]
    exact (table_values ht.unwindAddrs UnwindAddr.bytes_length (by decide) (by decide)
      (fun _ _ _ _ hat => readUnwindAddr_bytes hat) hof.unwindAddrs).2
  case sitesId => rw [hdec.sitesId, hid]
  case sitesAddr => rw [hdec.sitesAddr, haddr]
  case unwindLocs =>
    rw [hdec.unwindLocs]
    exact (table_values ht.unwindLocs UnwindLoc.bytes_length (by decide) (by decide)
      (fun _ _ _ _ hat => readUnwindLoc_bytes hat) hof.unwindLocs).2
  case liveValsCount => rw [hdec.liveValsCount, hnum]
  case liveVals =>
    intro i v hv
    apply hdec.liveVals
    rw [hrec]
    exact hv
  case archLiveVals => rw [hdec.archLiveVals, ht.read_archLiveVals hof]

end

/-! ## What the runtime finds -/

section
variable {L : Llvm} {arch : Arch} {startId : UInt64} {size : UInt64 → Nat} {os : List ObjectFile} {e : Elf} {hd : Handle}
  (hp : Program startId size os) (h : Makes L arch startId os e)

theorem Program.table_ne (hp : Program startId size os) : rebuilt os ≠ [] := by
  intro hnil
  have hlen := (rebuilt_addrs os).length_eq
  rw [List.length_map, List.length_map, hnil] at hlen
  exact hp.linked (List.length_eq_zero_iff.mp hlen.symm)

include hp h in
/-- What the file that was made holds. -/
theorem Makes.tables : ∃ sm md padding, List.Forall₂ ReadsAs (calls os) (records sm) ∧
    createCallSiteMetadata arch startId sm (rebuilt os) = .ok md ∧ MetadataTables arch os md padding e := by
  obtain ⟨f, m, buf, sm, padding, out, image, hlf, hbuf, hat, hsm, hrun, hroom, hf, rfl⟩ := h
  obtain ⟨sm', hsm', hread⟩ := linked_decodes hbuf (fun o ho => (hp.recorded o ho).fits) hat
  obtain rfl := Except.ok.inj (hsm.symm.trans hsm')
  obtain ⟨md, hmd, htables⟩ := hlf.tables hread hrun hroom hf
  exact ⟨sm, md, padding, hread, hmd, htables⟩

include hp h in
theorem Makes.arch_eq (ho : OpensAs e hd) : hd.arch = arch := by
  obtain ⟨sm, md, padding, -, -, ht⟩ := h.tables hp
  exact ht.arch_eq ho

include hp h in
theorem Makes.found (ho : OpensAs e hd) : CallsFound arch startId os hd := by
  obtain ⟨sm, md, padding, hread, hmd, ht⟩ := h.tables hp
  refine hp.calls_found hread ?_ (ht.opened ho hmd)
  have hne : (rebuilt os).isEmpty = false := by
    rw [Bool.eq_false_iff, ne_eq, List.isEmpty_iff]
    exact Program.table_ne hp
  unfold addSections
  dsimp only
  rw [hne, if_neg (by decide), hmd]

include hp in
/-- gen-stackinfo writes the file of every program that libelf can write. -/
theorem LinkedFile.run_ok {f : ElfFile} (hlf : LinkedFile arch os f) (hw : Writable f (programItems os)) {m : Mem} {buf : Nat}
    (hbuf : buf % 8 = 0) (hat : At m buf (linkedStackmaps L os)) :
    ∃ sm, initStackmap m (some ⟨(linkedStackmaps L os).length, 1, buf⟩) = .ok sm ∧
      ∀ padding, ∃ out, Layout.genStackinfo arch sm startId padding f.elf = .ok out := by
  obtain ⟨sm, hsm, hread⟩ := linked_decodes hbuf (fun o ho => (hp.recorded o ho).fits) hat
  obtain ⟨md, hmd⟩ := hp.created hread arch
  obtain ⟨i, s, hlinked⟩ := hlf.addrs
  have hne : linkedAddrRange (unwindObjects os) ≠ [] := by
    intro hnil
    have hlen := linkedAddrRange_length (unwindObjects os)
    rw [hnil] at hlen
    exact hp.linked (List.length_eq_zero_iff.mp hlen.symm)
  refine ⟨sm, hsm, fun padding => hlinked.run_ok hne hlf.fresh ?_ hmd padding⟩
  rw [blankItems_program hread]
  exact hw

end

/-- The compiler's call sites and the runtime's are the same: gen-stackinfo writes the file of a
    linked program, and in the file that it makes, when there is room for the metadata, the runtime
    finds each call site by its return address and its ID, with what the compiler recorded for it, and
    it finds nothing else. -/
theorem call_sites_found (L : Llvm) (arch : Arch) (startId : UInt64) (size : UInt64 → Nat) (os : List ObjectFile)
    (hp : Program startId size os) :
    (∀ f, LinkedFile arch os f → Writable f (programItems os) → ∀ m buf, buf % 8 = 0 → At m buf (linkedStackmaps L os) →
      ∃ sm, initStackmap m (some ⟨(linkedStackmaps L os).length, 1, buf⟩) = .ok sm ∧
        ∀ padding, ∃ out, Layout.genStackinfo arch sm startId padding f.elf = .ok out) ∧
    ∀ e hd, Makes L arch startId os e → OpensAs e hd → CallsFound arch startId os hd := by
  constructor
  · intro f hlf hw m buf hbuf hat
    exact hlf.run_ok hp hw hbuf hat
  · intro e hd hmade ho
    exact hmade.found hp ho

/-! ## A program of two functions -/

/-- The tables as records, with an empty one past the last live value. -/
def decoded (arch : Arch) (h : StHandle) : Handle where
  arch := arch
  unwindAddrs := readArray sizeofUnwindAddr readUnwindAddr (memOf h.unwindAddrs) 0 h.unwindAddrCount.toNat
  unwindLocs := readArray sizeofUnwindLoc readUnwindLoc (memOf h.unwindLocs) 0 h.unwindCount.toNat
  sitesId := readArray sizeofCallSite readCallSite (memOf h.sitesId) 0 h.sitesCount.toNat
  sitesAddr := readArray sizeofCallSite readCallSite (memOf h.sitesAddr) 0 h.sitesCount.toNat
  liveVals i := (readArray sizeofLiveValue readLiveValue (memOf h.liveVals) 0 h.liveValsCount.toNat).getD i
    ⟨false, false, false, false, 0, 0, 0, 0, 0⟩
  liveValsCount := h.liveValsCount.toNat
  archLiveVals := readArray sizeofArchLiveValue readArchLiveValue (memOf (h.archLiveVals.getD [])) 0 h.archLiveValsCount.toNat
  sites_len := by simp only [readArray, List.length_map, List.length_range]

theorem decoded_decodes {arch : Arch} {h : StHandle} (harch : machineArch h.arch = some arch) : Decodes h (decoded arch h) where
  arch := harch
  unwindAddrs := rfl
  unwindLocs := rfl
  sitesId := rfl
  sitesAddr := rfl
  liveValsCount := rfl
  liveVals i v hv := by
    show List.getD _ i _ = v
    rw [List.getD_eq_getElem?_getD, hv]
    rfl
  archLiveVals := rfl

theorem decoded_end (arch : Arch) (h : StHandle) : ((decoded arch h).liveVals (decoded arch h).liveValsCount).isDuplicate = false := by
  have hlen : (readArray sizeofLiveValue readLiveValue (memOf h.liveVals) 0 h.liveValsCount.toNat).length = h.liveValsCount.toNat := by
    simp only [readArray, List.length_map, List.length_range]
  show LiveValue.isDuplicate (List.getD _ h.liveValsCount.toNat _) = false
  rw [List.getD_eq_getElem?_getD, List.getElem?_eq_none (Nat.le_of_eq hlen)]
  rfl

section
variable {L : Llvm} {arch : Arch} {startId : UInt64} {size : UInt64 → Nat} {os : List ObjectFile} {f : ElfFile} {e : Elf}
  (hp : Program startId size os)

include hp in
theorem LinkedFile.makes (hlf : LinkedFile arch os f) (hw : Writable f (programItems os)) (hroom : HasRoom f (programItems os)) (L : Llvm) :
    ∃ e, Makes L arch startId os e := by
  have hat := at_store (fun _ => 0) 0 (linkedStackmaps L os)
  obtain ⟨sm, hsm, hruns⟩ := hlf.run_ok hp hw (Nat.zero_mod 8) hat
  obtain ⟨out, hrun⟩ := hruns fun _ => 0
  obtain ⟨i, s, hlinked⟩ := hlf.addrs
  obtain ⟨f', md, b, d, hr⟩ := hlinked.ran hrun
  obtain ⟨image, hf⟩ := Layout.exists_file hr.update
  exact ⟨_, f, _, 0, sm, fun _ => 0, out, image, hlf, rfl, hat, hsm, hrun, hroom, hf, rfl⟩

include hp in
/-- A file with calls and live values can be opened. -/
theorem Makes.opens (h : Makes L arch startId os e) (hcalls : calls os ≠ []) (hlive : 0 < ((calls os).map (·.2.locations.length)).sum)
    (hlocs : linkedUnwind (unwindObjects os) ≠ []) :
    ∃ hd, OpensAs e hd ∧ (hd.liveVals hd.liveValsCount).isDuplicate = false := by
  obtain ⟨sm, md, padding, hread, hmd, ht⟩ := h.tables hp
  obtain ⟨hsites, hnum, -⟩ := Layout.metadata_lengths hmd
  have hsitesNe : md.sites ≠ [] := by
    rw [← List.length_pos_iff, hsites, ← records_length, ← hread.length_eq]
    exact List.length_pos_of_ne_nil hcalls
  have hliveNe : md.live ≠ [] := by
    rw [← List.length_pos_iff, hnum, locNum_program hread]
    exact hlive
  obtain ⟨ehdr, hehdr, hmachine⟩ := ht.machine
  have hopens : Opens (some "") ⟨true, 0, some ⟨e, ht.small⟩⟩ ⟨e, ht.small⟩ :=
    ⟨rfl, rfl, Int.le_refl 0, rfl, ehdr, hehdr, by rw [hmachine]; rfl⟩
  have hpresent := ht.present (Program.table_ne hp) hlocs hsitesNe hliveNe
  obtain ⟨h, hinit⟩ := Option.isSome_iff_exists.mp (stInit_isSome hopens hpresent (table_archPresent ht.archLiveVals))
  obtain ⟨oe, hoe, -, ehdr', hehdr', harch⟩ := stInit_eq_some hinit
  obtain rfl := Option.some.inj hoe.elfBegin
  obtain rfl := Option.some.inj (hehdr.symm.trans hehdr')
  exact ⟨decoded arch h, ⟨some "", _, _, h, rfl, rfl, hinit, decoded_decodes (by rw [harch, hmachine])⟩, decoded_end arch h⟩

end

/-- The second function saves a register of its own. -/
def twoSaved (fbp ra keep : UInt32) : SymMap (List RegOffset) :=
  ⟨[(10, [⟨fbp, 0⟩, ⟨ra, 8⟩, ⟨keep, -8⟩]), (20, [⟨fbp, 0⟩, ⟨ra, 8⟩])], by simp⟩

/-- The second function in memory order comes first in the object file; the first one is a start
    function. The pointer has one record on x86_64 and two on aarch64. -/
def twoFunctions : Arch → ObjectFile
  | .x86_64 => {
      unwind := ⟨twoSaved 6 16 3, fun s => if s = 10 then 0x2000 else 0x1000⟩
      fnStackSize := [(20, 24), (10, 40)]
      constPool := []
      csInfos := [⟨20, 0x10, uint64Max, [], [], []⟩,
        ⟨10, 0x20, 7, [⟨.direct, 8, 6, -24, true, true, false, 8⟩, ⟨.indirect, 8, 6, -32, true, false, false, 0⟩], [], []⟩] }
  | .aarch64 => {
      unwind := ⟨twoSaved 29 30 19, fun s => if s = 10 then 0x2000 else 0x1000⟩
      fnStackSize := [(20, 32), (10, 64)]
      constPool := []
      csInfos := [⟨20, 0x14, uint64Max, [], [], []⟩,
        ⟨10, 0x24, 7, [⟨.direct, 8, 29, -16, true, true, false, 8⟩, ⟨.register, 8, 19, 0, true, false, false, 0⟩,
          ⟨.indirect, 8, 29, -32, true, false, true, 0⟩], [], []⟩] }

theorem twoFunctions_fits (a : Arch) : (twoFunctions a).module.Fits := by
  have hempty : ∀ c ∈ (twoFunctions a).csInfos, c.locations.length ≤ 65535 ∧ c.liveOuts = [] ∧ c.vals = [] := by
    cases a <;> decide
  have hloc : ∀ c ∈ (twoFunctions a).csInfos, ∀ l ∈ c.locations, l.size.toNat < 256 ∧ l.reg.toNat < 65536 ∧
      -2147483648 ≤ l.offset.toInt ∧ l.offset.toInt < 2147483648 := by
    cases a <;> decide
  refine ⟨by cases a <;> decide, by cases a <;> decide, by cases a <;> decide, ?_⟩
  intro c hc
  obtain ⟨hlen, houts, hvals⟩ := hempty c hc
  refine ⟨hlen, by simp [houts], by simp [hvals], ?_, by simp [houts], by simp [hvals]⟩
  intro l hl
  obtain ⟨h1, h2, h3, h4⟩ := hloc c hc l hl
  exact ⟨h1, h2, h3, h4⟩

theorem twoFunctions_recorded (a : Arch) : (twoFunctions a).Recorded where
  keys := by cases a <;> decide
  sized := by
    have hkeys : ∀ c ∈ (twoFunctions a).csInfos, c.func ∈ (twoFunctions a).fnStackSize.map Prod.fst := by cases a <;> decide
    intro c hc
    obtain ⟨f, hf, hfst⟩ := List.mem_map.mp (hkeys c hc)
    exact ⟨f.2, hfst ▸ hf⟩
  unwind := by
    have hkeys : ∀ f ∈ (twoFunctions a).fnStackSize, f.1 ∈ (twoFunctions a).unwind.funcCalleeSaved.entries.map Prod.fst := by cases a <;> decide
    intro f hf
    obtain ⟨e, he, hfst⟩ := List.mem_map.mp (hkeys f hf)
    exact ⟨e.2, hfst ▸ he⟩
  fits := twoFunctions_fits a

theorem twoFunctions_program (a : Arch) : Program 100 (fun _ => 0x100) [twoFunctions a] where
  recorded o ho := by
    obtain rfl := List.mem_singleton.mp ho
    exact twoFunctions_recorded a
  linked := by cases a <;> decide
  nonempty _ _ := by decide
  addressable := by cases a <;> decide
  apart := by cases a <;> decide
  saved := by cases a <;> decide
  numRecords := by cases a <;> decide
  frames := by cases a <;> decide
  inside := by cases a <;> decide
  addrs := by cases a <;> decide
  reserved := by cases a <;> decide
  ids := by cases a <;> decide

def twoNames : List UInt8 := [0] ++ cstr ".shstrtab" ++ [0] ++ stUnwindAddr ++ [0] ++ stUnwind ++ [0]

def twoMachine : Arch → UInt16
  | .x86_64 => 62
  | .aarch64 => 183

/-- The linked file: the table of functions, the unwinding records, and the section names behind them. -/
def twoFile (a : Arch) : ElfFile where
  image := List.replicate 64 0 ++ Layout.tableBytes (linkedAddrRange (unwindObjects [twoFunctions a])) ++
    (linkedUnwind (unwindObjects [twoFunctions a])).flatMap UnwindLoc.bytes ++ twoNames ++ List.replicate 256 0
  ehdr := ⟨elfclass64, twoMachine a, 182, 3⟩
  shdrs := [⟨0, shtNull, 0, 0, 0, 0⟩, ⟨11, shtProgbits, 64, 32, 0, 16⟩, ⟨42, shtProgbits, 96, 20, 0, 4⟩, ⟨1, shtStrtab, 116, 66, 0, 0⟩]
  small := by cases a <;> decide +kernel
  inFile := by cases a <;> decide +kernel
  disjoint := by cases a <;> decide +kernel
  names := by
    intro i s hi hs
    obtain rfl : 3 = i := Option.some.inj hi
    obtain rfl := Option.some.inj hs
    decide
  apart := Layout.apart_of_none (by cases a <;> decide +kernel)

theorem twoFile_fresh (a : Arch) : Fresh (twoFile a) := by
  have hnone : ∀ name ∈ metaNames, getSection (twoFile a).elf name = none := by cases a <;> decide +kernel
  exact hnone

theorem twoFile_linked (a : Arch) :
    Linked (twoFile a) 1 ⟨11, shtProgbits, 64, 32, 0, 16⟩ (linkedAddrRange (unwindObjects [twoFunctions a])) where
  index := by cases a <;> decide +kernel
  shdr := rfl
  occupies := by decide
  entsize := rfl
  contents := by cases a <;> decide +kernel
  apart := by cases a <;> decide +kernel
  named := by
    intro k tab hn
    have hn' : Layout.NameTable (twoFile a).elf 3 twoNames :=
      ⟨rfl, by decide, ⟨1, shtStrtab, 116, 66, 0, 0⟩, by cases a <;> decide +kernel, rfl, by decide +kernel⟩
    obtain ⟨rfl, rfl⟩ := Layout.nameTable_unique hn' hn
    have hoffs : (twoFile a).elf.scns.tail.map (·.shdr.shName) = [11, 42, 1] := rfl
    unfold Layout.Named
    rw [hoffs, List.forall_mem_cons, List.forall_mem_cons, List.forall_mem_singleton]
    exact ⟨by decide +kernel, by decide +kernel, by decide +kernel⟩
  metadata := by
    intro name hname j s hj
    rw [twoFile_fresh a name hname] at hj
    cases hj

theorem twoFile_program (a : Arch) : LinkedFile a [twoFunctions a] (twoFile a) where
  machine := by cases a <;> rfl
  addrs := ⟨_, _, twoFile_linked a⟩
  locs := ⟨2, ⟨42, shtProgbits, 96, 20, 0, 4⟩, by cases a <;> decide +kernel, rfl, by decide, rfl, by cases a <;> decide +kernel,
    by cases a <;> decide +kernel⟩
  fresh := twoFile_fresh a

theorem twoFile_writable (a : Arch) : Writable (twoFile a) (programItems [twoFunctions a]) where
  class64 := rfl
  readable := by
    have hall : ∀ u ∈ (twoFile a).shdrs, u.shType ≠ shtNull → u.shOffset.toNat ≤ (twoFile a).image.length := by cases a <;> decide +kernel
    exact hall
  sized := by cases a <;> decide +kernel
  bounded := by cases a <;> decide +kernel

theorem twoFile_room (a : Arch) : HasRoom (twoFile a) (programItems [twoFunctions a]) := by cases a <;> decide +kernel

/-- A handle of the file that gen-stackinfo makes. -/
theorem twoFile_opens (a : Arch) : ∃ e hd, Makes documentedLlvm a 100 [twoFunctions a] e ∧ OpensAs e hd ∧
    (hd.liveVals hd.liveValsCount).isDuplicate = false := by
  obtain ⟨e, hmade⟩ := (twoFile_program a).makes (twoFunctions_program a) (twoFile_writable a) (twoFile_room a) documentedLlvm
  obtain ⟨hd, hopens, hend⟩ := hmade.opens (twoFunctions_program a) (by cases a <;> decide) (by cases a <;> decide) (by cases a <;> decide)
  exact ⟨e, hd, hmade, hopens, hend⟩

theorem call_sites_found_two : ∃ e hd site, Makes documentedLlvm .x86_64 100 [twoFunctions .x86_64] e ∧ OpensAs e hd ∧
    getSiteByAddr hd 0x2020 = some site ∧ getSiteById hd site.id = some site ∧
    (hd.unwindLocs.drop site.unwindOffset).take site.numUnwind.toNat = [⟨6, 0⟩, ⟨16, 8⟩, ⟨3, -8⟩] ∧ site.frameSize.toNat = 48 := by
  obtain ⟨-, hall⟩ := call_sites_found documentedLlvm .x86_64 100 (fun _ => 0x100) [twoFunctions .x86_64] (twoFunctions_program _)
  obtain ⟨e, hd, hmade, hopens, -⟩ := twoFile_opens .x86_64
  obtain ⟨site, hsite⟩ := (hall e hd hmade hopens).found 1 _ rfl
  exact ⟨e, hd, site, hmade, hopens, hsite.byAddr, hsite.byId, hsite.unwind _ List.mem_cons_self, hsite.frame 40 (by decide)⟩

end Popcorn.Runtime
