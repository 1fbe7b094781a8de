/-
  Popcorn.Metadata.Tool — gen-stackinfo on an ELF file, and the file that it writes
  (tool/stack_metadata/src/{main,write,util}.c).

  `genStackinfo` is the driver after `init_stackmap`: `update_function_addr` rewrites the table of
  functions in its section's buffer, and `add_sections` makes the metadata from that buffer and
  writes the file. `call_site` buffers are malloc'ed, and the padding of a record keeps what
  malloc left there: `padding k` for the `k`th.

  `FileOf` is the file once it is written: libelf cuts it off where its sections and header
  tables end. `reopen` is the descriptor of that file.

  Proved:
  - `updateFunctionAddr_table`: the buffer is rewritten as `updateFunctionAddr` says of the records.
  - `exists_patched`: to rewrite a section in the descriptor is to rewrite it in the file.
-/

import Popcorn.Lib.StableSort
import Popcorn.Metadata.ElfLayout
import Popcorn.Metadata.Records
import Popcorn.Metadata.UnwindTable

namespace Popcorn.Metadata.Layout

open Popcorn.Lib

/-! ## Model -/

/-- The loop of `update_function_addr`, in the section's buffer `ua`, from record `i` on. -/
def updateLoop : Nat → Mem → UInt64 → Nat → Mem
  | 0, ua, _, _ => ua
  | n + 1, ua, curOffset, i =>
    let ua := store ua (sizeofUnwindAddr * i + 12) (leBytes 4 curOffset.toUInt32.toNat)
    updateLoop n ua (curOffset + (u32At ua (sizeofUnwindAddr * i + 8)).toUInt64) (i + 1)

/-- `qsort` with `sort_unwind_addr`; records of one address keep their order. -/
def qsortRecords (ua : Mem) (numRecords recordSize : Nat) : List (List UInt8) :=
  (readArray recordSize (fun m a => load m a recordSize) ua 0 numRecords).insertionSort
    fun a b => leVal (a.take 8) ≤ leVal (b.take 8)

/-- `update_function_addr`. -/
def updateFunctionAddr (sec : Name) (e : Elf) : Except Ret Elf :=
  match getSection e sec with
  | none => .error .findSectionFailed
  | some i =>
    match e.scns[i]? with
    | none => .error .readElfFailed
    | some scn =>
      if scn.shdr.shSize = 0 ∨ scn.shdr.shEntsize = 0 then .error .invalidMetadata
      else
        match scn.data.join with
        | none => .error .readElfFailed
        | some ua =>
          let numRecords := (scn.shdr.shSize / scn.shdr.shEntsize).toNat
          let recordSize := scn.shdr.shEntsize.toNat
          let records := qsortRecords (updateLoop numRecords (memOf ua) 0 0) numRecords recordSize
          updateSection e i ⟨sec, recordSize, records.flatten⟩

/-- The call sites as `qsort` and `memcpy` move them, with their padding. -/
def siteBytes (sites : List (CallSite × UInt16)) : List UInt8 := sites.flatMap fun s => s.1.bytes s.2

def paddedSites (padding : Nat → UInt16) (sites : List CallSite) : List (CallSite × UInt16) :=
  sites.zipIdx.map fun s => (s.1, padding s.2)

def sortedById (sites : List (CallSite × UInt16)) : List (CallSite × UInt16) := sites.insertionSort fun a b => a.1.id ≤ b.1.id

def sortedByAddr (sites : List (CallSite × UInt16)) : List (CallSite × UInt16) := sites.insertionSort fun a b => a.1.addr ≤ b.1.addr

/-- The arrays that `add_sections` writes; no `malloc` gives 2^64 bytes. -/
def metadataBuffers (padding : Nat → UInt16) (md : CallSiteMetadata) : Option Buffers :=
  let idSites := sortedById (paddedSites padding md.sites)
  if h : ∀ buf ∈ [siteBytes idSites, siteBytes (sortedByAddr idSites), md.live.flatMap LiveValue.bytes,
      md.archLive.flatMap ArchLiveValue.bytes], buf.length < 18446744073709551616 then
    some ⟨siteBytes idSites, siteBytes (sortedByAddr idSites), md.live.flatMap LiveValue.bytes,
      md.archLive.flatMap ArchLiveValue.bytes, h⟩
  else none

/-- `create_call_site_metadata` on the section's buffer, with the sorts; what it does at a function
    index out of range is left open in C, and is failure here. -/
def createMetadata (arch : Arch) (sm : List StackMapSection) (startId : UInt64) (padding : Nat → UInt16) (unwind : List UInt8)
    (numUnwind : UInt64) : Option Buffers :=
  match createCallSiteMetadata arch startId sm (readArray sizeofUnwindAddr readUnwindAddr (memOf unwind) 0 numUnwind.toNat) with
  | .error _ => none
  | .ok md => metadataBuffers padding md

/-- `main` of gen-stackinfo, with the stackmaps decoded. -/
def genStackinfo (arch : Arch) (sm : List StackMapSection) (startId : UInt64) (padding : Nat → UInt16) (e : Elf) : Except Ret Elf := do
  let e ← updateFunctionAddr unwindName e
  addSections (createMetadata arch sm startId padding) sectionPrefix unwindName e

/-- `loc_num` and `arch_num` of `create_call_site_metadata`, over all stackmaps. -/
def locNum (sm : List StackMapSection) : Nat := ((records sm).map (·.2.locations.length)).sum

def archNum (sm : List StackMapSection) : Nat := ((records sm).map (·.2.archLive.length)).sum

/-- The four sections for these numbers of records, without what is written to them. -/
def blankItems (numSites numLive numArchLive : Nat) : List Item :=
  [⟨secName sectionPrefix sectionId, sizeofCallSite, List.replicate (sizeofCallSite * numSites) 0⟩,
    ⟨secName sectionPrefix sectionAddr, sizeofCallSite, List.replicate (sizeofCallSite * numSites) 0⟩,
    ⟨secName sectionPrefix sectionLive, sizeofLiveValue, List.replicate (sizeofLiveValue * numLive) 0⟩,
    ⟨secName sectionPrefix sectionArch, sizeofArchLiveValue, List.replicate (sizeofArchLiveValue * numArchLive) 0⟩]

/-- The file after `elf_update`. -/
structure FileOf (e : Elf) (image : List UInt8) : Prop where
  written : ∃ m, Written e m ∧ image = load m 0 image.length
  sections : ∀ scn ∈ e.scns, scn.shdr.shType ≠ shtNull → scn.shdr.shOffset.toNat + (extent scn.shdr).2 ≤ image.length
  table : (eShoff e).toNat + sizeofShdr * e.scns.length ≤ image.length
  small : image.length < 9223372036854775808

/-- `elf_begin` on the written file. -/
def reopen (e : Elf) (image : List UInt8) : Elf := ⟨e.ehdr, cookScns (fun _ b => some b) image (e.scns.map (·.shdr))⟩

/-! ## The table of functions -/

theorem at_store_disj {m : Mem} {a b : Nat} {bs ws : List UInt8} (h : At m a bs) (hd : a + bs.length ≤ b ∨ b + ws.length ≤ a) :
    At (store m b ws) a bs := by
  unfold At at *
  rw [load_store_disj m hd, h]

def tableBytes (t : List UnwindAddr) : List UInt8 := t.flatMap UnwindAddr.bytes

theorem tableBytes_length (t : List UnwindAddr) : (tableBytes t).length = sizeofUnwindAddr * t.length :=
  flatMap_length t UnwindAddr.bytes_length

theorem tableBytes_append (s t : List UnwindAddr) : tableBytes (s ++ t) = tableBytes s ++ tableBytes t := List.flatMap_append

/-- The loop writes the running sums of the counts. -/
theorem updateLoop_table (t : List UnwindAddr) : ∀ (done : List UnwindAddr) (m : Mem) (cur : UInt64), At m 0 (tableBytes (done ++ t)) →
    At (updateLoop t.length m cur done.length) 0 (tableBytes (done ++ updateOffsets cur t)) := by
  induction t with
  | nil => exact fun _ _ _ h => h
  | cons ua t ih =>
    intro done m cur h
    have hsplit (u : UnwindAddr) : tableBytes (done ++ u :: t) = tableBytes done ++ (u.bytes ++ tableBytes t) := by
      rw [tableBytes_append]
      rfl
    rw [hsplit, at_append, at_append, Nat.zero_add, tableBytes_length, UnwindAddr.bytes_length] at h
    obtain ⟨hdone, hua, hrest⟩ := h
    simp only [UnwindAddr.bytes, at_append, List.length_append, leBytes_length, Nat.reduceAdd] at hua
    obtain ⟨⟨haddr, hnum⟩, hoff⟩ := hua
    have hlen : (tableBytes done).length = sizeofUnwindAddr * done.length := tableBytes_length done
    have h16 : sizeofUnwindAddr = 16 := rfl
    -- the record with its new offset
    have hstored : At (store m (sizeofUnwindAddr * done.length + 12) (leBytes 4 cur.toUInt32.toNat)) 0
        (tableBytes (done ++ { ua with unwindOffset := cur.toUInt32 } :: t)) := by
      rw [hsplit, at_append, at_append, Nat.zero_add, tableBytes_length, UnwindAddr.bytes_length]
      refine ⟨at_store_disj hdone (.inl (by omega)), ?_, at_store_disj hrest (.inr (by rw [leBytes_length]; omega))⟩
      simp only [UnwindAddr.bytes, at_append, List.length_append, leBytes_length, Nat.reduceAdd]
      exact ⟨⟨at_store_disj haddr (.inl (by rw [leBytes_length]; omega)), at_store_disj hnum (.inl (by rw [leBytes_length]))⟩,
        at_store _ _ _⟩
    have hnum' : u32At (store m (sizeofUnwindAddr * done.length + 12) (leBytes 4 cur.toUInt32.toNat)) (sizeofUnwindAddr * done.length + 8) =
        ua.numUnwind := u32At_bytes (at_store_disj hnum (.inl (by rw [leBytes_length])))
    rw [List.append_cons] at hstored
    have hih := ih (done ++ [{ ua with unwindOffset := cur.toUInt32 }]) _ (cur + ua.numUnwind.toUInt64) hstored
    rw [List.length_cons, updateLoop]
    rw [hnum', updateOffsets, List.append_cons]
    rwa [List.length_append, List.length_singleton] at hih

/-- Sorting the records' bytes sorts the records. -/
theorem qsortRecords_table {m : Mem} {t : List UnwindAddr} (h : At m 0 (tableBytes t)) :
    (qsortRecords m t.length sizeofUnwindAddr).flatten = tableBytes (qsortUnwindAddr t) := by
  have hchunks : readArray sizeofUnwindAddr (fun m a => load m a sizeofUnwindAddr) m 0 t.length = t.map UnwindAddr.bytes := by
    have hall : List.Forall₂ (fun (ua : UnwindAddr) bs => ua.bytes = bs) t
        (readArray sizeofUnwindAddr (fun m a => load m a sizeofUnwindAddr) m 0 t.length) := by
      refine readArray_emit UnwindAddr.bytes_length t 0 ?_ h
      intro ua _ a hat
      unfold At at hat
      rw [UnwindAddr.bytes_length] at hat
      exact hat.symm
    rw [← List.forall₂_map_left_iff, List.forall₂_eq_eq_eq] at hall
    exact hall.symm
  have hkey (ua : UnwindAddr) : leVal (ua.bytes.take 8) = ua.addr.toNat := by
    have htake : ua.bytes.take 8 = leBytes 8 ua.addr.toNat := by
      unfold UnwindAddr.bytes
      rw [List.append_assoc, List.take_left' (leBytes_length _ _)]
    rw [htake, leVal_leBytes]
    exact Nat.mod_eq_of_lt ua.addr.toNat_lt
  rw [qsortRecords, hchunks, qsortUnwindAddr, tableBytes, List.flatMap]
  congr 1
  symm
  apply List.map_insertionSort
  intro a _ b _
  rw [hkey, hkey, UInt64.le_iff_toNat_le]

/-- A section that holds a table of functions. -/
structure HoldsTable (scn : Scn) (t : List UnwindAddr) : Prop where
  data : scn.data = some (some (tableBytes t))
  size : scn.shdr.shSize.toNat = sizeofUnwindAddr * t.length
  entsize : scn.shdr.shEntsize = 16
  ne : t ≠ []

theorem HoldsTable.size_ne {scn : Scn} {t : List UnwindAddr} (h : HoldsTable scn t) : scn.shdr.shSize ≠ 0 := by
  intro hz
  have hpos := List.length_pos_of_ne_nil h.ne
  have hsize := h.size
  rw [hz] at hsize
  change 0 = 16 * t.length at hsize
  omega

theorem HoldsTable.count {scn : Scn} {t : List UnwindAddr} (h : HoldsTable scn t) : (scn.shdr.shSize / scn.shdr.shEntsize).toNat = t.length := by
  rw [UInt64.toNat_div, h.size, h.entsize]
  exact Nat.mul_div_cancel_left _ (by decide)

/-- `update_function_addr` on the section of a table. -/
theorem updateFunctionAddr_table {e : Elf} {sec : Name} {i : Nat} {scn : Scn} {t : List UnwindAddr} (hi : getSection e sec = some i)
    (hscn : e.scns[i]? = some scn) (ht : HoldsTable scn t) :
    updateFunctionAddr sec e =
      .ok { e with scns := e.scns.set i ⟨scn.shdr, some (some (tableBytes (qsortUnwindAddr (updateOffsets 0 t))))⟩ } := by
  have hloop := updateLoop_table t [] (memOf (tableBytes t)) 0 (at_memOf _)
  rw [List.nil_append, List.length_nil] at hloop
  have hlen : (updateOffsets 0 t).length = t.length := by
    have hr := congrArg List.length (updateOffsets_range t 0)
    rwa [List.length_map, List.length_map] at hr
  have hsorted := qsortRecords_table hloop
  rw [hlen] at hsorted
  have hent : scn.shdr.shEntsize.toNat = sizeofUnwindAddr := by
    rw [ht.entsize]
    rfl
  have hnz : ¬ (scn.shdr.shSize = 0 ∨ scn.shdr.shEntsize = 0) := by
    rw [ht.entsize]
    exact not_or.mpr ⟨ht.size_ne, by decide⟩
  have hbuf : (tableBytes (qsortUnwindAddr (updateOffsets 0 t))).length = scn.shdr.shSize.toNat := by
    rw [tableBytes_length, (qsortUnwindAddr_perm _).length_eq, hlen, ht.size]
  obtain ⟨shdr, data⟩ := scn
  obtain rfl := ht.data
  unfold updateFunctionAddr
  simp only [hi, hscn, if_neg hnz, Option.join_some, ht.count, hent, hsorted, updateSection, hbuf, UInt64.ofNat_toNat]

/-! ## A section rewritten in place -/

theorem load_slice {m : Mem} {n a k : Nat} (h : a + k ≤ n) : ((load m 0 n).drop a).take k = load m a k := by
  obtain ⟨d, rfl⟩ := Nat.exists_eq_add_of_le h
  rw [load_add, load_add, List.append_assoc, List.drop_left' (load_length m 0 a), Nat.zero_add, List.take_left' (load_length m a k)]

theorem image_load (image : List UInt8) : load (memOf image) 0 image.length = image := at_memOf image

/-- What `elf_getdata` reads of a section that lies in the file. -/
theorem elfGetdata_load {image : List UInt8} {m : Mem} {s : Shdr} (hm : image = load m 0 image.length)
    (hsmall : image.length < 9223372036854775808) (ho : Occupies s) (hin : s.shOffset.toNat + s.shSize.toNat ≤ image.length) :
    elfGetdata (fun _ b => some b) image s =
      if s.shSize = 0 then some none else some (some (load m s.shOffset.toNat s.shSize.toNat)) := by
  have hlen : (UInt64.ofNat image.length).toNat = image.length := by
    rw [UInt64.toNat_ofNat', Nat.mod_eq_of_lt (by omega)]
  have hoff : ¬ UInt64.ofNat image.length < s.shOffset := by
    rw [UInt64.lt_iff_toNat_lt, hlen]
    omega
  have hend : ¬ UInt64.ofNat image.length < s.shOffset + s.shSize := by
    rw [UInt64.lt_iff_toNat_lt, hlen, UInt64.toNat_add, Nat.mod_eq_of_lt (by omega)]
    omega
  have hcond : (s.shType = shtNobits ∨ s.shSize = 0) ↔ s.shSize = 0 := or_iff_right ho.2
  have hslice : (image.drop s.shOffset.toNat).take s.shSize.toNat = load m s.shOffset.toNat s.shSize.toNat := by
    rw [hm]
    exact load_slice hin
  simp only [elfGetdata, if_neg ho.1, if_neg hoff, if_neg hend, hcond, hslice, Option.map_some]

/-- Of a section without bytes it reads only whether it lies in the file. -/
theorem elfGetdata_length {image image' : List UInt8} {s : Shdr} (hlen : image.length = image'.length) (ho : ¬ Occupies s) :
    elfGetdata (fun _ b => some b) image s = elfGetdata (fun _ b => some b) image' s := by
  have htype : s.shType ≠ shtNull → s.shType = shtNobits := by
    intro hn
    by_contra hb
    exact ho ⟨hn, hb⟩
  unfold elfGetdata
  rw [hlen]
  by_cases hn : s.shType = shtNull
  · rw [if_pos hn, if_pos hn]
  · simp only [htype hn, true_or, if_true]

/-- The names that are found do not change with the data of a section that is not theirs. -/
theorem getSection_set {e : Elf} {i : Nat} {s : Shdr} {d d' : Option ElfData} (hi : e.scns[i]? = some ⟨s, d⟩)
    (hk : elfGetshdrstrndx e ≠ some i) (sec : Name) : getSection { e with scns := e.scns.set i ⟨s, d'⟩ } sec = getSection e sec := by
  have hstr : elfGetshdrstrndx { e with scns := e.scns.set i ⟨s, d'⟩ } = elfGetshdrstrndx e := by
    apply shdrstrndx_set
    intro s' hs'
    obtain rfl := Option.some.inj (hi.symm.trans hs')
    rfl
  have hnames : (e.scns.set i ⟨s, d'⟩).map (·.shdr.shName) = e.scns.map (·.shdr.shName) := map_set_same hi rfl
  have hloop (k : Nat) (hki : k ≠ i) : ∀ (j : Nat) (xs ys : List Scn), xs.map (·.shdr.shName) = ys.map (·.shdr.shName) →
      getSectionLoop { e with scns := e.scns.set i ⟨s, d'⟩ } k sec j xs = getSectionLoop e k sec j ys := by
    have hptr (off : UInt32) : elfStrptr { e with scns := e.scns.set i ⟨s, d'⟩ } k off = elfStrptr e k off := by
      unfold elfStrptr
      rw [List.getElem?_set_ne (Ne.symm hki)]
    intro j xs
    induction xs generalizing j with
    | nil =>
      intro ys h
      obtain rfl := List.map_eq_nil_iff.mp h.symm
      rfl
    | cons x xs ih =>
      intro ys h
      cases ys with
      | nil => cases h
      | cons y ys =>
        rw [List.map_cons, List.map_cons, List.cons.injEq] at h
        rw [getSectionLoop, getSectionLoop, hptr, h.1, ih (j + 1) ys h.2]
  unfold getSection
  rw [hstr]
  split
  · rfl
  · next k hkk =>
    refine hloop k ?_ 1 _ _ ?_
    · rintro rfl
      exact hk hkk
    · rw [List.map_tail, List.map_tail, hnames]

theorem ElfFile.apart_sections (f : ElfFile) {i j : Nat} {s s' : Shdr} (hi : f.shdrs[i]? = some s) (hj : f.shdrs[j]? = some s')
    (hij : i ≠ j) : (extent s).Apart (extent s') := by
  have hpair := (List.pairwise_append.mp f.disjoint).1
  rw [List.pairwise_map] at hpair
  have hget {k : Nat} {u : Shdr} (hk : f.shdrs[k]? = some u) : ∃ scn, f.elf.scns[k]? = some scn ∧ scn.shdr = u :=
    ⟨_, elf_getElem? hk, rfl⟩
  obtain ⟨x, hx, rfl⟩ := hget hi
  obtain ⟨y, hy, rfl⟩ := hget hj
  obtain ⟨hilt, rfl⟩ := List.getElem?_eq_some_iff.mp hx
  obtain ⟨hjlt, rfl⟩ := List.getElem?_eq_some_iff.mp hy
  have hall := List.pairwise_iff_getElem.mp hpair
  obtain hlt | hlt := Nat.lt_or_gt_of_ne hij
  · exact hall i j hilt hjlt hlt
  · exact (hall j i hjlt hilt hlt).symm

/-- Rewriting a section in the descriptor is rewriting it in the file. -/
theorem exists_patched (f : ElfFile) {i : Nat} {s : Shdr} {bs : List UInt8} (hi : f.shdrs[i]? = some s) (ho : Occupies s)
    (hz : s.shSize ≠ 0) (hk : elfGetshdrstrndx f.elf ≠ some i) (hlen : bs.length = s.shSize.toNat) :
    ∃ f' : ElfFile, f'.image.length = f.image.length ∧ f'.ehdr = f.ehdr ∧ f'.shdrs = f.shdrs ∧
      f'.elf = { f.elf with scns := f.elf.scns.set i ⟨s, some (some bs)⟩ } := by
  have hin := f.inFile s (List.mem_of_getElem? hi) ho
  have himg : f.image = load (memOf f.image) 0 f.image.length := (image_load f.image).symm
  -- the file with the section's bytes replaced
  obtain ⟨image, hm⟩ : ∃ image, image = load (store (memOf f.image) s.shOffset.toNat bs) 0 f.image.length := ⟨_, rfl⟩
  have hlen' : image.length = f.image.length := by rw [hm, load_length]
  have himg' : image = load (store (memOf f.image) s.shOffset.toNat bs) 0 image.length := by rw [hlen', hm]
  have hsmall : image.length < 9223372036854775808 := by
    rw [hlen']
    exact f.small
  have hscns : cookScns (fun _ b => some b) image f.shdrs = f.elf.scns.set i ⟨s, some (some bs)⟩ := by
    apply List.ext_getElem?
    intro j
    by_cases hj : j = i
    · subst hj
      have hdata : elfGetdata (fun _ b => some b) image s = some (some bs) := by
        rw [elfGetdata_load himg' hsmall ho (by rwa [hlen']), if_neg hz, ← hlen, load_store_same]
      have hlt := (List.getElem?_eq_some_iff.mp (elf_getElem? hi)).1
      rw [List.getElem?_set_self hlt, cookScns, List.getElem?_map, hi, Option.map_some, hdata]
    · rw [List.getElem?_set_ne (Ne.symm hj)]
      simp only [ElfFile.elf, openElf, cookScns, List.getElem?_map]
      cases hs' : f.shdrs[j]? with
      | none => rfl
      | some s' =>
        rw [Option.map_some, Option.map_some]
        congr 2
        by_cases ho' : Occupies s'
        · have hin' := f.inFile s' (List.mem_of_getElem? hs') ho'
          rw [elfGetdata_load himg' hsmall ho' (by rwa [hlen']), elfGetdata_load himg f.small ho' hin']
          split
          · rfl
          · next hz' =>
            have hpair := f.apart_sections hi hs' (Ne.symm hj)
            rw [extent, extent, if_pos ho, if_pos ho'] at hpair
            have h1 : s.shSize.toNat ≠ 0 := fun h => hz (UInt64.toNat_inj.mp h)
            have h2 : s'.shSize.toNat ≠ 0 := fun h => hz' (UInt64.toNat_inj.mp h)
            rw [load_store_disj]
            unfold Range.Apart at hpair
            rw [hlen]
            dsimp only at hpair
            omega
        · exact elfGetdata_length hlen' ho'
  have helf : openElf image f.ehdr f.shdrs = { f.elf with scns := f.elf.scns.set i ⟨s, some (some bs)⟩ } := by
    rw [openElf, hscns]
    rfl
  have hstr : elfGetshdrstrndx { f.elf with scns := f.elf.scns.set i ⟨s, some (some bs)⟩ } = elfGetshdrstrndx f.elf := by
    apply shdrstrndx_set
    intro s' hs'
    obtain rfl := Option.some.inj ((elf_getElem? hi).symm.trans hs')
    rfl
  refine ⟨⟨image, f.ehdr, f.shdrs, hsmall, ?_, ?_, ?_, ?_⟩, hlen', rfl, rfl, helf⟩
  · intro s' hs' ho'
    rw [hlen']
    exact f.inFile s' hs' ho'
  · have hext : extents (openElf image f.ehdr f.shdrs) = extents (openElf f.image f.ehdr f.shdrs) := by
      simp only [extents, tableExtent, eShoff, openElf, cookScns, List.map_map, Function.comp_def, List.length_map]
    rw [LaidOut, hext]
    exact f.disjoint
  · rw [helf, hstr]
    exact f.names
  · rw [helf]
    intro name hname k hstrk
    rw [hstr] at hstrk
    rw [getSection_set (elf_getElem? hi) hk]
    exact f.apart name hname k hstrk

end Popcorn.Metadata.Layout
