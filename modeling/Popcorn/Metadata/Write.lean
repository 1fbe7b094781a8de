/-
  Popcorn.Metadata.Write — gen-stackinfo's metadata (tool/stack_metadata/src/write.c).

  `createCallSiteMetadata` turns the decoded stackmaps into one call-site record per
  stackmap record, in order: a reserved ID is kept, any other record takes the next ID
  from `start_id`; the record's locations are appended to the live section and its
  arch-specific values to the arch section, at running offsets. `addSections` sorts the
  sites by ID and, in a copy, by return address.

  A stackmap record whose function index is out of range makes the C code read past
  the function records; here that is `outOfBounds`.

  Proved:
  - `create_built`: what the metadata holds, record by record (`Built`).
  - `createCallSiteMetadata_ok`: it fails only on an index out of range or an address
    no unwind record covers.
  - `call_site_ids_agree`: two binaries whose stackmaps correspond get the same IDs,
    and in each a generated ID names one site and is never reserved.
-/

import Mathlib.Data.List.Sort
import Popcorn.Lib.Concat
import Popcorn.Lib.Run
import Popcorn.Metadata.Stackmap

namespace Popcorn.Metadata

open Popcorn.Lib

/-! ## Model -/

/-- `cfa_correction`: x86-64's call pushes the return address. -/
def cfaCorrection (arch : Arch) (size : UInt64) : UInt64 :=
  match arch with
  | .x86_64 => size + 8
  | .aarch64 => size

/-- `IN_RANGE`. -/
def inRange (addrs : List UnwindAddr) (idx : Nat) (addr : UInt64) : Bool :=
  match addrs[idx]?, addrs[idx + 1]? with
  | some lo, some hi => decide (lo.addr ≤ addr) && decide (addr < hi.addr)
  | _, _ => false

/-- The loop of `get_func_unwind_data`; a window of `num` entries is empty after at most
    `num` rounds. -/
def getFuncUnwindLoop (addr : UInt64) (addrs : List UnwindAddr) : Nat → Int → Int → Option UnwindAddr
  | 0, _, _ => none
  | fuel + 1, min, max =>
    if max ≥ min then
      let mid := ((max + min) / 2).toNat
      match addrs[mid]? with
      | none => none
      | some ua =>
        if mid = addrs.length - 1 then if ua.addr ≤ addr then some ua else none
        else if inRange addrs mid addr then some ua
        else if addr > ua.addr then getFuncUnwindLoop addr addrs fuel (mid + 1) max
        else getFuncUnwindLoop addr addrs fuel min (mid - 1)
    else none

def getFuncUnwindData (addr : UInt64) (addrs : List UnwindAddr) : Option UnwindAddr :=
  getFuncUnwindLoop addr addrs addrs.length 0 ((addrs.length : Int) - 1)

/-- The IDs that mark start functions: `UINT64_MAX`, `UINT64_MAX - 1`, `UINT64_MAX - 2`. -/
def reservedId (id : UInt64) : Bool := id == uint64Max || id == uint64Max - 1 || id == uint64Max - 2

inductive CreateErr where
  /-- `get_func_unwind_data` found nothing: the function returns false. -/
  | noUnwindData
  | outOfBounds
  deriving DecidableEq, Repr

/-- The loop's variables: `start_id`, `loc_num`, `arch_num` and the three arrays up to
    where they are filled. -/
structure Populate where
  startId : UInt64
  locNum : Nat
  archNum : Nat
  sites : List CallSite
  locs : List LiveValue
  archlive : List ArchLiveValue
  deriving DecidableEq, Repr

def populateRecord (arch : Arch) (addrs : List UnwindAddr) (sm : StackMapSection) (st : Populate) (r : CallSiteRecord) :
    Except CreateErr Populate :=
  match sm.functionRecords[r.funcIdx.toNat]? with
  | none => .error .outOfBounds
  | some fr =>
    let keep := reservedId r.id
    let addr := fr.funcAddr + r.offset.toUInt64
    match getFuncUnwindData addr addrs with
    | none => .error .noUnwindData
    | some ua =>
      let site : CallSite :=
        { id := if keep then r.id else st.startId
          addr := addr
          frameSize := (cfaCorrection arch fr.stackSize).toUInt32
          numUnwind := fr.numUnwind.toUInt16
          unwindOffset := ua.unwindOffset.toNat
          numLive := r.numLocations
          liveOffset := st.locNum
          numArchLive := r.numArchLive
          archLiveOffset := st.archNum }
      .ok
        { startId := if keep then st.startId else st.startId + 1
          locNum := st.locNum + site.numLive.toNat
          archNum := st.archNum + site.numArchLive.toNat
          sites := st.sites ++ [site]
          locs := st.locs ++ r.locations.take site.numLive.toNat
          archlive := st.archlive ++ r.archLive.take site.numArchLive.toNat }

/-- What the sizing loops allocate: the number of call sites. -/
def sitesNum (sm : List StackMapSection) : Nat := (sm.map (·.callSites.length)).sum

structure CallSiteMetadata where
  numSites : Nat
  sites : List CallSite
  live : List LiveValue
  archLive : List ArchLiveValue
  deriving DecidableEq, Repr

def createCallSiteMetadata (arch : Arch) (startId : UInt64) (sm : List StackMapSection) (addrs : List UnwindAddr) :
    Except CreateErr CallSiteMetadata := do
  let st ← sm.foldlM (fun st s => s.callSites.foldlM (populateRecord arch addrs s) st) ⟨startId, 0, 0, [], [], []⟩
  .ok ⟨sitesNum sm, st.sites, st.locs, st.archlive⟩

/-- The four sections: sites by ID, sites by address, live values, arch-specific values. -/
structure Sections where
  idSites : List CallSite
  addrSites : List CallSite
  liveVals : List LiveValue
  archlive : List ArchLiveValue
  deriving DecidableEq, Repr

/-- `qsort` with `sort_id`; the order of equal keys is unspecified in C. -/
def qsortId (sites : List CallSite) : List CallSite := sites.insertionSort (fun a b => a.id ≤ b.id)

/-- `qsort` with `sort_addr`. -/
def qsortAddr (sites : List CallSite) : List CallSite := sites.insertionSort (fun a b => a.addr ≤ b.addr)

inductive AddErr where
  | findSectionFailed
  | invalidMetadata
  | createMetadataFailed
  | outOfBounds
  deriving DecidableEq, Repr

/-- The sections `add_sections` writes, given the unwind address section. -/
def addSections (arch : Arch) (sm : List StackMapSection) (startId : UInt64) (unwind : Option (List UnwindAddr)) :
    Except AddErr Sections :=
  match unwind with
  | none => .error .findSectionFailed
  | some addrs =>
    if addrs.isEmpty then .error .invalidMetadata
    else
      match createCallSiteMetadata arch startId sm addrs with
      | .error .noUnwindData => .error .createMetadataFailed
      | .error .outOfBounds => .error .outOfBounds
      | .ok md =>
        let idSites := qsortId md.sites
        .ok ⟨idSites, qsortAddr idSites, md.live, md.archLive⟩

/-! ## Records in order -/

/-- The records with their sections, in the order the loops visit them. -/
def records (sm : List StackMapSection) : List (StackMapSection × CallSiteRecord) :=
  sm.flatMap fun s => s.callSites.map (s, ·)

/-- A record's return address. -/
def returnAddr (p : StackMapSection × CallSiteRecord) : Option UInt64 :=
  p.1.functionRecords[p.2.funcIdx.toNat]?.map fun fr => fr.funcAddr + p.2.offset.toUInt64

/-- The number of generated IDs among the first `k` records. -/
def generated (rs : List (StackMapSection × CallSiteRecord)) (k : Nat) : Nat :=
  (rs.take k).countP fun p => !reservedId p.2.id

/-- The ID the `k`-th record ends up with. -/
def finalId (startId : UInt64) (rs : List (StackMapSection × CallSiteRecord)) (k : Nat)
    (p : StackMapSection × CallSiteRecord) : UInt64 :=
  if reservedId p.2.id then p.2.id else startId + UInt64.ofNat (generated rs k)

/-- `site` is the call site of record `p`, at position `k` of `rs`. -/
structure SiteOf (arch : Arch) (startId : UInt64) (addrs : List UnwindAddr) (rs : List (StackMapSection × CallSiteRecord))
    (k : Nat) (p : StackMapSection × CallSiteRecord) (site : CallSite) : Prop where
  id : site.id = finalId startId rs k p
  addr : some site.addr = returnAddr p
  unwind : (getFuncUnwindData site.addr addrs).map (·.unwindOffset.toNat) = some site.unwindOffset
  frame : ∀ fr, p.1.functionRecords[p.2.funcIdx.toNat]? = some fr →
    site.frameSize = (cfaCorrection arch fr.stackSize).toUInt32 ∧ site.numUnwind = fr.numUnwind.toUInt16
  numLive : site.numLive.toNat = p.2.locations.length
  liveOffset : site.liveOffset = sliceStart (·.2.locations) rs k
  numArchLive : site.numArchLive.toNat = p.2.archLive.length
  archLiveOffset : site.archLiveOffset = sliceStart (·.2.archLive) rs k

/-- The loop's variables after the records `rs`. -/
structure Built (arch : Arch) (start : UInt64) (addrs : List UnwindAddr) (rs : List (StackMapSection × CallSiteRecord))
    (st : Populate) : Prop where
  startId : st.startId = start + UInt64.ofNat (generated rs rs.length)
  locs : st.locs = rs.flatMap (·.2.locations)
  locNum : st.locNum = st.locs.length
  archlive : st.archlive = rs.flatMap (·.2.archLive)
  archNum : st.archNum = st.archlive.length
  length : st.sites.length = rs.length
  site : ∀ k p site, rs[k]? = some p → st.sites[k]? = some site → SiteOf arch start addrs rs k p site

/-! ## One record -/

theorem numLocations_toNat (r : CallSiteRecord) : r.numLocations.toNat = r.locations.length := by
  rw [CallSiteRecord.numLocations, UInt16.toNat_ofNat', Nat.mod_eq_of_lt r.locations_lt]

theorem numArchLive_toNat (r : CallSiteRecord) : r.numArchLive.toNat = r.archLive.length := by
  rw [CallSiteRecord.numArchLive, UInt16.toNat_ofNat', Nat.mod_eq_of_lt r.archLive_lt]

theorem generated_snoc (rs : List (StackMapSection × CallSiteRecord)) (p : StackMapSection × CallSiteRecord) {k : Nat}
    (hk : k ≤ rs.length) : generated (rs ++ [p]) k = generated rs k := by
  rw [generated, generated, List.take_append_of_le_length hk]

theorem generated_succ {rs : List (StackMapSection × CallSiteRecord)} {k : Nat} {p : StackMapSection × CallSiteRecord}
    (h : rs[k]? = some p) : generated rs (k + 1) = generated rs k + if reservedId p.2.id then 0 else 1 := by
  rw [generated, generated, List.take_add_one, h, List.countP_append]
  cases hr : reservedId p.2.id <;> simp [hr]

/-- A site of the records so far stays theirs when records follow. -/
theorem SiteOf.snoc {arch : Arch} {startId : UInt64} {addrs : List UnwindAddr} {rs : List (StackMapSection × CallSiteRecord)}
    {k : Nat} {p q : StackMapSection × CallSiteRecord} {site : CallSite} (hk : k ≤ rs.length)
    (h : SiteOf arch startId addrs rs k p site) : SiteOf arch startId addrs (rs ++ [q]) k p site where
  id := by rw [h.id, finalId, finalId, generated_snoc rs q hk]
  addr := h.addr
  unwind := h.unwind
  frame := h.frame
  numLive := h.numLive
  liveOffset := by rw [h.liveOffset, sliceStart, sliceStart, List.take_append_of_le_length hk]
  numArchLive := h.numArchLive
  archLiveOffset := by rw [h.archLiveOffset, sliceStart, sliceStart, List.take_append_of_le_length hk]

/-- One round of the loop extends what was built by one record. -/
theorem populateRecord_built {arch : Arch} {startId : UInt64} {addrs : List UnwindAddr}
    {rs : List (StackMapSection × CallSiteRecord)} {p : StackMapSection × CallSiteRecord} {st st' : Populate}
    (hb : Built arch startId addrs rs st) (h : populateRecord arch addrs p.1 st p.2 = .ok st') :
    Built arch startId addrs (rs ++ [p]) st' := by
  unfold populateRecord at h
  split at h
  · cases h
  rename_i fr hfr
  simp only at h
  split at h
  · cases h
  rename_i ua hua
  cases h
  have hgen := generated_succ (show (rs ++ [p])[rs.length]? = some p by simp)
  rw [generated_snoc rs p (Nat.le_refl _)] at hgen
  refine ⟨?_, ?_, ?_, ?_, ?_, ?_, ?_⟩
  · rw [List.length_append, List.length_singleton, hgen, hb.startId]
    cases reservedId p.2.id <;> simp [UInt64.ofNat_add, UInt64.add_assoc]
  · simp [hb.locs, numLocations_toNat]
  · simp [hb.locNum, numLocations_toNat]
  · simp [hb.archlive, numArchLive_toNat]
  · simp [hb.archNum, numArchLive_toNat]
  · simp [hb.length]
  · intro k q site hq hs
    by_cases hk : k < rs.length
    · rw [List.getElem?_append_left hk] at hq
      rw [List.getElem?_append_left (by rw [hb.length]; exact hk)] at hs
      exact (hb.site k q site hq hs).snoc (Nat.le_of_lt hk)
    · -- the record just added
      have hkl : k = rs.length := by
        have := (List.getElem?_eq_some_iff.mp hq).1
        simp only [List.length_append, List.length_singleton] at this
        omega
      subst hkl
      rw [List.getElem?_append_right (Nat.le_refl _), Nat.sub_self] at hq
      rw [← hb.length, List.getElem?_append_right (Nat.le_refl _), Nat.sub_self] at hs
      cases hq
      cases hs
      refine ⟨?_, ?_, ?_, ?_, ?_, ?_, ?_, ?_⟩
      · rw [finalId, generated_snoc rs p (Nat.le_refl _), hb.startId]
      · simp [returnAddr, hfr]
      · simp [hua]
      · intro fr' hfr'
        rw [hfr] at hfr'
        cases hfr'
        exact ⟨rfl, rfl⟩
      · exact numLocations_toNat p.2
      · rw [sliceStart, List.take_append_of_le_length (Nat.le_refl _), List.take_length]
        exact hb.locNum.trans (congrArg _ hb.locs)
      · exact numArchLive_toNat p.2
      · rw [sliceStart, List.take_append_of_le_length (Nat.le_refl _), List.take_length]
        exact hb.archNum.trans (congrArg _ hb.archlive)

/-! ## The whole metadata -/

theorem records_length (sm : List StackMapSection) : (records sm).length = sitesNum sm := by
  simp [records, sitesNum, List.length_flatMap]

/-- The two nested loops are one loop over the records. -/
theorem populate_flatten (arch : Arch) (addrs : List UnwindAddr) (sm : List StackMapSection) (st : Populate) :
    sm.foldlM (fun st s => s.callSites.foldlM (populateRecord arch addrs s) st) st =
      (records sm).foldlM (fun st p => populateRecord arch addrs p.1 st p.2) st := by
  rw [records, foldlM_flatMap]
  simp only [List.foldlM_map]

/-- What the metadata holds, record by record. -/
theorem create_built {arch : Arch} {startId : UInt64} {sm : List StackMapSection} {addrs : List UnwindAddr}
    {md : CallSiteMetadata} (h : createCallSiteMetadata arch startId sm addrs = .ok md) :
    ∃ st, Built arch startId addrs (records sm) st ∧ md = ⟨sitesNum sm, st.sites, st.locs, st.archlive⟩ := by
  rw [createCallSiteMetadata, bind_ok] at h
  obtain ⟨st, hst, hmd⟩ := h
  rw [populate_flatten] at hst
  have h0 : Built arch startId addrs [] ⟨startId, 0, 0, [], [], []⟩ := by
    refine ⟨by simp [generated], rfl, rfl, rfl, rfl, rfl, ?_⟩
    intro k p site hp
    simp at hp
  have hb := foldlM_inv (fun done p s s' hd hs => populateRecord_built hd hs) (records sm) [] _ st h0 hst
  cases hmd
  exact ⟨st, hb, rfl⟩

/-- The metadata is created when every record's function exists and has unwind data. -/
theorem createCallSiteMetadata_ok {arch : Arch} {startId : UInt64} {sm : List StackMapSection} {addrs : List UnwindAddr}
    (h : ∀ p ∈ records sm, ∃ a ua, returnAddr p = some a ∧ getFuncUnwindData a addrs = some ua) :
    ∃ md, createCallSiteMetadata arch startId sm addrs = .ok md := by
  have hstep : ∀ p ∈ records sm, ∀ st, ∃ st', populateRecord arch addrs p.1 st p.2 = .ok st' := by
    intro p hp st
    obtain ⟨a, ua, ha, hua⟩ := h p hp
    simp only [returnAddr, Option.map_eq_some_iff] at ha
    obtain ⟨fr, hfr, rfl⟩ := ha
    simp only [populateRecord, hfr, hua]
    exact ⟨_, rfl⟩
  obtain ⟨st, hst⟩ := foldlM_ok hstep ⟨startId, 0, 0, [], [], []⟩
  rw [← populate_flatten] at hst
  exact ⟨_, bind_ok.mpr ⟨st, hst, rfl⟩⟩

/-! ## IDs -/

/-- The position of record `j` of section `i` in the metadata. -/
def position (sm : List StackMapSection) (i j : Nat) : Nat := sitesNum (sm.take i) + j

theorem records_position {sm : List StackMapSection} {i j : Nat} {s : StackMapSection} {r : CallSiteRecord}
    (hs : sm[i]? = some s) (hr : s.callSites[j]? = some r) : (records sm)[position sm i j]? = some (s, r) := by
  obtain ⟨hi, rfl⟩ := List.getElem?_eq_some_iff.mp hs
  have hj := (List.getElem?_eq_some_iff.mp hr).1
  have hsplit : records sm = records (sm.take i) ++ (sm[i].callSites.map (sm[i], ·) ++ records (sm.drop (i + 1))) := by
    conv_lhs => rw [← List.take_append_drop i sm, List.drop_eq_getElem_cons hi]
    simp only [records, List.flatMap_append, List.flatMap_cons]
  rw [hsplit, position, ← records_length, List.getElem?_append_right (Nat.le_add_right _ _), Nat.add_sub_cancel_left,
    List.getElem?_append_left (by simpa using hj), List.getElem?_map, hr]
  rfl

/-- Two records of corresponding positions: neither has a reserved ID, or both have the same. -/
def SameReserved (r q : CallSiteRecord) : Prop := reservedId r.id = reservedId q.id ∧ (reservedId r.id = true → r.id = q.id)
  deriving Decidable

/-- Two binaries' stackmaps correspond position by position. -/
def Corresponds (smA smB : List StackMapSection) : Prop :=
  List.Forall₂ (fun s t => List.Forall₂ SameReserved s.callSites t.callSites) smA smB

theorem records_corresponds {smA smB : List StackMapSection} (h : Corresponds smA smB) :
    List.Forall₂ (fun p q => SameReserved p.2 q.2) (records smA) (records smB) := by
  induction h with
  | nil => exact .nil
  | cons hst _ ih =>
    simp only [records, List.flatMap_cons]
    refine List.rel_append ?_ ih
    rw [List.forall₂_map_left_iff, List.forall₂_map_right_iff]
    exact hst

theorem generated_corresponds {rsA rsB : List (StackMapSection × CallSiteRecord)}
    (h : List.Forall₂ (fun p q => SameReserved p.2 q.2) rsA rsB) (k : Nat) : generated rsA k = generated rsB k := by
  have ht := List.forall₂_take k h
  simp only [generated]
  generalize rsA.take k = xs at ht
  generalize rsB.take k = ys at ht
  induction ht with
  | nil => rfl
  | cons hpq _ ih => simp only [List.countP_cons, ih, hpq.1]

theorem generated_mono (rs : List (StackMapSection × CallSiteRecord)) {k l : Nat} (h : k ≤ l) :
    generated rs k ≤ generated rs l :=
  (List.take_sublist_take_left h).countP_le

theorem generated_le (rs : List (StackMapSection × CallSiteRecord)) (k : Nat) : generated rs k ≤ rs.length := by
  have h1 := List.countP_le_length (l := rs.take k) (p := fun p => !reservedId p.2.id)
  have h2 := (List.take_sublist k rs).length_le
  simp only [generated]
  omega

theorem reservedId_ge {id : UInt64} (h : reservedId id = true) : uint64Max.toNat - 2 ≤ id.toNat := by
  simp only [reservedId, Bool.or_eq_true, beq_iff_eq] at h
  rcases h with (rfl | rfl) | rfl <;> decide

/-- A generated ID is the counter's value: below the bound it neither wraps nor reaches a
    reserved one. -/
theorem finalId_generated {startId : UInt64} {rs : List (StackMapSection × CallSiteRecord)} {k : Nat}
    {p : StackMapSection × CallSiteRecord} (hb : startId.toNat + rs.length < uint64Max.toNat - 2)
    (hr : reservedId p.2.id = false) :
    (finalId startId rs k p).toNat = startId.toNat + generated rs k ∧ reservedId (finalId startId rs k p) = false := by
  have hm : uint64Max.toNat = 18446744073709551615 := rfl
  have hle := generated_le rs k
  have hv : (finalId startId rs k p).toNat = startId.toNat + generated rs k := by
    rw [finalId, hr, if_neg (by decide), UInt64.toNat_add, UInt64.toNat_ofNat']
    omega
  refine ⟨hv, ?_⟩
  by_contra hc
  have := reservedId_ge (Bool.not_eq_false _ ▸ hc)
  omega

theorem finalId_inj {startId : UInt64} {rs : List (StackMapSection × CallSiteRecord)} {k l : Nat}
    {p q : StackMapSection × CallSiteRecord} (hb : startId.toNat + rs.length < uint64Max.toNat - 2)
    (hp : rs[k]? = some p) (hq : rs[l]? = some q) (hr : reservedId p.2.id = false)
    (he : finalId startId rs k p = finalId startId rs l q) : k = l := by
  obtain ⟨hk, hkr⟩ := finalId_generated (k := k) hb hr
  have hqr : reservedId q.2.id = false := by
    by_contra hc
    rw [he, finalId, if_pos (Bool.not_eq_false _ ▸ hc)] at hkr
    exact hc hkr
  obtain ⟨hl, -⟩ := finalId_generated (k := l) hb hqr
  have heq : generated rs k = generated rs l := by rw [he] at hk; omega
  have hks := generated_succ hp
  have hls := generated_succ hq
  rw [hr, if_neg (by decide)] at hks
  rw [hqr, if_neg (by decide)] at hls
  -- the count grows at each of the two positions
  rcases Nat.lt_trichotomy k l with hlt | rfl | hlt
  · have := generated_mono rs (show k + 1 ≤ l from hlt)
    omega
  · rfl
  · have := generated_mono rs (show l + 1 ≤ k from hlt)
    omega

/-- In one binary every record has a site, and a generated ID is not reserved and no
    other site has it. -/
structure Unambiguous (sm : List StackMapSection) (md : CallSiteMetadata) : Prop where
  total : md.sites.length = (records sm).length
  generated : ∀ (k : Nat) p (site : CallSite), (records sm)[k]? = some p → md.sites[k]? = some site →
    reservedId p.2.id = false →
      reservedId site.id = false ∧ ∀ (l : Nat) (other : CallSite), md.sites[l]? = some other → other.id = site.id → l = k

theorem create_unambiguous {arch : Arch} {startId : UInt64} {sm : List StackMapSection} {addrs : List UnwindAddr}
    {md : CallSiteMetadata} (h : createCallSiteMetadata arch startId sm addrs = .ok md)
    (hb : startId.toNat + sitesNum sm < uint64Max.toNat - 2) : Unambiguous sm md := by
  obtain ⟨st, hbuilt, rfl⟩ := create_built h
  rw [← records_length] at hb
  refine ⟨hbuilt.length, ?_⟩
  intro k p site hp hs hr
  have hid := (hbuilt.site k p site hp hs).id
  refine ⟨by rw [hid]; exact (finalId_generated hb hr).2, ?_⟩
  intro l other ho heq
  have hl : l < (records sm).length := by rw [← hbuilt.length]; exact (List.getElem?_eq_some_iff.mp ho).1
  have hq := List.getElem?_eq_getElem hl
  rw [hid, (hbuilt.site l _ other hq ho).id] at heq
  exact (finalId_inj hb hp hq hr heq.symm).symm

/-- IDs agree across binaries and are unambiguous: records at the same place of
    corresponding stackmaps get the same ID, and within each binary a generated ID is
    given to one site and is never a reserved one. -/
theorem call_site_ids_agree (archA archB : Arch) (startId : UInt64) (smA smB : List StackMapSection)
    (addrsA addrsB : List UnwindAddr) (mdA mdB : CallSiteMetadata)
    (hA : createCallSiteMetadata archA startId smA addrsA = .ok mdA)
    (hB : createCallSiteMetadata archB startId smB addrsB = .ok mdB) (hc : Corresponds smA smB)
    (hb : startId.toNat + sitesNum smA < uint64Max.toNat - 2) :
    (∀ (i j : Nat) s r, smA[i]? = some s → s.callSites[j]? = some r →
      ∃ a b, mdA.sites[position smA i j]? = some a ∧ mdB.sites[position smB i j]? = some b ∧ a.id = b.id) ∧
      Unambiguous smA mdA ∧ Unambiguous smB mdB := by
  have hrec := records_corresponds hc
  have hlen : sitesNum smA = sitesNum smB := by rw [← records_length, ← records_length]; exact hrec.length_eq
  refine ⟨?_, create_unambiguous hA hb, create_unambiguous hB (hlen ▸ hb)⟩
  intro i j s r hs hr
  obtain ⟨stA, hbA, rfl⟩ := create_built hA
  obtain ⟨stB, hbB, rfl⟩ := create_built hB
  have hpos : position smA i j = position smB i j := by
    have := (records_corresponds (List.forall₂_take i hc)).length_eq
    rw [records_length, records_length] at this
    rw [position, position, this]
  have hp := records_position hs hr
  have hkA := (List.getElem?_eq_some_iff.mp hp).1
  have hkB := hkA
  rw [hrec.length_eq] at hkB
  have hq := List.getElem?_eq_getElem hkB
  have hsame : SameReserved r (records smB)[position smA i j].2 := by
    have := hrec.get hkA hkB
    rwa [List.get_eq_getElem, (List.getElem?_eq_some_iff.mp hp).2] at this
  rw [← hbA.length] at hkA
  rw [← hbB.length] at hkB
  have ha := List.getElem?_eq_getElem hkA
  have hb' := List.getElem?_eq_getElem hkB
  refine ⟨_, _, ha, by rw [← hpos]; exact hb', ?_⟩
  rw [(hbA.site _ _ _ hp ha).id, (hbB.site _ _ _ hq hb').id, finalId, finalId, generated_corresponds hrec, hsame.1]
  split
  · rename_i hres
    exact hsame.2 (hsame.1.trans hres)
  · rfl

/-- A module of one function at `base` with a call site and the start function's. -/
def startSection (base : UInt64) : StackMapSection where
  version := 1
  reserved := 0
  reserved2 := 0
  functionRecords := [⟨base, 40, 2, 0⟩]
  constants := []
  callSites :=
    [⟨7, 0, 0x10, 0, [⟨false, false, false, false, 3, 8, 6, -24, 0⟩], [], [], by decide, by decide, by decide⟩,
     ⟨uint64Max, 0, 0x20, 0, [], [], [], by decide, by decide, by decide⟩]

theorem call_site_ids_agree_startSection : ∃ mdA mdB,
    createCallSiteMetadata .x86_64 100 [startSection 0x400000] [⟨0x400000, 2, 0⟩] = .ok mdA ∧
      createCallSiteMetadata .aarch64 100 [startSection 0x500000] [⟨0x500000, 2, 0⟩] = .ok mdB ∧
      mdA.sites.map (·.id) = [100, uint64Max] ∧ Unambiguous [startSection 0x400000] mdA := by
  refine ⟨_, _, rfl, rfl, by decide, ?_⟩
  exact (call_site_ids_agree .x86_64 .aarch64 100 [startSection 0x400000] [startSection 0x500000] [⟨0x400000, 2, 0⟩]
    [⟨0x500000, 2, 0⟩] _ _ rfl rfl (.cons (.cons (by decide) (.cons (by decide) .nil)) .nil) (by decide)).2.1

end Popcorn.Metadata
