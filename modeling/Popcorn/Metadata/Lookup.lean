/-
  Popcorn.Metadata.Lookup — the runtime's view of the metadata
  (lib/stack_transformation/src/init.c, util.c).

  A handle holds the sections gen-stackinfo wrote: the call sites by ID and by return
  address, the unwind records, the live values and the arch-specific values. The tables
  are read in place, so a read past the end of the live values sees whatever memory
  follows them: `liveVals` is total and `liveValsCount` is the section's size.
  `getSiteByAddr` and `getSiteById` are the two hand-written binary searches.

  Proved:
  - `getSiteByAddr_mem`, `getSiteById_mem`: a site found is in its table, with the key.
  - `metadata_lookup_exact`: after `addSections`, a lookup by address or ID finds exactly
    the site of the record with it; that site's slices of the live and arch sections are
    the record's lists, and the slices of all sites partition the two sections.
-/

import Mathlib.Tactic.IntervalCases
import Popcorn.Lib.Search
import Popcorn.Metadata.Write

namespace Popcorn.Metadata

open Popcorn.Lib

/-! ## Model -/

/-- `struct _st_handle`. gen-stackinfo writes both call-site sections with the same number
    of entries; `sites_count` is read from the one sorted by ID. -/
structure Handle where
  arch : Arch
  unwindAddrs : List UnwindAddr
  unwindLocs : List UnwindLoc
  sitesId : List CallSite
  sitesAddr : List CallSite
  liveVals : Nat → LiveValue
  liveValsCount : Nat
  archLiveVals : List ArchLiveValue
  sites_len : sitesAddr.length = sitesId.length

/-- A handle without call sites. -/
theorem no_sites : ([] : List CallSite).length = ([] : List CallSite).length := rfl

def Handle.sitesCount (h : Handle) : Nat := h.sitesId.length

def getSiteByAddr (h : Handle) (retAddr : UInt64) : Option CallSite :=
  (bsearch h.sitesCount (fun mid => (h.sitesAddr.getD mid emptyCallSite).addr.toNat) retAddr.toNat).map
    fun mid => h.sitesAddr.getD mid emptyCallSite

def getSiteById (h : Handle) (csid : UInt64) : Option CallSite :=
  (bsearch h.sitesCount (fun mid => (h.sitesId.getD mid emptyCallSite).id.toNat) csid.toNat).map
    fun mid => h.sitesId.getD mid emptyCallSite

/-- `get_unwind_offset_by_addr`: the search of `get_func_unwind_data`, repeated in the runtime. -/
def getUnwindOffsetByAddr (h : Handle) (addr : UInt64) : Option UnwindAddr := getFuncUnwindData addr h.unwindAddrs

/-- The start of the function around `pc`, or NULL. -/
def getFunctionAddress (h : Handle) (pc : UInt64) : UInt64 :=
  match getUnwindOffsetByAddr h pc with
  | none => 0
  | some entry => entry.addr

/-- The handle of a binary with these sections; `past` is the memory after the live values. -/
def Sections.handle (t : Sections) (arch : Arch) (unwindAddrs : List UnwindAddr) (unwindLocs : List UnwindLoc)
    (past : Nat → LiveValue) (hlen : t.addrSites.length = t.idSites.length) : Handle where
  arch := arch
  unwindAddrs := unwindAddrs
  unwindLocs := unwindLocs
  sitesId := t.idSites
  sitesAddr := t.addrSites
  liveVals i := t.liveVals.getD i (past i)
  liveValsCount := t.liveVals.length
  archLiveVals := t.archlive
  sites_len := hlen

/-! ## The searches -/

theorem getSiteByAddr_mem {h : Handle} {a : UInt64} {s : CallSite} (hs : getSiteByAddr h a = some s) :
    s ∈ h.sitesAddr ∧ s.addr = a := by
  rw [getSiteByAddr, Handle.sitesCount, ← h.sites_len] at hs
  obtain ⟨hm, hk⟩ := bsearch_list_mem (fun s : CallSite => s.addr.toNat) hs
  exact ⟨hm, UInt64.toNat_inj.mp hk⟩

theorem getSiteById_mem {h : Handle} {i : UInt64} {s : CallSite} (hs : getSiteById h i = some s) :
    s ∈ h.sitesId ∧ s.id = i := by
  obtain ⟨hm, hk⟩ := bsearch_list_mem (fun s : CallSite => s.id.toNat) hs
  exact ⟨hm, UInt64.toNat_inj.mp hk⟩

/-- A table in the order the searches need. -/
structure Handle.Sorted (h : Handle) : Prop where
  byAddr : h.sitesAddr.Pairwise (·.addr.toNat < ·.addr.toNat)
  byId : h.sitesId.Pairwise (·.id.toNat < ·.id.toNat)

theorem getSiteByAddr_iff {h : Handle} (hs : h.Sorted) (a : UInt64) (s : CallSite) :
    getSiteByAddr h a = some s ↔ s ∈ h.sitesAddr ∧ s.addr = a := by
  rw [getSiteByAddr, Handle.sitesCount, ← h.sites_len, bsearch_list_iff (fun s : CallSite => s.addr.toNat) hs.byAddr,
    UInt64.toNat_inj]

theorem getSiteById_iff {h : Handle} (hs : h.Sorted) (i : UInt64) (s : CallSite) :
    getSiteById h i = some s ↔ s ∈ h.sitesId ∧ s.id = i := by
  rw [getSiteById, Handle.sitesCount, bsearch_list_iff (fun s : CallSite => s.id.toNat) hs.byId, UInt64.toNat_inj]

/-! ## What `add_sections` writes -/

/-- Sorting with distinct keys leaves a strictly ascending table. -/
theorem pairwise_lt_of_le {xs : List CallSite} {key : CallSite → UInt64} (hle : xs.Pairwise (key · ≤ key ·))
    (hnd : (xs.map key).Nodup) : xs.Pairwise fun a b => (key a).toNat < (key b).toNat := by
  have hne : xs.Pairwise (key · ≠ key ·) := List.pairwise_map.mp hnd
  refine hle.imp₂ ?_ hne
  intro a b h1 h2
  exact Nat.lt_of_le_of_ne (UInt64.le_iff_toNat_le.mp h1) (fun e => h2 (UInt64.toNat_inj.mp e))

theorem qsortId_pairwise (xs : List CallSite) : (qsortId xs).Pairwise (·.id ≤ ·.id) := by
  have : Std.Total (fun a b : CallSite => a.id ≤ b.id) := ⟨fun a b => UInt64.le_total a.id b.id⟩
  have : IsTrans CallSite (fun a b => a.id ≤ b.id) := ⟨fun a b c => UInt64.le_trans⟩
  exact List.pairwise_insertionSort _ xs

theorem qsortAddr_pairwise (xs : List CallSite) : (qsortAddr xs).Pairwise (·.addr ≤ ·.addr) := by
  have : Std.Total (fun a b : CallSite => a.addr ≤ b.addr) := ⟨fun a b => UInt64.le_total a.addr b.addr⟩
  have : IsTrans CallSite (fun a b => a.addr ≤ b.addr) := ⟨fun a b c => UInt64.le_trans⟩
  exact List.pairwise_insertionSort _ xs

/-- Both site tables are the metadata's sites, reordered. -/
theorem addSections_built {arch : Arch} {sm : List StackMapSection} {startId : UInt64} {addrs : List UnwindAddr}
    {t : Sections} (h : addSections arch sm startId (some addrs) = .ok t) :
    ∃ st, Built arch startId addrs (records sm) st ∧ t = ⟨qsortId st.sites, qsortAddr (qsortId st.sites), st.locs, st.archlive⟩ := by
  simp only [addSections] at h
  split at h
  · cases h
  split at h
  · cases h
  · cases h
  · rename_i md hmd
    cases h
    obtain ⟨st, hb, rfl⟩ := create_built hmd
    exact ⟨st, hb, rfl⟩

theorem Built.mem {arch : Arch} {startId : UInt64} {addrs : List UnwindAddr} {rs : List (StackMapSection × CallSiteRecord)}
    {st : Populate} (hb : Built arch startId addrs rs st) {s : CallSite} (hs : s ∈ st.sites) :
    ∃ k p, rs[k]? = some p ∧ st.sites[k]? = some s ∧ SiteOf arch startId addrs rs k p s := by
  obtain ⟨k, hk, rfl⟩ := List.getElem_of_mem hs
  have hp := List.getElem?_eq_getElem (hb.length ▸ hk)
  have hsk := List.getElem?_eq_getElem hk
  exact ⟨k, _, hp, hsk, hb.site k _ _ hp hsk⟩

theorem Built.get {arch : Arch} {startId : UInt64} {addrs : List UnwindAddr} {rs : List (StackMapSection × CallSiteRecord)}
    {st : Populate} (hb : Built arch startId addrs rs st) {k : Nat} {p : StackMapSection × CallSiteRecord}
    (hp : rs[k]? = some p) : ∃ s, st.sites[k]? = some s ∧ SiteOf arch startId addrs rs k p s := by
  have hk := (List.getElem?_eq_some_iff.mp hp).1
  rw [← hb.length] at hk
  have hsk := List.getElem?_eq_getElem hk
  exact ⟨_, hsk, hb.site k p _ hp hsk⟩

/-- Distinct return addresses and final IDs of the records are distinct in their sites. -/
theorem Built.nodup {arch : Arch} {startId : UInt64} {addrs : List UnwindAddr} {rs : List (StackMapSection × CallSiteRecord)}
    {st : Populate} (hb : Built arch startId addrs rs st) (haddr : (rs.map returnAddr).Nodup)
    (hid : ∀ (k l : Nat) p q, rs[k]? = some p → rs[l]? = some q → finalId startId rs k p = finalId startId rs l q → k = l) :
    (st.sites.map (·.id)).Nodup ∧ (st.sites.map (·.addr)).Nodup := by
  have hsite : ∀ k (hk : k < st.sites.length), ∃ p, rs[k]? = some p ∧ SiteOf arch startId addrs rs k p st.sites[k] := by
    intro k hk
    have hp := List.getElem?_eq_getElem (hb.length ▸ hk)
    exact ⟨_, hp, hb.site k _ _ hp (List.getElem?_eq_getElem hk)⟩
  constructor
  · rw [List.nodup_iff_injective_get]
    intro ⟨k, hk⟩ ⟨l, hl⟩ he
    simp only [List.length_map] at hk hl
    obtain ⟨p, hp, hsp⟩ := hsite k hk
    obtain ⟨q, hq, hsq⟩ := hsite l hl
    simp only [List.get_eq_getElem, List.getElem_map, hsp.id, hsq.id] at he
    exact Fin.ext (hid k l p q hp hq he)
  · rw [List.nodup_iff_injective_get]
    intro ⟨k, hk⟩ ⟨l, hl⟩ he
    simp only [List.length_map] at hk hl
    obtain ⟨p, hp, hsp⟩ := hsite k hk
    obtain ⟨q, hq, hsq⟩ := hsite l hl
    simp only [List.get_eq_getElem, List.getElem_map] at he
    have hpq : returnAddr p = returnAddr q := by rw [← hsp.addr, ← hsq.addr, he]
    obtain ⟨hk', rfl⟩ := List.getElem?_eq_some_iff.mp hp
    obtain ⟨hl', rfl⟩ := List.getElem?_eq_some_iff.mp hq
    have hk2 : k < (rs.map returnAddr).length := by rwa [List.length_map]
    have hl2 : l < (rs.map returnAddr).length := by rwa [List.length_map]
    have he2 : (rs.map returnAddr)[k] = (rs.map returnAddr)[l] := by rwa [List.getElem_map, List.getElem_map]
    exact Fin.ext (haddr.getElem_inj_iff.mp he2)

/-- The slices of a list of sites: each within a section of `n` entries, and each entry in
    exactly one. -/
def Partition (sites : List CallSite) (offset : CallSite → Nat) (num : CallSite → Nat) (n : Nat) : Prop :=
  (∀ s ∈ sites, offset s + num s ≤ n) ∧ ∀ i < n, ∃! s, s ∈ sites ∧ offset s ≤ i ∧ i < offset s + num s

/-- Slices at running offsets partition the concatenation. -/
theorem partition_of_slices {β : Type} {rs : List (StackMapSection × CallSiteRecord)}
    {f : StackMapSection × CallSiteRecord → List β} {sites : List CallSite} {offset num : CallSite → Nat}
    (hlen : sites.length = rs.length)
    (hs : ∀ k p s, rs[k]? = some p → sites[k]? = some s → offset s = sliceStart f rs k ∧ num s = (f p).length) :
    Partition sites offset num (rs.flatMap f).length := by
  have hget : ∀ s ∈ sites, ∃ k p, rs[k]? = some p ∧ sites[k]? = some s ∧ offset s = sliceStart f rs k ∧
      num s = (f p).length := by
    intro s hm
    obtain ⟨k, hk, rfl⟩ := List.getElem_of_mem hm
    have hp := List.getElem?_eq_getElem (hlen ▸ hk)
    have hsk := List.getElem?_eq_getElem hk
    exact ⟨k, _, hp, hsk, hs k _ _ hp hsk⟩
  refine ⟨?_, ?_⟩
  · intro s hm
    obtain ⟨k, p, hp, -, ho, hn⟩ := hget s hm
    rw [ho, hn]
    exact slice_le hp
  · intro i hi
    obtain ⟨k, p, hp, h1, h2⟩ := slice_cover i hi
    have hk := (List.getElem?_eq_some_iff.mp hp).1
    rw [← hlen] at hk
    have hsk := List.getElem?_eq_getElem hk
    obtain ⟨ho, hn⟩ := hs k p _ hp hsk
    refine ⟨sites[k], ⟨List.getElem_mem hk, by rw [ho]; exact h1, by rw [ho, hn]; exact h2⟩, ?_⟩
    rintro s ⟨hm, g1, g2⟩
    obtain ⟨l, q, hq, hsl, ho', hn'⟩ := hget s hm
    rw [ho'] at g1 g2
    rw [hn'] at g2
    cases slice_unique hq hp ⟨g1, g2⟩ ⟨h1, h2⟩
    rw [hsk] at hsl
    exact (Option.some.inj hsl).symm

theorem Partition.perm {xs ys : List CallSite} {offset num : CallSite → Nat} {n : Nat} (hp : xs.Perm ys)
    (h : Partition ys offset num n) : Partition xs offset num n := by
  simpa only [Partition, hp.mem_iff] using h

/-! ## Generation followed by lookup -/

/-- Lookups in a handle with the sections `t` of the stackmaps `sm`. -/
structure LookupExact (arch : Arch) (startId : UInt64) (addrs : List UnwindAddr) (sm : List StackMapSection) (t : Sections)
    (hd : Handle) : Prop where
  addr_iff : ∀ a, (∃ s, getSiteByAddr hd a = some s) ↔ ∃ p ∈ records sm, returnAddr p = some a
  id_iff : ∀ i, (∃ s, getSiteById hd i = some s) ↔
    ∃ k p, (records sm)[k]? = some p ∧ finalId startId (records sm) k p = i
  /-- The site found is the record's, by address and by ID, with the record's lists as its slices. -/
  found : ∀ k p, (records sm)[k]? = some p → ∃ s a, returnAddr p = some a ∧ getSiteByAddr hd a = some s ∧
    getSiteById hd (finalId startId (records sm) k p) = some s ∧ SiteOf arch startId addrs (records sm) k p s ∧
    (t.liveVals.drop s.liveOffset).take s.numLive.toNat = p.2.locations ∧
    (t.archlive.drop s.archLiveOffset).take s.numArchLive.toNat = p.2.archLive
  same : t.addrSites.Perm t.idSites
  nodup : t.idSites.Nodup
  live : Partition t.idSites (·.liveOffset) (·.numLive.toNat) t.liveVals.length
  arch : Partition t.idSites (·.archLiveOffset) (·.numArchLive.toNat) t.archlive.length

/-- Generation followed by lookup is exact. -/
theorem metadata_lookup_exact (arch : Arch) (startId : UInt64) (sm : List StackMapSection) (addrs : List UnwindAddr)
    (t : Sections) (h : addSections arch sm startId (some addrs) = .ok t)
    (haddr : ((records sm).map returnAddr).Nodup)
    (hid : ∀ (k l : Nat) p q, (records sm)[k]? = some p → (records sm)[l]? = some q →
      finalId startId (records sm) k p = finalId startId (records sm) l q → k = l)
    (hd : Handle) (hsid : hd.sitesId = t.idSites) (hsaddr : hd.sitesAddr = t.addrSites) :
    LookupExact arch startId addrs sm t hd := by
  obtain ⟨st, hb, rfl⟩ := addSections_built h
  have hpid : (qsortId st.sites).Perm st.sites := List.perm_insertionSort _ _
  have hpaddr : (qsortAddr (qsortId st.sites)).Perm (qsortId st.sites) := List.perm_insertionSort _ _
  obtain ⟨hnid, hnaddr⟩ := hb.nodup haddr hid
  have hsort : hd.Sorted := by
    refine ⟨?_, ?_⟩
    · rw [hsaddr]
      exact pairwise_lt_of_le (qsortAddr_pairwise _) (((hpaddr.trans hpid).map _).nodup_iff.mpr hnaddr)
    · rw [hsid]
      exact pairwise_lt_of_le (qsortId_pairwise _) ((hpid.map _).nodup_iff.mpr hnid)
  -- both lookups decide membership in the metadata's sites
  have hA : ∀ a s, getSiteByAddr hd a = some s ↔ s ∈ st.sites ∧ s.addr = a := by
    intro a s
    rw [getSiteByAddr_iff hsort, hsaddr, (hpaddr.trans hpid).mem_iff]
  have hI : ∀ i s, getSiteById hd i = some s ↔ s ∈ st.sites ∧ s.id = i := by
    intro i s
    rw [getSiteById_iff hsort, hsid, hpid.mem_iff]
  refine ⟨?_, ?_, ?_, hpaddr, hpid.nodup_iff.mpr (List.Nodup.of_map _ hnid), ?_, ?_⟩
  · intro a
    constructor
    · rintro ⟨s, hs⟩
      obtain ⟨hm, rfl⟩ := (hA a s).mp hs
      obtain ⟨k, p, hp, -, hso⟩ := hb.mem hm
      exact ⟨p, List.mem_of_getElem? hp, hso.addr.symm⟩
    · rintro ⟨p, hp, ha⟩
      obtain ⟨k, hk⟩ := List.mem_iff_getElem?.mp hp
      obtain ⟨s, hs, hso⟩ := hb.get hk
      refine ⟨s, (hA a s).mpr ⟨List.mem_of_getElem? hs, ?_⟩⟩
      exact Option.some.inj (hso.addr.trans ha)
  · intro i
    constructor
    · rintro ⟨s, hs⟩
      obtain ⟨hm, rfl⟩ := (hI i s).mp hs
      obtain ⟨k, p, hp, -, hso⟩ := hb.mem hm
      exact ⟨k, p, hp, hso.id.symm⟩
    · rintro ⟨k, p, hp, rfl⟩
      obtain ⟨s, hs, hso⟩ := hb.get hp
      exact ⟨s, (hI _ s).mpr ⟨List.mem_of_getElem? hs, hso.id⟩⟩
  · intro k p hp
    obtain ⟨s, hs, hso⟩ := hb.get hp
    have hm := List.mem_of_getElem? hs
    refine ⟨s, s.addr, hso.addr.symm, (hA _ s).mpr ⟨hm, rfl⟩, (hI _ s).mpr ⟨hm, hso.id⟩, hso, ?_, ?_⟩
    · simp only [hb.locs]
      rw [hso.liveOffset, hso.numLive]
      exact slice_eq (f := fun p : StackMapSection × CallSiteRecord => p.2.locations) hp
    · simp only [hb.archlive]
      rw [hso.archLiveOffset, hso.numArchLive]
      exact slice_eq (f := fun p : StackMapSection × CallSiteRecord => p.2.archLive) hp
  · simp only [hb.locs]
    refine Partition.perm hpid (partition_of_slices hb.length ?_)
    intro k p s hp hs
    exact ⟨(hb.site k p s hp hs).liveOffset, (hb.site k p s hp hs).numLive⟩
  · simp only [hb.archlive]
    refine Partition.perm hpid (partition_of_slices hb.length ?_)
    intro k p s hp hs
    exact ⟨(hb.site k p s hp hs).archLiveOffset, (hb.site k p s hp hs).numArchLive⟩

theorem addSections_length {arch : Arch} {sm : List StackMapSection} {startId : UInt64} {addrs : List UnwindAddr}
    {t : Sections} (h : addSections arch sm startId (some addrs) = .ok t) : t.addrSites.length = t.idSites.length := by
  obtain ⟨st, -, rfl⟩ := addSections_built h
  exact (List.perm_insertionSort _ _).length_eq

theorem metadata_lookup_exact_startSection :
    ∃ (t : Sections) (h : addSections .x86_64 [startSection 0x400000] 100 (some [⟨0x400000, 2, 0⟩]) = .ok t),
      LookupExact .x86_64 100 [⟨0x400000, 2, 0⟩] [startSection 0x400000] t
        (t.handle .x86_64 [⟨0x400000, 2, 0⟩] [] (fun _ => ⟨false, false, false, false, 0, 0, 0, 0, 0⟩) (addSections_length h)) := by
  refine ⟨_, rfl, metadata_lookup_exact .x86_64 100 [startSection 0x400000] [⟨0x400000, 2, 0⟩] _ rfl (by decide) ?_ _ rfl rfl⟩
  have hlen : (records [startSection 0x400000]).length = 2 := rfl
  intro k l p q hp hq he
  have hk := (List.getElem?_eq_some_iff.mp hp).1
  have hl := (List.getElem?_eq_some_iff.mp hq).1
  rw [hlen] at hk hl
  interval_cases k <;> interval_cases l
  · rfl
  · cases hp; cases hq; exact absurd he (by decide)
  · cases hp; cases hq; exact absurd he (by decide)
  · rfl

end Popcorn.Metadata
