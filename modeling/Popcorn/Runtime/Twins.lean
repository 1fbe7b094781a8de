/-
  Popcorn.Runtime.Twins — one program compiled for two architectures.

  The compiler emits every call site on both: the same live values in the same order, each where
  the architecture keeps it, with as many records as it has homes there. `Twin` says so of the
  compiler's own data, and `CallLayout` that a call's frame is laid out as recorded.

  Proved: `toolchain_pairing`: the binaries that gen-stackinfo makes of two such programs, in files
  with room for the metadata, are paired, and the values of a call are those that the compiler
  recorded for it. Threads can then migrate between them (`journey_preserves`).
-/

import Popcorn.Runtime.OpenFile
import Popcorn.Runtime.Pairing
import Popcorn.Runtime.Preserve

namespace Popcorn.Runtime

open Popcorn.Lib Popcorn.Metadata

/-! ## The layout of a call -/

/-- Two call sites describe their frames alike. -/
structure SameSite (h : Handle) (s : CallSite) (h' : Handle) (s' : CallSite) : Prop where
  arch : h'.arch = h.arch
  frameSize : s'.frameSize = s.frameSize
  unwind : unwindRecords h' s' = unwindRecords h s
  numLive : s'.numLive = s.numLive
  live : ∀ t < s.numLive.toNat, siteLive h' s' t = siteLive h s t
  archLive : ∀ i < s'.numArchLive.toNat, ∀ v ∈ siteArch h' s' i, i < s.numArchLive.toNat ∧ v ∈ siteArch h s i

section
variable {h h' : Handle} {s s' : CallSite} (hs : SameSite h s h' s')

include hs in
theorem SameSite.recordSlot_eq (type : Fin 16) (r : UInt16) (offset : Int) (len : Nat) :
    recordSlot h' s' type r offset len = recordSlot h s type r offset len := by
  unfold recordSlot
  rw [hs.arch, hs.frameSize]

include hs in
theorem SameSite.inBody {o : Int} {len : Nat} (hb : InBody s o len) : InBody s' o len := by
  unfold InBody
  rw [hs.frameSize]
  exact hb

include hs in
theorem SameSite.slotFine {sl : Slot} (hf : SlotFine h s sl) : SlotFine h' s' sl := by
  cases sl with
  | reg r =>
    obtain ⟨hkeep, hlist⟩ := hf
    refine ⟨by rwa [hs.arch], ?_⟩
    unfold Lists
    rw [hs.unwind]
    exact hlist
  | mem o len =>
    refine ⟨hs.inBody hf.1, ?_⟩
    rw [hs.unwind, hs.arch]
    exact hf.2

include hs in
theorem SameSite.layout (hl : SiteLayout h s) : SiteLayout h' s' := by
  constructor
  case room =>
    rw [hs.frameSize]
    exact hl.room
  case fbp =>
    rw [hs.unwind, hs.arch]
    exact hl.fbp
  case ra =>
    rw [hs.unwind, hs.arch]
    exact hl.ra
  case nodup =>
    rw [hs.unwind]
    exact hl.nodup
  case calleeSaved =>
    rw [hs.unwind, hs.arch]
    exact hl.calleeSaved
  case saves =>
    rw [hs.unwind, hs.arch]
    exact fun l hmem hkeep => hs.inBody (hl.saves l hmem hkeep)
  case savesApart =>
    rw [hs.unwind, hs.arch]
    exact hl.savesApart
  case live =>
    intro t ht
    rw [hs.numLive] at ht
    obtain ⟨haddr, hfine⟩ := hl.live t ht
    rw [hs.live t ht, hs.arch]
    refine ⟨haddr, ?_⟩
    intro sl hsl
    exact hs.slotFine (hfine sl ((hs.recordSlot_eq _ _ _ _).symm.trans hsl))
  case arch =>
    intro i hi v hv
    obtain ⟨hi', hv'⟩ := hs.archLive i hi v hv
    obtain ⟨haddr, hfine⟩ := hl.arch i hi' v hv'
    rw [hs.arch]
    refine ⟨haddr, ?_⟩
    intro sl hsl
    exact hs.slotFine (hfine sl ((hs.recordSlot_eq _ _ _ _).symm.trans hsl))
  case apart =>
    intro t' ht' t ht sl hsl sl' hsl'
    rw [hs.numLive] at ht'
    rw [hs.live t (by omega)] at hsl
    rw [hs.live t' ht'] at hsl'
    exact hl.apart t' ht' t ht sl ((hs.recordSlot_eq _ _ _ _).symm.trans hsl) sl' ((hs.recordSlot_eq _ _ _ _).symm.trans hsl')
  case apartArch =>
    intro t ht i hi sl hsl v hv sl' hsl'
    rw [hs.numLive] at ht
    rw [hs.live t ht] at hsl
    obtain ⟨hi', hv'⟩ := hs.archLive i hi v hv
    exact hl.apartArch t ht i hi' sl ((hs.recordSlot_eq _ _ _ _).symm.trans hsl) v hv' sl' ((hs.recordSlot_eq _ _ _ _).symm.trans hsl')
  case pointer =>
    intro t ht
    rw [hs.numLive] at ht
    rw [hs.live t ht]
    exact hl.pointer t ht

end

/-- The metadata of one call alone. -/
def callHandle (arch : Arch) (saved : List RegOffset) (c : CallsiteInfo) : Handle where
  arch := arch
  unwindAddrs := []
  unwindLocs := saved.map RegOffset.emit
  sitesId := []
  sitesAddr := []
  liveVals t := (c.locations.map readLocation).getD t ⟨false, false, false, false, 0, 0, 0, 0, 0⟩
  liveValsCount := c.locations.length
  archLiveVals := c.vals.map readArchValue
  sites_len := no_sites

def callRecord (arch : Arch) (size : UInt64) (saved : List RegOffset) (c : CallsiteInfo) : CallSite where
  id := c.id
  addr := 0
  frameSize := (cfaCorrection arch size).toUInt32
  numUnwind := UInt16.ofNat saved.length
  unwindOffset := 0
  numLive := UInt16.ofNat c.locations.length
  liveOffset := 0
  numArchLive := UInt16.ofNat c.vals.length
  archLiveOffset := 0

/-- The function's frame, at the call, is laid out as the compiler records it. -/
def CallLayout (arch : Arch) (p : ObjectFile × CallsiteInfo) : Prop :=
  ∀ size saved, (p.2.func, size) ∈ p.1.fnStackSize → (p.2.func, saved) ∈ p.1.unwind.funcCalleeSaved.entries →
    SiteLayout (callHandle arch saved p.2) (callRecord arch size saved p.2)

theorem unwindRecords_fits {h : Handle} {s : CallSite} (hs : s.unwindOffset + s.numUnwind.toNat < 4294967296) :
    unwindRecords h s = (h.unwindLocs.drop s.unwindOffset).take s.numUnwind.toNat := by
  have hstart : unwindStart s = s.unwindOffset := Nat.mod_eq_of_lt (by omega)
  have hend : unwindEnd s = s.unwindOffset + s.numUnwind.toNat := by
    unfold unwindEnd
    rw [hstart]
    exact Nat.mod_eq_of_lt hs
  unfold unwindRecords
  rw [hstart, hend, Nat.add_sub_cancel_left]

section
variable {startId : UInt64} {os : List ObjectFile} {hd : Handle} {k : Nat} {p : ObjectFile × CallsiteInfo} {site : CallSite}
  (h : CallFound hd.arch startId os hd k p site)

include h in
/-- The live records are those of the call's locations. -/
theorem found_records : (List.range site.numLive.toNat).map (siteLive hd site) = p.2.locations.map readLocation := by
  rw [← List.forall₂_eq_eq_eq, List.forall₂_map_right_iff]
  exact h.live.flip.imp fun v l hv => hv.eq

include h in
theorem found_numLive : site.numLive.toNat = p.2.locations.length := by
  have hlen := congrArg List.length (found_records h)
  rwa [List.length_map, List.length_map, List.length_range] at hlen

include h in
theorem found_siteLive {t : Nat} (ht : t < site.numLive.toNat) : (p.2.locations.map readLocation)[t]? = some (siteLive hd site t) := by
  rw [← found_records h, List.getElem?_map, List.getElem?_range ht]
  rfl

include h in
theorem found_siteArch {i : Nat} (hi : i < site.numArchLive.toNat) : siteArch hd site i = (p.2.vals.map readArchValue)[i]? := by
  have hvals : (hd.archLiveVals.drop site.archLiveOffset).take site.numArchLive.toNat = p.2.vals.map readArchValue := by
    rw [← List.forall₂_eq_eq_eq, List.forall₂_map_right_iff]
    exact h.arch.flip.imp fun r v hr => hr.eq
  rw [← hvals, List.getElem?_take, if_pos hi, List.getElem?_drop]
  rfl

include h in
/-- The site describes the frame as the call's own metadata does. -/
theorem found_sameSite {size : UInt64} {saved : List RegOffset} (hsize : (p.2.func, size) ∈ p.1.fnStackSize)
    (hsaved : (p.2.func, saved) ∈ p.1.unwind.funcCalleeSaved.entries) (hfits : p.2.Fits) (hlen : saved.length < 65536) :
    SameSite (callHandle hd.arch saved p.2) (callRecord hd.arch size saved p.2) hd site := by
  have hofNat : ∀ {n : Nat}, n < 65536 → (UInt16.ofNat n).toNat = n := by
    intro n hn
    rw [UInt16.toNat_ofNat', Nat.mod_eq_of_lt hn]
  have hnum : site.numLive = UInt16.ofNat p.2.locations.length := by
    apply UInt16.toNat_inj.mp
    rw [found_numLive h, hofNat (Nat.lt_succ_of_le hfits.locations_le)]
  constructor
  case arch => rfl
  case frameSize =>
    apply UInt32.toNat_inj.mp
    have hlt := site.frameSize.toNat_lt
    have hframe := h.frame size hsize
    show site.frameSize.toNat = (cfaCorrection hd.arch size).toUInt32.toNat
    rw [UInt64.toNat_toUInt32, ← hframe]
    exact (Nat.mod_eq_of_lt hlt).symm
  case unwind =>
    have hnumUnwind : (callRecord hd.arch size saved p.2).numUnwind.toNat = saved.length := hofNat hlen
    rw [unwindRecords_fits h.unwindFits, h.unwind saved hsaved, unwindRecords_fits]
    · rw [hnumUnwind]
      show _ = (saved.map RegOffset.emit).take saved.length
      rw [← List.length_map (f := RegOffset.emit), List.take_length]
    · rw [hnumUnwind]
      show 0 + saved.length < 4294967296
      omega
  case numLive => exact hnum
  case live =>
    intro t ht
    have ht' : t < site.numLive.toNat := by
      rw [hnum]
      exact ht
    show siteLive hd site t = (p.2.locations.map readLocation).getD (0 + t) _
    rw [Nat.zero_add, List.getD_eq_getElem?_getD, found_siteLive h ht']
    rfl
  case archLive =>
    intro i hi v hv
    rw [found_siteArch h hi] at hv
    have hlt : i < p.2.vals.length := by
      have := (List.getElem?_eq_some_iff.mp hv).1
      rwa [List.length_map] at this
    refine ⟨?_, ?_⟩
    · show i < (UInt16.ofNat p.2.vals.length).toNat
      rwa [hofNat (Nat.lt_succ_of_le hfits.vals_le)]
    · show (p.2.vals.map readArchValue)[0 + i]? = some v
      rw [Nat.zero_add]
      exact hv

end

/-! ## Twin calls -/

/-- Two lists of locations, and the values of which they are the records. -/
structure TwinValues (a b : Arch) (ls ls' : List Location) (gs : List (Group × Group)) : Prop where
  left : ls.map readLocation = (gs.map Prod.fst).flatMap Group.records
  right : ls'.map readLocation = (gs.map Prod.snd).flatMap Group.records
  same : ∀ g ∈ gs, ∀ v ∈ g.1.records, ∀ w ∈ g.2.records, SameValue a b v w
  alloca : ∀ g ∈ gs, g.1.first.isAlloca = true → InOnePlace g.1 ∧ InOnePlace g.2

/-- One call, compiled for `a` and for `b`. -/
structure Twin (a b : Arch) (p p' : ObjectFile × CallsiteInfo) : Prop where
  reserved : reservedId p'.2.id = reservedId p.2.id
  id : reservedId p.2.id = true → p'.2.id = p.2.id
  values : ∃ gs, TwinValues a b p.2.locations p'.2.locations gs

/-- A binary that gen-stackinfo made of the calls, opened. The runtime reads the record after the last one too. -/
structure Made (startId : UInt64) (os : List ObjectFile) (hd : Handle) : Prop where
  found : CallsFound hd.arch startId os hd
  layout : ∀ p ∈ calls os, firstFrame p.2.id = false → CallLayout hd.arch p
  ends : (hd.liveVals hd.liveValsCount).isDuplicate = false

/-- A list of locations does not start with a duplicate. -/
def StartsValue (ls : List Location) : Prop := ∀ l ∈ ls.head?, l.duplicate = false

theorem groups_start {gs : List Group} {ls : List Location} (h : ls.map readLocation = gs.flatMap Group.records) : StartsValue ls := by
  intro l hl
  cases ls with
  | nil => cases hl
  | cons l' ls =>
    obtain rfl := Option.some.inj hl
    cases gs with
    | nil => cases h
    | cons g gs =>
      have hfirst : readLocation l' = g.first := (List.cons.inj h).1
      exact (congrArg LiveValue.isDuplicate hfirst).trans g.first_not_dup

theorem Twin.starts {a b : Arch} {p p' : ObjectFile × CallsiteInfo} (h : Twin a b p p') : StartsValue p.2.locations ∧ StartsValue p'.2.locations := by
  obtain ⟨gs, hgs⟩ := h.values
  exact ⟨groups_start hgs.left, groups_start hgs.right⟩

section
variable {startId : UInt64} {os : List ObjectFile} {hd : Handle} {k : Nat} {p : ObjectFile × CallsiteInfo} {site : CallSite}

/-- The values of a call stand in the section from its first record on. -/
theorem Made.groupsAt (hm : Made startId os hd) (hstart : ∀ p ∈ calls os, StartsValue p.2.locations) (h : CallFound hd.arch startId os hd k p site)
    {gs : List Group} (hgs : p.2.locations.map readLocation = gs.flatMap Group.records) : GroupsAt hd site.liveOffset gs := by
  have hlen : (gs.flatMap Group.records).length = site.numLive.toNat := by
    rw [← hgs, List.length_map, found_numLive h]
  constructor
  · intro t v hv
    have ht : t < site.numLive.toNat := by
      rw [← hlen]
      exact (List.getElem?_eq_some_iff.mp hv).1
    rw [← hgs, found_siteLive h ht] at hv
    exact Option.some.inj hv
  · rw [hlen]
    exact h.inside
  · rw [hlen]
    obtain hlt | heq := Nat.lt_or_eq_of_le h.inside
    · obtain ⟨p', hp', l, ls, hls, hl⟩ := h.next hlt
      rw [hl.isDuplicate]
      exact hstart p' hp' l (by rw [hls]; rfl)
    · rw [heq]
      exact hm.ends

/-- Calls with one ID are one call. -/
theorem Made.index {size : UInt64 → Nat} (hm : Made startId os hd) (hp : Program startId size os) {l : Nat} {q : ObjectFile × CallsiteInfo}
    (hk : (calls os)[k]? = some p) (hl : (calls os)[l]? = some q) (he : callId startId (calls os) k p = callId startId (calls os) l q) : k = l := by
  obtain ⟨s, hs⟩ := hm.found.found k p hk
  obtain ⟨s', hs'⟩ := hm.found.found l q hl
  have hsame : s = s' := by
    have hid := hs'.byId
    rw [hs'.id, ← he, ← hs.id] at hid
    exact Option.some.inj (hs.byId.symm.trans hid)
  subst hsame
  have haddr : callAddr p = callAddr q := (getSiteByAddr_mem hs.byAddr).2.symm.trans (getSiteByAddr_mem hs'.byAddr).2
  obtain ⟨hk', rfl⟩ := List.getElem?_eq_some_iff.mp hk
  obtain ⟨hl', rfl⟩ := List.getElem?_eq_some_iff.mp hl
  have hnodup := List.pairwise_iff_getElem.mp (List.pairwise_map.mp hp.addrs)
  obtain hlt | heq | hlt := Nat.lt_trichotomy k l
  · exact absurd haddr (hnodup k l hk' hl' hlt)
  · exact heq
  · exact absurd haddr.symm (hnodup l k hl' hk' hlt)

/-- Only the call sites of start functions have their IDs. -/
theorem firstFrame_own {cs : List (ObjectFile × CallsiteInfo)} (hid : firstFrame (callId startId cs k p) = false) : firstFrame p.2.id = false := by
  by_cases hr : reservedId p.2.id = true
  · unfold callId at hid
    rwa [if_pos hr] at hid
  · simp only [reservedId, Bool.or_eq_true, not_or, Bool.not_eq_true] at hr
    unfold firstFrame
    rw [hr.1.1, hr.1.2]
    rfl

theorem Made.described {size : UInt64 → Nat} (hm : Made startId os hd) (hp : Program startId size os) : Described hd where
  byId a s hs := by
    obtain ⟨k, p, -, h⟩ := hm.found.byAddr a s hs
    exact h.byId
  byAddr i s hs := by
    obtain ⟨k, p, -, h⟩ := hm.found.byId i s hs
    rw [(getSiteByAddr_mem h.byAddr).2]
    exact h.byAddr
  sites a s hs hid := by
    obtain ⟨k, p, hk, h⟩ := hm.found.byAddr a s hs
    have hmem := List.mem_of_getElem? hk
    obtain ⟨ho, hc⟩ := mem_calls.mp hmem
    have hr := hp.recorded _ ho
    obtain ⟨size, hsize⟩ := hr.sized _ hc
    obtain ⟨saved, hsaved⟩ := hr.unwind _ hsize
    rw [h.id] at hid
    have hl := hm.layout p hmem (firstFrame_own hid) size saved hsize hsaved
    exact (found_sameSite h hsize hsaved (hr.fits.callsite _ hc) (hp.saved _ (mem_linkedFunctions ho hsaved))).layout hl

end

/-! ## Pairing the binaries -/

section
variable {startId : UInt64} {os os' : List ObjectFile} {a b : Handle} {k : Nat} {p p' : ObjectFile × CallsiteInfo}

/-- Twins have one ID. -/
theorem callId_twin {cs cs' : List (ObjectFile × CallsiteInfo)} (h : List.Forall₂ (Twin a.arch b.arch) cs cs')
    (ht : Twin a.arch b.arch p p') : callId startId cs' k p' = callId startId cs k p := by
  have hcount : (cs'.take k).countP (fun p => !reservedId p.2.id) = (cs.take k).countP fun p => !reservedId p.2.id := by
    have htake := List.forall₂_take k h
    generalize cs.take k = xs at htake
    generalize cs'.take k = ys at htake
    induction htake with
    | nil => rfl
    | cons hxy _ ih => rw [List.countP_cons, List.countP_cons, ih, hxy.reserved]
  unfold callId
  rw [ht.reserved, hcount]
  by_cases hr : reservedId p.2.id = true
  · rw [if_pos hr, if_pos hr, ht.id hr]
  · rw [if_neg hr, if_neg hr]

/-- The call site of twins in two binaries. -/
theorem TwinValues.paired {gs : List (Group × Group)} (ht : TwinValues a.arch b.arch p.2.locations p'.2.locations gs) {s s' : CallSite}
    (ha : Made startId os a) (hb : Made startId os' b) (hstart : ∀ p ∈ calls os, StartsValue p.2.locations)
    (hstart' : ∀ p ∈ calls os', StartsValue p.2.locations) (hs : CallFound a.arch startId os a k p s)
    (hs' : CallFound b.arch startId os' b k p' s') : PairedSite a b s s' gs where
  left := ha.groupsAt hstart hs ht.left
  right := hb.groupsAt hstart' hs' ht.right
  numLeft := by rw [found_numLive hs, ← ht.left, List.length_map]
  numRight := by rw [found_numLive hs', ← ht.right, List.length_map]
  same := ht.same
  alloca := ht.alloca

theorem twins_start {a b : Arch} {cs cs' : List (ObjectFile × CallsiteInfo)} (h : List.Forall₂ (Twin a b) cs cs') :
    (∀ p ∈ cs, StartsValue p.2.locations) ∧ ∀ p ∈ cs', StartsValue p.2.locations := by
  induction h with
  | nil => exact ⟨fun _ h => absurd h List.not_mem_nil, fun _ h => absurd h List.not_mem_nil⟩
  | cons hxy _ ih => exact ⟨List.forall_mem_cons.mpr ⟨hxy.starts.1, ih.1⟩, List.forall_mem_cons.mpr ⟨hxy.starts.2, ih.2⟩⟩

/-- Two binaries of one program are paired. -/
theorem Made.pairing {size size' : UInt64 → Nat} (ha : Made startId os a) (hb : Made startId os' b) (hp : Program startId size os)
    (hp' : Program startId size' os') (htwin : List.Forall₂ (Twin a.arch b.arch) (calls os) (calls os')) :
    ∃ P : Pairing a b, ∀ (k : Nat) p p', (calls os)[k]? = some p → (calls os')[k]? = some p' →
      TwinValues a.arch b.arch p.2.locations p'.2.locations (P.groups (callId startId (calls os) k p)) := by
  -- the values of the call with an ID
  have hgroups : ∀ i, ∃ gs, ∀ (k : Nat) p p', (calls os)[k]? = some p → (calls os')[k]? = some p' →
      callId startId (calls os) k p = i → TwinValues a.arch b.arch p.2.locations p'.2.locations gs := by
    intro i
    by_cases hex : ∃ k p, (calls os)[k]? = some p ∧ callId startId (calls os) k p = i
    · obtain ⟨k, p, hk, hi⟩ := hex
      obtain ⟨p', hk', ht⟩ := forall₂_getElem? htwin hk
      obtain ⟨gs, hgs⟩ := ht.values
      refine ⟨gs, ?_⟩
      intro l q q' hl hl' hj
      obtain rfl := ha.index hp hk hl (hi.trans hj.symm)
      obtain rfl := Option.some.inj (hk.symm.trans hl)
      obtain rfl := Option.some.inj (hk'.symm.trans hl')
      exact hgs
    · exact ⟨[], fun k p _ hk _ hi => absurd ⟨k, p, hk, hi⟩ hex⟩
  choose groups hvalues using hgroups
  obtain ⟨hstart, hstart'⟩ := twins_start htwin
  refine ⟨⟨groups, ha.described hp, hb.described hp', ?_⟩, fun k p p' hk hk' => hvalues _ k p p' hk hk' rfl⟩
  intro i s s' hs hs' _
  obtain ⟨k, p, hk, hf⟩ := ha.found.byId i s hs
  obtain ⟨l, q', hl, hf'⟩ := hb.found.byId i s' hs'
  have hi : callId startId (calls os) k p = i := hf.id.symm.trans (getSiteById_mem hs).2
  -- the other call has a twin, and this is it
  obtain ⟨q, hq, ht⟩ := forall₂_getElem? htwin.flip hl
  have hj : callId startId (calls os) l q = i := by
    rw [← callId_twin htwin ht, ← hf'.id]
    exact (getSiteById_mem hs').2
  obtain rfl := ha.index hp hk hq (hi.trans hj.symm)
  obtain rfl := Option.some.inj (hk.symm.trans hq)
  exact (hvalues i k p q' hk hl hi).paired ha hb hstart hstart' hf hf'

end

/-- The binaries that gen-stackinfo makes of a program compiled twice are paired; a call's values
    are those that the compiler recorded for it. -/
theorem toolchain_pairing (L L' : Llvm) (arch arch' : Arch) (startId : UInt64) (size size' : UInt64 → Nat) (os os' : List ObjectFile)
    (hp : Program startId size os) (hp' : Program startId size' os') (htwin : List.Forall₂ (Twin arch arch') (calls os) (calls os'))
    (hlay : ∀ p ∈ calls os, firstFrame p.2.id = false → CallLayout arch p)
    (hlay' : ∀ p ∈ calls os', firstFrame p.2.id = false → CallLayout arch' p) (e e' : Elf) (hmade : Makes L arch startId os e)
    (hmade' : Makes L' arch' startId os' e') (a b : Handle) (hopen : OpensAs e a) (hopen' : OpensAs e' b)
    (hend : (a.liveVals a.liveValsCount).isDuplicate = false) (hend' : (b.liveVals b.liveValsCount).isDuplicate = false) :
    ∃ P : Pairing a b, ∀ (k : Nat) p p', (calls os)[k]? = some p → (calls os')[k]? = some p' →
      TwinValues arch arch' p.2.locations p'.2.locations (P.groups (callId startId (calls os) k p)) := by
  obtain rfl := hmade.arch_eq hp hopen
  obtain rfl := hmade'.arch_eq hp' hopen'
  have hm : Made startId os a := ⟨hmade.found hp hopen, hlay, hend⟩
  have hm' : Made startId os' b := ⟨hmade'.found hp' hopen', hlay', hend'⟩
  exact hm.pairing hm' hp hp' htwin

/-! ## A program compiled twice -/

theorem twoFunctions_layout (arch : Arch) (p : ObjectFile × CallsiteInfo) (hp : p ∈ calls [twoFunctions arch])
    (hid : firstFrame p.2.id = false) : CallLayout arch p := by
  intro size saved hsize hsaved
  cases arch with
  | x86_64 =>
    obtain rfl | hp := List.mem_cons.mp hp
    · cases hid
    · obtain rfl := List.mem_singleton.mp hp
      obtain rfl : size = 40 := by simpa [twoFunctions] using hsize
      obtain rfl : saved = [⟨6, 0⟩, ⟨16, 8⟩, ⟨3, -8⟩] := by simpa [twoFunctions, twoSaved] using hsaved
      constructor <;> decide
  | aarch64 =>
    obtain rfl | hp := List.mem_cons.mp hp
    · cases hid
    · obtain rfl := List.mem_singleton.mp hp
      obtain rfl : size = 64 := by simpa [twoFunctions] using hsize
      obtain rfl : saved = [⟨29, 0⟩, ⟨30, 8⟩, ⟨19, -8⟩] := by simpa [twoFunctions, twoSaved] using hsaved
      constructor <;> decide

/-- The records of a value that has two. -/
def Group.double (v d : LiveValue) (hv : v.isDuplicate = false) (hd : d.isDuplicate = true) : Group :=
  ⟨v, [d], hv, fun _ h => (List.mem_singleton.mp h).symm ▸ hd⟩

/-- The alloca, and the pointer. -/
def twoGroups : List (Group × Group) :=
  [(.single (demoAlloca 6 (-24) 8) rfl, .single (demoAlloca 29 (-16) 8) rfl),
    (.single ⟨false, false, true, false, 3, 8, 6, -32, 0⟩ rfl,
      .double ⟨false, false, true, false, 1, 8, 19, 0, 0⟩ ⟨true, false, true, false, 3, 8, 29, -32, 0⟩ rfl rfl)]

theorem twoFunctions_twin : List.Forall₂ (Twin .x86_64 .aarch64) (calls [twoFunctions .x86_64]) (calls [twoFunctions .aarch64]) := by
  refine .cons ⟨rfl, fun _ => rfl, [], rfl, rfl, fun _ h => absurd h List.not_mem_nil, fun _ h => absurd h List.not_mem_nil⟩
    (.cons ⟨rfl, fun h => absurd h (by decide), twoGroups, rfl, rfl, ?_, ?_⟩ .nil)
  · intro g hg v hv w hw
    obtain rfl | hg := List.mem_cons.mp hg
    · obtain rfl := List.mem_singleton.mp hv
      obtain rfl := List.mem_singleton.mp hw
      exact ⟨.inl rfl, rfl, rfl, iff_of_true ⟨.inr (.inl rfl), 56, rfl⟩ ⟨.inr (.inl rfl), 248, rfl⟩⟩
    · obtain rfl := List.mem_singleton.mp hg
      obtain rfl := List.mem_singleton.mp hv
      obtain rfl | hw := List.mem_cons.mp hw
      · exact ⟨.inl rfl, rfl, rfl, iff_of_true ⟨.inr (.inr rfl), 56, rfl⟩ ⟨.inl rfl, 168, rfl⟩⟩
      · obtain rfl := List.mem_singleton.mp hw
        exact ⟨.inl rfl, rfl, rfl, iff_of_true ⟨.inr (.inr rfl), 56, rfl⟩ ⟨.inr (.inr rfl), 248, rfl⟩⟩
  · intro g hg ha
    obtain rfl | hg := List.mem_cons.mp hg
    · exact ⟨⟨rfl, .inl rfl⟩, rfl, .inl rfl⟩
    · obtain rfl := List.mem_singleton.mp hg
      cases ha

theorem toolchain_pairing_two : ∃ (a b : Handle) (P : Pairing a b), a.arch = .x86_64 ∧ b.arch = .aarch64 ∧
    ((P.groups 100).map Prod.snd).flatMap Group.records =
      [demoAlloca 29 (-16) 8, ⟨false, false, true, false, 1, 8, 19, 0, 0⟩, ⟨true, false, true, false, 3, 8, 29, -32, 0⟩] := by
  obtain ⟨e, a, hmade, hopen, hend⟩ := twoFile_opens .x86_64
  obtain ⟨e', b, hmade', hopen', hend'⟩ := twoFile_opens .aarch64
  obtain ⟨P, hP⟩ := toolchain_pairing documentedLlvm documentedLlvm .x86_64 .aarch64 100 _ _ [twoFunctions .x86_64] [twoFunctions .aarch64]
    (twoFunctions_program _) (twoFunctions_program _) twoFunctions_twin (twoFunctions_layout _) (twoFunctions_layout _) e e' hmade hmade' a b
    hopen hopen' hend hend'
  exact ⟨a, b, P, hmade.arch_eq (twoFunctions_program _) hopen, hmade'.arch_eq (twoFunctions_program _) hopen', (hP 1 _ _ rfl rfl).right.symm⟩

end Popcorn.Runtime
