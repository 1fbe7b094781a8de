/-
  Popcorn.Metadata.Toolchain — from the compiler's call sites to the runtime's lookups.

  An object file's stackmap section takes the functions' addresses and numbers of unwind records
  from its unwind information (`getUnwindInfo` of patches/llvm/src/lib/CodeGen/UnwindInfo.cpp).
  The linker concatenates the sections. gen-stackinfo decodes the stackmaps, rebuilds the
  table of functions and makes the records of the call-site sections. `Opened` is a handle that
  holds these records; `Popcorn.Runtime.OpenFile` gets there by way of the ELF file.

  `Program` is what is asked of the linked program: the functions are apart, no two calls return
  to one address, no call is its function's last instruction, and the counts and sizes
  fit their fields.

  Proved:
  - `Program.created`: gen-stackinfo can make the metadata.
  - `Program.calls_found`: the runtime finds every call site, and no other, by its return address
    and by its ID, with the frame, the unwind records and the values that the compiler recorded for
    it.
-/

import Popcorn.Metadata.StackmapProofs
import Popcorn.Metadata.UnwindSlices
import Popcorn.Metadata.UnwindTable

namespace Popcorn.Metadata

open Popcorn.Lib

/-! ## Object files -/

/-- `UnwindInfo::getUnwindInfo`. -/
def getUnwindInfo (o : Object) (func : Nat) : Option FuncUnwindInfo :=
  ((emitUnwindInfo o.funcCalleeSaved).metadata.entries.find? fun e => e.1 == func).map (·.2)

/-- The stackmaps of an object file, and its unwind information. -/
structure ObjectFile where
  unwind : Object
  /-- `FnStackSize`, a `MapVector<const MCSymbol *, uint64_t>`. -/
  fnStackSize : List (Nat × UInt64)
  constPool : List UInt64
  csInfos : List CallsiteInfo

/-- The function records of the object file's section. -/
def ObjectFile.module (o : ObjectFile) : Module where
  fnStackSize := o.fnStackSize.map fun f =>
    let fui := (getUnwindInfo o.unwind f.1).getD ⟨0, 0⟩
    ⟨f.1, o.unwind.symbolValue f.1, f.2, fui.numUnwindRecord, fui.secOffset⟩
  constPool := o.constPool
  csInfos := o.csInfos

/-- The call sites in the order of the sections. -/
def calls (os : List ObjectFile) : List (ObjectFile × CallsiteInfo) := os.flatMap fun o => o.csInfos.map (o, ·)

/-- The address a call returns to. -/
def callAddr (p : ObjectFile × CallsiteInfo) : UInt64 := p.1.unwind.symbolValue p.2.func + p.2.csOffset.toUInt64

def unwindObjects (os : List ObjectFile) : List Object := os.map (·.unwind)

/-- `recordStackMapOpers` enters the function of every call site, and `recordUnwindInfo` every
    function with a stackmap. -/
structure ObjectFile.Recorded (o : ObjectFile) : Prop where
  keys : (o.fnStackSize.map (·.1)).Nodup
  sized : ∀ c ∈ o.csInfos, ∃ size, (c.func, size) ∈ o.fnStackSize
  unwind : ∀ f ∈ o.fnStackSize, ∃ saved, (f.1, saved) ∈ o.unwind.funcCalleeSaved.entries
  fits : o.module.Fits

/-- The linked program; `size` is the size of the function at an address. -/
structure Program (startId : UInt64) (size : UInt64 → Nat) (os : List ObjectFile) : Prop where
  recorded : ∀ o ∈ os, o.Recorded
  linked : linkedFunctions (unwindObjects os) ≠ []
  nonempty : ∀ f ∈ linkedFunctions (unwindObjects os), 0 < size f.addr
  addressable : ∀ f ∈ linkedFunctions (unwindObjects os), f.addr.toNat + size f.addr < 18446744073709551616
  apart : (linkedFunctions (unwindObjects os)).Pairwise fun f g =>
    f.addr.toNat + size f.addr ≤ g.addr.toNat ∨ g.addr.toNat + size g.addr ≤ f.addr.toNat
  saved : ∀ f ∈ linkedFunctions (unwindObjects os), f.saved.length < 65536
  numRecords : (linkedUnwind (unwindObjects os)).length < 4294967296
  /-- A frame, with the return address, has 32 bits. -/
  frames : ∀ o ∈ os, ∀ f ∈ o.fnStackSize, f.2.toNat + 8 < 4294967296
  inside : ∀ p ∈ calls os, 0 < p.2.csOffset.toNat ∧ p.2.csOffset.toNat < size (p.1.unwind.symbolValue p.2.func)
  addrs : ((calls os).map callAddr).Nodup
  reserved : (calls os).Pairwise fun p q => reservedId p.2.id = true → p.2.id ≠ q.2.id
  ids : startId.toNat + (calls os).length < uint64Max.toNat - 2

/-- A handle with the table of functions `addrs`, the metadata `t` and the unwinding records `locs`. -/
structure Opened (hd : Handle) (addrs : List UnwindAddr) (t : Sections) (locs : List UnwindLoc) : Prop where
  unwindAddrs : hd.unwindAddrs = addrs
  sitesId : hd.sitesId = t.idSites
  sitesAddr : hd.sitesAddr = t.addrSites
  unwindLocs : hd.unwindLocs = locs
  liveValsCount : hd.liveValsCount = t.liveVals.length
  liveVals : ∀ i v, t.liveVals[i]? = some v → hd.liveVals i = v
  archLiveVals : hd.archLiveVals = t.archlive

/-- The ID of call `k`: its own if that is a reserved one, and else the next one from `startId` on. -/
def callId (startId : UInt64) (cs : List (ObjectFile × CallsiteInfo)) (k : Nat) (p : ObjectFile × CallsiteInfo) : UInt64 :=
  if reservedId p.2.id then p.2.id else startId + UInt64.ofNat ((cs.take k).countP fun p => !reservedId p.2.id)

/-- `site` is what the runtime finds for the call `p`, the `k`th. -/
structure CallFound (arch : Arch) (startId : UInt64) (os : List ObjectFile) (hd : Handle) (k : Nat) (p : ObjectFile × CallsiteInfo)
    (site : CallSite) : Prop where
  byAddr : getSiteByAddr hd (callAddr p) = some site
  byId : getSiteById hd site.id = some site
  id : site.id = callId startId (calls os) k p
  frame : ∀ size, (p.2.func, size) ∈ p.1.fnStackSize → site.frameSize.toNat = (cfaCorrection arch size).toNat
  unwind : ∀ saved, (p.2.func, saved) ∈ p.1.unwind.funcCalleeSaved.entries →
    (hd.unwindLocs.drop site.unwindOffset).take site.numUnwind.toNat = saved.map RegOffset.emit
  unwindFits : site.unwindOffset + site.numUnwind.toNat < 4294967296
  live : List.Forall₂ LocationRead p.2.locations ((List.range site.numLive.toNat).map fun t => hd.liveVals (site.liveOffset + t))
  inside : site.liveOffset + site.numLive.toNat ≤ hd.liveValsCount
  /-- What follows its values are those of another call, if any. -/
  next : site.liveOffset + site.numLive.toNat < hd.liveValsCount → ∃ p' ∈ calls os, ∃ l ls, p'.2.locations = l :: ls ∧
    LocationRead l (hd.liveVals (site.liveOffset + site.numLive.toNat))
  arch : List.Forall₂ ArchValueRead p.2.vals ((hd.archLiveVals.drop site.archLiveOffset).take site.numArchLive.toNat)

/-- The call sites of the program are those of the handle. -/
structure CallsFound (arch : Arch) (startId : UInt64) (os : List ObjectFile) (hd : Handle) : Prop where
  found : ∀ (k : Nat) p, (calls os)[k]? = some p → ∃ site, CallFound arch startId os hd k p site
  byAddr : ∀ a site, getSiteByAddr hd a = some site → ∃ k p, (calls os)[k]? = some p ∧ CallFound arch startId os hd k p site
  byId : ∀ i site, getSiteById hd i = some site → ∃ k p, (calls os)[k]? = some p ∧ CallFound arch startId os hd k p site

/-! ## Records -/

/-- The record of a location. -/
def readLocation (l : Location) : LiveValue :=
  ⟨l.duplicate, l.alloca, l.ptr, false, l.type.code, l.size.toUInt8, l.reg.toUInt16, l.offset.toInt32, l.allocaSize⟩

/-- The record of an architecture-specific value. -/
def readArchValue (v : Location × Operation) : ArchLiveValue :=
  ⟨v.1.ptr, ⟨0, Nat.zero_lt_succ 7⟩, v.1.type.code, v.1.size.toUInt8, v.1.reg.toUInt16, UInt32.ofNat (v.1.offset.toInt % 4294967296).toNat,
    v.2.operandType.code, v.2.instType.code, v.2.size.toUInt8, v.2.dwarfReg.toUInt16,
    if v.2.isSymbol then Int64.ofInt v.2.symbol.toNat else v.2.constant⟩

theorem toUInt8_of_toNat {x : UInt8} {y : UInt32} (h : x.toNat = y.toNat) : x = y.toUInt8 := by
  apply UInt8.toNat_inj.mp
  have hlt := x.toNat_lt
  rw [UInt32.toNat_toUInt8, ← h]
  exact (Nat.mod_eq_of_lt hlt).symm

theorem toUInt16_of_toNat {x : UInt16} {y : UInt32} (h : x.toNat = y.toNat) : x = y.toUInt16 := by
  apply UInt16.toNat_inj.mp
  have hlt := x.toNat_lt
  rw [UInt32.toNat_toUInt16, ← h]
  exact (Nat.mod_eq_of_lt hlt).symm

theorem toInt32_of_toInt {x : Int32} {y : Int64} (h : x.toInt = y.toInt) : x = y.toInt32 := by
  apply Int32.toInt_inj.mp
  have h1 := x.le_toInt
  have h2 := x.toInt_lt
  rw [Int64.toInt_toInt32, ← h]
  exact (Int.bmod_eq_of_le (by omega) (by omega)).symm

theorem LocationRead.eq {l : Location} {v : LiveValue} (h : LocationRead l v) : v = readLocation l := by
  obtain ⟨htype, hptr, halloca, hdup, hpad, hsize, hreg, hoffset, hallocaSize⟩ := h
  cases v
  dsimp only at *
  rw [htype, hptr, halloca, hdup, hpad, toUInt8_of_toNat hsize, toUInt16_of_toNat hreg, toInt32_of_toInt hoffset, hallocaSize]
  rfl

theorem ArchValueRead.eq {v : Location × Operation} {r : ArchLiveValue} (h : ArchValueRead v r) : r = readArchValue v := by
  obtain ⟨htype, hptr, hpad, hsize, hreg, hoffset, hinst, hoptype, hopsize, hopreg, hop⟩ := h
  cases r
  dsimp only at *
  have hoff : ∀ {x : UInt32}, (x.toNat : Int) = v.1.offset.toInt % 4294967296 → x = UInt32.ofNat (v.1.offset.toInt % 4294967296).toNat := by
    intro x hx
    rw [← hx, Int.toNat_natCast, UInt32.ofNat_toNat]
  rw [htype, hptr, hpad, toUInt8_of_toNat hsize, toUInt16_of_toNat hreg, hoff hoffset, hinst, hoptype, toUInt8_of_toNat hopsize,
    toUInt16_of_toNat hopreg, hop]
  rfl

/-! ## What gen-stackinfo decodes -/

/-- A record and its section read as the call site and its object file. -/
structure ReadsAs (p : ObjectFile × CallsiteInfo) (q : StackMapSection × CallSiteRecord) : Prop where
  call : CallsiteRead p.1.module p.2 q.2
  functions : List.Forall₂ FnRead p.1.module.fnStackSize q.1.functionRecords

theorem records_read {L : Llvm} {os : List ObjectFile} : ∀ {ss : List StackMapSection},
    List.Forall₂ (SectionRead L) ((os.map ObjectFile.module).filter (!·.csInfos.isEmpty)) ss →
      List.Forall₂ ReadsAs (calls os) (records ss) := by
  induction os with
  | nil =>
    intro ss h
    cases h
    exact .nil
  | cons o os ih =>
    intro ss h
    unfold calls
    rw [List.flatMap_cons]
    by_cases he : o.csInfos.isEmpty = true
    · -- it has no section
      rw [List.map_cons, List.filter_cons_of_neg (by simp [ObjectFile.module, he])] at h
      rw [List.isEmpty_iff.mp he, List.map_nil, List.nil_append]
      exact ih h
    · rw [List.map_cons, List.filter_cons_of_pos (by simpa [ObjectFile.module] using he)] at h
      cases h with
      | cons hs h =>
        unfold records
        rw [List.flatMap_cons]
        refine List.rel_append ?_ (ih h)
        rw [List.forall₂_map_left_iff, List.forall₂_map_right_iff]
        exact hs.callSites.imp fun c r hc => ⟨hc, hs.functionRecords⟩

/-- The section that the linker makes of the object files' own. -/
def linkedStackmaps (L : Llvm) (os : List ObjectFile) : List UInt8 := (os.map ObjectFile.module).flatMap (serializeToStackMapSection L)

/-- The concatenated sections decode to the call sites. -/
theorem linked_decodes {L : Llvm} {os : List ObjectFile} {m : Mem} {buf : Nat} (hb : buf % 8 = 0) (hfit : ∀ o ∈ os, o.module.Fits)
    (h : At m buf (linkedStackmaps L os)) :
    ∃ ss, initStackmap m (some ⟨(linkedStackmaps L os).length, 1, buf⟩) = .ok ss ∧
      List.Forall₂ ReadsAs (calls os) (records ss) := by
  have hfit' : ∀ M ∈ os.map ObjectFile.module, M.Fits := by
    intro M hM
    obtain ⟨o, ho, rfl⟩ := List.mem_map.mp hM
    exact hfit o ho
  obtain ⟨hsize, hread, -⟩ := passes_emit (os.map ObjectFile.module) 0 _ 0 hfit' hb h (Nat.zero_add _).symm (Nat.le_refl _)
  rw [Nat.zero_add] at hsize
  refine ⟨_, ?_, records_read hread⟩
  unfold linkedStackmaps
  simp only [initStackmap, ne_eq, not_true_eq_false, if_false, hsize]

/-! ## The function of a call -/

theorem SymMap.find_mem {β : Type} (m : SymMap β) {e : Nat × β} (he : e ∈ m.entries) : m.entries.find? (fun x => x.1 == e.1) = some e := by
  obtain ⟨e', he'⟩ : ∃ e', m.entries.find? (fun x => x.1 == e.1) = some e' :=
    Option.isSome_iff_exists.mp (List.find?_isSome.mpr ⟨e, he, beq_self_eq_true e.1⟩)
  have hkey : e'.1 = e.1 := by simpa using List.find?_some he'
  have hnodup : (m.entries.map (·.1)).Nodup := List.pairwise_map.mpr (m.ascending.imp Nat.ne_of_lt)
  rw [he', List.inj_on_of_nodup_map hnodup (List.mem_of_find?_eq_some he') he hkey]

/-- The function's number of unwind records. -/
theorem getUnwindInfo_num {o : Object} {func : Nat} {saved : List RegOffset} (h : (func, saved) ∈ o.funcCalleeSaved.entries) :
    ∃ fui, getUnwindInfo o func = some fui ∧ fui.numUnwindRecord = UInt32.ofNat saved.length := by
  have hmem : (func, UInt32.ofNat saved.length) ∈ (emitUnwindInfo o.funcCalleeSaved).metadata.entries.map fun e => (e.1, e.2.numUnwindRecord) := by
    rw [(emitUnwindInfo_emitted o.funcCalleeSaved).metadata]
    exact List.mem_map_of_mem h
  obtain ⟨e, he, heq⟩ := List.mem_map.mp hmem
  obtain ⟨rfl, hnum⟩ := Prod.mk.inj heq
  refine ⟨e.2, ?_, hnum⟩
  unfold getUnwindInfo
  rw [SymMap.find_mem _ he]
  rfl

theorem SymMap.entries_inj {β : Type} (m : SymMap β) {k : Nat} {v w : β} (hv : (k, v) ∈ m.entries) (hw : (k, w) ∈ m.entries) : v = w := by
  have hfind : m.entries.find? (fun x => x.1 == k) = some (k, w) := m.find_mem hw
  exact (Prod.mk.inj (Option.some.inj ((m.find_mem hv).symm.trans hfind))).2

theorem forall₂_getElem? {α β : Type} {R : α → β → Prop} {xs : List α} {ys : List β} (h : List.Forall₂ R xs ys) {i : Nat} {x : α}
    (hx : xs[i]? = some x) : ∃ y, ys[i]? = some y ∧ R x y := by
  obtain ⟨hi, rfl⟩ := List.getElem?_eq_some_iff.mp hx
  have hi' : i < ys.length := h.length_eq ▸ hi
  exact ⟨ys[i], List.getElem?_eq_getElem hi', h.get hi hi'⟩

/-- What a record says of its function. -/
structure RecordFunction (p : ObjectFile × CallsiteInfo) (fr : FunctionRecord) (size : UInt64) (saved : List RegOffset) : Prop where
  size_mem : (p.2.func, size) ∈ p.1.fnStackSize
  saved_mem : (p.2.func, saved) ∈ p.1.unwind.funcCalleeSaved.entries
  funcAddr : fr.funcAddr = p.1.unwind.symbolValue p.2.func
  stackSize : fr.stackSize = size
  numUnwind : fr.numUnwind = UInt32.ofNat saved.length

theorem mem_calls {os : List ObjectFile} {p : ObjectFile × CallsiteInfo} : p ∈ calls os ↔ p.1 ∈ os ∧ p.2 ∈ p.1.csInfos := by
  unfold calls
  simp only [List.mem_flatMap, List.mem_map]
  constructor
  · rintro ⟨o, ho, c, hc, rfl⟩
    exact ⟨ho, hc⟩
  · intro h
    exact ⟨p.1, h.1, p.2, h.2, rfl⟩

theorem ReadsAs.function {p : ObjectFile × CallsiteInfo} {q : StackMapSection × CallSiteRecord} (h : ReadsAs p q) (hr : p.1.Recorded)
    (hp : p.2 ∈ p.1.csInfos) : ∃ fr size saved, q.1.functionRecords[q.2.funcIdx.toNat]? = some fr ∧ RecordFunction p fr size saved := by
  obtain ⟨size, hsize⟩ := hr.sized _ hp
  obtain ⟨saved, hsaved⟩ := hr.unwind _ hsize
  obtain ⟨fui, hfui, hnum⟩ := getUnwindInfo_num hsaved
  -- the function is found in the section's table
  have hidx : p.1.module.fnStackSize[fnIndex p.1.module p.2.func]? = some
      ⟨p.2.func, p.1.unwind.symbolValue p.2.func, size, fui.numUnwindRecord, fui.secOffset⟩ := by
    have hmem : (⟨p.2.func, p.1.unwind.symbolValue p.2.func, size, fui.numUnwindRecord, fui.secOffset⟩ : FnRecord) ∈
        p.1.module.fnStackSize := by
      refine List.mem_map.mpr ⟨_, hsize, ?_⟩
      dsimp only
      rw [hfui]
      rfl
    have hex : ∃ f ∈ p.1.module.fnStackSize, (f.sym == p.2.func) = true := ⟨_, hmem, beq_self_eq_true p.2.func⟩
    have hlt : fnIndex p.1.module p.2.func < p.1.module.fnStackSize.length := List.findIdx_lt_length.mpr hex
    have hkey : (p.1.module.fnStackSize[fnIndex p.1.module p.2.func]).sym = p.2.func :=
      eq_of_beq (List.findIdx_getElem (w := hlt))
    have hnodup : (p.1.module.fnStackSize.map (·.sym)).Nodup := by
      show ((p.1.fnStackSize.map _).map _).Nodup
      rw [List.map_map]
      exact hr.keys
    rw [List.getElem?_eq_getElem hlt]
    exact congrArg some (List.inj_on_of_nodup_map hnodup (List.getElem_mem hlt) hmem hkey)
  obtain ⟨fr, hfr, hread⟩ := forall₂_getElem? h.functions hidx
  refine ⟨fr, size, saved, ?_, hsize, hsaved, hread.funcAddr, hread.stackSize, hread.numUnwind.trans hnum⟩
  rw [h.call.funcIdx]
  exact hfr

theorem mem_linkedFunctions {os : List ObjectFile} {o : ObjectFile} (ho : o ∈ os) {func : Nat} {saved : List RegOffset}
    (h : (func, saved) ∈ o.unwind.funcCalleeSaved.entries) : ⟨o.unwind.symbolValue func, saved⟩ ∈ linkedFunctions (unwindObjects os) :=
  List.mem_flatMap.mpr ⟨o.unwind, List.mem_map_of_mem ho, List.mem_map.mpr ⟨_, h, rfl⟩⟩

/-! ## The table of functions -/

/-- The table that gen-stackinfo rebuilds, and with the functions' sizes. -/
def rebuilt (os : List ObjectFile) : List UnwindAddr := qsortUnwindAddr (updateOffsets 0 (linkedAddrRange (unwindObjects os)))
def ranges (size : UInt64 → Nat) (os : List ObjectFile) : List FuncRange := (rebuilt os).map fun ua => ⟨ua, size ua.addr⟩

theorem ranges_entry (size : UInt64 → Nat) (os : List ObjectFile) : (ranges size os).map FuncRange.entry = rebuilt os := by
  unfold ranges
  rw [List.map_map]
  exact List.map_id' _

/-- Its entries are the functions'. -/
theorem rebuilt_addrs (os : List ObjectFile) : ((rebuilt os).map (·.addr)).Perm ((linkedFunctions (unwindObjects os)).map (·.addr)) := by
  have hrange : ∀ t : List UnwindAddr, t.map (·.addr) = (t.map UnwindAddr.range).map (·.1) := by
    intro t
    rw [List.map_map]
    rfl
  have haddr : (updateOffsets 0 (linkedAddrRange (unwindObjects os))).map (·.addr) = (linkedFunctions (unwindObjects os)).map (·.addr) := by
    rw [hrange, updateOffsets_range, linkedAddrRange_eq, List.map_map]
    rfl
  rw [← haddr]
  exact (qsortUnwindAddr_perm _).map _

section
variable {startId : UInt64} {size : UInt64 → Nat} {os : List ObjectFile} (hp : Program startId size os)

include hp in
/-- The functions are in ascending order, and apart. -/
theorem Program.functions : Functions (ranges size os) := by
  have hfun : ∀ ua ∈ rebuilt os, ∃ f ∈ linkedFunctions (unwindObjects os), f.addr = ua.addr := by
    intro ua hua
    exact List.mem_map.mp ((rebuilt_addrs os).mem_iff.mp (List.mem_map_of_mem hua))
  have hrange : ∀ r ∈ ranges size os, ∃ f ∈ linkedFunctions (unwindObjects os), r.start = f.addr.toNat ∧ r.size = size f.addr := by
    intro r hr
    obtain ⟨ua, hua, rfl⟩ := List.mem_map.mp hr
    obtain ⟨f, hf, he⟩ := hfun ua hua
    exact ⟨f, hf, by rw [he]; rfl, by rw [he]⟩
  constructor
  case nonempty =>
    intro r hr
    obtain ⟨f, hf, -, hsize⟩ := hrange r hr
    rw [hsize]
    exact hp.nonempty f hf
  case addressable =>
    intro r hr
    obtain ⟨f, hf, hstart, hsize⟩ := hrange r hr
    unfold FuncRange.stop
    rw [hstart, hsize]
    exact hp.addressable f hf
  case disjoint =>
    have hapart : (rebuilt os).Pairwise fun a b => a.addr.toNat + size a.addr ≤ b.addr.toNat ∨ b.addr.toNat + size b.addr ≤ a.addr.toNat := by
      have h := List.pairwise_map (f := Func.addr) (R := fun a b : UInt64 => a.toNat + size a ≤ b.toNat ∨ b.toNat + size b ≤ a.toNat) |>.mpr hp.apart
      exact List.pairwise_map.mp (((rebuilt_addrs os).pairwise_iff fun h => h.symm).mpr h)
    unfold ranges
    rw [List.pairwise_map]
    refine (List.pairwise_and_iff.mpr ⟨hapart, qsortUnwindAddr_pairwise _⟩).imp_of_mem ?_
    intro a b _ hb hab
    obtain ⟨f, hf, he⟩ := hfun b hb
    have hpos := hp.nonempty f hf
    rw [he] at hpos
    have hle : a.addr.toNat ≤ b.addr.toNat := UInt64.le_iff_toNat_le.mp hab.2
    show a.addr.toNat + size a.addr ≤ b.addr.toNat
    omega

include hp in
/-- The entry of a function names its own records. -/
theorem Program.entry {f : Func} (hf : f ∈ linkedFunctions (unwindObjects os)) : ∃ ua ∈ rebuilt os, ua.addr = f.addr ∧
    ua.numUnwind = UInt32.ofNat f.saved.length ∧ ua.unwindOffset.toNat + ua.numUnwind.toNat < 4294967296 ∧
    ((linkedUnwind (unwindObjects os)).drop ua.unwindOffset.toNat).take ua.numUnwind.toNat = f.records := by
  obtain ⟨k, hk⟩ := List.mem_iff_getElem?.mp hf
  have hlt : k < (linkedAddrRange (unwindObjects os)).length := by
    rw [linkedAddrRange_length]
    exact (List.getElem?_eq_some_iff.mp hk).1
  have hua := List.getElem?_eq_getElem hlt
  obtain ⟨haddr, hnum⟩ := linked_entry hk hua
  have hle := slice_le (f := Func.records) hk
  have htotal := hp.numRecords
  have hsaved := hp.saved f hf
  have hlen : f.records.length = f.saved.length := List.length_map _
  rw [linkedUnwind_eq] at htotal
  have hfit : FitsTable (unwindObjects os) k f := ⟨by omega, by omega⟩
  have hfits : (UInt32.ofNat (total ((linkedAddrRange (unwindObjects os)).take k))).toNat +
      ((linkedAddrRange (unwindObjects os))[k]).numUnwind.toNat < 4294967296 := by
    rw [rebuilt_offset hfit.2, hnum, UInt32.toNat_ofNat', Nat.mod_eq_of_lt (by omega)]
    omega
  have hslice := rebuilt_slice hk hua hfit
  have hnew : (updateOffsets 0 (linkedAddrRange (unwindObjects os)))[k]? =
      some { (linkedAddrRange (unwindObjects os))[k] with unwindOffset := UInt32.ofNat (total ((linkedAddrRange (unwindObjects os)).take k)) } := by
    rw [updateOffsets_zero, hua]
    rfl
  exact ⟨_, (qsortUnwindAddr_perm _).mem_iff.mpr (List.mem_of_getElem? hnew), haddr, hnum, hfits, hslice⟩

/-! ## The function around a return address -/

variable {p : ObjectFile × CallsiteInfo} {q : StackMapSection × CallSiteRecord}

theorem ReadsAs.returnAddr (h : ReadsAs p q) {fr : FunctionRecord} {sz : UInt64} {saved : List RegOffset}
    (hfr : q.1.functionRecords[q.2.funcIdx.toNat]? = some fr) (hf : RecordFunction p fr sz saved) : returnAddr q = some (callAddr p) := by
  unfold Popcorn.Metadata.returnAddr callAddr
  rw [hfr, ← hf.funcAddr, ← h.call.offset]
  rfl

include hp in
/-- The call is in its function, and its return address leads to nowhere else. -/
theorem Program.callIn (arch : Arch) (hmem : p ∈ calls os) (h : ReadsAs p q) : ∃ fr sz saved ua, RecordFunction p fr sz saved ∧
    q.1.functionRecords[q.2.funcIdx.toNat]? = some fr ∧ CallIn (ranges size os) q fr ⟨ua, size ua.addr⟩ ∧
    Representable arch (ranges size os) q fr ⟨ua, size ua.addr⟩ ∧ ua.unwindOffset.toNat + ua.numUnwind.toNat < 4294967296 ∧
    ((linkedUnwind (unwindObjects os)).drop ua.unwindOffset.toNat).take ua.numUnwind.toNat = saved.map RegOffset.emit := by
  obtain ⟨ho, hc⟩ := mem_calls.mp hmem
  obtain ⟨fr, sz, saved, hfr, hf⟩ := h.function (hp.recorded _ ho) hc
  have hfun := mem_linkedFunctions ho hf.saved_mem
  obtain ⟨ua, hua, haddr, hnum, hfits, hslice⟩ := hp.entry hfun
  obtain ⟨h0, hlt⟩ := hp.inside p hmem
  have hin : (⟨ua, size ua.addr⟩ : FuncRange) ∈ ranges size os := List.mem_map_of_mem hua
  dsimp only at haddr hnum
  have hoff : q.2.offset.toNat < size ua.addr := by
    rw [h.call.offset, haddr]
    exact hlt
  refine ⟨fr, sz, saved, ua, hf, hfr, ⟨hfr, hin, ?_, ?_, ?_⟩, ⟨?_, ?_, ?_⟩, hfits, hslice⟩
  · exact hf.funcAddr.trans haddr.symm
  · exact hf.numUnwind.trans hnum.symm
  · rw [h.call.offset] at hoff ⊢
    exact ⟨h0, Nat.le_of_lt hoff⟩
  · -- no function starts in another one
    intro g hg hstart
    have hpos := hp.functions.nonempty g hg
    obtain rfl | hle | hle := hp.functions.apart hin hg
    · rfl
    · unfold FuncRange.stop at hle
      dsimp only at hle
      omega
    · unfold FuncRange.stop at hle
      omega
  · rw [hf.numUnwind, UInt32.toNat_ofNat', Nat.mod_eq_of_lt]
    · exact hp.saved _ hfun
    · exact Nat.lt_trans (hp.saved _ hfun) (by decide)
  · have hframe := hp.frames _ ho _ hf.size_mem
    unfold frameBytes
    rw [hf.stackSize]
    dsimp only at hframe
    cases arch <;> dsimp only <;> omega

end

/-! ## What the runtime finds -/

theorem forall₂_imp_mem {α β : Type} {R S : α → β → Prop} {xs : List α} {ys : List β} (h : List.Forall₂ R xs ys)
    (himp : ∀ x ∈ xs, ∀ y, R x y → S x y) : List.Forall₂ S xs ys := by
  induction h with
  | nil => exact .nil
  | cons hxy _ ih =>
    exact .cons (himp _ List.mem_cons_self _ hxy) (ih fun x hx => himp x (List.mem_cons_of_mem _ hx))

/-- Both lookups decide membership in the sites that were built. -/
theorem addSections_lookup {arch : Arch} {sm : List StackMapSection} {startId : UInt64} {addrs : List UnwindAddr} {t : Sections}
    (h : addSections arch sm startId (some addrs) = .ok t) (haddr : ((records sm).map returnAddr).Nodup)
    (hid : ∀ (k l : Nat) p q, (records sm)[k]? = some p → (records sm)[l]? = some q →
      finalId startId (records sm) k p = finalId startId (records sm) l q → k = l)
    {hd : Handle} (hsid : hd.sitesId = t.idSites) (hsaddr : hd.sitesAddr = t.addrSites) :
    ∃ st, Built arch startId addrs (records sm) st ∧ t.liveVals = st.locs ∧ t.archlive = st.archlive ∧
      (∀ a s, getSiteByAddr hd a = some s ↔ s ∈ st.sites ∧ s.addr = a) ∧
      ∀ i s, getSiteById hd i = some s ↔ s ∈ st.sites ∧ s.id = i := by
  obtain ⟨st, hb, rfl⟩ := addSections_built h
  have hpid : (qsortId st.sites).Perm st.sites := List.perm_insertionSort _ _
  have hpaddr : (qsortAddr (qsortId st.sites)).Perm (qsortId st.sites) := List.perm_insertionSort _ _
  obtain ⟨hnid, hnaddr⟩ := hb.nodup haddr hid
  have hsort : hd.Sorted := by
    constructor
    · rw [hsaddr]
      exact pairwise_lt_of_le (qsortAddr_pairwise _) (((hpaddr.trans hpid).map _).nodup_iff.mpr hnaddr)
    · rw [hsid]
      exact pairwise_lt_of_le (qsortId_pairwise _) ((hpid.map _).nodup_iff.mpr hnid)
  refine ⟨st, hb, rfl, rfl, ?_, ?_⟩
  · intro a s
    rw [getSiteByAddr_iff hsort, hsaddr, (hpaddr.trans hpid).mem_iff]
  · intro i s
    rw [getSiteById_iff hsort, hsid, hpid.mem_iff]

/-- Final IDs are distinct where the reserved ones are. -/
theorem finalId_injective {startId : UInt64} {rs : List (StackMapSection × CallSiteRecord)}
    (hb : startId.toNat + rs.length < uint64Max.toNat - 2) (hres : rs.Pairwise fun p q => reservedId p.2.id = true → p.2.id ≠ q.2.id)
    (k l : Nat) (p q : StackMapSection × CallSiteRecord) (hp : rs[k]? = some p) (hq : rs[l]? = some q)
    (he : finalId startId rs k p = finalId startId rs l q) : k = l := by
  cases hpr : reservedId p.2.id with
  | false => exact finalId_inj hb hp hq hpr he
  | true =>
    cases hqr : reservedId q.2.id with
    | false => exact (finalId_inj hb hq hp hqr he.symm).symm
    | true =>
      have hsame : p.2.id = q.2.id := by
        unfold finalId at he
        rwa [if_pos hpr, if_pos hqr] at he
      obtain ⟨hk, rfl⟩ := List.getElem?_eq_some_iff.mp hp
      obtain ⟨hl, rfl⟩ := List.getElem?_eq_some_iff.mp hq
      have hpw := List.pairwise_iff_getElem.mp hres
      obtain hlt | heq | hlt := Nat.lt_trichotomy k l
      · exact absurd hsame (hpw k l hk hl hlt hpr)
      · exact heq
      · exact absurd hsame.symm (hpw l k hl hk hlt hqr)

theorem range_map_slice {β : Type} {xs : List β} {f : Nat → β} {start n : Nat} (hle : start + n ≤ xs.length)
    (hf : ∀ i v, xs[i]? = some v → f i = v) : ((List.range n).map fun t => f (start + t)) = (xs.drop start).take n := by
  apply List.ext_getElem?
  intro i
  rw [List.getElem?_map, List.getElem?_take]
  by_cases hi : i < n
  · have hget := List.getElem?_eq_getElem (show start + i < xs.length by omega)
    rw [List.getElem?_range hi, if_pos hi, List.getElem?_drop, hget]
    exact congrArg some (hf _ _ hget)
  · rw [if_neg hi, List.getElem?_eq_none (by rw [List.length_range]; omega)]
    rfl

/-- The records get the IDs of the calls. -/
theorem finalId_callId {startId : UInt64} {cs : List (ObjectFile × CallsiteInfo)} {rs : List (StackMapSection × CallSiteRecord)}
    (h : List.Forall₂ ReadsAs cs rs) {k : Nat} {p : ObjectFile × CallsiteInfo} {q : StackMapSection × CallSiteRecord} (hpq : ReadsAs p q) :
    finalId startId rs k q = callId startId cs k p := by
  have hcount : generated rs k = (cs.take k).countP fun p => !reservedId p.2.id := by
    have ht := List.forall₂_take k h
    unfold generated
    generalize rs.take k = ys at ht
    generalize cs.take k = xs at ht
    induction ht with
    | nil => rfl
    | cons hxy _ ih => rw [List.countP_cons, List.countP_cons, ih, hxy.call.id]
  unfold finalId callId
  rw [hpq.call.id, hcount]

section
variable {startId : UInt64} {size : UInt64 → Nat} {os : List ObjectFile} (hp : Program startId size os) {sm : List StackMapSection}
  (hread : List.Forall₂ ReadsAs (calls os) (records sm))

include hp hread in
/-- The final IDs and the return addresses of the records are distinct. -/
theorem Program.distinct : ((records sm).map returnAddr).Nodup ∧
    ∀ (k l : Nat) p q, (records sm)[k]? = some p → (records sm)[l]? = some q →
      finalId startId (records sm) k p = finalId startId (records sm) l q → k = l := by
  constructor
  · have hall : List.Forall₂ (fun p q => some (callAddr p) = returnAddr q) (calls os) (records sm) := by
      refine forall₂_imp_mem hread ?_
      intro p hmem q h
      obtain ⟨fr, sz, saved, -, hf, hfr, -⟩ := hp.callIn .x86_64 hmem h
      exact (h.returnAddr hfr hf).symm
    have heq : (calls os).map (some ∘ callAddr) = (records sm).map returnAddr := by
      rw [← List.forall₂_eq_eq_eq, List.forall₂_map_left_iff, List.forall₂_map_right_iff]
      exact hall
    rw [← heq, ← List.map_map]
    exact hp.addrs.map (Option.some_injective _)
  · apply finalId_injective
    · rw [← hread.length_eq]
      exact hp.ids
    · have hids : (calls os).map (·.2.id) = (records sm).map (·.2.id) := by
        rw [← List.forall₂_eq_eq_eq, List.forall₂_map_left_iff, List.forall₂_map_right_iff]
        exact hread.imp fun p q h => h.call.id.symm
      have hpw := (List.pairwise_map (f := fun p : ObjectFile × CallsiteInfo => p.2.id)
        (R := fun a b : UInt64 => reservedId a = true → a ≠ b)).mpr hp.reserved
      rw [hids] at hpw
      exact List.pairwise_map.mp hpw

include hp hread in
/-- Every call site's record becomes a site that the runtime finds. -/
theorem Program.site_found {arch : Arch} {t : Sections} (h : addSections arch sm startId (some (rebuilt os)) = .ok t)
    {hd : Handle} (ho : Opened hd (rebuilt os) t (linkedUnwind (unwindObjects os))) :
    ∃ sites : List CallSite, sites.length = (calls os).length ∧
      (∀ (k : Nat) p site, (calls os)[k]? = some p → sites[k]? = some site → CallFound arch startId os hd k p site) ∧
      (∀ a s, getSiteByAddr hd a = some s → s ∈ sites) ∧ ∀ i s, getSiteById hd i = some s → s ∈ sites := by
  obtain ⟨haddrs, hids⟩ := hp.distinct hread
  have hcount := ho.liveValsCount
  have hlive := ho.liveVals
  obtain ⟨st, hbuilt, hlocs, harch, hA, hI⟩ := addSections_lookup h haddrs hids ho.sitesId ho.sitesAddr
  refine ⟨st.sites, hbuilt.length.trans hread.length_eq.symm, ?_, fun a s hs => ((hA a s).mp hs).1, fun i s hs => ((hI i s).mp hs).1⟩
  intro k p site hk hsite
  obtain ⟨q, hq, hpq⟩ := forall₂_getElem? hread hk
  have hmem := List.mem_of_getElem? hk
  have hin := List.mem_of_getElem? hsite
  have hof := hbuilt.site k q site hq hsite
  obtain ⟨fr, sz, saved, ua, hf, hfr, hcall, hrep, hfits, hslice⟩ := hp.callIn arch hmem hpq
  have haddr : site.addr = callAddr p := Option.some.inj (hof.addr.trans (hpq.returnAddr hfr hf))
  rw [← ranges_entry size os] at hof
  have hown := (ownSlice_iff hp.functions hcall hof).mpr hrep
  have hend : site.liveOffset + site.numLive.toNat ≤ t.liveVals.length := by
    rw [hlocs, hbuilt.locs, hown.liveOffset, hown.numLive]
    exact slice_le (f := fun p : StackMapSection × CallSiteRecord => p.2.locations) hq
  constructor
  case byAddr => exact (hA _ _).mpr ⟨hin, haddr⟩
  case byId => exact (hI _ _).mpr ⟨hin, rfl⟩
  case id => exact hof.id.trans (finalId_callId hread hpq)
  case frame =>
    intro sz' hsz'
    obtain ⟨ho', -⟩ := mem_calls.mp hmem
    have hsame := List.inj_on_of_nodup_map (hp.recorded _ ho').keys hf.size_mem hsz' rfl
    obtain rfl := (Prod.mk.inj hsame).2
    have hlt := hp.frames _ ho' _ hf.size_mem
    dsimp only at hlt
    rw [hown.frameSize]
    unfold frameBytes cfaCorrection
    rw [hf.stackSize]
    cases arch with
    | x86_64 =>
      dsimp only
      rw [UInt64.toNat_add, show (8 : UInt64).toNat = 8 from rfl, Nat.mod_eq_of_lt (by omega)]
    | aarch64 => rfl
  case unwind =>
    intro saved' hsaved'
    obtain rfl := p.1.unwind.funcCalleeSaved.entries_inj hf.saved_mem hsaved'
    rw [ho.unwindLocs, hown.unwindOffset, hown.numUnwind]
    exact hslice
  case unwindFits =>
    rw [hown.unwindOffset, hown.numUnwind]
    exact hfits
  case live =>
    have hslice := slice_eq (f := fun p : StackMapSection × CallSiteRecord => p.2.locations) hq
    rw [range_map_slice hend hlive, hlocs, hbuilt.locs, hown.liveOffset, hown.numLive, hslice]
    exact hpq.call.locations
  case inside => exact hcount ▸ hend
  case next =>
    rw [hcount]
    intro hlt
    rw [hlocs, hbuilt.locs, hown.liveOffset, hown.numLive] at hlt
    obtain ⟨q', hq', v, vs, hlocs', hget⟩ := slice_next (f := fun p : StackMapSection × CallSiteRecord => p.2.locations) hq hlt
    obtain ⟨k', hk'⟩ := List.mem_iff_getElem?.mp hq'
    have hcall' : k' < (calls os).length := hread.length_eq ▸ (List.getElem?_eq_some_iff.mp hk').1
    obtain ⟨q'', hq'', hpq'⟩ := forall₂_getElem? hread (List.getElem?_eq_getElem hcall')
    obtain rfl := Option.some.inj (hk'.symm.trans hq'')
    have hlocations := hpq'.call.locations
    rw [hlocs'] at hlocations
    obtain ⟨l, ls, hl, -, hls⟩ := List.forall₂_cons_right_iff.mp hlocations
    refine ⟨_, List.getElem_mem hcall', l, ls, hls, ?_⟩
    rw [hown.liveOffset, hown.numLive, hlive _ v (by rw [hlocs, hbuilt.locs]; exact hget)]
    exact hl
  case arch =>
    have hslice := slice_eq (f := fun p : StackMapSection × CallSiteRecord => p.2.archLive) hq
    rw [ho.archLiveVals, harch, hbuilt.archlive, hown.archLiveOffset, hown.numArchLive, hslice]
    exact hpq.call.archLive

include hp hread in
/-- Every call is in a function of the table, so gen-stackinfo can make its metadata. -/
theorem Program.created (arch : Arch) : ∃ md, createCallSiteMetadata arch startId sm (rebuilt os) = .ok md := by
  apply createCallSiteMetadata_ok
  intro q hq
  obtain ⟨k, hk⟩ := List.mem_iff_getElem?.mp hq
  have hk' : k < (calls os).length := hread.length_eq ▸ (List.getElem?_eq_some_iff.mp hk).1
  obtain ⟨q', hq', hpq⟩ := forall₂_getElem? hread (List.getElem?_eq_getElem hk')
  obtain rfl := Option.some.inj (hk.symm.trans hq')
  obtain ⟨fr, sz, saved, ua, hf, hfr, hcall, -⟩ := hp.callIn arch (List.getElem_mem hk') hpq
  have haddr := hpq.returnAddr hfr hf
  rw [← ranges_entry size os]
  obtain ⟨g, -, -, hg⟩ | ⟨-, hg⟩ := hcall.found hp.functions haddr.symm
  · exact ⟨_, _, haddr, hg⟩
  · exact ⟨_, _, haddr, hg⟩

include hp hread in
/-- The runtime finds the compiler's calls, and nothing else. -/
theorem Program.calls_found {arch : Arch} {t : Sections} (h : addSections arch sm startId (some (rebuilt os)) = .ok t) {hd : Handle}
    (ho : Opened hd (rebuilt os) t (linkedUnwind (unwindObjects os))) : CallsFound arch startId os hd := by
  obtain ⟨sites, hlen, hfound, hA, hI⟩ := hp.site_found hread h ho
  have hback : ∀ site ∈ sites, ∃ k p, (calls os)[k]? = some p ∧ CallFound arch startId os hd k p site := by
    intro site hs
    obtain ⟨k, hk⟩ := List.mem_iff_getElem?.mp hs
    have hk' : k < (calls os).length := hlen ▸ (List.getElem?_eq_some_iff.mp hk).1
    exact ⟨k, _, List.getElem?_eq_getElem hk', hfound k _ _ (List.getElem?_eq_getElem hk') hk⟩
  refine ⟨?_, fun a site hs => hback site (hA a site hs), fun i site hs => hback site (hI i site hs)⟩
  intro k p hk
  have hk' : k < sites.length := hlen ▸ (List.getElem?_eq_some_iff.mp hk).1
  exact ⟨_, hfound k p _ hk (List.getElem?_eq_getElem hk')⟩

end

end Popcorn.Metadata
