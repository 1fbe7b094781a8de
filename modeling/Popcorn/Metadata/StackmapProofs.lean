/-
  Popcorn.Metadata.StackmapProofs — reading a stackmap section back (see
  `Popcorn.Metadata.Stackmap`).

  - `skipRecords_eq`: on any memory the sizing loop and the reading loop move the
    pointer alike.
  - `readRecord_entry`: a call-site record reads back field for field, and the
    reader's alignment lands on the emitter's padding.
  - `init_stackmap_decodes`: the concatenated sections of any sequence of modules read
    back as exactly the modules that have call sites, and both passes stop at the end
    of the data.
-/

import Mathlib.Tactic.Positivity
import Mathlib.Tactic.Ring
import Popcorn.Metadata.Stackmap

namespace Popcorn.Metadata

open Popcorn.Lib

/-! ## Both passes skip alike -/

theorem readRecord_snd (m : Mem) (raw : Nat) : (readRecord m raw).2 = skipRecord m raw := by
  have e : ∀ x n : Nat, x + 2 + n + 2 = x + (4 + n) := by intro x n; omega
  simp only [readRecord, skipRecord, e]
  exact congrArg alignRaw (Nat.add_assoc _ _ _)

theorem skipRecords_eq (m : Mem) : ∀ n raw, (readRecords m n raw).2 = skipRecords m n raw := by
  intro n
  induction n with
  | zero => intro raw; rfl
  | succ n ih => intro raw; simp only [readRecords, skipRecords, ih, readRecord_snd]

theorem records_size_agree (m : Mem) (raw n : Nat) : (readStackmapRecords m raw n).2 = stackmapRecordsSize m raw n := by
  simp only [readStackmapRecords, stackmapRecordsSize, skipRecords_eq]

/-! ## Reading one field -/

theorem emitIntValue_length (v : Int) (n : Nat) : (emitIntValue v n).length = n := leBytes_length n _

/-- An emitted integer reads back modulo its width. -/
theorem readLe_emit {m : Mem} {a n : Nat} {v : Int} (h : At m a (emitIntValue v n)) :
    (readLe n m a : Int) = v % (256 : Int) ^ n := by
  have hp : (0 : Int) < 256 ^ n := by positivity
  have h1 : 0 ≤ v % (256 : Int) ^ n := Int.emod_nonneg _ (by omega)
  have h2 : v % (256 : Int) ^ n < 256 ^ n := Int.emod_lt_of_pos _ hp
  rw [readLe_of_at h, Nat.mod_eq_of_lt]
  · exact Int.toNat_of_nonneg h1
  · have : ((v % (256 : Int) ^ n).toNat : Int) < ((256 ^ n : Nat) : Int) := by
      rw [Int.toNat_of_nonneg h1]; exact_mod_cast h2
    exact_mod_cast this

/-- An emitted natural number that fits reads back as itself. -/
theorem readLe_emit_nat {m : Mem} {a n v : Nat} (h : At m a (emitIntValue v n)) (hv : v < 256 ^ n) : readLe n m a = v := by
  have := readLe_emit h
  rw [Int.emod_eq_of_lt (by omega) (by exact_mod_cast hv)] at this
  exact_mod_cast this

theorem byte_emit_nat {m : Mem} {a v : Nat} (h : At m a (emitIntValue v 1)) (hv : v < 256) : (m a).toNat = v := by
  have := readLe_emit_nat h (by simpa using hv)
  simpa [readLe, load, leVal] using this

theorem u16At_emit {m : Mem} {a v : Nat} (h : At m a (emitIntValue v 2)) (hv : v < 65536) : (u16At m a).toNat = v := by
  rw [u16At, readLe_emit_nat h (by simpa using hv), UInt16.toNat_ofNat', Nat.mod_eq_of_lt hv]

theorem u32At_emit {m : Mem} {a v : Nat} (h : At m a (emitIntValue v 4)) (hv : v < 4294967296) : (u32At m a).toNat = v := by
  rw [u32At, readLe_emit_nat h (by simpa using hv), UInt32.toNat_ofNat', Nat.mod_eq_of_lt hv]

theorem u64At_emit {m : Mem} {a v : Nat} (h : At m a (emitIntValue v 8)) (hv : v < 18446744073709551616) :
    (u64At m a).toNat = v := by
  rw [u64At, readLe_emit_nat h (by simpa using hv), UInt64.toNat_ofNat', Nat.mod_eq_of_lt hv]

theorem i32_emit {m : Mem} {a : Nat} {v : Int} (h : At m a (emitIntValue v 4)) (h1 : -2147483648 ≤ v) (h2 : v < 2147483648) :
    (Int32.ofInt (readLe 4 m a)).toInt = v := by
  have e : ((Int32.size : Nat) : Int) = 4294967296 := rfl
  rw [readLe_emit h, Int32.toInt_ofInt]
  simp only [Int.bmod, e]
  omega

theorem i64_emit {m : Mem} {a : Nat} {v : Int} (h : At m a (emitIntValue v 8)) :
    Int64.ofInt (readLe 8 m a) = Int64.ofInt v := by
  rw [readLe_emit h]
  have e : ((Int64.size : Nat) : Int) = 18446744073709551616 := rfl
  apply Int64.toInt_inj.mp
  rw [Int64.toInt_ofInt, Int64.toInt_ofInt]
  simp only [Int.bmod, e]
  omega

/-! ## What each emitted record reads back as -/

/-- The fields of a location are within their encoded widths. -/
structure Location.Fits (l : Location) : Prop where
  size : l.size.toNat < 256
  reg : l.reg.toNat < 65536
  offset_ge : -2147483648 ≤ l.offset.toInt
  offset_lt : l.offset.toInt < 2147483648

structure Operation.Fits (o : Operation) : Prop where
  size : o.size.toNat < 256
  reg : o.dwarfReg.toNat < 65536

structure CallsiteInfo.Fits (c : CallsiteInfo) : Prop where
  locations_le : c.locations.length ≤ 65535
  liveOuts_le : c.liveOuts.length ≤ 65535
  vals_le : c.vals.length ≤ 65535
  location : ∀ l ∈ c.locations, l.Fits
  liveOut : ∀ l ∈ c.liveOuts, l.size.toNat < 256
  val : ∀ v ∈ c.vals, v.1.Fits ∧ v.2.Fits

structure Module.Fits (M : Module) : Prop where
  functions_lt : M.fnStackSize.length < 4294967296
  constants_lt : M.constPool.length < 4294967296
  csInfos_lt : M.csInfos.length < 4294967296
  callsite : ∀ c ∈ M.csInfos, c.Fits

structure LocationRead (l : Location) (v : LiveValue) : Prop where
  type : v.type = l.type.code
  isPtr : v.isPtr = l.ptr
  isAlloca : v.isAlloca = l.alloca
  isDuplicate : v.isDuplicate = l.duplicate
  bitPad : v.bitPad = false
  size : v.size.toNat = l.size.toNat
  regnum : v.regnum.toNat = l.reg.toNat
  offset : v.offsetOrConstant.toInt = l.offset.toInt
  allocaSize : v.allocaSize = l.allocaSize

structure LiveOutRead (l : LiveOutReg) (r : LiveOutRecord) : Prop where
  regnum : r.regnum = l.dwarfRegNum
  reserved : r.reserved = 0
  size : r.size.toNat = l.size.toNat

structure ArchValueRead (v : Location × Operation) (r : ArchLiveValue) : Prop where
  type : r.type = v.1.type.code
  isPtr : r.isPtr = v.1.ptr
  bitPad : r.bitPad = 0
  size : r.size.toNat = v.1.size.toNat
  regnum : r.regnum.toNat = v.1.reg.toNat
  /-- The reader's field is unsigned. -/
  offset : (r.offset.toNat : Int) = v.1.offset.toInt % 4294967296
  instType : r.instType = v.2.instType.code
  operandType : r.operandType = v.2.operandType.code
  operandSize : r.operandSize.toNat = v.2.size.toNat
  operandRegnum : r.operandRegnum.toNat = v.2.dwarfReg.toNat
  operand : r.operandOffsetOrConstant = if v.2.isSymbol then Int64.ofInt v.2.symbol.toNat else v.2.constant

structure FnRead (f : FnRecord) (r : FunctionRecord) : Prop where
  funcAddr : r.funcAddr = f.addr
  stackSize : r.stackSize = f.stackSize
  numUnwind : r.numUnwind = f.numUnwindRecord
  unwindOffset : r.unwindOffset = f.secOffset

structure CallsiteRead (M : Module) (c : CallsiteInfo) (r : CallSiteRecord) : Prop where
  id : r.id = c.id
  funcIdx : r.funcIdx.toNat = fnIndex M c.func
  offset : r.offset = c.csOffset
  reserved : r.reserved = 0
  locations : List.Forall₂ LocationRead c.locations r.locations
  liveOuts : List.Forall₂ LiveOutRead c.liveOuts r.liveOuts
  archLive : List.Forall₂ ArchValueRead c.vals r.archLive

structure SectionRead (L : Llvm) (M : Module) (s : StackMapSection) : Prop where
  version : s.version = L.version
  reserved : s.reserved = 0
  reserved2 : s.reserved2 = 0
  functionRecords : List.Forall₂ FnRead M.fnStackSize s.functionRecords
  constants : s.constants = M.constPool
  callSites : List.Forall₂ (CallsiteRead M) M.csInfos s.callSites

/-! ## Bit-fields -/

/-- The hand-packed byte of a location unpacks, bit-field by bit-field. -/
theorem typeAndFlags_unpack (t : Fin 16) (p a d : Bool) :
    (typeAndFlags t p a d).testBit 0 = d ∧ (typeAndFlags t p a d).testBit 1 = a ∧ (typeAndFlags t p a d).testBit 2 = p ∧
      (typeAndFlags t p a d).testBit 3 = false ∧ typeAndFlags t p a d / 16 = t.val ∧ typeAndFlags t p a d < 256 := by
  revert t p a d
  decide

theorem archTypeAndFlags_unpack (t : Fin 16) (p : Bool) :
    (archTypeAndFlags t p).testBit 0 = p ∧ archTypeAndFlags t p / 2 % 8 = 0 ∧ archTypeAndFlags t p / 16 = t.val ∧
      archTypeAndFlags t p < 256 := by
  revert t p
  decide

theorem archOpType_unpack (i o : Fin 16) :
    archOpType i o % 16 = o.val ∧ archOpType i o / 16 = i.val ∧ archOpType i o < 256 := by
  revert i o
  decide

theorem highNibble_eq {b : UInt8} {n : Nat} {t : Fin 16} (hb : b.toNat = n) (h : n / 16 = t.val) : highNibble b = t := by
  apply Fin.ext
  rw [← h, ← hb]
  rfl

theorem lowNibble_eq {b : UInt8} {n : Nat} {t : Fin 16} (hb : b.toNat = n) (h : n % 16 = t.val) : lowNibble b = t := by
  apply Fin.ext
  rw [← h, ← hb]
  rfl

/-! ## One record of each kind -/

theorem readLiveValue_emit {m : Mem} {a : Nat} {l : Location} (hf : l.Fits) (h : At m a (emitLocation l)) :
    LocationRead l (readLiveValue m a) := by
  simp only [emitLocation, at_append, List.length_append, emitIntValue_length, Nat.reduceAdd] at h
  obtain ⟨⟨⟨⟨ht, hs⟩, hr⟩, ho⟩, ha⟩ := h
  obtain ⟨h0, h1, h2, h3, h4, h5⟩ := typeAndFlags_unpack l.type.code l.ptr l.alloca l.duplicate
  have hb := byte_emit_nat ht h5
  exact
    { type := highNibble_eq hb h4
      isPtr := by simpa only [readLiveValue, hb] using h2
      isAlloca := by simpa only [readLiveValue, hb] using h1
      isDuplicate := by simpa only [readLiveValue, hb] using h0
      bitPad := by simpa only [readLiveValue, hb] using h3
      size := byte_emit_nat hs hf.size
      regnum := u16At_emit hr hf.reg
      offset := i32_emit ho hf.offset_ge hf.offset_lt
      allocaSize := UInt32.toNat_inj.mp (u32At_emit ha l.allocaSize.toNat_lt) }

theorem readLiveOut_emit {m : Mem} {a : Nat} {l : LiveOutReg} (hf : l.size.toNat < 256) (h : At m a (emitLiveOut l)) :
    LiveOutRead l (readLiveOut m a) := by
  simp only [emitLiveOut, at_append, List.length_append, emitIntValue_length, Nat.reduceAdd] at h
  obtain ⟨⟨hr, hz⟩, hs⟩ := h
  exact
    { regnum := UInt16.toNat_inj.mp (u16At_emit hr l.dwarfRegNum.toNat_lt)
      reserved := UInt8.toNat_inj.mp (byte_emit_nat hz (by decide))
      size := byte_emit_nat hs hf }

theorem readArchLiveValue_emit {m : Mem} {a : Nat} {v : Location × Operation} (hl : v.1.Fits) (ho : v.2.Fits)
    (h : At m a (emitArchValue v)) : ArchValueRead v (readArchLiveValue m a) := by
  simp only [emitArchValue, at_append, List.length_append, emitIntValue_length, Nat.reduceAdd] at h
  obtain ⟨⟨⟨⟨⟨⟨⟨ht, hs⟩, hr⟩, hoff⟩, hop⟩, hos⟩, hor⟩, hoc⟩ := h
  obtain ⟨h0, h1, h2, h3⟩ := archTypeAndFlags_unpack v.1.type.code v.1.ptr
  obtain ⟨g0, g1, g2⟩ := archOpType_unpack v.2.instType.code v.2.operandType.code
  have hb := byte_emit_nat ht h3
  have hb' := byte_emit_nat hop g2
  exact
    { type := highNibble_eq hb h2
      isPtr := by simpa only [readArchLiveValue, hb] using h0
      bitPad := Fin.ext (by simp only [readArchLiveValue, hb]; exact h1)
      size := byte_emit_nat hs hl.size
      regnum := u16At_emit hr hl.reg
      offset := by
        have := readLe_emit hoff
        simp only [readArchLiveValue, u32At, UInt32.toNat_ofNat']
        omega
      instType := highNibble_eq hb' g1
      operandType := lowNibble_eq hb' g0
      operandSize := byte_emit_nat hos ho.size
      operandRegnum := u16At_emit hor ho.reg
      operand := by
        simp only [readArchLiveValue, i64_emit hoc]
        split
        · rfl
        · exact Int64.ofInt_toInt _ }

theorem readFunctionRecord_emit {m : Mem} {a : Nat} {f : FnRecord} (h : At m a (emitFunctionFrameRecord f)) :
    FnRead f (readFunctionRecord m a) := by
  simp only [emitFunctionFrameRecord, at_append, List.length_append, emitIntValue_length, Nat.reduceAdd] at h
  obtain ⟨⟨⟨ha, hs⟩, hn⟩, ho⟩ := h
  exact
    { funcAddr := UInt64.toNat_inj.mp (u64At_emit ha f.addr.toNat_lt)
      stackSize := UInt64.toNat_inj.mp (u64At_emit hs f.stackSize.toNat_lt)
      numUnwind := UInt32.toNat_inj.mp (u32At_emit hn f.numUnwindRecord.toNat_lt)
      unwindOffset := UInt32.toNat_inj.mp (u32At_emit ho f.secOffset.toNat_lt) }

/-! ## Arrays of records -/

theorem readArray_succ {α : Type} (sz : Nat) (rd : Mem → Nat → α) (m : Mem) (a n : Nat) :
    readArray sz rd m a (n + 1) = rd m a :: readArray sz rd m (a + sz) n := by
  simp only [readArray, List.range_succ_eq_map, List.map_cons, List.map_map, Nat.mul_zero, Nat.add_zero]
  congr 1
  apply List.map_congr_left
  intro i _
  rw [Function.comp_apply, Nat.succ_eq_add_one, Nat.mul_add, Nat.mul_one, Nat.add_comm (sz * i), Nat.add_assoc]

theorem flatMap_length {α : Type} {sz : Nat} {enc : α → List UInt8} (xs : List α) (hsz : ∀ x, (enc x).length = sz) :
    (xs.flatMap enc).length = sz * xs.length := by
  induction xs with
  | nil => simp
  | cons x xs ih => simp only [List.flatMap_cons, List.length_append, hsz, ih, List.length_cons]; ring

/-- An array of fixed-size records reads back record by record. -/
theorem readArray_emit {α β : Type} {R : α → β → Prop} {sz : Nat} {enc : α → List UInt8} {rd : Mem → Nat → β} {m : Mem}
    (hsz : ∀ x, (enc x).length = sz) : ∀ (xs : List α) (a : Nat), (∀ x ∈ xs, ∀ a, At m a (enc x) → R x (rd m a)) →
      At m a (xs.flatMap enc) → List.Forall₂ R xs (readArray sz rd m a xs.length) := by
  intro xs
  induction xs with
  | nil => intro a _ _; exact .nil
  | cons x xs ih =>
    intro a hR h
    rw [List.flatMap_cons, at_append, hsz] at h
    rw [List.length_cons, readArray_succ]
    refine .cons (hR x (by simp) a h.1) (ih (a + sz) ?_ h.2)
    intro y hy
    exact hR y (by simp [hy])

/-! ## One call-site record -/

theorem emitLocation_length (l : Location) : (emitLocation l).length = sizeofLiveValue := by
  simp only [emitLocation, List.length_append, emitIntValue_length, sizeofLiveValue]

theorem emitLiveOut_length (l : LiveOutReg) : (emitLiveOut l).length = sizeofLiveOutRecord := by
  simp only [emitLiveOut, List.length_append, emitIntValue_length, sizeofLiveOutRecord]

theorem emitArchValue_length (v : Location × Operation) : (emitArchValue v).length = sizeofArchLiveValue := by
  simp only [emitArchValue, List.length_append, emitIntValue_length, sizeofArchLiveValue]

theorem emitFunctionFrameRecord_length (f : FnRecord) : (emitFunctionFrameRecord f).length = sizeofFunctionRecord := by
  simp only [emitFunctionFrameRecord, List.length_append, emitIntValue_length, sizeofFunctionRecord]

theorem callsiteEntry_length (M : Module) (c : CallsiteInfo) : (callsiteEntry M c).length =
    28 + sizeofLiveValue * c.locations.length + sizeofLiveOutRecord * c.liveOuts.length +
      sizeofArchLiveValue * c.vals.length := by
  simp only [callsiteEntry, List.length_append, emitIntValue_length, flatMap_length _ emitLocation_length,
    flatMap_length _ emitLiveOut_length, flatMap_length _ emitArchValue_length]
  omega

theorem fnIndex_le (M : Module) (func : Nat) : fnIndex M func ≤ M.fnStackSize.length := List.findIdx_le_length

/-- A call-site record reads back: its lists in any relation that their entries read back in,
    and the pointer after it is the aligned end of the record. -/
theorem readRecord_parts {m : Mem} {a : Nat} {M : Module} {c : CallsiteInfo} {P : Location → LiveValue → Prop}
    {Q : LiveOutReg → LiveOutRecord → Prop} {R : Location × Operation → ArchLiveValue → Prop}
    (hM : M.fnStackSize.length < 4294967296) (hc : overflows c = false)
    (hP : ∀ l ∈ c.locations, ∀ a, At m a (emitLocation l) → P l (readLiveValue m a))
    (hQ : ∀ l ∈ c.liveOuts, ∀ a, At m a (emitLiveOut l) → Q l (readLiveOut m a))
    (hR : ∀ v ∈ c.vals, ∀ a, At m a (emitArchValue v) → R v (readArchLiveValue m a)) (h : At m a (callsiteEntry M c)) :
    let r := (readRecord m a).1
    (r.id = c.id ∧ r.funcIdx.toNat = fnIndex M c.func ∧ r.offset = c.csOffset ∧ r.reserved = 0) ∧
      List.Forall₂ P c.locations r.locations ∧ List.Forall₂ Q c.liveOuts r.liveOuts ∧ List.Forall₂ R c.vals r.archLive ∧
      (readRecord m a).2 = alignRaw (a + (callsiteEntry M c).length) := by
  have hlen := callsiteEntry_length M c
  simp only [overflows, Bool.or_eq_false_iff, decide_eq_false_iff_not] at hc
  simp only [callsiteEntry, at_append, List.length_append, emitIntValue_length, Nat.reduceAdd, Nat.add_assoc,
    flatMap_length _ emitLocation_length, flatMap_length _ emitLiveOut_length] at h
  obtain ⟨⟨⟨⟨⟨⟨hid, hfn⟩, hoff⟩, hres⟩, hnl, hl⟩, ⟨-, hno⟩, ho⟩, ⟨-, hnv⟩, hv⟩ := h
  have hfi := fnIndex_le M c.func
  -- the three counts, at the addresses the reader computes
  have e1 : (u16At m (a + offsetofNumLocations)).toNat = c.locations.length := u16At_emit hnl (by omega)
  have e2 : (u16At m (a + offsetofNumLocations + 2 + sizeofLiveValue * c.locations.length + 2)).toNat =
      c.liveOuts.length := u16At_emit (by convert hno using 1; simp only [offsetofNumLocations]; omega) (by omega)
  have e3 : (u16At m (a + offsetofNumLocations + 2 + sizeofLiveValue * c.locations.length + 2 + 2 +
      sizeofLiveOutRecord * c.liveOuts.length + 2)).toNat = c.vals.length :=
    u16At_emit (by convert hnv using 1; simp only [offsetofNumLocations]; omega) (by omega)
  refine ⟨⟨?_, ?_, ?_, ?_⟩, ?_, ?_, ?_, ?_⟩
  · exact UInt64.toNat_inj.mp (u64At_emit hid c.id.toNat_lt)
  · exact u32At_emit hfn (by omega)
  · exact UInt32.toNat_inj.mp (u32At_emit hoff c.csOffset.toNat_lt)
  · exact UInt16.toNat_inj.mp (u16At_emit hres (by decide))
  · simp only [readRecord, e1]
    exact readArray_emit emitLocation_length _ _ hP hl
  · simp only [readRecord, e1, e2]
    refine readArray_emit emitLiveOut_length _ _ hQ ?_
    convert ho using 1
    simp only [offsetofNumLocations]
    omega
  · simp only [readRecord, e1, e2, e3]
    refine readArray_emit emitArchValue_length _ _ hR ?_
    convert hv using 1
    simp only [offsetofNumLocations]
    omega
  · simp only [readRecord, e1, e2, e3, hlen]
    congr 1
    simp only [offsetofNumLocations]
    omega

theorem CallsiteInfo.Fits.not_overflows {c : CallsiteInfo} (hc : c.Fits) : overflows c = false := by
  have h1 := hc.locations_le
  have h2 := hc.liveOuts_le
  have h3 := hc.vals_le
  simp only [overflows, Bool.or_eq_false_iff, decide_eq_false_iff_not]
  omega

/-- A call-site record within its widths reads back field for field. -/
theorem readRecord_entry {m : Mem} {a : Nat} {M : Module} {c : CallsiteInfo} (hM : M.fnStackSize.length < 4294967296)
    (hc : c.Fits) (h : At m a (callsiteEntry M c)) :
    CallsiteRead M c (readRecord m a).1 ∧ (readRecord m a).2 = alignRaw (a + (callsiteEntry M c).length) := by
  obtain ⟨⟨hid, hfn, hoff, hres⟩, hl, ho, hv, hptr⟩ := readRecord_parts hM hc.not_overflows
    (fun l hl _ => readLiveValue_emit (hc.location l hl)) (fun l hl _ => readLiveOut_emit (hc.liveOut l hl))
    (fun v hv _ => readArchLiveValue_emit (hc.val v hv).1 (hc.val v hv).2) h
  exact ⟨⟨hid, hfn, hoff, hres, hl, ho, hv⟩, hptr⟩

/-! ## A section's call-site records -/

theorem at_take {m : Mem} {a : Nat} {xs ys : List UInt8} (hp : xs <+: ys) (h : At m a ys) : At m a xs := by
  obtain ⟨zs, rfl⟩ := hp
  exact (at_append.mp h).1

theorem emitCallsiteEntry_extends (M : Module) (out : List UInt8) (c : CallsiteInfo) : out <+: emitCallsiteEntry M out c := by
  simp only [emitCallsiteEntry, emitValueToAlignment, List.append_assoc]
  split <;> exact List.prefix_append _ _

theorem emitEntries_extends (M : Module) (cs : List CallsiteInfo) :
    ∀ out, out <+: cs.foldl (emitCallsiteEntry M) out := by
  induction cs with
  | nil => intro out; exact List.prefix_refl out
  | cons c cs ih => intro out; exact (emitCallsiteEntry_extends M out c).trans (ih _)

theorem emitValueToAlignment_length (out : List UInt8) :
    (emitValueToAlignment 8 out).length % 8 = 0 ∧
      ∀ buf, buf % 8 = 0 → alignRaw (buf + out.length) = buf + (emitValueToAlignment 8 out).length := by
  simp only [emitValueToAlignment, List.length_append, List.length_replicate, alignRaw]
  constructor
  · omega
  · intro buf hb
    split <;> omega

/-- The reading loop over a module's records: each call site reads back, and the
    pointer ends where the emitter stopped writing. -/
theorem readRecords_emit {m : Mem} {buf : Nat} {M : Module} (hb : buf % 8 = 0) (hM : M.fnStackSize.length < 4294967296) :
    ∀ (cs : List CallsiteInfo) (out : List UInt8), (∀ c ∈ cs, c.Fits) → At m buf (cs.foldl (emitCallsiteEntry M) out) →
      List.Forall₂ (CallsiteRead M) cs (readRecords m cs.length (buf + out.length)).1 ∧
        (readRecords m cs.length (buf + out.length)).2 = buf + (cs.foldl (emitCallsiteEntry M) out).length := by
  intro cs
  induction cs with
  | nil => intro out _ _; exact ⟨.nil, rfl⟩
  | cons c cs ih =>
    intro out hfit h
    have hc := hfit c (by simp)
    rw [List.foldl_cons] at h ⊢
    have hout : emitCallsiteEntry M out c = emitValueToAlignment 8 (out ++ callsiteEntry M c) := by
      simp only [emitCallsiteEntry, hc.not_overflows]
      rfl
    have hentry : At m (buf + out.length) (callsiteEntry M c) := by
      have h1 := at_take (emitEntries_extends M cs _) h
      rw [hout, emitValueToAlignment, List.append_assoc, at_append, at_append] at h1
      exact h1.2.1
    obtain ⟨hread, hptr⟩ := readRecord_entry hM hc hentry
    have hnext : (readRecord m (buf + out.length)).2 = buf + (emitCallsiteEntry M out c).length := by
      rw [hptr, hout, ← (emitValueToAlignment_length _).2 buf hb, List.length_append, Nat.add_assoc]
    obtain ⟨ih1, ih2⟩ := ih (emitCallsiteEntry M out c) (fun d hd => hfit d (by simp [hd])) h
    simp only [List.length_cons, readRecords, hnext]
    exact ⟨.cons hread ih1, ih2⟩

theorem emitEntries_length_mod (M : Module) (cs : List CallsiteInfo) : ∀ out : List UInt8, (∀ c ∈ cs, c.Fits) →
    out.length % 8 = 0 → (cs.foldl (emitCallsiteEntry M) out).length % 8 = 0 := by
  induction cs with
  | nil => intro out _ h; exact h
  | cons c cs ih =>
    intro out hfit _
    refine ih _ (fun d hd => hfit d (by simp [hd])) ?_
    simp only [emitCallsiteEntry, (hfit c (by simp)).not_overflows]
    exact (emitValueToAlignment_length _).1

/-! ## A section -/

theorem sectionHead_length (L : Llvm) (M : Module) : (sectionHead L M).length =
    offsetofFunctionRecords + sizeofFunctionRecord * M.fnStackSize.length + 8 * M.constPool.length := by
  simp only [sectionHead, L.header_layout, L.pool_layout, List.length_append, emitIntValue_length,
    flatMap_length _ emitFunctionFrameRecord_length, flatMap_length _ (fun c : UInt64 => emitIntValue_length c.toNat 8),
    offsetofFunctionRecords]

/-- The counts a section starts with. -/
structure Counts (m : Mem) (a : Nat) (M : Module) : Prop where
  functions : (u32At m (a + 4)).toNat = M.fnStackSize.length
  constants : (u32At m (a + 8)).toNat = M.constPool.length
  records : (u32At m (a + 12)).toNat = M.csInfos.length

theorem head_counts {m : Mem} {a : Nat} {L : Llvm} {M : Module} (hM : M.Fits) (h : At m a (sectionHead L M)) :
    Counts m a M := by
  rw [sectionHead, List.append_assoc, at_append] at h
  have h1 := h.1
  simp only [L.header_layout, at_append, List.length_append, emitIntValue_length, Nat.reduceAdd] at h1
  obtain ⟨⟨⟨-, hf⟩, hc⟩, hr⟩ := h1
  exact ⟨u32At_emit hf hM.functions_lt, u32At_emit hc hM.constants_lt, u32At_emit hr hM.csInfos_lt⟩

theorem readPool_emit {m : Mem} {a : Nat} (cs : List UInt64) (h : At m a (cs.flatMap fun c => emitIntValue c.toNat 8)) :
    readArray 8 u64At m a cs.length = cs := by
  have hc : ∀ c ∈ cs, ∀ a, At m a (emitIntValue c.toNat 8) → c = u64At m a := by
    intro c _ a hc
    exact (UInt64.toNat_inj.mp (u64At_emit hc c.toNat_lt)).symm
  have := readArray_emit (fun c : UInt64 => emitIntValue_length c.toNat 8) cs a hc h
  rw [List.forall₂_eq_eq_eq] at this
  exact this.symm

/-- The parts of a section's head, each where the reader looks for it. -/
theorem head_parts {m : Mem} {a : Nat} {L : Llvm} {M : Module} (h : At m a (sectionHead L M)) :
    (m a = L.version ∧ m (a + 1) = 0 ∧ u16At m (a + 2) = 0) ∧
      List.Forall₂ FnRead M.fnStackSize
        (readArray sizeofFunctionRecord readFunctionRecord m (a + offsetofFunctionRecords) M.fnStackSize.length) ∧
      readArray 8 u64At m (a + offsetofFunctionRecords + sizeofFunctionRecord * M.fnStackSize.length) M.constPool.length =
        M.constPool := by
  have hlen : (L.emitStackmapHeader M).length = offsetofFunctionRecords := by
    simp only [L.header_layout, List.length_append, emitIntValue_length, offsetofFunctionRecords]
  rw [sectionHead, at_append, at_append, List.length_append, hlen, flatMap_length _ emitFunctionFrameRecord_length,
    L.pool_layout, ← Nat.add_assoc] at h
  obtain ⟨⟨hh, hfn⟩, hpool⟩ := h
  simp only [L.header_layout, at_append, List.length_append, emitIntValue_length, Nat.reduceAdd] at hh
  obtain ⟨⟨⟨⟨⟨hv, hr⟩, hr2⟩, -⟩, -⟩, -⟩ := hh
  refine ⟨⟨?_, ?_, ?_⟩, ?_, readPool_emit _ hpool⟩
  · exact UInt8.toNat_inj.mp (byte_emit_nat hv L.version.toNat_lt)
  · exact UInt8.toNat_inj.mp (byte_emit_nat hr (by decide))
  · exact UInt16.toNat_inj.mp (u16At_emit hr2 (by decide))
  · exact readArray_emit emitFunctionFrameRecord_length _ _ (fun f _ _ => readFunctionRecord_emit) hfn

theorem readSection_emit {m : Mem} {buf off : Nat} {L : Llvm} {M : Module} (hb : (buf + off) % 8 = 0) (hM : M.Fits)
    (h : At m (buf + off) (emitCallsiteEntries M (sectionHead L M))) :
    SectionRead L M (readSection m buf off).1 ∧
      (readSection m buf off).2 = off + (emitCallsiteEntries M (sectionHead L M)).length := by
  have hhead := at_take (emitEntries_extends M M.csInfos _) h
  obtain ⟨cf, cc, cr⟩ := head_counts hM hhead
  obtain ⟨⟨hv, hr, hr2⟩, hfn, hpool⟩ := head_parts hhead
  obtain ⟨hrec, hptr⟩ := readRecords_emit hb hM.functions_lt M.csInfos (sectionHead L M) hM.callsite h
  have hle := (emitEntries_extends M M.csInfos (sectionHead L M)).length_le
  have hstart : buf + (off + offsetofFunctionRecords + sizeofFunctionRecord * M.fnStackSize.length +
      8 * M.constPool.length) = buf + off + (sectionHead L M).length := by rw [sectionHead_length]; omega
  refine ⟨⟨hv, hr, hr2, ?_, ?_, ?_⟩, ?_⟩
  · simp only [readSection, cf]
    rwa [← Nat.add_assoc]
  · simp only [readSection, cf, cc]
    rwa [← Nat.add_assoc, ← Nat.add_assoc]
  · simp only [readSection, cf, cc, cr, readStackmapRecords, hstart]
    exact hrec
  · have hlen := sectionHead_length L M
    simp only [readSection, cf, cc, cr, readStackmapRecords, hstart, hptr, emitCallsiteEntries]
    omega

/-- One round of the sizing loop over a section. -/
theorem sizingPass_section {m : Mem} {buf off shSize fuel num : Nat} {L : Llvm} {M : Module} (hb : (buf + off) % 8 = 0)
    (hM : M.Fits) (h : At m (buf + off) (emitCallsiteEntries M (sectionHead L M))) (hlt : off < shSize) :
    sizingPass m buf shSize (fuel + 1) num off =
      sizingPass m buf shSize fuel (num + 1) (off + (emitCallsiteEntries M (sectionHead L M)).length) := by
  rw [← (readSection_emit hb hM h).2]
  simp only [sizingPass, if_pos hlt, readSection, records_size_agree]

/-! ## The whole data -/

theorem serialize_of_isEmpty {L : Llvm} {M : Module} (h : M.csInfos.isEmpty = true) : serializeToStackMapSection L M = [] :=
  if_pos h

theorem serialize_of_not_isEmpty {L : Llvm} {M : Module} (h : ¬ M.csInfos.isEmpty = true) :
    serializeToStackMapSection L M = emitCallsiteEntries M (sectionHead L M) :=
  if_neg h

theorem emitCallsiteEntries_length {L : Llvm} {M : Module} (hM : M.Fits) :
    (emitCallsiteEntries M (sectionHead L M)).length % 8 = 0 ∧ 0 < (emitCallsiteEntries M (sectionHead L M)).length := by
  have hlen := sectionHead_length L M
  simp only [offsetofFunctionRecords, sizeofFunctionRecord] at hlen
  have hle := (emitEntries_extends M M.csInfos (sectionHead L M)).length_le
  exact ⟨emitEntries_length_mod M M.csInfos _ hM.callsite (by omega), by unfold emitCallsiteEntries; omega⟩

/-- Both passes over the rest of the data, from an aligned offset. -/
theorem passes_emit {m : Mem} {buf shSize : Nat} {L : Llvm} :
    ∀ (Ms : List Module) (off fuel num : Nat), (∀ M ∈ Ms, M.Fits) → (buf + off) % 8 = 0 →
      At m (buf + off) (Ms.flatMap (serializeToStackMapSection L)) →
      shSize = off + (Ms.flatMap (serializeToStackMapSection L)).length →
      (Ms.flatMap (serializeToStackMapSection L)).length ≤ fuel →
      sizingPass m buf shSize fuel num off = (num + (Ms.filter (!·.csInfos.isEmpty)).length, shSize) ∧
        List.Forall₂ (SectionRead L) (Ms.filter (!·.csInfos.isEmpty))
          (readingPass m buf (Ms.filter (!·.csInfos.isEmpty)).length off).1 ∧
        (readingPass m buf (Ms.filter (!·.csInfos.isEmpty)).length off).2 = shSize := by
  intro Ms
  induction Ms with
  | nil =>
    intro off fuel num _ _ _ hsz _
    simp only [List.flatMap_nil, List.length_nil, Nat.add_zero] at hsz
    subst hsz
    refine ⟨?_, .nil, rfl⟩
    cases fuel <;> simp [sizingPass]
  | cons M Ms ih =>
    intro off fuel num hfit hb h hsz hfuel
    have hM := hfit M (by simp)
    have hfit' : ∀ M ∈ Ms, M.Fits := fun N hN => hfit N (by simp [hN])
    by_cases he : M.csInfos.isEmpty = true
    · -- a module without call sites contributes no bytes
      simp only [List.flatMap_cons, serialize_of_isEmpty he, List.nil_append] at h hsz hfuel
      simp only [List.filter_cons, he, Bool.not_true, Bool.false_eq_true, if_false]
      exact ih off fuel num hfit' hb h hsz hfuel
    · obtain ⟨hmod, hpos⟩ := emitCallsiteEntries_length (L := L) hM
      simp only [List.flatMap_cons, serialize_of_not_isEmpty he, List.length_append] at h hsz hfuel
      rw [at_append, Nat.add_assoc] at h
      obtain ⟨hread, hend⟩ := readSection_emit hb hM h.1
      obtain ⟨fuel, rfl⟩ := Nat.exists_eq_succ_of_ne_zero (show fuel ≠ 0 by omega)
      obtain ⟨i1, i2, i3⟩ := ih (off + (emitCallsiteEntries M (sectionHead L M)).length) fuel (num + 1) hfit' (by omega) h.2
        (by omega) (by omega)
      simp only [List.filter_cons, he, Bool.not_false, if_true, List.length_cons, readingPass, hend]
      refine ⟨?_, .cons hread i2, i3⟩
      rw [Nat.succ_eq_add_one, sizingPass_section hb hM h.1 (by omega), i1, Nat.add_assoc, Nat.add_comm 1]

/-- Decoding undoes encoding: the sections of any sequence of modules, concatenated at
    an aligned base, read back as that sequence (a module without call sites has no
    section), and both passes end at the end of the data having moved over each
    section's records alike. -/
theorem init_stackmap_decodes (L : Llvm) (Ms : List Module) (m : Mem) (buf : Nat) (hb : buf % 8 = 0)
    (hfit : ∀ M ∈ Ms, M.Fits) (h : At m buf (Ms.flatMap (serializeToStackMapSection L))) :
    ∃ ss, initStackmap m (some ⟨(Ms.flatMap (serializeToStackMapSection L)).length, 1, buf⟩) = .ok ss ∧
      List.Forall₂ (SectionRead L) (Ms.filter (!·.csInfos.isEmpty)) ss ∧
      sizingPass m buf (Ms.flatMap (serializeToStackMapSection L)).length
        (Ms.flatMap (serializeToStackMapSection L)).length 0 0 =
          (ss.length, (Ms.flatMap (serializeToStackMapSection L)).length) ∧
      readingPass m buf ss.length 0 = (ss, (Ms.flatMap (serializeToStackMapSection L)).length) ∧
      ∀ raw n, (readStackmapRecords m raw n).2 = stackmapRecordsSize m raw n := by
  obtain ⟨h1, h2, h3⟩ := passes_emit Ms 0 _ 0 hfit hb h
    (Nat.zero_add _).symm (Nat.le_refl _)
  rw [Nat.zero_add] at h1
  refine ⟨_, ?_, h2, ?_, ?_, records_size_agree m⟩
  · simp only [initStackmap, ne_eq, not_true_eq_false, if_false, h1]
  · rw [h1, ← h2.length_eq]
  · rw [← h2.length_eq, ← h3]

/-- LLVM's header and pool, as documented. -/
def documentedLlvm : Llvm where
  version := 1
  emitStackmapHeader M := emitIntValue 1 1 ++ emitIntValue 0 1 ++ emitIntValue 0 2 ++
    emitIntValue M.fnStackSize.length 4 ++ emitIntValue M.constPool.length 4 ++ emitIntValue M.csInfos.length 4
  emitConstantPoolEntries M := M.constPool.flatMap fun c => emitIntValue c.toNat 8
  header_layout _ := rfl
  pool_layout _ := rfl

/-- One function with a call site: a pointer spilled at FBP-16, a live-out register and
    a generated value. -/
def oneCallModule : Module where
  fnStackSize := [⟨0, 0x400000, 48, 2, 0⟩]
  constPool := [0x123456789]
  csInfos := [⟨0, 0x10, 7, [⟨.indirect, 8, 6, -16, true, false, false, 0⟩], [⟨3, 8⟩],
    [(⟨.register, 8, 3, 0, false, false, false, 0⟩, ⟨.set, .constant, 8, 0, -1, false, 0⟩)]⟩]

theorem oneCallModule_fits : oneCallModule.Fits where
  functions_lt := by decide
  constants_lt := by decide
  csInfos_lt := by decide
  callsite := by
    intro c hc
    obtain rfl := List.mem_singleton.mp hc
    refine ⟨by decide, by decide, by decide, ?_, ?_, ?_⟩
    · intro l hl
      obtain rfl := List.mem_singleton.mp hl
      exact ⟨by decide, by decide, by decide, by decide⟩
    · intro l hl
      obtain rfl := List.mem_singleton.mp hl
      decide
    · intro v hv
      obtain rfl := List.mem_singleton.mp hv
      exact ⟨⟨by decide, by decide, by decide, by decide⟩, ⟨by decide, by decide⟩⟩

theorem init_stackmap_decodes_oneCall :
    ∃ ss, initStackmap (store (fun _ => 0) 64
        ([oneCallModule, oneCallModule].flatMap (serializeToStackMapSection documentedLlvm)))
          (some ⟨([oneCallModule, oneCallModule].flatMap (serializeToStackMapSection documentedLlvm)).length, 1, 64⟩) = .ok ss ∧
      List.Forall₂ (SectionRead documentedLlvm) [oneCallModule, oneCallModule] ss := by
  have hfit : ∀ M ∈ [oneCallModule, oneCallModule], M.Fits := by
    intro M hM
    simp only [List.mem_cons, List.not_mem_nil, or_false, or_self] at hM
    exact hM ▸ oneCallModule_fits
  obtain ⟨ss, h1, h2, -⟩ := init_stackmap_decodes documentedLlvm [oneCallModule, oneCallModule] _ 64 rfl hfit
    (at_store (fun _ => 0) 64 _)
  exact ⟨ss, h1, h2⟩

end Popcorn.Metadata
