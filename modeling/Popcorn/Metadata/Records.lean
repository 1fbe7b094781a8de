/-
  Popcorn.Metadata.Records — the records of the metadata sections as bytes
  (common/stack_transformation/include/call_site.h).

  The structs are packed and little-endian. `bytes` is what a record written through its
  struct leaves in the section; the readers are those of `Stackmap` for the live values, and
  here those of the other structs. The last field of a call site is padding, which no code
  sets: it keeps what was in the memory that the record was written to.

  Proved: `array_read`: an array of records reads back as it was written.
-/

import Popcorn.Metadata.Elf
import Popcorn.Metadata.StackmapProofs

namespace Popcorn.Metadata

open Popcorn.Lib

/-! ## Writing -/

def UnwindAddr.bytes (ua : UnwindAddr) : List UInt8 :=
  leBytes 8 ua.addr.toNat ++ leBytes 4 ua.numUnwind.toNat ++ leBytes 4 ua.unwindOffset.toNat

def UnwindLoc.bytes (l : UnwindLoc) : List UInt8 := leBytes 2 l.reg.toNat ++ leBytes 2 l.offset.toUInt16.toNat

def CallSite.bytes (padding : UInt16) (s : CallSite) : List UInt8 :=
  leBytes 8 s.id.toNat ++ leBytes 8 s.addr.toNat ++ leBytes 4 s.frameSize.toNat ++ leBytes 2 s.numUnwind.toNat ++
    leBytes 8 s.unwindOffset ++ leBytes 2 s.numLive.toNat ++ leBytes 8 s.liveOffset ++ leBytes 2 s.numArchLive.toNat ++
    leBytes 8 s.archLiveOffset ++ leBytes 2 padding.toNat

/-- The bit-fields that a live value starts with. -/
def liveFlags (type : Fin 16) (bitPad isPtr isAlloca isDuplicate : Bool) : Nat :=
  16 * type.val + 8 * bitPad.toNat + 4 * isPtr.toNat + 2 * isAlloca.toNat + isDuplicate.toNat

def LiveValue.flags (v : LiveValue) : Nat := liveFlags v.type v.bitPad v.isPtr v.isAlloca v.isDuplicate

def LiveValue.bytes (v : LiveValue) : List UInt8 :=
  leBytes 1 v.flags ++ leBytes 1 v.size.toNat ++ leBytes 2 v.regnum.toNat ++ leBytes 4 v.offsetOrConstant.toUInt32.toNat ++
    leBytes 4 v.allocaSize.toNat

/-- The bit-fields of the location and of the operation. -/
def archFlags (type : Fin 16) (bitPad : Fin 8) (isPtr : Bool) : Nat := 16 * type.val + 2 * bitPad.val + isPtr.toNat

def ArchLiveValue.flags (v : ArchLiveValue) : Nat := archFlags v.type v.bitPad v.isPtr

def ArchLiveValue.opTypes (v : ArchLiveValue) : Nat := 16 * v.instType.val + v.operandType.val

def ArchLiveValue.bytes (v : ArchLiveValue) : List UInt8 :=
  leBytes 1 v.flags ++ leBytes 1 v.size.toNat ++ leBytes 2 v.regnum.toNat ++ leBytes 4 v.offset.toNat ++ leBytes 1 v.opTypes ++
    leBytes 1 v.operandSize.toNat ++ leBytes 2 v.operandRegnum.toNat ++ leBytes 8 v.operandOffsetOrConstant.toUInt64.toNat

theorem UnwindAddr.bytes_length (ua : UnwindAddr) : ua.bytes.length = sizeofUnwindAddr := by
  simp only [bytes, List.length_append, leBytes_length, sizeofUnwindAddr]

theorem UnwindLoc.bytes_length (l : UnwindLoc) : l.bytes.length = sizeofUnwindLoc := by
  simp only [bytes, List.length_append, leBytes_length, sizeofUnwindLoc]

theorem CallSite.bytes_length (padding : UInt16) (s : CallSite) : (s.bytes padding).length = sizeofCallSite := by
  simp only [bytes, List.length_append, leBytes_length, sizeofCallSite]

theorem LiveValue.bytes_length (v : LiveValue) : v.bytes.length = sizeofLiveValue := by
  simp only [bytes, List.length_append, leBytes_length, sizeofLiveValue]

theorem ArchLiveValue.bytes_length (v : ArchLiveValue) : v.bytes.length = sizeofArchLiveValue := by
  simp only [bytes, List.length_append, leBytes_length, sizeofArchLiveValue]

/-! ## Reading -/

def readUnwindAddr (m : Mem) (a : Nat) : UnwindAddr := ⟨u64At m a, u32At m (a + 8), u32At m (a + 12)⟩

def readUnwindLoc (m : Mem) (a : Nat) : UnwindLoc := ⟨u16At m a, (u16At m (a + 2)).toInt16⟩

def readCallSite (m : Mem) (a : Nat) : CallSite where
  id := u64At m a
  addr := u64At m (a + 8)
  frameSize := u32At m (a + 16)
  numUnwind := u16At m (a + 20)
  unwindOffset := (u64At m (a + 22)).toNat
  numLive := u16At m (a + 30)
  liveOffset := (u64At m (a + 32)).toNat
  numArchLive := u16At m (a + 40)
  archLiveOffset := (u64At m (a + 42)).toNat

section
variable {m : Mem} {a : Nat}

theorem byte_bytes {v : Nat} (h : At m a (leBytes 1 v)) : (m a).toNat = v % 256 := by
  have hread := readLe_of_at h
  simpa [readLe, load, leVal] using hread

theorem u16At_bytes {x : UInt16} (h : At m a (leBytes 2 x.toNat)) : u16At m a = x := by
  have hread : readLe 2 m a = x.toNat := (readLe_of_at h).trans (Nat.mod_eq_of_lt x.toNat_lt)
  rw [u16At, hread, UInt16.ofNat_toNat]

theorem u32At_bytes {x : UInt32} (h : At m a (leBytes 4 x.toNat)) : u32At m a = x := by
  have hread : readLe 4 m a = x.toNat := (readLe_of_at h).trans (Nat.mod_eq_of_lt x.toNat_lt)
  rw [u32At, hread, UInt32.ofNat_toNat]

theorem u64At_bytes {v : Nat} (h : At m a (leBytes 8 v)) (hv : v < 18446744073709551616) : (u64At m a).toNat = v := by
  have hread : readLe 8 m a = v := (readLe_of_at h).trans (Nat.mod_eq_of_lt hv)
  rw [u64At, hread, UInt64.toNat_ofNat', Nat.mod_eq_of_lt hv]

theorem byte_bytes_eq {x : UInt8} (h : At m a (leBytes 1 x.toNat)) : m a = x := by
  apply UInt8.toNat_inj.mp
  rw [byte_bytes h, Nat.mod_eq_of_lt x.toNat_lt]

theorem readUnwindAddr_bytes {ua : UnwindAddr} (h : At m a ua.bytes) : readUnwindAddr m a = ua := by
  simp only [UnwindAddr.bytes, at_append, List.length_append, leBytes_length, Nat.reduceAdd] at h
  obtain ⟨⟨haddr, hnum⟩, hoff⟩ := h
  rw [readUnwindAddr, u32At_bytes hnum, u32At_bytes hoff, UInt64.toNat_inj.mp (u64At_bytes haddr ua.addr.toNat_lt)]

theorem readUnwindLoc_bytes {l : UnwindLoc} (h : At m a l.bytes) : readUnwindLoc m a = l := by
  simp only [UnwindLoc.bytes, at_append, leBytes_length] at h
  rw [readUnwindLoc, u16At_bytes h.1, u16At_bytes h.2]
  rfl

/-- The offsets of a call site have 64 bits in the section. -/
structure CallSite.Fits (s : CallSite) : Prop where
  unwindOffset : s.unwindOffset < 18446744073709551616
  liveOffset : s.liveOffset < 18446744073709551616
  archLiveOffset : s.archLiveOffset < 18446744073709551616

theorem readCallSite_bytes {s : CallSite} {padding : UInt16} (hf : s.Fits) (h : At m a (s.bytes padding)) : readCallSite m a = s := by
  simp only [CallSite.bytes, at_append, List.length_append, leBytes_length, Nat.reduceAdd] at h
  obtain ⟨⟨⟨⟨⟨⟨⟨⟨⟨hid, haddr⟩, hframe⟩, hunwind⟩, hunwindOff⟩, hlive⟩, hliveOff⟩, harch⟩, harchOff⟩, -⟩ := h
  rw [readCallSite, u32At_bytes hframe, u16At_bytes hunwind, u16At_bytes hlive, u16At_bytes harch,
    UInt64.toNat_inj.mp (u64At_bytes hid s.id.toNat_lt), UInt64.toNat_inj.mp (u64At_bytes haddr s.addr.toNat_lt),
    u64At_bytes hunwindOff hf.unwindOffset, u64At_bytes hliveOff hf.liveOffset, u64At_bytes harchOff hf.archLiveOffset]

theorem liveFlags_unpack (t : Fin 16) (b p a d : Bool) : (liveFlags t b p a d).testBit 0 = d ∧ (liveFlags t b p a d).testBit 1 = a ∧
    (liveFlags t b p a d).testBit 2 = p ∧ (liveFlags t b p a d).testBit 3 = b ∧ liveFlags t b p a d / 16 = t.val ∧
      liveFlags t b p a d < 256 := by
  revert t b p a d
  decide

theorem archFlags_unpack (t : Fin 16) (b : Fin 8) (p : Bool) : (archFlags t b p).testBit 0 = p ∧ archFlags t b p / 2 % 8 = b.val ∧
    archFlags t b p / 16 = t.val ∧ archFlags t b p < 256 := by
  revert t b p
  decide

theorem ArchLiveValue.opTypes_unpack (v : ArchLiveValue) : v.opTypes % 16 = v.operandType.val ∧ v.opTypes / 16 = v.instType.val ∧
    v.opTypes < 256 := by
  have h1 := v.instType.isLt
  have h2 := v.operandType.isLt
  unfold opTypes
  omega

theorem readLiveValue_bytes {v : LiveValue} (h : At m a v.bytes) : readLiveValue m a = v := by
  simp only [LiveValue.bytes, at_append, List.length_append, leBytes_length, Nat.reduceAdd] at h
  obtain ⟨⟨⟨⟨hflags, hsize⟩, hreg⟩, hoff⟩, halloca⟩ := h
  obtain ⟨h0, h1, h2, h3, h4, h5⟩ := liveFlags_unpack v.type v.bitPad v.isPtr v.isAlloca v.isDuplicate
  have hb : (m a).toNat = v.flags := (byte_bytes hflags).trans (Nat.mod_eq_of_lt h5)
  have hread : readLe 4 m (a + 4) = v.offsetOrConstant.toUInt32.toNat :=
    (readLe_of_at hoff).trans (Nat.mod_eq_of_lt v.offsetOrConstant.toUInt32.toNat_lt)
  have hc : Int32.ofInt (readLe 4 m (a + 4)) = v.offsetOrConstant := by
    rw [hread]
    apply Int32.toBitVec_inj.mp
    simp
  have hflags' : v.flags = liveFlags v.type v.bitPad v.isPtr v.isAlloca v.isDuplicate := rfl
  rw [hflags'] at hb
  simp only [readLiveValue, hb, h0, h1, h2, h3, highNibble_eq hb h4, byte_bytes_eq hsize, u16At_bytes hreg, hc, u32At_bytes halloca]

theorem readArchLiveValue_bytes {v : ArchLiveValue} (h : At m a v.bytes) : readArchLiveValue m a = v := by
  simp only [ArchLiveValue.bytes, at_append, List.length_append, leBytes_length, Nat.reduceAdd] at h
  obtain ⟨⟨⟨⟨⟨⟨⟨hflags, hsize⟩, hreg⟩, hoff⟩, hop⟩, hopSize⟩, hopReg⟩, hconst⟩ := h
  obtain ⟨h0, h1, h2, h3⟩ := archFlags_unpack v.type v.bitPad v.isPtr
  obtain ⟨g0, g1, g2⟩ := v.opTypes_unpack
  have hb : (m a).toNat = v.flags := (byte_bytes hflags).trans (Nat.mod_eq_of_lt h3)
  have hb' : (m (a + 8)).toNat = v.opTypes := (byte_bytes hop).trans (Nat.mod_eq_of_lt g2)
  have hread : readLe 8 m (a + 12) = v.operandOffsetOrConstant.toUInt64.toNat :=
    (readLe_of_at hconst).trans (Nat.mod_eq_of_lt v.operandOffsetOrConstant.toUInt64.toNat_lt)
  have hc : Int64.ofInt (readLe 8 m (a + 12)) = v.operandOffsetOrConstant := by
    rw [hread]
    apply Int64.toBitVec_inj.mp
    simp
  have hflags' : v.flags = archFlags v.type v.bitPad v.isPtr := rfl
  rw [hflags'] at hb
  unfold readArchLiveValue
  simp only [hb, h0, h1, highNibble_eq hb h2, highNibble_eq hb' g1, lowNibble_eq hb' g0, byte_bytes_eq hsize, u16At_bytes hreg,
    u32At_bytes hoff, byte_bytes_eq hopSize, u16At_bytes hopReg, hc]

end

/-! ## Sections -/

/-- The memory a section's buffer lies in. -/
def memOf (bs : List UInt8) : Mem := fun a => bs.getD a 0

theorem at_memOf (bs : List UInt8) : At (memOf bs) 0 bs := by
  apply List.ext_getElem?
  intro i
  by_cases hi : i < bs.length
  · rw [load_getElem? _ _ _ _ hi, Nat.zero_add, memOf, List.getD_eq_getElem?_getD, List.getElem?_eq_getElem hi, Option.getD_some]
  · rw [List.getElem?_eq_none (by rw [load_length]; omega), List.getElem?_eq_none (by omega)]

/-- An array of records reads back as it was written. -/
theorem array_read {α β : Type} {sz : Nat} {enc : α → List UInt8} {rd : Mem → Nat → β} {val : α → β} (hsz : ∀ x, (enc x).length = sz)
    {xs : List α} (hread : ∀ x ∈ xs, ∀ m a, At m a (enc x) → rd m a = val x) :
    readArray sz rd (memOf (xs.flatMap enc)) 0 xs.length = xs.map val := by
  have h : List.Forall₂ (fun x y => val x = y) xs (readArray sz rd (memOf (xs.flatMap enc)) 0 xs.length) :=
    readArray_emit hsz xs 0 (fun x hx a hat => (hread x hx _ a hat).symm) (at_memOf _)
  rw [← List.forall₂_map_left_iff (f := val) (R := Eq), List.forall₂_eq_eq_eq] at h
  exact h.symm

end Popcorn.Metadata
