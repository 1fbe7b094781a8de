/-
  Popcorn.Metadata.UnwindTable — the unwind records and the address-range table, from
  the object files (patches/llvm/src/lib/CodeGen/UnwindInfo.cpp) through the linker to
  gen-stackinfo's `update_function_addr` (tool/stack_metadata/src/write.c).

  Objects. `emitUnwindInfo` writes the records of every function of its map and enters
  each function's offset and count in a second map; `emitAddrRangeInfo` writes that map.
  Both are `std::map`s over symbol pointers: lists ascending by key. The linker
  concatenates the two sections of all objects in one order, and the offsets, which
  count from the start of an object's own section, no longer hold.

  Tool. `updateFunctionAddr` rebuilds them as running sums over the table and sorts the
  table by address; here on the records, and in `Tool` on the bytes of the section.

  Proved:
  - `unwind_records_survive`: the rebuilt offsets name each function's own records, as
    long as they fit the table's 32-bit fields (`unwind_records_lost` past that).
  - `updateOffsets_sorted_iff`: a second run takes the sorted table for the linked one, and
    leaves it as it is just when the running sums of the two orders agree.
-/

import Popcorn.Lib.StableSort
import Popcorn.Metadata.Write

namespace Popcorn.Metadata

open Popcorn.Lib

/-! ## The emitter -/

/-- `std::map<const MCSymbol *, β>`: the entries by ascending pointer. -/
structure SymMap (β : Type) where
  entries : List (Nat × β)
  ascending : entries.Pairwise (·.1 < ·.1)

/-- `insert` keeps the entry of a key that is already there. -/
def insertEntry {β : Type} (k : Nat) (v : β) : List (Nat × β) → List (Nat × β)
  | [] => [(k, v)]
  | e :: es => if k < e.1 then (k, v) :: e :: es else if k = e.1 then e :: es else e :: insertEntry k v es

theorem mem_insertEntry {β : Type} {k : Nat} {v : β} {es : List (Nat × β)} {e : Nat × β} (h : e ∈ insertEntry k v es) :
    e = (k, v) ∨ e ∈ es := by
  induction es with
  | nil =>
    rw [insertEntry, List.mem_singleton] at h
    exact .inl h
  | cons f es ih =>
    rw [insertEntry] at h
    split at h
    · simpa using h
    · split at h
      · exact .inr h
      · rw [List.mem_cons] at h ⊢
        obtain h | h := h
        · exact .inr (.inl h)
        · exact (ih h).imp_right .inr

theorem insertEntry_ascending {β : Type} (k : Nat) (v : β) {es : List (Nat × β)} (h : es.Pairwise (·.1 < ·.1)) :
    (insertEntry k v es).Pairwise (·.1 < ·.1) := by
  induction es with
  | nil => simp [insertEntry]
  | cons f es ih =>
    rw [List.pairwise_cons] at h
    rw [insertEntry]
    split
    · rename_i hlt
      refine List.pairwise_cons.mpr ⟨?_, List.pairwise_cons.mpr h⟩
      intro g hg
      rw [List.mem_cons] at hg
      obtain rfl | hg := hg
      · exact hlt
      · exact Nat.lt_trans hlt (h.1 g hg)
    · split
      · exact List.pairwise_cons.mpr h
      · refine List.pairwise_cons.mpr ⟨?_, ih h.2⟩
        intro g hg
        obtain rfl | hg := mem_insertEntry hg
        · show f.1 < k
          omega
        · exact h.1 g hg

def SymMap.insert {β : Type} (m : SymMap β) (k : Nat) (v : β) : SymMap β where
  entries := insertEntry k v m.entries
  ascending := insertEntry_ascending k v m.ascending

def SymMap.empty {β : Type} : SymMap β := ⟨[], List.Pairwise.nil⟩

structure RegOffset where
  dwarfReg : UInt32
  offset : Int32
  deriving DecidableEq, Repr

/-- The two `EmitIntValue` calls for a saved register: one packed `unwind_loc`. -/
def RegOffset.emit (r : RegOffset) : UnwindLoc := ⟨r.dwarfReg.toUInt16, r.offset.toInt16⟩

/-- Under the emitter's two assertions the record is the register and the offset themselves. -/
theorem RegOffset.emit_exact {r : RegOffset} (hreg : r.dwarfReg < 65535) (h1 : -32768 < r.offset.toInt) (h2 : r.offset.toInt < 32767) :
    r.emit.reg.toNat = r.dwarfReg.toNat ∧ r.emit.offset.toInt = r.offset.toInt := by
  have hlt : r.dwarfReg.toNat < 65535 := hreg
  constructor
  · show r.dwarfReg.toUInt16.toNat = _
    rw [UInt32.toNat_toUInt16, Nat.mod_eq_of_lt (by omega)]
  · show r.offset.toInt16.toInt = _
    rw [Int32.toInt_toInt16, Int.bmod_eq_of_le (by omega) (by omega)]

structure FuncUnwindInfo where
  secOffset : UInt32
  numUnwindRecord : UInt32
  deriving DecidableEq, Repr

/-- The state of `emitUnwindInfo`'s loop: the section so far, `curIdx` and `FuncUnwindMetadata`. -/
structure EmitUnwind where
  out : List UnwindLoc
  curIdx : UInt32
  metadata : SymMap FuncUnwindInfo

/-- The inner loop, over one function's saved registers. -/
def emitRegister (st : EmitUnwind) (cs : RegOffset) : EmitUnwind :=
  { st with out := st.out ++ [cs.emit], curIdx := st.curIdx + 1 }

def emitFunction (st : EmitUnwind) (f : Nat × List RegOffset) : EmitUnwind :=
  let startIdx := st.curIdx
  let st := f.2.foldl emitRegister st
  { st with metadata := st.metadata.insert f.1 ⟨startIdx, st.curIdx - startIdx⟩ }

def emitUnwindInfo (funcCalleeSaved : SymMap (List RegOffset)) : EmitUnwind :=
  funcCalleeSaved.entries.foldl emitFunction ⟨[], 0, .empty⟩

/-- An object file: the registers its functions save, and the addresses its symbols get. -/
structure Object where
  funcCalleeSaved : SymMap (List RegOffset)
  symbolValue : Nat → UInt64

def emitAddrRangeInfo (symbolValue : Nat → UInt64) (funcUnwindMetadata : SymMap FuncUnwindInfo) : List UnwindAddr :=
  funcUnwindMetadata.entries.map fun f => ⟨symbolValue f.1, f.2.numUnwindRecord, f.2.secOffset⟩

/-- `serializeToUnwindInfoSection`: the object's two sections. -/
def serializeToUnwindInfoSection (o : Object) : List UnwindLoc × List UnwindAddr :=
  if o.funcCalleeSaved.entries.isEmpty then ([], [])
  else
    let st := emitUnwindInfo o.funcCalleeSaved
    (st.out, emitAddrRangeInfo o.symbolValue st.metadata)

/-- The sections of the linked binary. -/
def linkedUnwind (objs : List Object) : List UnwindLoc := objs.flatMap fun o => (serializeToUnwindInfoSection o).1

def linkedAddrRange (objs : List Object) : List UnwindAddr := objs.flatMap fun o => (serializeToUnwindInfoSection o).2

/-! ## The tool -/

/-- The loop that rebuilds the offsets; `cur_offset` is a `size_t`. -/
def updateOffsets : UInt64 → List UnwindAddr → List UnwindAddr
  | _, [] => []
  | cur, ua :: rest => { ua with unwindOffset := cur.toUInt32 } :: updateOffsets (cur + ua.numUnwind.toUInt64) rest

/-- `qsort` with `sort_unwind_addr`. -/
def qsortUnwindAddr (t : List UnwindAddr) : List UnwindAddr := t.insertionSort fun a b => a.addr ≤ b.addr

/-- `update_function_addr`, on the contents of the section. -/
def updateFunctionAddr (sec : Option (List UnwindAddr)) : Except AddErr (List UnwindAddr) :=
  match sec with
  | none => .error .findSectionFailed
  | some ua => if ua.isEmpty then .error .invalidMetadata else .ok (qsortUnwindAddr (updateOffsets 0 ua))

/-! ## What an object's sections hold -/

/-- A function of the linked binary and the registers it saves. -/
structure Func where
  addr : UInt64
  saved : List RegOffset

/-- The function's own records. -/
def Func.records (f : Func) : List UnwindLoc := f.saved.map RegOffset.emit

def Object.functions (o : Object) : List Func := o.funcCalleeSaved.entries.map fun e => ⟨o.symbolValue e.1, e.2⟩

def linkedFunctions (objs : List Object) : List Func := objs.flatMap Object.functions

/-- An entry without its offset. -/
def UnwindAddr.range (ua : UnwindAddr) : UInt64 × UInt32 := (ua.addr, ua.numUnwind)

theorem foldl_emitRegister (regs : List RegOffset) : ∀ st : EmitUnwind, regs.foldl emitRegister st =
    { st with out := st.out ++ regs.map RegOffset.emit, curIdx := st.curIdx + UInt32.ofNat regs.length } := by
  induction regs with
  | nil => intro st; simp
  | cons r regs ih =>
    intro st
    rw [List.foldl_cons, ih]
    simp [emitRegister, UInt32.ofNat_add, UInt32.add_assoc, UInt32.add_comm 1]

theorem insertEntry_last {β : Type} {k : Nat} {v : β} {es : List (Nat × β)} (h : ∀ e ∈ es, e.1 < k) :
    insertEntry k v es = es ++ [(k, v)] := by
  induction es with
  | nil => rfl
  | cons e es ih =>
    have he := h e (by simp)
    rw [insertEntry, if_neg (by omega), if_neg (by omega), ih (fun f hf => h f (by simp [hf])), List.cons_append]

/-- The loop's state after the functions `done`: the second map is filled in the order of
    the first, so both are walked in the same order. -/
structure Emitted (done : List (Nat × List RegOffset)) (st : EmitUnwind) : Prop where
  out : st.out = done.flatMap fun f => f.2.map RegOffset.emit
  metadata : (st.metadata.entries.map fun e => (e.1, e.2.numUnwindRecord)) = done.map fun f => (f.1, UInt32.ofNat f.2.length)

theorem emitFunction_emitted {done : List (Nat × List RegOffset)} {f : Nat × List RegOffset} {st : EmitUnwind}
    (hlt : ∀ g ∈ done, g.1 < f.1) (h : Emitted done st) : Emitted (done ++ [f]) (emitFunction st f) := by
  have hkeys : ∀ e ∈ st.metadata.entries, e.1 < f.1 := by
    intro e he
    have hmem : (e.1, e.2.numUnwindRecord) ∈ done.map fun f => (f.1, UInt32.ofNat f.2.length) := by
      rw [← h.metadata]
      exact List.mem_map_of_mem he
    obtain ⟨g, hg, heq⟩ := List.mem_map.mp hmem
    have := hlt g hg
    rwa [(Prod.mk.inj heq).1] at this
  unfold emitFunction
  rw [foldl_emitRegister]
  constructor
  · simp [h.out]
  · simp only [SymMap.insert, insertEntry_last hkeys, List.map_append, h.metadata, List.map_cons, List.map_nil]
    rw [UInt32.add_comm st.curIdx, UInt32.add_sub_cancel]

theorem emitUnwindInfo_emitted (saved : SymMap (List RegOffset)) : Emitted saved.entries (emitUnwindInfo saved) := by
  apply foldl_inv (P := Emitted)
  · exact ⟨rfl, rfl⟩
  · intro done f rest st heq h
    apply emitFunction_emitted _ h
    intro g hg
    have := saved.ascending
    rw [heq, List.pairwise_append] at this
    exact this.2.2 g hg f (by simp)

theorem serialize_unwind (o : Object) : (serializeToUnwindInfoSection o).1 = o.functions.flatMap Func.records := by
  unfold serializeToUnwindInfoSection
  split
  · rename_i hnil
    rw [List.isEmpty_iff] at hnil
    simp [Object.functions, hnil]
  · show (emitUnwindInfo o.funcCalleeSaved).out = _
    rw [(emitUnwindInfo_emitted o.funcCalleeSaved).out]
    simp [Object.functions, Func.records, List.flatMap_map]

theorem serialize_addrRange (o : Object) : (serializeToUnwindInfoSection o).2.map UnwindAddr.range =
    o.functions.map fun f => (f.addr, UInt32.ofNat f.saved.length) := by
  unfold serializeToUnwindInfoSection
  split
  · rename_i hnil
    rw [List.isEmpty_iff] at hnil
    simp [Object.functions, hnil]
  · have h := congrArg (List.map fun p => (o.symbolValue p.1, p.2)) (emitUnwindInfo_emitted o.funcCalleeSaved).metadata
    simpa [Object.functions, emitAddrRangeInfo, UnwindAddr.range, Function.comp_def] using h

/-- The linked sections, function by function. -/
theorem linkedUnwind_eq (objs : List Object) : linkedUnwind objs = (linkedFunctions objs).flatMap Func.records := by
  simp only [linkedUnwind, linkedFunctions, serialize_unwind, List.flatMap_assoc]

theorem linkedAddrRange_eq (objs : List Object) : (linkedAddrRange objs).map UnwindAddr.range =
    (linkedFunctions objs).map fun f => (f.addr, UInt32.ofNat f.saved.length) := by
  simp only [linkedAddrRange, linkedFunctions, List.map_flatMap, serialize_addrRange]

/-! ## The rebuilt offsets -/

/-- The number of records the entries of a table name. -/
def total (t : List UnwindAddr) : Nat := (t.map (·.numUnwind.toNat)).sum

/-- Each entry's new offset is the number of records named before it. -/
theorem updateOffsets_getElem? (t : List UnwindAddr) : ∀ (n k : Nat), (updateOffsets (UInt64.ofNat n) t)[k]? =
    t[k]?.map fun ua => { ua with unwindOffset := UInt32.ofNat (n + total (t.take k)) } := by
  induction t with
  | nil => intro n k; rfl
  | cons ua t ih =>
    intro n k
    have hstep : UInt64.ofNat n + ua.numUnwind.toUInt64 = UInt64.ofNat (n + ua.numUnwind.toNat) := by
      rw [UInt64.ofNat_add, UInt64.ofNat_uInt32ToNat]
    rw [updateOffsets, hstep]
    cases k with
    | zero => simp [total]
    | succ k =>
      rw [List.getElem?_cons_succ, List.getElem?_cons_succ, ih]
      simp [total, Nat.add_assoc]

theorem updateOffsets_zero (t : List UnwindAddr) (k : Nat) :
    (updateOffsets 0 t)[k]? = t[k]?.map fun ua => { ua with unwindOffset := UInt32.ofNat (total (t.take k)) } := by
  have := updateOffsets_getElem? t 0 k
  simpa using this

theorem updateOffsets_range (t : List UnwindAddr) : ∀ cur, (updateOffsets cur t).map UnwindAddr.range = t.map UnwindAddr.range := by
  induction t with
  | nil => intro cur; rfl
  | cons ua t ih => intro cur; simp [updateOffsets, ih, UnwindAddr.range]

theorem qsortUnwindAddr_eq (t : List UnwindAddr) : qsortUnwindAddr t = sortBy (·.addr.toNat) t := rfl

theorem qsortUnwindAddr_perm (t : List UnwindAddr) : (qsortUnwindAddr t).Perm t := List.perm_insertionSort _ _

theorem qsortUnwindAddr_pairwise (t : List UnwindAddr) : (qsortUnwindAddr t).Pairwise (·.addr ≤ ·.addr) := by
  have h : (sortBy (fun e : UnwindAddr => e.addr.toNat) t).Pairwise fun a b => a.addr.toNat ≤ b.addr.toNat :=
    List.pairwise_insertionSort _ _
  exact h

theorem updateFunctionAddr_ok {t : List UnwindAddr} (h : t ≠ []) :
    updateFunctionAddr (some t) = .ok (qsortUnwindAddr (updateOffsets 0 t)) := by
  simp [updateFunctionAddr, h]

/-! ## The records survive linking -/

/-- What the table has to be after `update_function_addr`: the linked entries by address,
    where the entry of each function that meets `Ok` names the function's own records. -/
structure Survives (objs : List Object) (Ok : Nat → Func → Prop) (table : List UnwindAddr) : Prop where
  sorted : table.Pairwise (·.addr ≤ ·.addr)
  kept : (table.map UnwindAddr.range).Perm ((linkedAddrRange objs).map UnwindAddr.range)
  slices : ∃ entries : List UnwindAddr, table.Perm entries ∧ entries.length = (linkedFunctions objs).length ∧
    ∀ k f ua, (linkedFunctions objs)[k]? = some f → entries[k]? = some ua → ua.addr = f.addr ∧
      (Ok k f → ((linkedUnwind objs).drop ua.unwindOffset.toNat).take ua.numUnwind.toNat = f.records)

/-- The number of the function's records and the position of the first one fit 32 bits. -/
def FitsTable (objs : List Object) (k : Nat) (f : Func) : Prop :=
  f.saved.length < 4294967296 ∧ sliceStart Func.records (linkedFunctions objs) k < 4294967296

theorem linked_entry {objs : List Object} {k : Nat} {f : Func} {ua : UnwindAddr} (hf : (linkedFunctions objs)[k]? = some f)
    (hua : (linkedAddrRange objs)[k]? = some ua) : ua.addr = f.addr ∧ ua.numUnwind = UInt32.ofNat f.saved.length := by
  have h := congrArg (·[k]?) (linkedAddrRange_eq objs)
  simp only [List.getElem?_map, hf, hua, Option.map_some, Option.some.injEq] at h
  exact Prod.mk.inj h

/-- As long as their true number fits 32 bits, the records named are those written. -/
theorem total_eq_length {fs : List Func} {t : List UnwindAddr}
    (h : t.map UnwindAddr.range = fs.map fun f => (f.addr, UInt32.ofNat f.saved.length))
    (hlt : (fs.flatMap Func.records).length < 4294967296) : total t = (fs.flatMap Func.records).length := by
  induction fs generalizing t with
  | nil =>
    rw [List.map_nil, List.map_eq_nil_iff] at h
    subst h
    rfl
  | cons f fs ih =>
    cases t with
    | nil => cases h
    | cons ua t =>
      rw [List.map_cons, List.map_cons, List.cons.injEq] at h
      rw [List.flatMap_cons, List.length_append] at hlt ⊢
      have hnum : ua.numUnwind = UInt32.ofNat f.saved.length := (Prod.mk.inj h.1).2
      have hlen : f.records.length = f.saved.length := List.length_map _
      have htail := ih h.2 (by omega)
      have hhead : ua.numUnwind.toNat = f.records.length := by
        rw [hnum, UInt32.toNat_ofNat', hlen]
        exact Nat.mod_eq_of_lt (by omega)
      rw [← htail, ← hhead]
      rfl

theorem rebuilt_offset {objs : List Object} {k : Nat} (hlt : sliceStart Func.records (linkedFunctions objs) k < 4294967296) :
    (UInt32.ofNat (total ((linkedAddrRange objs).take k))).toNat = sliceStart Func.records (linkedFunctions objs) k := by
  have hmap := congrArg (List.take k) (linkedAddrRange_eq objs)
  rw [← List.map_take, ← List.map_take] at hmap
  rw [total_eq_length hmap hlt, UInt32.toNat_ofNat']
  exact Nat.mod_eq_of_lt hlt

/-- The rebuilt entry of a function that fits names the function's own records. -/
theorem rebuilt_slice {objs : List Object} {k : Nat} {f : Func} {ua : UnwindAddr} (hf : (linkedFunctions objs)[k]? = some f)
    (hua : (linkedAddrRange objs)[k]? = some ua) (hfit : FitsTable objs k f) :
    ((linkedUnwind objs).drop (UInt32.ofNat (total ((linkedAddrRange objs).take k))).toNat).take ua.numUnwind.toNat =
      f.records := by
  have hlen : f.records.length = f.saved.length := List.length_map _
  have hnum : ua.numUnwind.toNat = f.records.length := by
    rw [(linked_entry hf hua).2, UInt32.toNat_ofNat', hlen]
    exact Nat.mod_eq_of_lt hfit.1
  rw [hnum, rebuilt_offset hfit.2, linkedUnwind_eq]
  exact slice_eq hf

theorem linkedAddrRange_length (objs : List Object) : (linkedAddrRange objs).length = (linkedFunctions objs).length := by
  have := congrArg List.length (linkedAddrRange_eq objs)
  simpa using this

/-- Unwind records survive linking as far as the table's 32-bit fields reach. -/
theorem unwind_records_survive (objs : List Object) (hne : linkedFunctions objs ≠ []) :
    ∃ table, updateFunctionAddr (some (linkedAddrRange objs)) = .ok table ∧ Survives objs (FitsTable objs) table := by
  have hlen := linkedAddrRange_length objs
  have hne' : linkedAddrRange objs ≠ [] := by
    intro h
    rw [h] at hlen
    exact hne (List.length_eq_zero_iff.mp hlen.symm)
  refine ⟨_, updateFunctionAddr_ok hne', qsortUnwindAddr_pairwise _, ?_, updateOffsets 0 (linkedAddrRange objs), ?_, ?_, ?_⟩
  · rw [← updateOffsets_range (linkedAddrRange objs) 0]
    exact (qsortUnwindAddr_perm _).map _
  · exact qsortUnwindAddr_perm _
  · rw [← hlen, ← List.length_map UnwindAddr.range, updateOffsets_range, List.length_map]
  · intro k f ua' hf hua'
    rw [updateOffsets_zero, Option.map_eq_some_iff] at hua'
    obtain ⟨ua, hua, rfl⟩ := hua'
    have hslice := rebuilt_slice hf hua
    exact ⟨(linked_entry hf hua).1, hslice⟩

/-- Two objects; in the first the symbol order is not the address order. -/
def twoObjects : List Object :=
  [⟨⟨[(10, [⟨6, 0⟩, ⟨16, 8⟩, ⟨3, -8⟩]), (20, [⟨6, 0⟩, ⟨16, 8⟩])], by decide⟩, fun s => if s = 10 then 0x2000 else 0x1000⟩,
    ⟨⟨[(5, [⟨6, 0⟩, ⟨16, 8⟩])], by decide⟩, fun _ => 0x3000⟩]

theorem unwind_records_survive_twoObjects :
    ∃ table, updateFunctionAddr (some (linkedAddrRange twoObjects)) = .ok table ∧ Survives twoObjects (FitsTable twoObjects) table :=
  unwind_records_survive twoObjects (by simp [linkedFunctions, twoObjects, Object.functions])

/-- `n` functions that save the same 16 registers, and one of another object that saves two others. -/
def manyFunctions (n : Nat) : List Object :=
  [⟨⟨(List.range n).map fun i => (i, List.replicate 16 ⟨3, -8⟩), by
      rw [List.pairwise_map]
      exact List.pairwise_lt_range⟩, fun s => UInt64.ofNat (16 * s)⟩,
    ⟨⟨[(0, [⟨6, 0⟩, ⟨16, 8⟩])], by decide⟩, fun _ => 0x7FFFFFFFFFFF⟩]

theorem linkedFunctions_many (n : Nat) : linkedFunctions (manyFunctions n) =
    ((List.range n).map fun i => ⟨UInt64.ofNat (16 * i), List.replicate 16 ⟨3, -8⟩⟩) ++ [⟨0x7FFFFFFFFFFF, [⟨6, 0⟩, ⟨16, 8⟩]⟩] := by
  simp [linkedFunctions, manyFunctions, Object.functions, Function.comp_def]

theorem total_many (n : Nat) : total ((linkedAddrRange (manyFunctions n)).take n) = 16 * n := by
  have h : total ((linkedAddrRange (manyFunctions n)).take n) =
      ((((linkedAddrRange (manyFunctions n)).map UnwindAddr.range).take n).map (·.2.toNat)).sum := by
    rw [← List.map_take, List.map_map]
    rfl
  rw [h, linkedAddrRange_eq, linkedFunctions_many, List.map_append, List.take_left' (by simp)]
  simp [Function.comp_def, Nat.mul_comm]

/-- The last function's offset wraps to the first function's records. -/
theorem manyFunctions_lost {n : Nat} (hn : 16 * n = 4294967296) (table : List UnwindAddr)
    (ht : updateFunctionAddr (some (linkedAddrRange (manyFunctions n))) = .ok table) :
    ¬ Survives (manyFunctions n) (fun _ _ => True) table := by
  intro hs
  have hfs := linkedFunctions_many n
  obtain ⟨entries, hperm, hlen, hown⟩ := hs.slices
  have hlast : (linkedFunctions (manyFunctions n))[n]? = some ⟨0x7FFFFFFFFFFF, [⟨6, 0⟩, ⟨16, 8⟩]⟩ := by simp [hfs]
  have hfirst : (linkedFunctions (manyFunctions n))[0]? = some ⟨0, List.replicate 16 ⟨3, -8⟩⟩ := by
    rw [hfs, List.getElem?_append_left (by simp; omega)]
    simp [show 0 < n by omega]
  obtain ⟨e, he⟩ : ∃ e, entries[n]? = some e := ⟨_, List.getElem?_eq_getElem (by rw [hlen, hfs]; simp)⟩
  obtain ⟨haddr, hslice⟩ := hown n _ e hlast he
  -- the entry of that address is the one rebuilt for the last function
  have hmem : e ∈ updateOffsets 0 (linkedAddrRange (manyFunctions n)) := by
    have hne : linkedAddrRange (manyFunctions n) ≠ [] := by
      intro h
      have := linkedAddrRange_length (manyFunctions n)
      rw [h, hfs] at this
      simp at this
    rw [updateFunctionAddr_ok hne, Except.ok.injEq] at ht
    rw [← (qsortUnwindAddr_perm _).mem_iff, ht, hperm.mem_iff]
    exact List.mem_of_getElem? he
  obtain ⟨k, hk⟩ := List.getElem?_of_mem hmem
  rw [updateOffsets_zero, Option.map_eq_some_iff] at hk
  obtain ⟨ua, hua, rfl⟩ := hk
  obtain ⟨f, hf⟩ : ∃ f, (linkedFunctions (manyFunctions n))[k]? = some f :=
    ⟨_, List.getElem?_eq_getElem (by rw [← linkedAddrRange_length]; exact (List.getElem?_eq_some_iff.mp hua).1)⟩
  have hfa : f.addr = 0x7FFFFFFFFFFF := (linked_entry hf hua).1.symm.trans haddr
  have hkn : k = n := by
    have hklt := (List.getElem?_eq_some_iff.mp hf).1
    simp only [hfs, List.length_append, List.length_map, List.length_range, List.length_singleton] at hklt
    by_contra hne
    rw [hfs, List.getElem?_append_left (by simp; omega)] at hf
    simp only [List.getElem?_map, List.getElem?_range (show k < n by omega), Option.map_some, Option.some.injEq] at hf
    rw [← hf] at hfa
    have h16 := congrArg UInt64.toNat hfa
    rw [UInt64.toNat_ofNat', Nat.mod_eq_of_lt (by omega)] at h16
    simp at h16
    omega
  subst hkn
  have hnum : ua.numUnwind = 2 := (linked_entry hlast hua).2
  have hzero : UInt32.ofNat (total ((linkedAddrRange (manyFunctions k)).take k)) = 0 := by
    rw [total_many, hn]
    rfl
  have hhead := slice_eq (f := Func.records) hfirst
  rw [← linkedUnwind_eq] at hhead
  have hslice := hslice trivial
  simp only [hzero, hnum] at hslice
  have htwo := congrArg (List.take 2) hhead
  rw [List.take_take] at htwo
  have hcontra := hslice.symm.trans htwo
  simp [Func.records, RegOffset.emit] at hcontra

/-- With 2^28 functions of 16 saved registers in front of it, a function's offset wraps. -/
theorem unwind_records_lost : ¬ ∃ table, updateFunctionAddr (some (linkedAddrRange (manyFunctions 268435456))) = .ok table ∧
    Survives (manyFunctions 268435456) (fun _ _ => True) table := by
  intro ⟨table, ht, hs⟩
  exact manyFunctions_lost (by decide) table ht hs

/-! ## A second run -/

/-- Every entry has as many records before it in the table's own order as in the order of
    addresses (entries of one address keep their order), up to the width of the offset. -/
def SumsAgree (t : List UnwindAddr) : Prop :=
  ∀ i ua, t[i]? = some ua → total (t.take i) % 4294967296 = total (sortsBefore (·.addr.toNat) t i ua) % 4294967296

theorem total_perm {s t : List UnwindAddr} (h : s.Perm t) : total s = total t := List.Perm.sum_nat (h.map _)

/-- The records below an entry do not depend on the offsets. -/
theorem total_before_congr {e f : UnwindAddr} (he : e.addr = f.addr) (i : Nat) :
    ∀ (s t : List UnwindAddr) (n : Nat), s.map UnwindAddr.range = t.map UnwindAddr.range →
      total (((s.zipIdx n).filter fun q => TaggedLt (fun ua : UnwindAddr => ua.addr.toNat) q (e, i)).map (·.1)) =
        total (((t.zipIdx n).filter fun q => TaggedLt (fun ua : UnwindAddr => ua.addr.toNat) q (f, i)).map (·.1)) := by
  intro s
  induction s with
  | nil =>
    intro t n h
    rw [List.map_nil, eq_comm, List.map_eq_nil_iff] at h
    subst h
    rfl
  | cons a s ih =>
    intro t n h
    cases t with
    | nil => cases h
    | cons b t =>
      rw [List.map_cons, List.map_cons, List.cons.injEq] at h
      obtain ⟨haddr, hnum⟩ := Prod.mk.inj h.1
      have hiff : TaggedLt (fun ua : UnwindAddr => ua.addr.toNat) (a, n) (e, i) ↔
          TaggedLt (fun ua : UnwindAddr => ua.addr.toNat) (b, n) (f, i) := by
        simp only [TaggedLt, haddr, he]
      have htail := ih t (n + 1) h.2
      by_cases hlt : TaggedLt (fun ua : UnwindAddr => ua.addr.toNat) (a, n) (e, i)
      · simp only [List.zipIdx_cons, List.filter_cons, hlt, hiff.mp hlt, decide_true, if_true]
        simp only [total, List.map_cons, List.sum_cons, hnum] at htail ⊢
        rw [htail]
      · have hlt' : ¬ TaggedLt (fun ua : UnwindAddr => ua.addr.toNat) (b, n) (f, i) := fun h => hlt (hiff.mpr h)
        simp only [List.zipIdx_cons, List.filter_cons, hlt, hlt', decide_false, Bool.false_eq_true, if_false]
        exact htail

theorem total_sortsBefore {e f : UnwindAddr} (he : e.addr = f.addr) (i : Nat) {s t : List UnwindAddr}
    (h : s.map UnwindAddr.range = t.map UnwindAddr.range) :
    total (sortsBefore (·.addr.toNat) s i e) = total (sortsBefore (·.addr.toNat) t i f) := total_before_congr he i s t 0 h

/-- A table is left alone just when every offset is the sum of what precedes it. -/
theorem updateOffsets_eq_self_iff (t : List UnwindAddr) :
    updateOffsets 0 t = t ↔ ∀ k ua, t[k]? = some ua → ua.unwindOffset = UInt32.ofNat (total (t.take k)) := by
  constructor
  · intro h k ua hua
    have hk := updateOffsets_zero t k
    rw [h, hua, Option.map_some, Option.some.injEq] at hk
    exact congrArg (·.unwindOffset) hk
  · intro h
    apply List.ext_getElem?
    intro k
    rw [updateOffsets_zero]
    cases hk : t[k]? with
    | none => rfl
    | some ua => rw [Option.map_some, ← h k ua hk]

theorem updateOffsets_pairwise {t : List UnwindAddr} (h : t.Pairwise (·.addr ≤ ·.addr)) :
    (updateOffsets 0 t).Pairwise (·.addr ≤ ·.addr) := by
  have hkey : ∀ s : List UnwindAddr, s.Pairwise (·.addr ≤ ·.addr) ↔ (s.map UnwindAddr.range).Pairwise (·.1 ≤ ·.1) := by
    intro s
    rw [List.pairwise_map]
    rfl
  rw [hkey, updateOffsets_range, ← hkey]
  exact h

/-- The second rebuild changes nothing just when the two orders' sums agree. -/
theorem updateOffsets_sorted_iff (t : List UnwindAddr) :
    updateOffsets 0 (qsortUnwindAddr (updateOffsets 0 t)) = qsortUnwindAddr (updateOffsets 0 t) ↔ SumsAgree t := by
  rw [updateOffsets_eq_self_iff, qsortUnwindAddr_eq]
  rw [sortBy_before_iff (P := fun ua before => ua.unwindOffset = UInt32.ofNat (total before))]
  · have hsum : ∀ i ua, total (sortsBefore (·.addr.toNat) (updateOffsets 0 t) i
        ⟨ua.addr, ua.numUnwind, UInt32.ofNat (total (t.take i))⟩) = total (sortsBefore (·.addr.toNat) t i ua) :=
      fun i ua => total_sortsBefore rfl i (updateOffsets_range t 0)
    unfold SumsAgree
    constructor
    · intro h i ua hua
      have hi := h i _ (by rw [updateOffsets_zero, hua]; rfl)
      dsimp only at hi
      rw [hsum] at hi
      have := congrArg UInt32.toNat hi
      rwa [UInt32.toNat_ofNat', UInt32.toNat_ofNat'] at this
    · intro h i ua' hua'
      rw [updateOffsets_zero, Option.map_eq_some_iff] at hua'
      obtain ⟨ua, hua, rfl⟩ := hua'
      rw [hsum]
      apply UInt32.toNat_inj.mp
      rw [UInt32.toNat_ofNat', UInt32.toNat_ofNat']
      exact h i ua hua
  · intro ua xs ys hperm
    rw [total_perm hperm]

end Popcorn.Metadata
