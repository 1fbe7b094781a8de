/-
  Popcorn.Metadata.Stackmap — the stackmap section: what the patched StackMaps
  emitter writes (patches/llvm/llvm-3.7.1.patch, lib/CodeGen/StackMaps.cpp) and how
  gen-stackinfo reads it (tool/stack_metadata/src/stackmap.c).

  Emitter. A module's section is its header, one record per function, the constant
  pool and one variable-length record per call site, padded to 8 bytes. Each object
  file's section starts at an 8-byte boundary and the linker concatenates them. The
  header and the constant pool are written by LLVM's own unpatched code: they are
  the fields of `Llvm`, with the layout LLVM documents.

  Reader. `initStackmap` walks the section's memory twice: `sizingPass` counts the
  modules, skipping their call-site records with `stackmapRecordsSize`;
  `readingPass` reads them with `readStackmapRecords`. Neither checks a bound. The C
  struct keeps a count and a pointer into the section; here it is the list of the
  records that memory holds there.
-/

import Popcorn.Metadata.CallSite

namespace Popcorn.Metadata

open Popcorn.Lib

/-! ## The emitter -/

/-- `StackMaps::Location::LocationType`. -/
inductive EmitLocType where
  | unprocessed
  | register
  | direct
  | indirect
  | constant
  | constantIndex
  deriving DecidableEq, Repr

def EmitLocType.code : EmitLocType → Fin 16
  | .unprocessed => 0
  | .register => 1
  | .direct => 2
  | .indirect => 3
  | .constant => 4
  | .constantIndex => 5

/-- The value generator's instructions (StackTransformTypes.def). -/
inductive InstType where
  | set
  | add
  | subtract
  | multiply
  | divide
  | leftShift
  | rightShiftLog
  | rightShiftArith
  | mask
  | load
  | stackSlot
  | constantPool
  deriving DecidableEq, Repr

def InstType.code : InstType → Fin 16
  | .set => 0
  | .add => 1
  | .subtract => 2
  | .multiply => 3
  | .divide => 4
  | .leftShift => 5
  | .rightShiftLog => 6
  | .rightShiftArith => 7
  | .mask => 8
  | .load => 9
  | .stackSlot => 10
  | .constantPool => 11

structure Location where
  type : EmitLocType
  size : UInt32
  reg : UInt32
  offset : Int64
  ptr : Bool
  alloca : Bool
  duplicate : Bool
  allocaSize : UInt32

structure LiveOutReg where
  dwarfRegNum : UInt16
  size : UInt16

structure Operation where
  instType : InstType
  operandType : EmitLocType
  size : UInt32
  dwarfReg : UInt32
  constant : Int64
  isSymbol : Bool
  /-- The address the symbol resolves to. -/
  symbol : UInt64

structure CallsiteInfo where
  /-- The symbol of the function the call site is in. -/
  func : Nat
  /-- The value `CSOffsetExpr` assembles to. -/
  csOffset : UInt32
  id : UInt64
  locations : List Location
  liveOuts : List LiveOutReg
  vals : List (Location × Operation)

/-- An entry of `FnStackSize`, with the function's unwind information (both zero when
    the emitter is run without any). -/
structure FnRecord where
  sym : Nat
  addr : UInt64
  stackSize : UInt64
  numUnwindRecord : UInt32
  secOffset : UInt32

structure Module where
  fnStackSize : List FnRecord
  constPool : List UInt64
  csInfos : List CallsiteInfo

/-- `MCStreamer::EmitIntValue`: the low `n` bytes, little-endian. -/
def emitIntValue (v : Int) (n : Nat) : List UInt8 := leBytes n (v % (256 : Int) ^ n).toNat

/-- `MCStreamer::EmitValueToAlignment`: zeroes up to a multiple of `n`. -/
def emitValueToAlignment (n : Nat) (out : List UInt8) : List UInt8 :=
  out ++ List.replicate ((n - out.length % n) % n) 0

/-- The parts of a section that LLVM's own code writes, in its documented layout. -/
structure Llvm where
  version : UInt8
  emitStackmapHeader : Module → List UInt8
  emitConstantPoolEntries : Module → List UInt8
  header_layout : ∀ M, emitStackmapHeader M = emitIntValue version.toNat 1 ++ emitIntValue 0 1 ++ emitIntValue 0 2 ++
    emitIntValue M.fnStackSize.length 4 ++ emitIntValue M.constPool.length 4 ++ emitIntValue M.csInfos.length 4
  pool_layout : ∀ M, emitConstantPoolEntries M = M.constPool.flatMap fun c => emitIntValue c.toNat 8

/-- `TYPE_AND_FLAGS`. -/
def typeAndFlags (type : Fin 16) (ptr alloca dup : Bool) : Nat :=
  (type.val <<< 4 ||| ptr.toNat <<< 2 ||| alloca.toNat <<< 1 ||| dup.toNat) % 256

/-- `ARCH_TYPE_AND_FLAGS`. -/
def archTypeAndFlags (type : Fin 16) (ptr : Bool) : Nat := (type.val <<< 4 ||| ptr.toNat) % 256

/-- `ARCH_OP_TYPE`. -/
def archOpType (inst op : Fin 16) : Nat := (inst.val <<< 4 ||| op.val) % 256

def emitFunctionFrameRecord (f : FnRecord) : List UInt8 :=
  emitIntValue f.addr.toNat 8 ++ emitIntValue f.stackSize.toNat 8 ++ emitIntValue f.numUnwindRecord.toNat 4 ++
    emitIntValue f.secOffset.toNat 4

def emitLocation (l : Location) : List UInt8 :=
  emitIntValue (typeAndFlags l.type.code l.ptr l.alloca l.duplicate) 1 ++ emitIntValue l.size.toNat 1 ++
    emitIntValue l.reg.toNat 2 ++ emitIntValue l.offset.toInt 4 ++ emitIntValue l.allocaSize.toNat 4

def emitLiveOut (l : LiveOutReg) : List UInt8 :=
  emitIntValue l.dwarfRegNum.toNat 2 ++ emitIntValue 0 1 ++ emitIntValue l.size.toNat 1

def emitArchValue (v : Location × Operation) : List UInt8 :=
  emitIntValue (archTypeAndFlags v.1.type.code v.1.ptr) 1 ++ emitIntValue v.1.size.toNat 1 ++ emitIntValue v.1.reg.toNat 2 ++
    emitIntValue v.1.offset.toInt 4 ++ emitIntValue (archOpType v.2.instType.code v.2.operandType.code) 1 ++
    emitIntValue v.2.size.toNat 1 ++ emitIntValue v.2.dwarfReg.toNat 2 ++
    emitIntValue (if v.2.isSymbol then (v.2.symbol.toNat : Int) else v.2.constant.toInt) 8

/-- `FnStackSize.find(CSI.Func) - FnStackSize.begin()`. -/
def fnIndex (M : Module) (func : Nat) : Nat := M.fnStackSize.findIdx (·.sym == func)

/-- One call site's record, before the padding. -/
def callsiteEntry (M : Module) (c : CallsiteInfo) : List UInt8 :=
  emitIntValue c.id.toNat 8 ++ emitIntValue (fnIndex M c.func) 4 ++ emitIntValue c.csOffset.toNat 4 ++ emitIntValue 0 2 ++
    (emitIntValue c.locations.length 2 ++ c.locations.flatMap emitLocation) ++
    (emitIntValue 0 2 ++ emitIntValue c.liveOuts.length 2 ++ c.liveOuts.flatMap emitLiveOut) ++
    (emitIntValue 0 2 ++ emitIntValue c.vals.length 2 ++ c.vals.flatMap emitArchValue)

/-- The record that reports a list too long to encode. -/
def overflowEntry (c : CallsiteInfo) : List UInt8 :=
  emitIntValue uint64Max.toNat 8 ++ emitIntValue 0xFFFFFFFF 4 ++ emitIntValue c.csOffset.toNat 4 ++ emitIntValue 0 2 ++
    emitIntValue 0 2 ++ emitIntValue 0 2 ++ emitIntValue 0 2 ++ emitIntValue 0 2 ++ emitIntValue 0 2 ++ emitIntValue 0 4

def overflows (c : CallsiteInfo) : Bool :=
  c.locations.length > 65535 || c.liveOuts.length > 65535 || c.vals.length > 65535

def emitCallsiteEntry (M : Module) (out : List UInt8) (c : CallsiteInfo) : List UInt8 :=
  if overflows c then out ++ overflowEntry c
  else emitValueToAlignment 8 (out ++ callsiteEntry M c)

def emitCallsiteEntries (M : Module) (out : List UInt8) : List UInt8 := M.csInfos.foldl (emitCallsiteEntry M) out

/-- What precedes a section's call-site records. -/
def sectionHead (L : Llvm) (M : Module) : List UInt8 :=
  L.emitStackmapHeader M ++ M.fnStackSize.flatMap emitFunctionFrameRecord ++ L.emitConstantPoolEntries M

/-- The bytes of one object file's section; a module without call sites has none. -/
def serializeToStackMapSection (L : Llvm) (M : Module) : List UInt8 :=
  if M.csInfos.isEmpty then [] else emitCallsiteEntries M (sectionHead L M)

/-! ## The reader's records -/

structure FunctionRecord where
  funcAddr : UInt64
  stackSize : UInt64
  numUnwind : UInt32
  unwindOffset : UInt32
  deriving DecidableEq, Repr

structure LiveOutRecord where
  regnum : UInt16
  reserved : UInt8
  size : UInt8
  deriving DecidableEq, Repr

structure CallSiteRecord where
  id : UInt64
  funcIdx : UInt32
  offset : UInt32
  reserved : UInt16
  locations : List LiveValue
  liveOuts : List LiveOutRecord
  archLive : List ArchLiveValue
  locations_lt : locations.length < 65536
  liveOuts_lt : liveOuts.length < 65536
  archLive_lt : archLive.length < 65536
  deriving DecidableEq, Repr

def CallSiteRecord.numLocations (r : CallSiteRecord) : UInt16 := UInt16.ofNat r.locations.length
def CallSiteRecord.numArchLive (r : CallSiteRecord) : UInt16 := UInt16.ofNat r.archLive.length

structure StackMapSection where
  version : UInt8
  reserved : UInt8
  reserved2 : UInt16
  functionRecords : List FunctionRecord
  constants : List UInt64
  callSites : List CallSiteRecord
  deriving DecidableEq, Repr

/-! ## The reader -/

/-- `sizeof(function_record)`, `sizeof(live_out_record)`. -/
def sizeofFunctionRecord : Nat := 24
def sizeofLiveOutRecord : Nat := 4

/-- `offsetof(call_site_record, num_locations)`, `offsetof(stack_map_section, function_records)`. -/
def offsetofNumLocations : Nat := 18
def offsetofFunctionRecords : Nat := 16

def u16At (m : Mem) (a : Nat) : UInt16 := UInt16.ofNat (readLe 2 m a)
def u32At (m : Mem) (a : Nat) : UInt32 := UInt32.ofNat (readLe 4 m a)
def u64At (m : Mem) (a : Nat) : UInt64 := UInt64.ofNat (readLe 8 m a)

/-- `n` consecutive records of `sz` bytes. -/
def readArray {α : Type} (sz : Nat) (rd : Mem → Nat → α) (m : Mem) (a n : Nat) : List α :=
  (List.range n).map fun i => rd m (a + sz * i)

def highNibble (b : UInt8) : Fin 16 := ⟨b.toNat / 16, by have := b.toNat_lt; omega⟩
def lowNibble (b : UInt8) : Fin 16 := ⟨b.toNat % 16, by omega⟩

def readLiveValue (m : Mem) (a : Nat) : LiveValue :=
  let b := m a
  { isDuplicate := b.toNat.testBit 0, isAlloca := b.toNat.testBit 1, isPtr := b.toNat.testBit 2,
    bitPad := b.toNat.testBit 3, type := highNibble b, size := m (a + 1), regnum := u16At m (a + 2),
    offsetOrConstant := Int32.ofInt (readLe 4 m (a + 4)), allocaSize := u32At m (a + 8) }

def readLiveOut (m : Mem) (a : Nat) : LiveOutRecord := ⟨u16At m a, m (a + 2), m (a + 3)⟩

def readArchLiveValue (m : Mem) (a : Nat) : ArchLiveValue :=
  let b := m a
  let o := m (a + 8)
  { isPtr := b.toNat.testBit 0, bitPad := ⟨b.toNat / 2 % 8, by omega⟩, type := highNibble b, size := m (a + 1),
    regnum := u16At m (a + 2), offset := u32At m (a + 4), operandType := lowNibble o, instType := highNibble o,
    operandSize := m (a + 9), operandRegnum := u16At m (a + 10),
    operandOffsetOrConstant := Int64.ofInt (readLe 8 m (a + 12)) }

def readFunctionRecord (m : Mem) (a : Nat) : FunctionRecord := ⟨u64At m a, u64At m (a + 8), u32At m (a + 16), u32At m (a + 20)⟩

/-- `if(raw_sm % 8) raw_sm += 8 - (raw_sm % 8)`. -/
def alignRaw (raw : Nat) : Nat := if raw % 8 ≠ 0 then raw + (8 - raw % 8) else raw

/-- One round of the sizing loop: the pointer after a call-site record. -/
def skipRecord (m : Mem) (raw : Nat) : Nat :=
  let raw := raw + offsetofNumLocations
  let num := u16At m raw
  let raw := raw + (4 + sizeofLiveValue * num.toNat)
  let num := u16At m raw
  let raw := raw + (4 + sizeofLiveOutRecord * num.toNat)
  let num := u16At m raw
  let raw := raw + (2 + sizeofArchLiveValue * num.toNat)
  alignRaw raw

def skipRecords (m : Mem) : Nat → Nat → Nat
  | 0, raw => raw
  | n + 1, raw => skipRecords m n (skipRecord m raw)

def stackmapRecordsSize (m : Mem) (raw numRecords : Nat) : Nat := skipRecords m numRecords raw - raw

theorem readArray_lt {α : Type} (sz : Nat) (rd : Mem → Nat → α) (m : Mem) (a : Nat) (n : UInt16) :
    (readArray sz rd m a n.toNat).length < 65536 := by
  simpa [readArray] using n.toNat_lt

/-- One round of the reading loop: a call-site record and the pointer after it. -/
def readRecord (m : Mem) (raw : Nat) : CallSiteRecord × Nat :=
  let off := raw + offsetofNumLocations
  let numLocations := u16At m off
  let locations := off + 2
  let off := locations + sizeofLiveValue * numLocations.toNat + 2
  let numLiveOuts := u16At m off
  let liveOuts := off + 2
  let off := liveOuts + sizeofLiveOutRecord * numLiveOuts.toNat + 2
  let numArchLive := u16At m off
  let archLive := off + 2
  let off := archLive + sizeofArchLiveValue * numArchLive.toNat
  ({ id := u64At m raw, funcIdx := u32At m (raw + 8), offset := u32At m (raw + 12), reserved := u16At m (raw + 16),
     locations := readArray sizeofLiveValue readLiveValue m locations numLocations.toNat,
     liveOuts := readArray sizeofLiveOutRecord readLiveOut m liveOuts numLiveOuts.toNat,
     archLive := readArray sizeofArchLiveValue readArchLiveValue m archLive numArchLive.toNat,
     locations_lt := readArray_lt _ _ _ _ _, liveOuts_lt := readArray_lt _ _ _ _ _, archLive_lt := readArray_lt _ _ _ _ _ },
   alignRaw off)

def readRecords (m : Mem) : Nat → Nat → List CallSiteRecord × Nat
  | 0, raw => ([], raw)
  | n + 1, raw =>
    let r := readRecord m raw
    let rest := readRecords m n r.2
    (r.1 :: rest.1, rest.2)

/-- The records and the number of bytes they take. -/
def readStackmapRecords (m : Mem) (raw numRecords : Nat) : List CallSiteRecord × Nat :=
  let r := readRecords m numRecords raw
  (r.1, r.2 - raw)

/-- `while(offset < shdr.sh_size)`: the number of modules and the offset it stops at.
    Each round adds at least the header, so `sh_size` rounds are enough. -/
def sizingPass (m : Mem) (buf shSize : Nat) : Nat → Nat → Nat → Nat × Nat
  | 0, num, offset => (num, offset)
  | fuel + 1, num, offset =>
    if offset < shSize then
      let numFunctions := u32At m (buf + offset + 4)
      let numConstants := u32At m (buf + offset + 8)
      let numRecords := u32At m (buf + offset + 12)
      let offset := offset + offsetofFunctionRecords
      let offset := offset + sizeofFunctionRecord * numFunctions.toNat
      let offset := offset + 8 * numConstants.toNat
      let offset := offset + stackmapRecordsSize m (buf + offset) numRecords.toNat
      sizingPass m buf shSize fuel (num + 1) offset
    else (num, offset)

def readSection (m : Mem) (buf offset : Nat) : StackMapSection × Nat :=
  let numFunctions := u32At m (buf + offset + 4)
  let numConstants := u32At m (buf + offset + 8)
  let numRecords := u32At m (buf + offset + 12)
  let functions := offset + offsetofFunctionRecords
  let constants := functions + sizeofFunctionRecord * numFunctions.toNat
  let records := constants + 8 * numConstants.toNat
  let cs := readStackmapRecords m (buf + records) numRecords.toNat
  ({ version := m (buf + offset), reserved := m (buf + offset + 1), reserved2 := u16At m (buf + offset + 2),
     functionRecords := readArray sizeofFunctionRecord readFunctionRecord m (buf + functions) numFunctions.toNat,
     constants := readArray 8 u64At m (buf + constants) numConstants.toNat,
     callSites := cs.1 },
   records + cs.2)

def readingPass (m : Mem) (buf : Nat) : Nat → Nat → List StackMapSection × Nat
  | 0, offset => ([], offset)
  | n + 1, offset =>
    let s := readSection m buf offset
    let rest := readingPass m buf n s.2
    (s.1 :: rest.1, rest.2)

/-- The errors of the tool that the modelled functions return (retval.h). -/
inductive Ret where
  | readElfFailed
  | findSectionFailed
  | createMetadataFailed
  deriving DecidableEq, Repr

/-- The `.llvm_stackmaps` section as libelf hands it out. -/
structure ElfScn where
  shSize : Nat
  numDataBlocks : Nat
  dBuf : Nat

def initStackmap (m : Mem) (scn : Option ElfScn) : Except Ret (List StackMapSection) :=
  match scn with
  | none => .error .findSectionFailed
  | some s =>
    if s.numDataBlocks ≠ 1 then .error .readElfFailed
    else
      let numSm := (sizingPass m s.dBuf s.shSize s.shSize 0 0).1
      .ok (readingPass m s.dBuf numSm 0).1

end Popcorn.Metadata
