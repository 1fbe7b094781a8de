/-
  Popcorn.Runtime.X86Values — x86-64 LEA as a generated value
  (patches/llvm/src/lib/Target/X86/X86Values.cpp, `genLEAInstructions`).

  The address an LEA computes becomes a list of instructions, the list one record each, and
  the runtime runs the records over the location the address belongs in. The first
  instruction of an indexed address sets that location. An address without an index is added
  to what the location happened to hold, one of a frame object loses its displacement, and
  an absent base register is added as a register all the same.

  Proved: `lea_preserved_iff`: the records leave base + index * scale + displacement, for
  every register file and every content of the location, exactly for the operands that avoid
  these and whose base the location does not overwrite.
-/

import Popcorn.Metadata.Lowering
import Popcorn.Runtime.ArchValues

namespace Popcorn.Runtime

open Popcorn.Lib Popcorn.Metadata

/-! ## Model -/

/-- A register of an address: a general register or `%rip`, by its DWARF number. -/
abbrev LeaReg := Fin 17

/-- `getDwarfRegNum`. The absent register has no DWARF number. -/
def getDwarfRegNum : Option LeaReg → UInt32
  | some r => UInt32.ofNat r
  | none => 0xFFFFFFFF

/-- `AddrBaseReg`: a register, if any, or a frame object, with its offset from the frame register. -/
inductive LeaBase where
  | reg (r : Option LeaReg)
  | frameIndex (offset : Int64)

/-- The address operands of an LEA64r. -/
structure LeaOperands where
  base : LeaBase
  scale : Int64
  index : Option LeaReg
  disp : Int64

def genLEAInstructions (mi : LeaOperands) : List ValueGenInst :=
  let scaled := match mi.index with
    | some r => [.reg .set (getDwarfRegNum (some r)) 0 (by decide), .imm .multiply 8 mi.scale (by decide)]
    | none => []
  match mi.base with
  | .frameIndex offset => scaled ++ [.stackSlot .add offset (by decide)]
  | .reg r => scaled ++ [.reg .add (getDwarfRegNum r) 0 (by decide), .imm .add 8 mi.disp (by decide)]

def leaRecords (t : Metadata.Target) (loc : MachineLiveLoc) (mi : LeaOperands) : List ArchLiveValue :=
  (genArchValsFromInsts t (archLocation t loc) (genLEAInstructions mi)).map decodeArchValue

/-- Where the runtime puts the address. -/
def leaDest (t : Metadata.Target) (loc : MachineLiveLoc) : GenDest where
  type := (archLocation t loc).type.code
  regnum := UInt16.ofNat (archLocation t loc).reg.toNat
  offset := UInt32.ofNat ((archLocation t loc).offset.toInt % 4294967296).toNat

/-! ## The address -/

def LeaReg.number (r : LeaReg) : UInt16 := UInt16.ofNat r

def frameNumber (t : Metadata.Target) : UInt16 := UInt16.ofNat t.frameReg.toNat

def leaIndex (ρ : UInt16 → UInt64) (mi : LeaOperands) : UInt64 :=
  match mi.index with
  | some r => ρ r.number * mi.scale.toUInt64
  | none => 0

def leaBase (t : Metadata.Target) (ρ : UInt16 → UInt64) : LeaBase → UInt64
  | .reg (some r) => ρ r.number
  | .reg none => 0
  | .frameIndex offset => ρ (frameNumber t) + offset.toUInt64

def leaValue (t : Metadata.Target) (ρ : UInt16 → UInt64) (mi : LeaOperands) : UInt64 :=
  leaBase t ρ mi.base + leaIndex ρ mi + mi.disp.toUInt64

/-- Whatever the registers and the location hold, the records leave the address there. -/
def LeaPreserved (t : Metadata.Target) (loc : MachineLiveLoc) (mi : LeaOperands) : Prop :=
  ∀ (st : Dst) (l : Loc) (s : Option Loc), st.ctx.handle.arch = .x86_64 → (leaDest t loc).loc st.ctx = .ok l →
    (leaDest t loc).saved st.ctx = .ok s → ∃ st', (leaRecords t loc mi).foldlM putValArch st = .ok st' ∧
      st'.read l 8 = leBytes 8 (leaValue t (regValue st.ctx) mi).toNat

/-- The register the base is read from. -/
def LeaBase.number (t : Metadata.Target) : LeaBase → UInt16
  | .reg (some r) => r.number
  | .reg none => 0xFFFF
  | .frameIndex _ => frameNumber t

/-- The operands whose address the records compute. -/
structure LeaExact (t : Metadata.Target) (loc : MachineLiveLoc) (mi : LeaOperands) : Prop where
  indexed : mi.index ≠ none
  based : mi.base ≠ .reg none
  /-- The offset, as the runtime adds it, is already that of the displaced object. -/
  displaced : ∀ offset, mi.base = .frameIndex offset → (Int32.ofInt offset.toInt).toInt64 = offset + mi.disp
  /-- The location is not the base's register, or it is all three and the scale is 1. -/
  separate : LocationType.ofCode (leaDest t loc).type = some .register → (leaDest t loc).regnum = mi.base.number t →
    mi.scale = 1 ∧ ∀ i, mi.index = some i → i.number = mi.base.number t

/-! ## The records on words -/

/-- The value the base is added to: the scaled index, or what the location holds. -/
def leaStart (ρ : UInt16 → UInt64) (v : UInt64) (mi : LeaOperands) : UInt64 :=
  match mi.index with
  | some r => ρ r.number * mi.scale.toUInt64
  | none => v

/-- The constant added last. -/
def leaConst (mi : LeaOperands) : UInt64 :=
  match mi.base with
  | .reg _ => mi.disp.toUInt64
  | .frameIndex offset => (Int32.ofInt offset.toInt).toInt64.toUInt64

theorem regnum_number (r : LeaReg) : UInt16.ofNat (getDwarfRegNum (some r)).toNat = r.number := by
  revert r
  decide

theorem regnum_absent : UInt16.ofNat (getDwarfRegNum none).toNat = 0xFFFF := by decide

theorem padd_word (v : UInt64) (c : Int32) : UInt64.ofNat (padd v.toNat c.toInt) = v + c.toInt64.toUInt64 := by
  apply UInt64.toNat_inj.mp
  rw [UInt64.toNat_ofNat', Nat.mod_eq_of_lt (padd_lt _ _), UInt64.toNat_add, ← toInt_mod c.toInt64, Int32.toInt_toInt64]
  unfold padd
  omega

section
variable {t : Metadata.Target} {loc : MachineLiveLoc} {mi : LeaOperands}

theorem lea_run (hb : mi.base ≠ .reg none) (ρ : UInt16 → UInt64) (v : UInt64) :
    runRecords (leaDest t loc) ρ v (leaRecords t loc mi) =
      some (leaStart ((leaDest t loc).regs ρ v) v mi +
        (leaDest t loc).regs ρ (leaStart ((leaDest t loc).regs ρ v) v mi) (mi.base.number t) + leaConst mi) := by
  unfold leaRecords genLEAInstructions leaStart leaConst LeaBase.number
  cases hi : mi.index with
  | none =>
    cases hbase : mi.base with
    | reg r =>
      cases r with
      | none => exact absurd hbase hb
      | some r =>
        dsimp only
        rw [← regnum_number]
        rfl
    | frameIndex offset =>
      dsimp only
      rw [UInt64.add_assoc, ← padd_word]
      rfl
  | some i =>
    cases hbase : mi.base with
    | reg r =>
      cases r with
      | none => exact absurd hbase hb
      | some r =>
        dsimp only
        rw [← regnum_number i, ← regnum_number r]
        rfl
    | frameIndex offset =>
      dsimp only
      rw [UInt64.add_assoc, ← padd_word, ← regnum_number]
      rfl

/-! ## The records on a state -/

theorem genArchValsFromInsts_mem {t : Metadata.Target} {x : Location × Operation} {insts : List ValueGenInst} :
    ∀ {loc : Location}, x ∈ genArchValsFromInsts t loc insts → (x.1.type = loc.type ∧ x.1.reg = loc.reg ∧ x.1.offset = loc.offset) ∧
      ∃ inst ∈ insts, x.2 = inst.operation t := by
  induction insts with
  | nil => intro loc h; cases h
  | cons inst insts ih =>
    intro loc h
    rcases List.mem_cons.mp h with rfl | h
    · exact ⟨by cases inst <;> exact ⟨rfl, rfl, rfl⟩, inst, List.mem_cons_self .., rfl⟩
    · obtain ⟨hloc, inst', hmem, hop⟩ := ih h
      exact ⟨by cases inst <;> exact hloc, inst', List.mem_cons_of_mem _ hmem, hop⟩

theorem leaRecords_dest {r : ArchLiveValue} (h : r ∈ leaRecords t loc mi) :
    r.type = (leaDest t loc).type ∧ r.regnum = (leaDest t loc).regnum ∧ r.offset = (leaDest t loc).offset := by
  obtain ⟨x, hx, rfl⟩ := List.mem_map.mp h
  obtain ⟨⟨htype, hreg, hoff⟩, -⟩ := genArchValsFromInsts_mem hx
  unfold decodeArchValue leaDest
  rw [htype, hreg, hoff]
  exact ⟨rfl, rfl, rfl⟩

/-- The record has an operation and an operand; its register is one of an address or the frame register. -/
def KnownOperand (t : Metadata.Target) (r : ArchLiveValue) : Prop :=
  ∃ inst o, instOfCode r.instType = some inst ∧ recordOperand r = some o ∧ ∀ q ∈ o.reg?, q = frameNumber t ∨ ∃ i : LeaReg, q = i.number

theorem knownOperand_reg (L : Location) (type : InstType) (i : LeaReg) (h : instOfCode type.code = some type) :
    KnownOperand t (decodeArchValue (L, ⟨type, .register, 8, getDwarfRegNum (some i), 0, false, 0⟩)) := by
  refine ⟨type, .register _, h, rfl, ?_⟩
  intro q hq
  cases hq
  exact .inr ⟨i, regnum_number i⟩

theorem knownOperand_imm (L : Location) (type : InstType) (value : Int64) (h : instOfCode type.code = some type) :
    KnownOperand t (decodeArchValue (L, ⟨type, .constant, 8, 0, value, false, 0⟩)) :=
  ⟨type, .immediate _, h, rfl, fun _ hq => nomatch hq⟩

theorem knownOperand_slot (L : Location) (offset : Int64) :
    KnownOperand t (decodeArchValue (L, ⟨.add, .direct, 8, t.frameReg, offset, false, 0⟩)) := by
  refine ⟨.add, .direct _ _, rfl, rfl, ?_⟩
  intro q hq
  cases hq
  exact .inl rfl

theorem leaRecords_known (hb : mi.base ≠ .reg none) : ∀ r ∈ leaRecords t loc mi, KnownOperand t r := by
  unfold leaRecords genLEAInstructions
  cases hbase : mi.base with
  | reg r =>
    cases r with
    | none => exact absurd hbase hb
    | some r =>
      have hlast : ∀ rec ∈ [decodeArchValue (archLocation t loc, ⟨.add, .register, 8, getDwarfRegNum (some r), 0, false, 0⟩),
          decodeArchValue (archLocation t loc, ⟨.add, .constant, 8, 0, mi.disp, false, 0⟩)], KnownOperand t rec := by
        refine List.forall_mem_cons.mpr ⟨knownOperand_reg _ .add r rfl, ?_⟩
        exact List.forall_mem_cons.mpr ⟨knownOperand_imm _ .add mi.disp rfl, List.forall_mem_nil _⟩
      cases hi : mi.index with
      | none => exact hlast
      | some i =>
        refine List.forall_mem_cons.mpr ⟨knownOperand_reg _ .set i rfl, ?_⟩
        exact List.forall_mem_cons.mpr ⟨knownOperand_imm _ .multiply mi.scale rfl, hlast⟩
  | frameIndex offset =>
    cases hi : mi.index with
    | none => exact List.forall_mem_cons.mpr ⟨knownOperand_slot _ offset, List.forall_mem_nil _⟩
    | some i =>
      refine List.forall_mem_cons.mpr ⟨knownOperand_reg _ .set i rfl, ?_⟩
      refine List.forall_mem_cons.mpr ⟨knownOperand_imm _ .multiply mi.scale rfl, ?_⟩
      exact List.forall_mem_cons.mpr ⟨knownOperand_slot _ offset, List.forall_mem_nil _⟩

theorem reg_number (i : LeaReg) : (getRegops .x86_64).reg i.number = .ok (if i.val < 16 then 8 + 8 * i.val else 0) := by
  revert i
  decide

/-- The registers as the records see them before the first one. -/
theorem regs_self {d : GenDest} {st : Dst} {l : Loc}
    (ht : LocationType.ofCode d.type = some .register ∨ LocationType.ofCode d.type = some .indirect) (hl : d.loc st.ctx = .ok l) :
    d.regs (regValue st.ctx) (UInt64.ofNat (leVal (st.read l 8))) = regValue st.ctx := by
  funext q
  unfold GenDest.regs
  split
  · rename_i h
    obtain ⟨-, off, hoff, rfl⟩ | ⟨hind, -⟩ := loc_cases ht hl
    · rw [h.2]
      unfold regValue
      rw [regOff_eq hoff]
      rfl
    · rw [hind] at h
      cases h.1
  · rfl

theorem leaDest_type (t : Metadata.Target) (loc : MachineLiveLoc) : LocationType.ofCode (leaDest t loc).type = some .register ∨
    LocationType.ofCode (leaDest t loc).type = some .indirect := by
  cases loc with
  | reg dwarf offset size => exact .inl rfl
  | stackSlot offset size => exact .inr rfl

/-- The address the records leave: the base's register is read after the index is in place. -/
def leaRun (t : Metadata.Target) (loc : MachineLiveLoc) (ρ : UInt16 → UInt64) (v : UInt64) (mi : LeaOperands) : UInt64 :=
  leaStart ρ v mi + (leaDest t loc).regs ρ (leaStart ρ v mi) (mi.base.number t) + leaConst mi

theorem leaRecords_iff (hf : ∃ off, (getRegops .x86_64).reg (frameNumber t) = .ok off) (hb : mi.base ≠ .reg none) {st : Dst} {l : Loc}
    {s : Option Loc} (ha : st.ctx.handle.arch = .x86_64) (hl : (leaDest t loc).loc st.ctx = .ok l)
    (hs : (leaDest t loc).saved st.ctx = .ok s) {w : UInt64} :
    (∃ st', (leaRecords t loc mi).foldlM putValArch st = .ok st' ∧ st'.read l 8 = leBytes 8 w.toNat) ↔
      leaRun t loc (regValue st.ctx) (UInt64.ofNat (leVal (st.read l 8))) mi = w := by
  have hg : Generates st.ctx (leaDest t loc) l s (leaRecords t loc mi) := by
    refine ⟨leaDest_type t loc, hl, hs, fun r => leaRecords_dest, ?_⟩
    intro r hr o ho q hq
    obtain ⟨inst, o', -, ho', hknown⟩ := leaRecords_known hb r hr
    cases ho.symm.trans ho'
    unfold Ctx.regops
    rw [ha]
    obtain rfl | ⟨i, rfl⟩ := hknown q hq
    · exact hf
    · exact ⟨_, reg_number i⟩
  have hops : ∀ r ∈ leaRecords t loc mi, ∃ inst o, instOfCode r.instType = some inst ∧ recordOperand r = some o := by
    intro r hr
    obtain ⟨inst, o, hi, ho, -⟩ := leaRecords_known hb r hr
    exact ⟨inst, o, hi, ho⟩
  rw [records_run_iff hg hops, lea_run hb, regs_self (leaDest_type t loc) hl]
  rw [Option.some.injEq]
  exact Iff.rfl

/-! ## An absent base -/

theorem records_handle {rs : List ArchLiveValue} {st st' : Dst} (h : rs.foldlM putValArch st = .ok st') :
    st'.ctx.handle = st.ctx.handle := by
  refine foldlM_index (P := fun _ st' => st'.ctx.handle = st.ctx.handle) ?_ rfl h
  intro _ r st1 st2 _ h1 hput
  obtain ⟨l, c, bs, rfl⟩ := putValArch_cases hput
  exact (writeBoth_same st1 l c bs).handle.trans h1

/-- The absent register is looked up like any other. -/
theorem putValArch_absent {r : ArchLiveValue} (ht : LocationType.ofCode r.operandType = some .register)
    (hr : r.operandRegnum = 0xFFFF) {st : Dst} (ha : st.ctx.handle.arch = .x86_64) (st' : Dst) : putValArch st r ≠ .ok st' := by
  intro h
  unfold putValArch at h
  obtain ⟨_, -, h⟩ := bind_ok.mp h
  obtain ⟨_, -, h⟩ := bind_ok.mp h
  obtain ⟨operand, hop, -⟩ := bind_ok.mp h
  unfold getArchOperandLoc at hop
  rw [ht, if_neg (by decide)] at hop
  obtain ⟨_, hloc, -⟩ := bind_ok.mp hop
  unfold getValLoc at hloc
  rw [ht] at hloc
  obtain ⟨off, hoff, -⟩ := bind_ok.mp hloc
  have hnone : (getRegops .x86_64).reg 0xFFFF = .error (.stErr 1 "unknown/invalid register %u (x86-64)\n" [65535]) := by decide
  unfold Ctx.regops at hoff
  rw [ha, hr, hnone] at hoff
  cases hoff

theorem lea_unbased (hb : mi.base = .reg none) {st st' : Dst} (ha : st.ctx.handle.arch = .x86_64) :
    (leaRecords t loc mi).foldlM putValArch st ≠ .ok st' := by
  have hsplit : ∃ pre post, leaRecords t loc mi =
      pre ++ decodeArchValue (archLocation t loc, ⟨.add, .register, 8, getDwarfRegNum none, 0, false, 0⟩) :: post := by
    unfold leaRecords genLEAInstructions
    rw [hb]
    cases mi.index with
    | none => exact ⟨[], _, rfl⟩
    | some i => exact ⟨[_, _], _, rfl⟩
  obtain ⟨pre, post, heq⟩ := hsplit
  rw [heq, List.foldlM_append]
  intro h
  obtain ⟨st1, hpre, h⟩ := bind_ok.mp h
  obtain ⟨st2, hput, -⟩ := bind_ok.mp h
  exact putValArch_absent rfl regnum_absent ((congrArg Handle.arch (records_handle hpre)).trans ha) st2 hput

/-! ## The operands whose address is kept -/

theorem leaBase_eq (hb : mi.base ≠ .reg none) (hd : ∀ offset, mi.base = .frameIndex offset → (Int32.ofInt offset.toInt).toInt64 = offset + mi.disp)
    (ρ : UInt16 → UInt64) : leaBase t ρ mi.base + mi.disp.toUInt64 = ρ (mi.base.number t) + leaConst mi := by
  unfold leaBase LeaBase.number leaConst
  cases hbase : mi.base with
  | reg r =>
    cases r with
    | none => exact absurd hbase hb
    | some r => rfl
  | frameIndex offset =>
    dsimp only
    rw [hd offset hbase, UInt64.add_assoc]
    rfl

theorem lea_exact (h : LeaExact t loc mi) (ρ : UInt16 → UInt64) (v : UInt64) : leaRun t loc ρ v mi = leaValue t ρ mi := by
  obtain ⟨i, hi⟩ := Option.ne_none_iff_exists'.mp h.indexed
  have hbase := leaBase_eq h.based h.displaced (t := t) ρ
  have hstart : leaStart ρ v mi = leaIndex ρ mi := by
    unfold leaStart leaIndex
    rw [hi]
  -- a location that is the base's register holds the same after the index is in place
  have hkept : (leaDest t loc).regs ρ (leaIndex ρ mi) (mi.base.number t) = ρ (mi.base.number t) := by
    unfold GenDest.regs
    split
    · rename_i hsame
      obtain ⟨hscale, hall⟩ := h.separate hsame.1 hsame.2.symm
      unfold leaIndex
      rw [hi]
      dsimp only
      rw [hall i hi, hscale]
      exact UInt64.mul_one _
    · rfl
  unfold leaRun leaValue
  rw [hstart, hkept]
  grind

/-- The outermost frame, with nothing in its registers and in memory. -/
def emptyFrame : Dst where
  mem := fun _ => 0
  ctx :=
    { handle := bareHandle
      stackBase := 0x40000
      stack := 0x20000
      numActs := 1
      act := 0
      acts := fun _ => ⟨emptyCallSite, 0x30000, fun _ => 0, ⟨67, 0⟩⟩
      stackPointers := []
      pool := fun _ => 0 }

theorem emptyFrame_saved (d : GenDest) : d.saved emptyFrame.ctx = .ok none := by
  unfold GenDest.saved calleeAddr calleeSavedLoc
  rw [if_pos (show emptyFrame.ctx.act = 0 from rfl)]
  split <;> rfl

theorem emptyFrame_loc (hd : ∃ off, (getRegops .x86_64).reg (leaDest t loc).regnum = .ok off) :
    ∃ l, (leaDest t loc).loc emptyFrame.ctx = .ok l := by
  obtain ⟨off, hoff⟩ := hd
  unfold GenDest.loc getValLoc
  have hreg : emptyFrame.ctx.regops.reg (leaDest t loc).regnum = .ok off := hoff
  obtain h | h := leaDest_type t loc
  · rw [h, hreg]
    exact ⟨_, rfl⟩
  · rw [h, hreg]
    exact ⟨_, rfl⟩

theorem readLe_empty (n a : Nat) : readLe n (fun _ => 0) a = 0 := by
  have hzero : ∀ n, leVal (List.replicate n 0) = 0 := by
    intro n
    induction n with
    | zero => rfl
    | succ n ih => rw [List.replicate_succ, leVal, ih]; rfl
  unfold readLe load
  rw [List.map_const', List.length_range]
  exact hzero n

theorem emptyFrame_regValue : regValue emptyFrame.ctx = fun _ => 0 := by
  funext q
  exact congrArg UInt64.ofNat (readLe_empty 8 _)

theorem emptyFrame_read (l : Loc) : leVal (emptyFrame.read l 8) = 0 := by
  cases l with
  | reg k off => exact readLe_empty 8 off
  | mem a => exact readLe_empty 8 a

/-- The location set to 1. -/
def oneFrame (l : Loc) : Dst := writeLoc emptyFrame l (leBytes 8 1)

theorem oneFrame_read (l : Loc) : leVal ((oneFrame l).read l 8) = 1 := by
  unfold oneFrame
  rw [read_writeLoc_same emptyFrame l (Nat.le_of_eq (leBytes_length 8 1).symm), List.take_of_length_le (Nat.le_of_eq (leBytes_length 8 1)),
    leVal_leBytes]
  exact Nat.mod_eq_of_lt (by decide)

section
variable {l : Loc} (hl : (leaDest t loc).loc emptyFrame.ctx = .ok l)

include hl in
theorem oneFrame_sameGen : SameGen (leaDest t loc) emptyFrame.ctx (oneFrame l).ctx :=
  writeLoc_sameGen (leaDest_type t loc) hl (leBytes_length 8 1)

include hl in
/-- Only the location is 1. -/
theorem oneFrame_regValue {q : UInt16} (hq : ∃ off, (getRegops .x86_64).reg q = .ok off) :
    regValue (oneFrame l).ctx q =
      if LocationType.ofCode (leaDest t loc).type = some .register ∧ q = (leaDest t loc).regnum then 1 else 0 := by
  have hsame := oneFrame_sameGen hl
  split
  · rename_i h
    have hself := congrFun (regs_self (leaDest_type t loc) (hsame.loc.trans hl)) q
    unfold GenDest.regs at hself
    rw [if_pos h, oneFrame_read] at hself
    exact hself.symm
  · rename_i h
    obtain ⟨off, hoff⟩ := hq
    have hzero := hsame.regs q off hoff fun e => h e
    unfold regValue
    rw [hsame.handle, regOff_eq (show (getRegops emptyFrame.ctx.handle.arch).reg q = .ok off from hoff), hzero]
    exact congrArg UInt64.ofNat (readLe_empty 8 off)

end

/-- With nothing in the registers and the location the constant is left. -/
theorem lea_zero {offset : Int64} (hbase : mi.base = .frameIndex offset)
    (h : leaRun t loc (fun _ => 0) (UInt64.ofNat 0) mi = leaValue t (fun _ => 0) mi) :
    (Int32.ofInt offset.toInt).toInt64 = offset + mi.disp := by
  have hstart : leaStart (fun _ => 0) (UInt64.ofNat 0) mi = 0 := by
    unfold leaStart
    cases mi.index with
    | none => rfl
    | some i => exact UInt64.zero_mul
  have hindex : leaIndex (fun _ => 0) mi = 0 := by
    unfold leaIndex
    cases mi.index with
    | none => rfl
    | some i => exact UInt64.zero_mul
  have hregs : (leaDest t loc).regs (fun _ => 0) 0 (mi.base.number t) = 0 := by
    unfold GenDest.regs
    split <;> rfl
  unfold leaRun leaValue at h
  rw [hstart, hindex, hregs, hbase] at h
  unfold leaConst leaBase at h
  rw [hbase] at h
  dsimp only at h
  rw [UInt64.add_zero, UInt64.zero_add, UInt64.zero_add, UInt64.add_zero] at h
  exact congrArg Int64.ofUInt64 h

/-- The registers and the location, all 0 and with the location 1, tell the operands whose
    address is kept from the others. -/
theorem lea_preserved_iff (t : Metadata.Target) (loc : MachineLiveLoc) (mi : LeaOperands)
    (hf : ∃ off, (getRegops .x86_64).reg (frameNumber t) = .ok off)
    (hd : ∃ off, (getRegops .x86_64).reg (leaDest t loc).regnum = .ok off) : LeaPreserved t loc mi ↔ LeaExact t loc mi := by
  constructor
  · intro h
    obtain ⟨l, hl⟩ := emptyFrame_loc hd
    have hsame := oneFrame_sameGen hl
    have hzero := h emptyFrame l none rfl hl (emptyFrame_saved _)
    have hone := h (oneFrame l) l none (congrArg Handle.arch hsame.handle) (hsame.loc.trans hl) (hsame.saved.trans (emptyFrame_saved _))
    have hb : mi.base ≠ .reg none := by
      intro hb
      obtain ⟨st', hrun, -⟩ := hzero
      exact lea_unbased hb rfl hrun
    rw [leaRecords_iff hf hb rfl hl (emptyFrame_saved _), emptyFrame_regValue, emptyFrame_read] at hzero
    rw [leaRecords_iff hf hb (congrArg Handle.arch hsame.handle) (hsame.loc.trans hl) (hsame.saved.trans (emptyFrame_saved _)), oneFrame_read] at hone
    have hdisp : ∀ offset, mi.base = .frameIndex offset → (Int32.ofInt offset.toInt).toInt64 = offset + mi.disp :=
      fun offset hbase => lea_zero hbase hzero
    have hself : (leaDest t loc).regs (regValue (oneFrame l).ctx) 1 = regValue (oneFrame l).ctx := by
      have := regs_self (leaDest_type t loc) (hsame.loc.trans hl)
      rw [oneFrame_read] at this
      exact this
    have hbase := leaBase_eq (t := t) hb hdisp (regValue (oneFrame l).ctx)
    have hindexed : mi.index ≠ none := by
      intro hi
      unfold leaRun leaValue leaStart leaIndex at hone
      rw [hi] at hone
      change 1 + (leaDest t loc).regs (regValue (oneFrame l).ctx) 1 (mi.base.number t) + leaConst mi = _ at hone
      rw [hself] at hone
      grind
    obtain ⟨i, hi⟩ := Option.ne_none_iff_exists'.mp hindexed
    refine ⟨hindexed, hb, hdisp, ?_⟩
    intro htype hreg
    have hstart : leaStart (regValue (oneFrame l).ctx) (UInt64.ofNat 1) mi = leaIndex (regValue (oneFrame l).ctx) mi := by
      unfold leaStart leaIndex
      rw [hi]
    have hread : (leaDest t loc).regs (regValue (oneFrame l).ctx) (leaIndex (regValue (oneFrame l).ctx) mi) (mi.base.number t) =
        leaIndex (regValue (oneFrame l).ctx) mi := if_pos ⟨htype, hreg.symm⟩
    have hbaseOne : regValue (oneFrame l).ctx (mi.base.number t) = 1 := by
      rw [← hreg, oneFrame_regValue hl hd, if_pos ⟨htype, rfl⟩]
    -- the base is read as the scaled index, which must then be 1 too
    have hindex : leaIndex (regValue (oneFrame l).ctx) mi = 1 := by
      unfold leaRun leaValue at hone
      rw [hstart, hread] at hone
      grind
    have hscaled : regValue (oneFrame l).ctx i.number * mi.scale.toUInt64 = 1 := by
      unfold leaIndex at hindex
      rw [hi] at hindex
      exact hindex
    rw [oneFrame_regValue hl ⟨_, reg_number i⟩] at hscaled
    split at hscaled
    · rename_i hsame
      rw [UInt64.one_mul] at hscaled
      refine ⟨congrArg Int64.ofUInt64 hscaled, ?_⟩
      intro j hj
      cases hi.symm.trans hj
      exact hsame.2.trans hreg
    · rw [UInt64.zero_mul] at hscaled
      exact absurd hscaled (by decide)
  · intro h st l s ha hl hs
    exact (leaRecords_iff hf h.based ha hl hs).mpr (lea_exact h _ _)

end

/-- The frame register of x86-64 is `%rbp`. -/
def rbpTarget : Metadata.Target := ⟨.x86_64, 6⟩

/-- `leaq 8(%rbx,%rcx,4)`, into `%rax`. -/
theorem lea_preserved_iff_scaled : LeaPreserved rbpTarget (.reg 0 0 8) ⟨.reg (some 3), 4, some 2, 8⟩ :=
  (lea_preserved_iff rbpTarget (.reg 0 0 8) ⟨.reg (some 3), 4, some 2, 8⟩ ⟨56, rfl⟩ ⟨8, rfl⟩).mpr
    ⟨nofun, nofun, nofun, fun _ h => absurd h (by decide)⟩

/-- `leaq 8(%rbp)`, into `%rax`: where that holds 3, the records leave three more. -/
theorem unindexed_not_preserved : ¬ LeaPreserved rbpTarget (.reg 0 0 8) ⟨.reg (some 6), 1, none, 8⟩ := by
  intro h
  obtain ⟨st', hrun, hread⟩ := h calledFrame (.reg 1 8) none rfl rfl rfl
  have hleft : ((leaRecords rbpTarget (.reg 0 0 8) ⟨.reg (some 6), 1, none, 8⟩).foldlM putValArch calledFrame).map
      (fun st => st.read (.reg 1 8) 8) = .ok (leBytes 8 0x2FFFB) := rfl
  have hvalue : leaValue rbpTarget (regValue calledFrame.ctx) ⟨.reg (some 6), 1, none, 8⟩ = 0x2FFF8 := by decide
  rw [hrun] at hleft
  change Except.ok (st'.read (.reg 1 8) 8) = _ at hleft
  rw [hread, hvalue] at hleft
  exact absurd (Except.ok.inj hleft) (by decide)

end Popcorn.Runtime
