/-
  Popcorn.Runtime.ArchValues — architecture-specific values
  (lib/stack_transformation/src/data.c, `put_val_arch`).

  A value only one architecture has is computed by a list of small instructions, one record
  each, over the location the value belongs in: every record reads the location, applies its
  operand and writes the result back, and to the place a callee-saved register is saved at.
  `genValue` is what StackTransformTypes.def says of the instructions. The runtime shifts
  right without the sign, falls through `Load` into the error case, and cuts the offset of a
  frame address to 32 bits.

  Proved: `arch_values_exact_iff`: after every record of a list the location and the saved
  place hold the generated value, exactly when the list avoids these three.
-/

import Popcorn.Runtime.Writes

namespace Popcorn.Runtime

open Popcorn.Lib Popcorn.Metadata

/-! ## The instructions -/

def instOfCode (c : Fin 16) : Option InstType :=
  match c with
  | 0 => some .set
  | 1 => some .add
  | 2 => some .subtract
  | 3 => some .multiply
  | 4 => some .divide
  | 5 => some .leftShift
  | 6 => some .rightShiftLog
  | 7 => some .rightShiftArith
  | 8 => some .mask
  | 9 => some .load
  | _ => none

/-- The generated value after an instruction, from the one before it and the operand. A division
    by zero and a shift by 64 or more have none. -/
def genValue (mem : Mem) (inst : InstType) (v operand : UInt64) : Option UInt64 :=
  match inst with
  | .set => some operand
  | .add => some (v + operand)
  | .subtract => some (v - operand)
  | .multiply => some (v * operand)
  | .divide => if operand = 0 then none else some (v / operand)
  | .leftShift => if operand.toNat < 64 then some (v <<< operand) else none
  | .rightShiftLog => if operand.toNat < 64 then some (v >>> operand) else none
  | .rightShiftArith => if operand.toNat < 64 then some ⟨v.toBitVec.sshiftRight operand.toNat⟩ else none
  | .mask => some (v &&& operand)
  | .load => some (UInt64.ofNat (readLe 8 mem operand.toNat))
  | .stackSlot | .constantPool => none

/-- An operand: the value of a register, an address in the frame, or a constant. -/
inductive GenOperand where
  | register (r : UInt16)
  | direct (r : UInt16) (offset : Int64)
  | immediate (value : Int64)
  deriving DecidableEq, Repr

def recordOperand (v : ArchLiveValue) : Option GenOperand :=
  match LocationType.ofCode v.operandType with
  | some .register => some (.register v.operandRegnum)
  | some .direct => some (.direct v.operandRegnum v.operandOffsetOrConstant)
  | some .constant => some (.immediate v.operandOffsetOrConstant)
  | _ => none

def GenOperand.value (ρ : UInt16 → UInt64) : GenOperand → UInt64
  | .register r => ρ r
  | .direct r offset => UInt64.ofNat (padd (ρ r).toNat offset.toInt)
  | .immediate value => value.toUInt64

/-- The operand as the runtime reads it: the offset of an address is cut to 32 bits. -/
def GenOperand.cut (ρ : UInt16 → UInt64) : GenOperand → UInt64
  | .direct r offset => UInt64.ofNat (padd (ρ r).toNat (Int32.ofInt offset.toInt).toInt)
  | o => o.value ρ

/-! ## Lists of records -/

/-- Where a generated value belongs: the fields its records have in common. -/
structure GenDest where
  type : Fin 16
  regnum : UInt16
  offset : UInt32
  deriving DecidableEq, Repr

/-- The registers of the frame, with the value generated so far in its own. -/
def GenDest.regs (d : GenDest) (ρ : UInt16 → UInt64) (v : UInt64) (r : UInt16) : UInt64 :=
  if LocationType.ofCode d.type = some .register ∧ r = d.regnum then v else ρ r

/-- The generated value after a record. -/
def genRecord (mem : Mem) (d : GenDest) (ρ : UInt16 → UInt64) (v : UInt64) (r : ArchLiveValue) : Option UInt64 := do
  let inst ← instOfCode r.instType
  let operand ← recordOperand r
  genValue mem inst v (operand.value (d.regs ρ v))

def genRecords (mem : Mem) (d : GenDest) (ρ : UInt16 → UInt64) (v : UInt64) (rs : List ArchLiveValue) : Option UInt64 :=
  rs.foldlM (genRecord mem d ρ) v

/-- The record does none of what the runtime does otherwise: its instruction is not `Load`, a
    shift with the sign is of a value without one or by nothing, and an offset of more than 32
    bits makes no difference to its result. -/
structure PlainRecord (mem : Mem) (d : GenDest) (ρ : UInt16 → UInt64) (v : UInt64) (r : ArchLiveValue) : Prop where
  notLoad : instOfCode r.instType ≠ some .load
  unsigned : instOfCode r.instType = some .rightShiftArith → v.toNat < 9223372036854775808 ∨
    ∀ o, recordOperand r = some o → o.cut (d.regs ρ v) = 0
  offset : ∀ inst o, instOfCode r.instType = some inst → recordOperand r = some o →
    genValue mem inst v (o.cut (d.regs ρ v)) = genValue mem inst v (o.value (d.regs ρ v))

/-! ## Shifts -/

theorem msb_iff {v : UInt64} : v.toBitVec.msb = true ↔ 9223372036854775808 ≤ v.toNat := by
  rw [BitVec.msb_eq_decide, decide_eq_true_eq]
  rfl

theorem shiftRight_toBitVec {v o : UInt64} (ho : o.toNat < 64) : (v >>> o).toBitVec = v.toBitVec >>> o.toNat := by
  apply BitVec.eq_of_toNat_eq
  rw [BitVec.toNat_ushiftRight]
  show (v >>> o).toNat = _
  rw [UInt64.toNat_shiftRight, Nat.mod_eq_of_lt ho]
  rfl

/-- Without a sign, or by nothing, the two right shifts are the same. -/
theorem shiftRight_eq {v o : UInt64} (ho : o.toNat < 64) (h : v.toNat < 9223372036854775808 ∨ o = 0) :
    v >>> o = ⟨v.toBitVec.sshiftRight o.toNat⟩ := by
  apply UInt64.toBitVec_inj.mp
  rw [shiftRight_toBitVec ho]
  obtain h | rfl := h
  · have hmsb : v.toBitVec.msb = false := Bool.eq_false_iff.mpr fun hm => by have := msb_iff.mp hm; omega
    exact (BitVec.sshiftRight_eq_of_msb_false hmsb).symm
  · show v.toBitVec >>> 0 = v.toBitVec.sshiftRight 0
    rw [BitVec.sshiftRight_zero, BitVec.ushiftRight_zero]

/-- The one keeps the sign, the other only by nothing. -/
theorem shiftRight_sign {v o : UInt64} {n : Nat} (ho : o.toNat < 64) (hv : 9223372036854775808 ≤ v.toNat)
    (h : v >>> o = ⟨v.toBitVec.sshiftRight n⟩) : o = 0 := by
  have hmsb : (v >>> o).toBitVec.msb = true := by
    rw [h, BitVec.msb_sshiftRight]
    exact msb_iff.mpr hv
  rw [shiftRight_toBitVec ho, BitVec.msb_ushiftRight, Bool.and_eq_true, Bool.not_eq_true', decide_eq_false_iff_not] at hmsb
  exact UInt64.toNat_inj.mp (Nat.eq_zero_of_not_pos hmsb.1)

/-! ## One operation -/

theorem instOfCode_eq {c : Fin 16} {inst : InstType} (h : instOfCode c = some inst) : c = inst.code := by
  unfold instOfCode at h
  split at h <;> cases h <;> rfl

theorem ok_toNat_iff {x w : UInt64} : (Except.ok x.toNat : Except Fault Nat) = .ok w.toNat ↔ some x = some w := by
  rw [Except.ok.injEq, Option.some.injEq, UInt64.toNat_inj]

/-- The runtime's operation on words. -/
def runtimeValue (inst : InstType) (v operand : UInt64) : Option UInt64 :=
  match inst with
  | .rightShiftArith => if operand.toNat < 64 then some (v >>> operand) else none
  | .load => none
  | inst => genValue (fun _ => 0) inst v operand

theorem ite_ok_iff {p : Prop} [Decidable p] {x w : UInt64} :
    (if p then Except.ok x.toNat else Except.error Fault.undefined) = .ok w.toNat ↔ (if p then some x else none) = some w := by
  split
  · exact ok_toNat_iff
  · exact iff_of_false nofun nofun

theorem archOperation_iff {c : Fin 16} {inst : InstType} (hi : instOfCode c = some inst) {v o w : UInt64} :
    archOperation v.toNat o.toNat c = .ok w.toNat ↔ runtimeValue inst v o = some w := by
  obtain rfl := instOfCode_eq hi
  unfold archOperation
  rw [UInt64.ofNat_toNat, UInt64.ofNat_toNat]
  cases inst with
  | stackSlot => cases hi
  | constantPool => cases hi
  | load => exact iff_of_false nofun nofun
  | divide =>
    show (if o = 0 then _ else _) = _ ↔ (if o = 0 then _ else _) = _
    split
    · exact iff_of_false nofun nofun
    · exact ok_toNat_iff
  | leftShift => exact ite_ok_iff
  | rightShiftLog => exact ite_ok_iff
  | rightShiftArith => exact ite_ok_iff
  | _ => exact ok_toNat_iff

/-- Where the instruction has a value, the runtime computes it from its own operand just when
    `PlainRecord` says so. -/
theorem runtimeValue_exact_iff {mem : Mem} {inst : InstType} {v o o' w : UInt64} (hw : genValue mem inst v o = some w) :
    runtimeValue inst v o' = some w ↔ inst ≠ .load ∧ (inst = .rightShiftArith → v.toNat < 9223372036854775808 ∨ o' = 0) ∧
      genValue mem inst v o' = genValue mem inst v o := by
  rw [hw]
  cases inst with
  | stackSlot => cases hw
  | constantPool => cases hw
  | load => exact iff_of_false nofun fun h => h.1 rfl
  | rightShiftArith =>
    obtain ⟨ho, rfl⟩ : o.toNat < 64 ∧ ⟨v.toBitVec.sshiftRight o.toNat⟩ = w := by
      unfold genValue at hw
      dsimp only at hw
      split at hw
      · rename_i ho
        exact ⟨ho, Option.some.inj hw⟩
      · cases hw
    unfold runtimeValue genValue
    dsimp only
    by_cases ho' : o'.toNat < 64
    · rw [if_pos ho', if_pos ho', Option.some.injEq, Option.some.injEq]
      constructor
      · intro h
        have hv : v.toNat < 9223372036854775808 ∨ o' = 0 := by
          by_cases hv : v.toNat < 9223372036854775808
          · exact .inl hv
          · exact .inr (shiftRight_sign ho' (Nat.le_of_not_lt hv) h)
        exact ⟨nofun, fun _ => hv, (shiftRight_eq ho' hv).symm.trans h⟩
      · intro ⟨_, hv, h⟩
        exact (shiftRight_eq ho' (hv rfl)).trans h
    · rw [if_neg ho', if_neg ho']
      exact iff_of_false nofun fun h => nomatch h.2.2
  | _ =>
    unfold runtimeValue genValue
    simp

theorem leBytes_toNat_inj {x w : UInt64} (h : leBytes 8 x.toNat = leBytes 8 w.toNat) : x = w := by
  have hval := congrArg leVal h
  rw [leVal_leBytes, leVal_leBytes, Nat.mod_eq_of_lt (show x.toNat < 256 ^ 8 from x.toNat_lt),
    Nat.mod_eq_of_lt (show w.toNat < 256 ^ 8 from w.toNat_lt)] at hval
  exact UInt64.toNat_inj.mp hval

theorem archOperation_toNat {v o : UInt64} {c : Fin 16} {n : Nat} (h : archOperation v.toNat o.toNat c = .ok n) :
    ∃ x : UInt64, n = x.toNat := by
  unfold archOperation at h
  rw [UInt64.ofNat_toNat, UInt64.ofNat_toNat] at h
  dsimp only at h
  split at h
  case h_5 =>
    split at h
    · cases h
    · cases h
      exact ⟨_, rfl⟩
  case h_6 | h_7 | h_8 =>
    split at h
    · cases h
      exact ⟨_, rfl⟩
    · cases h
  case h_10 => cases h
  all_goals
    cases h
    exact ⟨_, rfl⟩

/-! ## The state of the frame -/

def GenDest.loc (d : GenDest) (c : Ctx) : Except Fault Loc := getValLoc c d.type d.regnum (Int32.ofInt d.offset.toNat).toInt c.act
def GenDest.saved (d : GenDest) (c : Ctx) : Except Fault (Option Loc) := calleeAddr c d.type d.regnum c.act

/-- The 64-bit value of a register of the current frame. -/
def regValue (c : Ctx) (r : UInt16) : UInt64 := UInt64.ofNat (rget c.cur.regs (regOff c.handle.arch r))

def GenOperand.reg? : GenOperand → Option UInt16
  | .register r | .direct r _ => some r
  | .immediate _ => none

/-- The records `rs` generate one value, for the location `l` of the current frame; `s` is where
    its register is saved, if it is. -/
structure Generates (c : Ctx) (d : GenDest) (l : Loc) (s : Option Loc) (rs : List ArchLiveValue) : Prop where
  type : LocationType.ofCode d.type = some .register ∨ LocationType.ofCode d.type = some .indirect
  loc : d.loc c = .ok l
  saved : d.saved c = .ok s
  dest : ∀ r ∈ rs, r.type = d.type ∧ r.regnum = d.regnum ∧ r.offset = d.offset
  known : ∀ r ∈ rs, ∀ o, recordOperand r = some o → ∀ q ∈ o.reg?, ∃ off, c.regops.reg q = .ok off

/-- What the records leave as it is. -/
structure SameGen (d : GenDest) (c c' : Ctx) : Prop where
  handle : c'.handle = c.handle
  act : c'.act = c.act
  loc : d.loc c' = d.loc c
  saved : d.saved c' = d.saved c
  regs : ∀ q off, c.regops.reg q = .ok off → ¬ (LocationType.ofCode d.type = some .register ∧ q = d.regnum) →
    rget c'.cur.regs off = rget c.cur.regs off

theorem SameGen.refl (d : GenDest) (c : Ctx) : SameGen d c c := ⟨rfl, rfl, rfl, rfl, fun _ _ _ _ => rfl⟩

theorem SameGen.trans {d : GenDest} {c c' c'' : Ctx} (h : SameGen d c c') (h' : SameGen d c' c'') : SameGen d c c'' where
  handle := h'.handle.trans h.handle
  act := h'.act.trans h.act
  loc := h'.loc.trans h.loc
  saved := h'.saved.trans h.saved
  regs q off hq hne := (h'.regs q off (by unfold Ctx.regops; rw [h.handle]; exact hq) hne).trans (h.regs q off hq hne)

/-! ## The saved place -/

/-- The walk over the bitmaps sees the frames below only. -/
theorem savedLocLoop_congr {c c' : Ctx} {r : UInt16} (hh : c'.handle = c.handle) (hp : c'.pool = c.pool) : ∀ n,
    (∀ k < n, (c'.acts k).calleeSaved = (c.acts k).calleeSaved ∧
      (bitmapIsSet (poolWords c.handle.arch) c.pool (c.acts k).calleeSaved r.toNat = .ok true →
        getRegisterSaveLoc c' (c'.acts k) r = getRegisterSaveLoc c (c.acts k) r)) →
    savedLocLoop c' r n = savedLocLoop c r n := by
  intro n
  induction n with
  | zero =>
    intro _
    unfold savedLocLoop Ctx.regops
    rw [hh]
  | succ n ih =>
    intro hk
    obtain ⟨hsaved, hset⟩ := hk n (Nat.lt_succ_self n)
    have hrest := ih fun k hkn => hk k (Nat.lt_succ_of_lt hkn)
    unfold savedLocLoop
    rw [hh, hp, hsaved]
    cases hb : bitmapIsSet (poolWords c.handle.arch) c.pool (c.acts n).calleeSaved r.toNat with
    | error e => rfl
    | ok b =>
      cases b with
      | false => exact hrest
      | true =>
        show (getRegisterSaveLoc c' _ r >>= _) = (getRegisterSaveLoc c _ r >>= _)
        rw [hset hb]

/-- A register still live in the outermost frame has its bit set nowhere. -/
theorem savedLocLoop_live {c : Ctx} {r : UInt16} {k off : Nat} : ∀ n, savedLocLoop c r n = .ok (some (.reg k off)) →
    k = 0 ∧ ∀ j < n, bitmapIsSet (poolWords c.handle.arch) c.pool (c.acts j).calleeSaved r.toNat ≠ .ok true := by
  intro n
  induction n with
  | zero =>
    intro h
    obtain ⟨_, -, h⟩ := bind_ok.mp h
    cases h
    exact ⟨rfl, fun j hj => absurd hj (Nat.not_lt_zero j)⟩
  | succ n ih =>
    intro h
    unfold savedLocLoop at h
    obtain ⟨b, hb, h⟩ := bind_ok.mp h
    cases b with
    | true =>
      obtain ⟨addr, -, h⟩ := bind_ok.mp h
      by_cases h0 : addr = 0
      · rw [if_pos h0] at h
        cases h
      · rw [if_neg h0] at h
        cases h
    | false =>
      obtain ⟨hk, hno⟩ := ih h
      refine ⟨hk, ?_⟩
      intro j hj
      rcases Nat.lt_or_eq_of_le (Nat.le_of_lt_succ hj) with hlt | rfl
      · exact hno j hlt
      · rw [hb]
        exact fun e => nomatch e

/-- The second location of a value is none, an address, or a register of the outermost frame
    that no frame in between saves. -/
theorem saved_cases {c : Ctx} {d : GenDest} {s : Option Loc} (h : d.saved c = .ok s) : s = none ∨
    (LocationType.ofCode d.type = some .register ∧ c.act ≠ 0 ∧ ((∃ a, s = some (.mem a)) ∨ ∃ off, s = some (.reg 0 off) ∧
      ∀ j < c.act, bitmapIsSet (poolWords c.handle.arch) c.pool (c.acts j).calleeSaved d.regnum.toNat ≠ .ok true)) := by
  unfold GenDest.saved calleeAddr at h
  split at h
  · rename_i hreg
    unfold calleeSavedLoc at h
    split at h
    · cases h
      exact .inl rfl
    · rename_i hact
      cases s with
      | none => exact .inl rfl
      | some loc =>
        refine .inr ⟨hreg.1, hact, ?_⟩
        cases loc with
        | mem a => exact .inl ⟨a, rfl⟩
        | reg k off =>
          obtain ⟨rfl, hno⟩ := savedLocLoop_live _ h
          exact .inr ⟨off, rfl, hno⟩
  · cases h
    exact .inl rfl

theorem saved_congr {c c' : Ctx} (d : GenDest) (hh : c'.handle = c.handle) (hp : c'.pool = c.pool) (ha : c'.act = c.act)
    (hk : ∀ k < c.act, (c'.acts k).calleeSaved = (c.acts k).calleeSaved ∧
      (bitmapIsSet (poolWords c.handle.arch) c.pool (c.acts k).calleeSaved d.regnum.toNat = .ok true →
        getRegisterSaveLoc c' (c'.acts k) d.regnum = getRegisterSaveLoc c (c.acts k) d.regnum)) : d.saved c' = d.saved c := by
  unfold GenDest.saved calleeAddr calleeSavedLoc Ctx.props
  rw [hh, ha, savedLocLoop_congr hh hp c.act hk]

/-- The location is a register of the frame, or an address. -/
theorem loc_cases {c : Ctx} {d : GenDest} {l : Loc}
    (ht : LocationType.ofCode d.type = some .register ∨ LocationType.ofCode d.type = some .indirect) (h : d.loc c = .ok l) :
    (LocationType.ofCode d.type = some .register ∧ ∃ off, c.regops.reg d.regnum = .ok off ∧ l = .reg c.act off) ∨
      (LocationType.ofCode d.type = some .indirect ∧ ∃ a, l = .mem a) := by
  unfold GenDest.loc getValLoc at h
  obtain ht | ht := ht
  · rw [ht] at h
    obtain ⟨off, hoff, h⟩ := bind_ok.mp h
    exact .inl ⟨ht, off, hoff, (Except.ok.inj h).symm⟩
  · rw [ht] at h
    obtain ⟨off, -, h⟩ := bind_ok.mp h
    exact .inr ⟨ht, _, (Except.ok.inj h).symm⟩

section
variable {st : Dst} {d : GenDest} {l : Loc} {s : Option Loc} {bs : List UInt8}
  (ht : LocationType.ofCode d.type = some .register ∨ LocationType.ofCode d.type = some .indirect)

theorem writeReg_ne (st : Dst) (bs : List UInt8) (off : Nat) {j k : Nat} (h : k ≠ j) :
    (writeLoc st (.reg j off) bs).ctx.acts k = st.ctx.acts k := by
  unfold writeLoc
  simp only [Ctx.modAct_ne _ _ _ h]

include ht in
theorem writeLoc_sameGen (hl : d.loc st.ctx = .ok l) (hbs : bs.length = 8) : SameGen d st.ctx (writeLoc st l bs).ctx := by
  obtain ⟨hreg, off, hoff, rfl⟩ | ⟨-, a, rfl⟩ := loc_cases ht hl
  · refine ⟨rfl, rfl, ?_, ?_, ?_⟩
    · unfold GenDest.loc getValLoc
      rw [hreg]
      rfl
    · refine saved_congr d (by rfl) (by rfl) (by rfl) ?_
      intro k hk
      rw [writeReg_ne st bs off (Nat.ne_of_lt hk)]
      exact ⟨rfl, fun _ => rfl⟩
    · intro q off' hq hne
      have hcur : (writeLoc st (.reg st.ctx.act off) bs).ctx.cur.regs = store st.ctx.cur.regs off bs := by
        unfold writeLoc Ctx.cur
        simp only [Ctx.modAct_act, Ctx.modAct_same]
      rw [hcur]
      unfold rget
      apply readLe_store_disj
      rw [hbs]
      exact reg_disj hq hoff fun e => hne ⟨hreg, e⟩
  · exact SameGen.refl d st.ctx

theorem writeSaved_sameGen {l' : Loc} (hs : d.saved st.ctx = .ok (some l')) : SameGen d st.ctx (writeLoc st l' bs).ctx := by
  obtain h | ⟨-, hact, ⟨a, h⟩ | ⟨off, h, hno⟩⟩ := saved_cases hs
  · cases h
  · cases h
    exact SameGen.refl d st.ctx
  · cases h
    have hcur := writeReg_ne st bs off hact
    refine ⟨rfl, rfl, ?_, ?_, ?_⟩
    · unfold GenDest.loc getValLoc
      rw [show (writeLoc st (.reg 0 off) bs).ctx.act = st.ctx.act from rfl, hcur]
      rfl
    · refine saved_congr d (by rfl) (by rfl) (by rfl) ?_
      intro k hk
      exact ⟨(writeLoc_same st (.reg 0 off) bs).calleeSaved k, fun hset => absurd hset (hno k hk)⟩
    · intro q off' _ _
      unfold Ctx.cur
      rw [show (writeLoc st (.reg 0 off) bs).ctx.act = st.ctx.act from rfl, hcur]

include ht in
theorem writeBoth_sameGen (hl : d.loc st.ctx = .ok l) (hs : d.saved st.ctx = .ok s) (hbs : bs.length = 8) :
    SameGen d st.ctx (writeBoth st l s bs).ctx := by
  have h1 := writeLoc_sameGen ht hl hbs
  cases s with
  | none => exact h1
  | some l' => exact h1.trans (writeSaved_sameGen (h1.saved.trans hs))

include ht in
/-- Both places hold what is written to them. -/
theorem read_writeBoth (hl : d.loc st.ctx = .ok l) (hs : d.saved st.ctx = .ok s) (hbs : bs.length = 8) :
    (writeBoth st l s bs).read l 8 = bs ∧ ∀ l' ∈ s, (writeBoth st l s bs).read l' 8 = bs := by
  have htake : bs.take 8 = bs := List.take_of_length_le (Nat.le_of_eq hbs)
  have hread : ∀ (st : Dst) (l : Loc), (writeLoc st l bs).read l 8 = bs := by
    intro st l
    rw [read_writeLoc_same st l (Nat.le_of_eq hbs.symm), htake]
  cases s with
  | none => exact ⟨hread st l, fun l' h => nomatch h⟩
  | some l' =>
    have hdisj : l.Disj 8 l' bs.length := by
      obtain ⟨-, off, -, rfl⟩ | ⟨hind, -⟩ := loc_cases ht hl
      · obtain h | ⟨-, hact, ⟨a, h⟩ | ⟨off', h, -⟩⟩ := saved_cases hs
        · cases h
        · cases h
          trivial
        · cases h
          exact .inl hact
      · obtain h | ⟨hreg, -⟩ := saved_cases hs
        · cases h
        · rw [hind] at hreg
          cases hreg
    refine ⟨(read_writeLoc_disj _ hdisj).trans (hread st l), ?_⟩
    intro l'' h
    cases h
    exact hread _ l'

end

/-! ## One record -/

/-- A signed word as an unsigned one. -/
theorem toInt_mod (c : Int64) : (c.toInt % 18446744073709551616).toNat = c.toUInt64.toNat := by
  have hlt := c.toBitVec.isLt
  show (c.toBitVec.toInt % 18446744073709551616).toNat = c.toBitVec.toNat
  rw [BitVec.toInt_eq_toNat_bmod]
  simp only [Int.bmod]
  omega

section
variable {mem : Mem} {c0 : Ctx} {d : GenDest} {l : Loc} {s : Option Loc} {rs : List ArchLiveValue} {st : Dst} {v : UInt64}
  {r : ArchLiveValue}

theorem regValue_eq {c : Ctx} {q : UInt16} {off : Nat} (h : c.regops.reg q = .ok off) :
    (regValue c q).toNat = rget c.cur.regs off := by
  have hoff : regOff c.handle.arch q = off := regOff_eq h
  unfold regValue
  rw [hoff, UInt64.toNat_ofNat', Nat.mod_eq_of_lt (rget_lt _ _)]

/-- A register of the frame holds what it held before, or the value generated so far. -/
theorem SameGen.reg_eq (hg : Generates c0 d l s rs) (h : SameGen d c0 st.ctx) (hv : st.read l 8 = leBytes 8 v.toNat) {q : UInt16}
    {off : Nat} (hq : c0.regops.reg q = .ok off) : rget st.ctx.cur.regs off = (d.regs (regValue c0) v q).toNat := by
  unfold GenDest.regs
  split
  · rename_i hd
    obtain ⟨-, off', hoff, rfl⟩ | ⟨hind, -⟩ := loc_cases hg.type hg.loc
    · rw [hd.2, hoff] at hq
      cases hq
      have hread : leVal (st.read (.reg c0.act off) 8) = v.toNat := by
        rw [hv, leVal_leBytes]
        exact Nat.mod_eq_of_lt v.toNat_lt
      rw [← h.act] at hread
      exact hread
    · rw [hind] at hd
      cases hd.1
  · rename_i hd
    rw [regValue_eq hq]
    exact h.regs q off hq hd

theorem getArchOperandLoc_eq (hg : Generates c0 d l s rs) (h : SameGen d c0 st.ctx) (hv : st.read l 8 = leBytes 8 v.toNat)
    (hr : r ∈ rs) {o : GenOperand} (ho : recordOperand r = some o) :
    getArchOperandLoc st.ctx r st.ctx.act = .ok (o.cut (d.regs (regValue c0) v)).toNat := by
  have hreg : ∀ {q off}, c0.regops.reg q = .ok off → st.ctx.regops.reg q = .ok off := by
    intro q off hq
    unfold Ctx.regops
    rw [h.handle]
    exact hq
  have hknown := hg.known r hr o ho
  unfold recordOperand at ho
  unfold getArchOperandLoc
  split at ho
  · rename_i ht
    cases ho
    obtain ⟨off, hoff⟩ := hknown r.operandRegnum rfl
    rw [if_neg (by rw [ht]; decide)]
    unfold getValLoc
    rw [ht, hreg hoff]
    exact congrArg Except.ok (h.reg_eq hg hv hoff)
  · rename_i ht
    cases ho
    obtain ⟨off, hoff⟩ := hknown r.operandRegnum rfl
    rw [if_neg (by rw [ht]; decide)]
    unfold getValLoc GenOperand.cut
    rw [ht, hreg hoff, UInt64.toNat_ofNat', Nat.mod_eq_of_lt (padd_lt _ _), ← h.reg_eq hg hv hoff]
    rfl
  · rename_i ht
    cases ho
    rw [if_pos ht]
    unfold GenOperand.cut GenOperand.value
    exact congrArg Except.ok (toInt_mod _)
  · cases ho

/-- A record applies its operation to the value generated so far and writes both places. -/
theorem putValArch_eq (hg : Generates c0 d l s rs) (h : SameGen d c0 st.ctx) (hv : st.read l 8 = leBytes 8 v.toNat)
    (hr : r ∈ rs) {o : GenOperand} (ho : recordOperand r = some o) : putValArch st r =
      (archOperation v.toNat (o.cut (d.regs (regValue c0) v)).toNat r.instType).map fun n => writeBoth st l s (leBytes 8 n) := by
  obtain ⟨htype, hreg, hoffset⟩ := hg.dest r hr
  have hloc : d.loc st.ctx = .ok l := h.loc.trans hg.loc
  have hsaved : d.saved st.ctx = .ok s := h.saved.trans hg.saved
  unfold GenDest.loc at hloc
  unfold GenDest.saved at hsaved
  unfold putValArch
  rw [htype, hreg, hoffset, hloc, hsaved, getArchOperandLoc_eq hg h hv hr ho]
  have hread : leVal (readLoc st.ctx st.mem l 8) = v.toNat := by
    show leVal (st.read l 8) = _
    rw [hv, leVal_leBytes]
    exact Nat.mod_eq_of_lt v.toNat_lt
  show (archOperation (leVal (readLoc st.ctx st.mem l 8)) _ _ >>= _) = _
  rw [hread]
  cases archOperation v.toNat (o.cut (d.regs (regValue c0) v)).toNat r.instType with
  | error e => rfl
  | ok n => rfl

theorem genRecord_some {w : UInt64} (h : genRecord mem d (regValue c0) v r = some w) : ∃ inst o,
    instOfCode r.instType = some inst ∧ recordOperand r = some o ∧ genValue mem inst v (o.value (d.regs (regValue c0) v)) = some w := by
  unfold genRecord at h
  obtain ⟨inst, hi, h⟩ := Option.bind_eq_some_iff.mp h
  obtain ⟨o, ho, h⟩ := Option.bind_eq_some_iff.mp h
  exact ⟨inst, o, hi, ho, h⟩

/-- `PlainRecord`, for the record's instruction and operand. -/
theorem plainRecord_iff {inst : InstType} {o : GenOperand} (hi : instOfCode r.instType = some inst) (ho : recordOperand r = some o) :
    PlainRecord mem d (regValue c0) v r ↔ inst ≠ .load ∧
      (inst = .rightShiftArith → v.toNat < 9223372036854775808 ∨ o.cut (d.regs (regValue c0) v) = 0) ∧
      genValue mem inst v (o.cut (d.regs (regValue c0) v)) = genValue mem inst v (o.value (d.regs (regValue c0) v)) := by
  constructor
  · intro h
    refine ⟨fun e => h.notLoad (e ▸ hi), ?_, h.offset inst o hi ho⟩
    rintro rfl
    exact (h.unsigned hi).imp_right fun h => h o ho
  · intro ⟨h1, h2, h3⟩
    refine ⟨?_, ?_, ?_⟩
    · intro e
      exact h1 (Option.some.inj (hi.symm.trans e))
    · intro e
      refine (h2 (Option.some.inj (hi.symm.trans e))).imp_right ?_
      intro h o' ho'
      cases ho.symm.trans ho'
      exact h
    · intro inst' o' hi' ho'
      cases hi.symm.trans hi'
      cases ho.symm.trans ho'
      exact h3

/-- A record leaves in the location what the runtime's operation computes, if that has a value. -/
theorem putValArch_run_iff (hg : Generates c0 d l s rs) (h : SameGen d c0 st.ctx) (hv : st.read l 8 = leBytes 8 v.toNat)
    (hr : r ∈ rs) {inst : InstType} {o : GenOperand} (hi : instOfCode r.instType = some inst) (ho : recordOperand r = some o)
    {w : UInt64} : (∃ st', putValArch st r = .ok st' ∧ st'.read l 8 = leBytes 8 w.toNat) ↔
      runtimeValue inst v (o.cut (d.regs (regValue c0) v)) = some w := by
  have hloc : d.loc st.ctx = .ok l := h.loc.trans hg.loc
  have hsaved : d.saved st.ctx = .ok s := h.saved.trans hg.saved
  rw [← archOperation_iff hi, putValArch_eq hg h hv hr ho]
  constructor
  · intro ⟨st', hput, hread⟩
    cases hop : archOperation v.toNat (o.cut (d.regs (regValue c0) v)).toNat r.instType with
    | error e =>
      rw [hop] at hput
      cases hput
    | ok n =>
      rw [hop] at hput
      cases hput
      obtain ⟨x, rfl⟩ := archOperation_toNat hop
      rw [(read_writeBoth hg.type hloc hsaved (leBytes_length _ _)).1] at hread
      rw [leBytes_toNat_inj hread]
  · intro hop
    rw [hop]
    exact ⟨_, rfl, (read_writeBoth hg.type hloc hsaved (leBytes_length _ _)).1⟩

/-- The runtime carries out a record as documented just if it is plain. -/
theorem putValArch_iff (hg : Generates c0 d l s rs) (h : SameGen d c0 st.ctx) (hv : st.read l 8 = leBytes 8 v.toNat)
    (hr : r ∈ rs) {w : UInt64} (hw : genRecord mem d (regValue c0) v r = some w) : PlainRecord mem d (regValue c0) v r ↔
      ∃ st', putValArch st r = .ok st' ∧ st'.read l 8 = leBytes 8 w.toNat := by
  obtain ⟨inst, o, hi, ho, hval⟩ := genRecord_some hw
  rw [plainRecord_iff hi ho, ← runtimeValue_exact_iff hval, putValArch_run_iff hg h hv hr hi ho]

/-- What a record that is carried out leaves as it is, and where it writes. -/
theorem putValArch_sameGen (hg : Generates c0 d l s rs) (h : SameGen d c0 st.ctx) (hr : r ∈ rs) {st' : Dst}
    (hput : putValArch st r = .ok st') : SameGen d c0 st'.ctx ∧ ∀ l' ∈ s, st'.read l' 8 = st'.read l 8 := by
  obtain ⟨htype, hreg, hoffset⟩ := hg.dest r hr
  have hloc : d.loc st.ctx = .ok l := h.loc.trans hg.loc
  have hsaved : d.saved st.ctx = .ok s := h.saved.trans hg.saved
  have hloc' := hloc
  have hsaved' := hsaved
  unfold GenDest.loc at hloc'
  unfold GenDest.saved at hsaved'
  unfold putValArch at hput
  rw [htype, hreg, hoffset, hloc', hsaved'] at hput
  obtain ⟨_, hdest, hput⟩ := bind_ok.mp hput
  obtain ⟨_, hcallee, hput⟩ := bind_ok.mp hput
  obtain ⟨operand, -, hput⟩ := bind_ok.mp hput
  obtain ⟨value, -, hput⟩ := bind_ok.mp hput
  cases hdest
  cases hcallee
  obtain rfl := Except.ok.inj hput
  obtain ⟨h1, h2⟩ := read_writeBoth hg.type hloc hsaved (leBytes_length 8 value)
  refine ⟨h.trans (writeBoth_sameGen hg.type hloc hsaved (leBytes_length 8 value)), ?_⟩
  intro l' hl'
  rw [h1, h2 l' hl']

end

/-! ## Running a list -/

/-- What a location holds, as a word. -/
theorem read_leBytes (st : Dst) (l : Loc) : st.read l 8 = leBytes 8 (UInt64.ofNat (leVal (st.read l 8))).toNat := by
  have hlen : (st.read l 8).length = 8 := st.read_length l 8
  have hlt : leVal (st.read l 8) < 18446744073709551616 := by
    have := leVal_lt (st.read l 8)
    rwa [hlen] at this
  have hbytes := leBytes_leVal (st.read l 8)
  rw [hlen] at hbytes
  rw [UInt64.toNat_ofNat', Nat.mod_eq_of_lt hlt, hbytes]

/-- After every record the location, and the place its register is saved at, hold the value
    generated so far. -/
def InSync (st : Dst) (d : GenDest) (l : Loc) (s : Option Loc) (rs : List ArchLiveValue) : Prop :=
  ∀ k ≤ rs.length, ∃ st' v, (rs.take k).foldlM putValArch st = .ok st' ∧
    genRecords st.mem d (regValue st.ctx) (UInt64.ofNat (leVal (st.read l 8))) (rs.take k) = some v ∧
    st'.read l 8 = leBytes 8 v.toNat ∧ (0 < k → ∀ l' ∈ s, st'.read l' 8 = leBytes 8 v.toNat)

section
variable {st : Dst} {d : GenDest} {l : Loc} {s : Option Loc} {rs : List ArchLiveValue}

theorem records_sameGen (hg : Generates st.ctx d l s rs) {k : Nat} {st' : Dst} (h : (rs.take k).foldlM putValArch st = .ok st') :
    SameGen d st.ctx st'.ctx := by
  refine foldlM_index (P := fun _ st' => SameGen d st.ctx st'.ctx) ?_ (SameGen.refl d st.ctx) h
  intro i r st1 st2 hr h1 h2
  exact (putValArch_sameGen hg h1 (List.mem_of_mem_take (List.mem_of_getElem? hr)) h2).1

theorem take_snoc {α : Type} {xs : List α} {k : Nat} {x : α} (h : xs[k]? = some x) : xs.take (k + 1) = xs.take k ++ [x] := by
  rw [List.take_add_one, h]
  rfl

theorem foldlM_snoc_ok {α σ ε : Type} {f : σ → α → Except ε σ} {xs : List α} {x : α} {s s' s'' : σ} (h : xs.foldlM f s = .ok s') :
    (xs ++ [x]).foldlM f s = .ok s'' ↔ f s' x = .ok s'' := by
  rw [List.foldlM_append, h]
  show (f s' x >>= _) = _ ↔ _
  cases f s' x <;> exact Iff.rfl

theorem genRecords_snoc {mem : Mem} {ρ : UInt16 → UInt64} {v0 v : UInt64} {r : ArchLiveValue} (h : genRecords mem d ρ v0 rs = some v) :
    genRecords mem d ρ v0 (rs ++ [r]) = genRecord mem d ρ v r := by
  unfold genRecords at h ⊢
  rw [List.foldlM_append, h]
  show (genRecord mem d ρ v r >>= _) = _
  cases genRecord mem d ρ v r <;> rfl

/-- A list that has a value has one after every record. -/
theorem genRecords_next {mem : Mem} {ρ : UInt16 → UInt64} {v0 v : UInt64} {k : Nat} {r : ArchLiveValue}
    (hdef : ∃ vn, genRecords mem d ρ v0 rs = some vn) (hr : rs[k]? = some r) (h : genRecords mem d ρ v0 (rs.take k) = some v) :
    ∃ w, genRecord mem d ρ v r = some w := by
  obtain ⟨vn, hn⟩ := hdef
  obtain ⟨hk, rfl⟩ := List.getElem?_eq_some_iff.mp hr
  unfold genRecords at h hn
  rw [← List.take_append_drop k rs, List.foldlM_append, h, List.drop_eq_getElem_cons hk] at hn
  change (genRecord mem d ρ v rs[k] >>= fun v => (rs.drop (k + 1)).foldlM (genRecord mem d ρ) v) = some vn at hn
  obtain ⟨w, hw, -⟩ := Option.bind_eq_some_iff.mp hn
  exact ⟨w, hw⟩

/-- A record as the runtime carries it out, on words. -/
def runRecord (d : GenDest) (ρ : UInt16 → UInt64) (v : UInt64) (r : ArchLiveValue) : Option UInt64 := do
  let inst ← instOfCode r.instType
  let operand ← recordOperand r
  runtimeValue inst v (operand.cut (d.regs ρ v))

def runRecords (d : GenDest) (ρ : UInt16 → UInt64) (v : UInt64) (rs : List ArchLiveValue) : Option UInt64 :=
  rs.foldlM (runRecord d ρ) v

/-- A list of instructions with operands leaves in the location the value its run on words has. -/
theorem records_run_iff (hg : Generates st.ctx d l s rs)
    (hops : ∀ r ∈ rs, ∃ inst o, instOfCode r.instType = some inst ∧ recordOperand r = some o) {w : UInt64} :
    (∃ st', rs.foldlM putValArch st = .ok st' ∧ st'.read l 8 = leBytes 8 w.toNat) ↔
      runRecords d (regValue st.ctx) (UInt64.ofNat (leVal (st.read l 8))) rs = some w := by
  suffices h : ∀ (ts : List ArchLiveValue), (∀ r ∈ ts, r ∈ rs) → ∀ (st1 : Dst) (v : UInt64), SameGen d st.ctx st1.ctx →
      st1.read l 8 = leBytes 8 v.toNat → ((∃ st', ts.foldlM putValArch st1 = .ok st' ∧ st'.read l 8 = leBytes 8 w.toNat) ↔
        runRecords d (regValue st.ctx) v ts = some w) by
    exact h rs (fun _ h => h) st _ (SameGen.refl d st.ctx) (read_leBytes st l)
  intro ts
  induction ts with
  | nil =>
    intro _ st1 v _ hv
    constructor
    · intro ⟨st', hrun, hread⟩
      cases hrun
      rw [hv] at hread
      exact congrArg some (leBytes_toNat_inj hread)
    · intro hrun
      cases hrun
      exact ⟨st1, rfl, hv⟩
  | cons r ts ih =>
    intro hmem st1 v hsame hv
    have hr := hmem r (List.mem_cons_self ..)
    have hts := fun r' h => hmem r' (List.mem_cons_of_mem _ h)
    obtain ⟨inst, o, hi, ho⟩ := hops r hr
    have hrec : runRecord d (regValue st.ctx) v r = runtimeValue inst v (o.cut (d.regs (regValue st.ctx) v)) := by
      unfold runRecord
      rw [hi, ho]
      rfl
    constructor
    · intro ⟨st', hrun, hread⟩
      obtain ⟨st2, hput, hrest⟩ := bind_ok.mp hrun
      have h2 := read_leBytes st2 l
      have hval := (putValArch_run_iff hg hsame hv hr hi ho).mp ⟨st2, hput, h2⟩
      have hgo := (ih hts st2 _ (putValArch_sameGen hg hsame hr hput).1 h2).mp ⟨st', hrest, hread⟩
      unfold runRecords
      rw [List.foldlM_cons, hrec, hval]
      exact hgo
    · intro hrun
      unfold runRecords at hrun
      rw [List.foldlM_cons, hrec] at hrun
      obtain ⟨v2, hval, hgo⟩ := Option.bind_eq_some_iff.mp hrun
      obtain ⟨st2, hput, h2⟩ := (putValArch_run_iff hg hsame hv hr hi ho).mpr hval
      obtain ⟨st', hrest, hread⟩ := (ih hts st2 v2 (putValArch_sameGen hg hsame hr hput).1 h2).mpr hgo
      exact ⟨st', bind_ok.mpr ⟨st2, hput, hrest⟩, hread⟩

/-- Where the documented value exists (no division by zero, no shift past 63 bits), the runtime
    keeps both places at it after every record exactly when every record is plain. -/
theorem arch_values_exact_iff (st : Dst) (d : GenDest) (l : Loc) (s : Option Loc) (rs : List ArchLiveValue)
    (hg : Generates st.ctx d l s rs)
    (hdef : ∃ v, genRecords st.mem d (regValue st.ctx) (UInt64.ofNat (leVal (st.read l 8))) rs = some v) :
    InSync st d l s rs ↔ ∀ i r v, rs[i]? = some r →
      genRecords st.mem d (regValue st.ctx) (UInt64.ofNat (leVal (st.read l 8))) (rs.take i) = some v →
      PlainRecord st.mem d (regValue st.ctx) v r := by
  constructor
  · intro h i r v hr hv
    have hi := (List.getElem?_eq_some_iff.mp hr).1
    obtain ⟨st1, v1, hrun1, hgen1, hread1, -⟩ := h i (Nat.le_of_lt hi)
    obtain ⟨st2, w, hrun2, hgen2, hread2, -⟩ := h (i + 1) hi
    cases hv.symm.trans hgen1
    rw [take_snoc hr] at hrun2 hgen2
    rw [genRecords_snoc hgen1] at hgen2
    rw [foldlM_snoc_ok hrun1] at hrun2
    exact (putValArch_iff hg (records_sameGen hg hrun1) hread1 (List.mem_of_getElem? hr) hgen2).mpr ⟨st2, hrun2, hread2⟩
  · intro h k
    induction k with
    | zero =>
      intro _
      exact ⟨st, _, rfl, rfl, read_leBytes st l, fun h0 => absurd h0 (Nat.lt_irrefl 0)⟩
    | succ k ih =>
      intro hk
      obtain ⟨st1, v, hrun1, hgen1, hread1, -⟩ := ih (Nat.le_of_lt hk)
      have hr := List.getElem?_eq_getElem hk
      have hmem := List.mem_of_getElem? hr
      obtain ⟨w, hw⟩ := genRecords_next hdef hr hgen1
      have hsame := records_sameGen hg hrun1
      obtain ⟨st2, hput, hread2⟩ := (putValArch_iff hg hsame hread1 hmem hw).mp (h k _ v hr hgen1)
      refine ⟨st2, w, ?_, ?_, hread2, ?_⟩
      · rw [take_snoc hr]
        exact (foldlM_snoc_ok hrun1).mpr hput
      · rw [take_snoc hr, genRecords_snoc hgen1]
        exact hw
      · intro _ l' hl'
        rw [(putValArch_sameGen hg hsame hmem hput).2 l' hl', hread2]

end

/-! ## Two frames -/

/-- The handle of an x86-64 binary without any records. -/
def bareHandle : Handle where
  arch := .x86_64
  unwindAddrs := []
  unwindLocs := []
  sitesId := []
  sitesAddr := []
  liveVals := fun _ => ⟨false, false, false, false, 0, 0, 0, 0, 0⟩
  liveValsCount := 0
  archLiveVals := []
  sites_len := no_sites

/-- A frame called from the outermost one, which has saved no register; `%rax` is 3. -/
def calledFrame : Dst where
  mem := fun _ => 0
  ctx :=
    { handle := bareHandle
      stackBase := 0x40000
      stack := 0x20000
      numActs := 2
      act := 1
      acts := fun _ => ⟨emptyCallSite, 0x30000, rset (rset (fun _ => 0) 56 0x2FFF0) 8 3, ⟨67, 0⟩⟩
      stackPointers := []
      pool := fun _ => 0 }

/-- A value generated in the callee-saved `%r12`. -/
def inR12 : GenDest := ⟨1, 12, 0⟩

theorem pad_pos : 0 < 8 := by decide

def r12Record (operandType instType : Fin 16) (operandRegnum : UInt16) (operand : Int64) : ArchLiveValue :=
  ⟨false, ⟨0, pad_pos⟩, 1, 8, 12, 0, operandType, instType, 8, operandRegnum, operand⟩

/-- `%rax * 4 + (%rbp - 16)`. -/
def scaledRecords : List ArchLiveValue := [r12Record 1 0 0 0, r12Record 4 3 0 4, r12Record 2 1 6 (-16)]

/-- `-8`, shifted right by one with its sign. -/
def shiftedRecords : List ArchLiveValue := [r12Record 4 0 0 (-8), r12Record 4 7 0 1]

theorem calledFrame_saved : inR12.saved calledFrame.ctx = .ok (some (.reg 0 104)) := by
  have hcallee : inR12.saved calledFrame.ctx = savedLocLoop calledFrame.ctx 12 1 := rfl
  have hbit : bitmapIsSet 1024 calledFrame.ctx.pool ⟨67, 0⟩ 12 = .ok false := by decide
  rw [hcallee]
  unfold savedLocLoop
  show (bitmapIsSet (poolWords .x86_64) calledFrame.ctx.pool ⟨67, 0⟩ 12 >>= _) = _
  rw [poolWords_eq, hbit]
  rfl

theorem calledFrame_generates {rs : List ArchLiveValue}
    (hdest : ∀ r ∈ rs, r.type = inR12.type ∧ r.regnum = inR12.regnum ∧ r.offset = inR12.offset)
    (hknown : ∀ r ∈ rs, ((recordOperand r).bind GenOperand.reg?).all (fun q => decide (q.toNat < 16)) = true) :
    Generates calledFrame.ctx inR12 (.reg 1 104) (some (.reg 0 104)) rs where
  type := .inl rfl
  loc := rfl
  saved := calledFrame_saved
  dest := hdest
  known r hr o ho q hq := by
    have h := hknown r hr
    rw [ho, Option.bind_some, Option.mem_def.mp hq] at h
    exact ⟨8 + 8 * q.toNat, if_pos (of_decide_eq_true h)⟩

/-- `%rax` is 3 and `%rbp - 16` is 0x2FFE0. -/
theorem arch_values_exact_iff_scaled : InSync calledFrame inR12 (.reg 1 104) (some (.reg 0 104)) scaledRecords := by
  refine (arch_values_exact_iff calledFrame inR12 (.reg 1 104) (some (.reg 0 104)) scaledRecords
    (calledFrame_generates (by decide) (by decide)) ⟨0x2FFEC, by decide⟩).mpr ?_
  intro i r v hr hv
  match i with
  | 0 =>
    cases hr
    cases hv
    exact ⟨by decide, by decide, by intro inst o hi ho; cases hi; cases ho; rfl⟩
  | 1 =>
    cases hr
    cases hv
    exact ⟨by decide, by decide, by intro inst o hi ho; cases hi; cases ho; rfl⟩
  | 2 =>
    cases hr
    cases hv
    exact ⟨by decide, by decide, by intro inst o hi ho; cases hi; cases ho; rfl⟩
  | n + 3 => cases hr

/-- The runtime leaves 0x7FFFFFFFFFFFFFFC, not `-4`. -/
theorem arithmetic_shift_loses_sign : Generates calledFrame.ctx inR12 (.reg 1 104) (some (.reg 0 104)) shiftedRecords ∧
    genRecords calledFrame.mem inR12 (regValue calledFrame.ctx) 0 shiftedRecords = some 0xFFFFFFFFFFFFFFFC ∧
    (shiftedRecords.foldlM putValArch calledFrame).map (fun st => leVal (st.read (.reg 1 104) 8)) = .ok 0x7FFFFFFFFFFFFFFC := by
  refine ⟨calledFrame_generates (by decide) (by decide), by decide, rfl⟩

end Popcorn.Runtime
