/-
  Popcorn.Runtime.Arch — register sets and stack properties of the two architectures
  (lib/stack_transformation/src/arch/{x86_64,aarch64}/{regs,properties}.c).

  A register set is the bytes of `struct regset_<arch>`; a register is an offset into it.
  Both C tables (`regs_<arch>`, `properties_<arch>`) hold the same operations over other
  offsets and constants, so each is a record of data here and the operations are stated
  once. Pointers are 64-bit values as natural numbers; `padd` is pointer arithmetic.
  `ST_ERR` prints and exits: it is an error of `Except Fault`. The sanity checks of
  `ASSERT` are compiled out (`_CHECKS` is off in config.h).

  Proved: two registers of an architecture never overlap (`reg_disj`), and what each
  callee-saved register, the FBP, the SP and the PC read after a write to one of them.
-/

import Mathlib.Tactic.Common
import Popcorn.Metadata.CallSite

namespace Popcorn.Runtime

open Popcorn.Lib Popcorn.Metadata

/-- How a run ends other than by returning: `ST_ERR` (exit code, text and its arguments),
    an access outside an array or a heap block, an operation C leaves undefined, a loop that
    never ends. -/
inductive Fault where
  | stErr (code : Nat) (fmt : String) (args : List Nat)
  | outOfBounds
  | undefined
  | hang
  deriving DecidableEq, Repr

/-! ## Pointers -/

/-- Pointer arithmetic in a 64-bit address space. -/
def padd (a : Nat) (d : Int) : Nat := ((a + d) % 18446744073709551616).toNat

theorem padd_lt (a : Nat) (d : Int) : padd a d < 18446744073709551616 := by
  unfold padd
  omega

/-- Arithmetic that stays in the address space does not wrap. -/
theorem padd_eq {a b : Nat} {d : Int} (hb : b < 18446744073709551616) (h : (b : Int) = a + d) : padd a d = b := by
  unfold padd
  omega

/-! ## Register sets -/

abbrev RegSet := Mem

/-- `struct regops_t`: where the special registers stand in the set. `raOff` is `ra_reg`
    where `has_ra_reg` holds. -/
structure RegOps where
  numRegs : Nat
  pcOff : Nat
  spOff : Nat
  fbpOff : Nat
  raOff : Option Nat
  reg : UInt16 → Except Fault Nat

/-- `reg_x86_64`: RAX..R15 (DWARF 0..15) after the `rip` field, RIP (16), XMM0..XMM15 (17..32)
    after the eight MMX registers, at a multiple of 16. -/
def regX86_64 (r : UInt16) : Except Fault Nat :=
  if r.toNat < 16 then .ok (8 + 8 * r.toNat)
  else if r.toNat = 16 then .ok 0
  else if r.toNat ≤ 32 then .ok (208 + 16 * (r.toNat - 17))
  else .error (.stErr 1 "unknown/invalid register %u (x86-64)\n" [r.toNat])

/-- `reg_aarch64`: X0..X30 after the `sp` and `pc` fields, SP (31), V0..V31 (64..95). -/
def regAarch64 (r : UInt16) : Except Fault Nat :=
  if r.toNat < 31 then .ok (16 + 8 * r.toNat)
  else if r.toNat = 31 then .ok 0
  else if 64 ≤ r.toNat ∧ r.toNat ≤ 95 then .ok (272 + 16 * (r.toNat - 64))
  else .error (.stErr 1 "unknown/invalid register %u (aarch64)\n" [r.toNat])

def regsX86_64 : RegOps where
  numRegs := 67
  pcOff := 0
  spOff := 64
  fbpOff := 56
  raOff := none
  reg := regX86_64

def regsAarch64 : RegOps where
  numRegs := 128
  pcOff := 8
  spOff := 0
  fbpOff := 248
  raOff := some 256
  reg := regAarch64

def getRegops : Arch → RegOps
  | .x86_64 => regsX86_64
  | .aarch64 => regsAarch64

/-- The 64-bit value of the register at an offset of the set, and its update. -/
def rget (regs : RegSet) (off : Nat) : Nat := readLe 8 regs off
def rset (regs : RegSet) (off v : Nat) : RegSet := store regs off (leBytes 8 v)

def RegOps.pc (o : RegOps) (regs : RegSet) : Nat := rget regs o.pcOff
def RegOps.sp (o : RegOps) (regs : RegSet) : Nat := rget regs o.spOff
def RegOps.fbp (o : RegOps) (regs : RegSet) : Nat := rget regs o.fbpOff
def RegOps.setPc (o : RegOps) (regs : RegSet) (v : Nat) : RegSet := rset regs o.pcOff v
def RegOps.setSp (o : RegOps) (regs : RegSet) (v : Nat) : RegSet := rset regs o.spOff v
def RegOps.setFbp (o : RegOps) (regs : RegSet) (v : Nat) : RegSet := rset regs o.fbpOff v
def RegOps.setupFbp (o : RegOps) (regs : RegSet) (cfa : Nat) : RegSet := rset regs o.fbpOff (padd cfa (-0x10))

theorem rget_lt (regs : RegSet) (off : Nat) : rget regs off < 18446744073709551616 := readLe_lt 8 regs off

theorem rget_rset_same (regs : RegSet) (off : Nat) {v : Nat} (hv : v < 18446744073709551616) :
    rget (rset regs off v) off = v := by
  unfold rget rset
  rw [readLe_store_same]
  exact Nat.mod_eq_of_lt hv

theorem rget_rset_disj (regs : RegSet) {off off' v : Nat} (h : off + 8 ≤ off' ∨ off' + 8 ≤ off) :
    rget (rset regs off' v) off = rget regs off := by
  unfold rget rset
  exact readLe_store_disj _ (by rwa [leBytes_length])

/-! ## Stack properties -/

/-- `struct properties_t`. -/
structure Props where
  calleeSaved : List UInt16
  raOffset : Int
  savedfbpOffset : Int
  cfaOffsetFuncentry : Int
  spNeedsAlign : Bool
  alignSp : Nat → Except Fault Nat
  unknownRegister : String

/-- `align_sp_x86_64`: (%rsp + 8) is a multiple of 16 at a function entry. -/
def alignSpX86_64 (sp : Nat) : Except Fault Nat := .ok (if padd sp 8 % 0x10 ≠ 0 then padd sp (-8) else sp)

def alignSpAarch64 (_ : Nat) : Except Fault Nat :=
  .error (.stErr 0 "stack-pointer alignment not needed for aarch64\n" [])

def propertiesX86_64 : Props where
  calleeSaved := [3, 6, 12, 13, 14, 15, 16]
  raOffset := -0x8
  savedfbpOffset := -0x10
  cfaOffsetFuncentry := 0x8
  spNeedsAlign := true
  alignSp := alignSpX86_64
  unknownRegister := "unknown/invalid register %u (x86-64)\n"

def propertiesAarch64 : Props where
  calleeSaved := [19, 20, 21, 22, 23, 24, 25, 26, 27, 28, 29, 30, 72, 73, 74, 75, 76, 77, 78, 79]
  raOffset := -0x8
  savedfbpOffset := -0x10
  cfaOffsetFuncentry := 0x0
  spNeedsAlign := false
  alignSp := alignSpAarch64
  unknownRegister := "unknown/invalid register %u (aarch64)\n"

def getProperties : Arch → Props
  | .x86_64 => propertiesX86_64
  | .aarch64 => propertiesAarch64

def Props.isCalleeSaved (p : Props) (r : UInt16) : Bool := p.calleeSaved.contains r

/-- Every callee-saved register is saved in 8 bytes (of V8..V15 the low half). -/
def Props.calleeRegSize (p : Props) (r : UInt16) : Except Fault Nat :=
  if p.isCalleeSaved r then .ok 8 else .error (.stErr 1 p.unknownRegister [r.toNat])

/-! ## The registers by name -/

def isCalleeSaved (a : Arch) (r : UInt16) : Bool := (getProperties a).isCalleeSaved r

/-- The DWARF numbers of the frame base pointer, the stack pointer and the register under
    which a frame records its return address. -/
def fbpReg : Arch → UInt16
  | .x86_64 => 6
  | .aarch64 => 29
def spReg : Arch → UInt16
  | .x86_64 => 7
  | .aarch64 => 31
def raReg : Arch → UInt16
  | .x86_64 => 16
  | .aarch64 => 30

/-- The offset of a register that exists. -/
def regOff (a : Arch) (r : UInt16) : Nat :=
  match (getRegops a).reg r with
  | .ok off => off
  | .error _ => 0

theorem regOff_eq {a : Arch} {r : UInt16} {off : Nat} (h : (getRegops a).reg r = .ok off) : regOff a r = off := by
  simp only [regOff, h]

theorem calleeSaved_cases {a : Arch} {r : UInt16} (h : isCalleeSaved a r = true) :
    (getRegops a).reg r = .ok (regOff a r) ∧ (getProperties a).calleeRegSize r = .ok 8 ∧ r.toNat % 64 < 31 ∧
      r.toNat < 128 := by
  have hsize : (getProperties a).calleeRegSize r = .ok 8 := by
    unfold Props.calleeRegSize
    exact if_pos h
  refine ⟨?_, hsize, ?_⟩
  all_goals
    cases a
    all_goals
      simp only [isCalleeSaved, getProperties, propertiesX86_64, propertiesAarch64, Props.isCalleeSaved, List.contains_eq_mem,
        List.mem_cons, List.not_mem_nil, or_false, decide_eq_true_eq] at h
      repeat' (obtain rfl | h := h)
      all_goals decide

/-- Two registers do not overlap. -/
theorem reg_disj {a : Arch} {r r' : UInt16} {o o' : Nat} (h : (getRegops a).reg r = .ok o) (h' : (getRegops a).reg r' = .ok o')
    (hne : r ≠ r') : o + 8 ≤ o' ∨ o' + 8 ≤ o := by
  have hne' : r.toNat ≠ r'.toNat := fun e => hne (UInt16.toNat_inj.mp e)
  cases a
  · simp only [getRegops, regsX86_64, regX86_64] at h h'
    split_ifs at h h' <;> cases h <;> cases h' <;> omega
  · simp only [getRegops, regsAarch64, regAarch64] at h h'
    split_ifs at h h' <;> cases h <;> cases h' <;> omega

theorem reg_fbp (a : Arch) : (getRegops a).reg (fbpReg a) = .ok (getRegops a).fbpOff := by cases a <;> rfl
theorem reg_sp (a : Arch) : (getRegops a).reg (spReg a) = .ok (getRegops a).spOff := by cases a <;> rfl

theorem fbpReg_calleeSaved (a : Arch) : isCalleeSaved a (fbpReg a) = true := by cases a <;> rfl
theorem raReg_calleeSaved (a : Arch) : isCalleeSaved a (raReg a) = true := by cases a <;> rfl
theorem spReg_not_calleeSaved (a : Arch) : isCalleeSaved a (spReg a) = false := by cases a <;> rfl
theorem fbpReg_ne_raReg (a : Arch) : fbpReg a ≠ raReg a := by cases a <;> decide

/-- Where the architecture has no return-address register the return address is the PC. -/
theorem pc_of_raOff (a : Arch) :
    ((getRegops a).raOff = none ∧ (getRegops a).pcOff = regOff a (raReg a)) ∨
      (getRegops a).raOff = some (regOff a (raReg a)) := by
  cases a
  · exact .inl ⟨rfl, rfl⟩
  · exact .inr rfl

/-- The PC is no register but, on x86-64, the return-address register. -/
theorem pc_disj {a : Arch} {r : UInt16} {o : Nat} (h : (getRegops a).reg r = .ok o) (hne : r ≠ raReg a) :
    o + 8 ≤ (getRegops a).pcOff ∨ (getRegops a).pcOff + 8 ≤ o := by
  cases a
  · exact reg_disj h (show (getRegops .x86_64).reg 16 = .ok 0 from rfl) hne
  · simp only [getRegops, regsAarch64, regAarch64] at h ⊢
    split_ifs at h <;> cases h <;> omega

end Popcorn.Runtime
