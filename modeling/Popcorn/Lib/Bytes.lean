/-
  Popcorn.Lib.Bytes — little-endian bytes and a flat byte store.

  A store maps every address to a byte. `load` reads `n` bytes from an address,
  `store` writes a byte string there; `leVal` and `leBytes` are the little-endian
  value of a byte string and the low `n` bytes of a value. `At m a bs` says that the
  store holds `bs` at `a`: it splits over `++`, so what a reader gets from a
  concatenation is read off part by part.
-/

import Mathlib.Algebra.Ring.Int.Defs
import Mathlib.Algebra.Ring.Nat
import Mathlib.Data.List.Basic
import Mathlib.Tactic.Common

namespace Popcorn.Lib

abbrev Mem := Nat → UInt8

/-! ## Little-endian values -/

def leVal : List UInt8 → Nat
  | [] => 0
  | b :: bs => b.toNat + 256 * leVal bs

def leBytes : Nat → Nat → List UInt8
  | 0, _ => []
  | n + 1, v => UInt8.ofNat v :: leBytes n (v / 256)

@[simp] theorem leBytes_length (n v : Nat) : (leBytes n v).length = n := by
  induction n generalizing v with
  | zero => rfl
  | succ n ih => simp [leBytes, ih]

theorem leVal_leBytes (n v : Nat) : leVal (leBytes n v) = v % 256 ^ n := by
  induction n generalizing v with
  | zero => simp [leBytes, leVal, Nat.mod_one]
  | succ n ih =>
    have h : v % 256 ^ (n + 1) = v % 256 + 256 * (v / 256 % 256 ^ n) := by
      rw [Nat.pow_succ, Nat.mul_comm, Nat.mod_mul]
    simp only [leBytes, leVal, ih, UInt8.toNat_ofNat', h]

theorem leVal_lt (bs : List UInt8) : leVal bs < 256 ^ bs.length := by
  induction bs with
  | nil => simp [leVal]
  | cons b bs ih =>
    have hb := b.toNat_lt
    simp only [leVal, List.length_cons, Nat.pow_succ]
    omega

theorem leBytes_leVal (bs : List UInt8) : leBytes bs.length (leVal bs) = bs := by
  induction bs with
  | nil => rfl
  | cons b bs ih =>
    have hb := b.toNat_lt
    have h1 : (b.toNat + 256 * leVal bs) / 256 = leVal bs := by omega
    have h2 : UInt8.ofNat (b.toNat + 256 * leVal bs) = b := by
      apply UInt8.toNat_inj.mp
      rw [UInt8.toNat_ofNat']
      omega
    simp only [List.length_cons, leVal, leBytes, h1, h2, ih]

theorem leVal_inj {xs ys : List UInt8} (hl : xs.length = ys.length) (h : leVal xs = leVal ys) : xs = ys := by
  rw [← leBytes_leVal xs, ← leBytes_leVal ys, hl, h]

theorem leBytes_take {k n : Nat} (h : k ≤ n) (v : Nat) : (leBytes n v).take k = leBytes k v := by
  induction k generalizing n v with
  | zero => rfl
  | succ k ih =>
    obtain ⟨n, rfl⟩ := Nat.exists_eq_add_of_le' (Nat.lt_of_lt_of_le (Nat.succ_pos k) h)
    rw [leBytes, leBytes, List.take_succ_cons, ih (Nat.le_of_succ_le_succ h)]

theorem leBytes_inj_iff {n v w : Nat} : leBytes n v = leBytes n w ↔ v % 256 ^ n = w % 256 ^ n := by
  rw [← leVal_leBytes, ← leVal_leBytes]
  exact ⟨congrArg leVal, leVal_inj (by rw [leBytes_length, leBytes_length])⟩

theorem leBytes_append {m a : Nat} (ha : a < 256 ^ m) (n b : Nat) : leBytes m a ++ leBytes n b = leBytes (m + n) (a + 256 ^ m * b) := by
  induction m generalizing a with
  | zero =>
    obtain rfl : a = 0 := by rw [Nat.pow_zero] at ha; omega
    rw [Nat.zero_add, Nat.pow_zero, Nat.one_mul, Nat.zero_add]
    rfl
  | succ m ih =>
    rw [Nat.pow_succ] at ha
    have hdiv : (a + 256 ^ (m + 1) * b) / 256 = a / 256 + 256 ^ m * b := by
      rw [Nat.pow_succ, Nat.mul_comm (256 ^ m) 256, Nat.mul_assoc, Nat.add_mul_div_left _ _ (by decide)]
    have hlow : UInt8.ofNat (a + 256 ^ (m + 1) * b) = UInt8.ofNat a := by
      apply UInt8.toNat_inj.mp
      rw [UInt8.toNat_ofNat', UInt8.toNat_ofNat', Nat.pow_succ, Nat.mul_comm (256 ^ m) 256, Nat.mul_assoc]
      exact Nat.add_mul_mod_self_left _ _ _
    rw [Nat.add_right_comm, leBytes, leBytes, List.cons_append, ih (by omega), hdiv, hlow]

/-! ## Loads and stores -/

def load (m : Mem) (a n : Nat) : List UInt8 := (List.range n).map fun i => m (a + i)

def store (m : Mem) (a : Nat) (bs : List UInt8) : Mem := fun x =>
  if a ≤ x ∧ x < a + bs.length then bs.getD (x - a) 0 else m x

@[simp] theorem load_length (m : Mem) (a n : Nat) : (load m a n).length = n := by simp [load]

theorem load_getElem? (m : Mem) (a n i : Nat) (h : i < n) : (load m a n)[i]? = some (m (a + i)) := by
  simp [load, h]

theorem load_congr {m m' : Mem} {a n : Nat} (h : ∀ x, a ≤ x → x < a + n → m x = m' x) : load m a n = load m' a n := by
  simp only [load, List.map_inj_left, List.mem_range]
  intro i hi
  exact h _ (by omega) (by omega)

/-- A load is its first `k` bytes and the rest. -/
theorem load_add (m : Mem) (a k n : Nat) : load m a (k + n) = load m a k ++ load m (a + k) n := by
  simp [load, List.range_add, Nat.add_assoc, Function.comp_def]

theorem load_take (m : Mem) (a : Nat) {k n : Nat} (h : k ≤ n) : (load m a n).take k = load m a k := by
  obtain ⟨d, rfl⟩ := Nat.exists_eq_add_of_le h
  rw [load_add, List.take_left' (load_length m a k)]

theorem store_apart {m : Mem} {a x : Nat} {bs : List UInt8} (h : x < a ∨ a + bs.length ≤ x) : store m a bs x = m x :=
  if_neg (by omega)

theorem store_at {m : Mem} {a i : Nat} {bs : List UInt8} (h : i < bs.length) : store m a bs (a + i) = bs.getD i 0 := by
  unfold store
  rw [if_pos (by omega), Nat.add_sub_cancel_left]

theorem load_store_same (m : Mem) (a : Nat) (bs : List UInt8) : load (store m a bs) a bs.length = bs := by
  apply List.ext_getElem?
  intro i
  by_cases hi : i < bs.length
  · rw [load_getElem? _ _ _ _ hi]
    simp only [store]
    rw [if_pos (by omega), show a + i - a = i by omega, List.getD_eq_getElem?_getD,
      List.getElem?_eq_getElem hi, Option.getD_some]
  · simp [hi]

theorem load_store_disj (m : Mem) {a b n : Nat} {bs : List UInt8} (h : a + n ≤ b ∨ b + bs.length ≤ a) :
    load (store m b bs) a n = load m a n := by
  apply load_congr
  intro x h1 h2
  simp only [store]
  rw [if_neg (by omega)]

/-- The first bytes of what was just stored. -/
theorem load_store_take (m : Mem) (a : Nat) {k : Nat} {bs : List UInt8} (h : k ≤ bs.length) :
    load (store m a bs) a k = bs.take k := by
  rw [← load_take _ _ h, load_store_same]

/-- A store replaces the first bytes. -/
theorem load_store_patch (m : Mem) (a : Nat) {n : Nat} {bs : List UInt8} (h : bs.length ≤ n) :
    load (store m a bs) a n = bs ++ (load m a n).drop bs.length := by
  obtain ⟨d, rfl⟩ := Nat.exists_eq_add_of_le h
  rw [load_add, load_add, load_store_same, List.drop_left' (load_length m a bs.length)]
  exact congrArg (bs ++ ·) (load_store_disj m (.inr (Nat.le_refl _)))

/-! ## What a store holds -/

def At (m : Mem) (a : Nat) (bs : List UInt8) : Prop := load m a bs.length = bs

theorem at_append {m : Mem} {a : Nat} {xs ys : List UInt8} :
    At m a (xs ++ ys) ↔ At m a xs ∧ At m (a + xs.length) ys := by
  simp only [At, List.length_append, load_add]
  constructor
  · intro h
    exact List.append_inj h (load_length m a xs.length)
  · rintro ⟨h1, h2⟩
    rw [h1, h2]

theorem at_store (m : Mem) (a : Nat) (bs : List UInt8) : At (store m a bs) a bs := load_store_same m a bs

/-- The unsigned `n`-byte value at `a`. -/
def readLe (n : Nat) (m : Mem) (a : Nat) : Nat := leVal (load m a n)

theorem readLe_lt (n : Nat) (m : Mem) (a : Nat) : readLe n m a < 256 ^ n := by
  have := leVal_lt (load m a n)
  rwa [load_length] at this

theorem readLe_of_at {m : Mem} {a n v : Nat} (h : At m a (leBytes n v)) : readLe n m a = v % 256 ^ n := by
  unfold At at h
  rw [leBytes_length] at h
  rw [readLe, h, leVal_leBytes]

theorem readLe_store_same (m : Mem) (a n v : Nat) : readLe n (store m a (leBytes n v)) a = v % 256 ^ n :=
  readLe_of_at (at_store m a _)

theorem readLe_store_disj (m : Mem) {a b n : Nat} {bs : List UInt8} (h : a + n ≤ b ∨ b + bs.length ≤ a) :
    readLe n (store m b bs) a = readLe n m a := by
  rw [readLe, load_store_disj m h, readLe]

end Popcorn.Lib
