import Mathlib

/-! Machine words and byte strings: saturating and checked arithmetic, numbers as little-endian and
big-endian bytes, byte strings of a fixed length, and hexadecimal text. -/

namespace Machine

abbrev Bytes := List UInt8

abbrev U128 := BitVec 128

def u64Max : UInt64 := 18446744073709551615

def saturatingAdd (a b : UInt64) : UInt64 := UInt64.ofNat (min (a.toNat + b.toNat) (2 ^ 64 - 1))

def saturatingMul (a b : UInt64) : UInt64 := UInt64.ofNat (min (a.toNat * b.toNat) (2 ^ 64 - 1))

def saturatingSub (a b : UInt64) : UInt64 := if b ≤ a then a - b else 0

theorem toNat_saturatingAdd (a b : UInt64) :
    (saturatingAdd a b).toNat = min (a.toNat + b.toNat) (2 ^ 64 - 1) := by
  rw [saturatingAdd, UInt64.toNat_ofNat']
  omega

theorem toNat_saturatingAdd_of_lt {a b limit : UInt64} (hmax : limit.toNat < 2 ^ 64 - 1)
    (h : saturatingAdd a b ≤ limit) : (saturatingAdd a b).toNat = a.toNat + b.toNat := by
  have hle := UInt64.le_iff_toNat_le.mp h
  rw [toNat_saturatingAdd] at hle ⊢
  omega

theorem toNat_add_one {a : UInt64} (h : a ≠ u64Max) :
    (a + 1).toNat = a.toNat + 1 := by
  have hlt := a.toNat_lt
  have hne : a.toNat ≠ 18446744073709551615 := fun heq => h (UInt64.toNat_inj.mp heq)
  rw [UInt64.toNat_add]
  exact Nat.mod_eq_of_lt (by simp; omega)

def checkedAdd (a b : UInt64) : Option UInt64 :=
  if a.toNat + b.toNat < 2 ^ 64 then some (a + b) else none

def saturatingAdd128 (a b : U128) : U128 := BitVec.ofNat 128 (min (a.toNat + b.toNat) (2 ^ 128 - 1))

def checkedSub (a b : U128) : Option U128 := if b.toNat ≤ a.toNat then some (a - b) else none

/-! ### Numbers as bytes -/

/-- The `n` low bytes of a number, lowest first. -/
def leBytes : Nat → Nat → Bytes
  | 0, _ => []
  | n + 1, x => UInt8.ofNat x :: leBytes n (x / 256)

/-- The number that bytes denote, lowest first. -/
def leNat : Bytes → Nat
  | [] => 0
  | b :: bs => b.toNat + 256 * leNat bs

@[simp] theorem length_leBytes (n x : Nat) : (leBytes n x).length = n := by
  induction n generalizing x with
  | zero => rfl
  | succ n ih => simp [leBytes, ih]

theorem leNat_leBytes (n x : Nat) : leNat (leBytes n x) = x % 256 ^ n := by
  induction n generalizing x with
  | zero => simp [leBytes, leNat, Nat.mod_one]
  | succ n ih =>
    have hbyte : (UInt8.ofNat x).toNat = x % 256 := UInt8.toNat_ofNat'
    rw [leBytes, leNat, ih, hbyte, Nat.pow_succ, Nat.mul_comm (256 ^ n) 256, Nat.mod_mul]

theorem leNat_lt (bs : Bytes) : leNat bs < 256 ^ bs.length := by
  induction bs with
  | nil => simp [leNat]
  | cons b bs ih =>
    have hb := b.toNat_lt
    rw [leNat, List.length_cons, pow_succ]
    omega

theorem leNat_inj {xs ys : Bytes} (hlen : xs.length = ys.length) (h : leNat xs = leNat ys) :
    xs = ys := by
  induction xs generalizing ys with
  | nil => exact (List.length_eq_zero_iff.mp hlen.symm).symm
  | cons x xs ih =>
    cases ys with
    | nil => simp at hlen
    | cons y ys =>
      have hx := x.toNat_lt
      have hy := y.toNat_lt
      simp only [leNat] at h
      have hhead : x = y := UInt8.toNat_inj.mp (by omega)
      have htail : xs = ys := ih (by simpa using hlen) (by omega)
      rw [hhead, htail]

def beBytes (n x : Nat) : Bytes := (leBytes n x).reverse

def beNat (bs : Bytes) : Nat := leNat bs.reverse

@[simp] theorem length_beBytes (n x : Nat) : (beBytes n x).length = n := by simp [beBytes]

theorem beNat_beBytes (n x : Nat) : beNat (beBytes n x) = x % 256 ^ n := by
  unfold beNat beBytes
  rw [List.reverse_reverse, leNat_leBytes]

theorem beBytes_inj {n x y : Nat} (hx : x < 256 ^ n) (hy : y < 256 ^ n) :
    beBytes n x = beBytes n y ↔ x = y := by
  refine ⟨fun h => ?_, fun h => h ▸ rfl⟩
  have hle := congrArg leNat (List.reverse_injective h)
  rwa [leNat_leBytes, leNat_leBytes, Nat.mod_eq_of_lt hx, Nat.mod_eq_of_lt hy] at hle

/-! ### Byte strings of a fixed length -/

@[ext] structure FixedBytes (n : Nat) where
  bytes : Bytes
  length_eq : bytes.length = n
deriving DecidableEq

instance : LawfulBEq (FixedBytes 32) := inferInstance

def FixedBytes.repeatByte (n : Nat) (b : UInt8) : FixedBytes n :=
  ⟨List.replicate n b, List.length_replicate⟩

def FixedBytes.toNat {n : Nat} (x : FixedBytes n) : Nat := beNat x.bytes

theorem FixedBytes.toNat_lt {n : Nat} (x : FixedBytes n) : x.toNat < 256 ^ n := by
  have h := leNat_lt x.bytes.reverse
  rwa [List.length_reverse, x.length_eq] at h

theorem FixedBytes.toNat_inj {n : Nat} {x y : FixedBytes n} : x.toNat = y.toNat ↔ x = y := by
  refine ⟨fun h => ?_, fun h => h ▸ rfl⟩
  have hrev := leNat_inj (by simp [x.length_eq, y.length_eq]) h
  exact FixedBytes.ext (List.reverse_injective hrev)

/-- Adds one to a number given by its bytes, lowest first, wrapping at the end. -/
def increment : Bytes → Bytes
  | [] => []
  | b :: bs => if b = 255 then 0 :: increment bs else (b + 1) :: bs

@[simp] theorem length_increment (bs : Bytes) : (increment bs).length = bs.length := by
  induction bs with
  | nil => rfl
  | cons b bs ih =>
    rw [increment]
    split <;> simp [ih]

theorem leNat_increment (bs : Bytes) :
    leNat (increment bs) = (leNat bs + 1) % 256 ^ bs.length := by
  induction bs with
  | nil => simp [increment, leNat]
  | cons b bs ih =>
    have hlt := leNat_lt bs
    rw [increment, List.length_cons, pow_succ, mul_comm (256 ^ bs.length)]
    split
    · rename_i hb
      have hsum : b.toNat + 256 * leNat bs + 1 = 256 * (leNat bs + 1) := by
        rw [hb]
        show 255 + 256 * leNat bs + 1 = _
        ring
      rw [leNat, ih, leNat, hsum, Nat.mul_mod_mul_left]
      simp
    · rename_i hb
      have hb' : b.toNat ≠ 255 := fun h => hb (UInt8.toNat_inj.mp h)
      have hb256 := b.toNat_lt
      have hsucc : (b + 1).toNat = b.toNat + 1 := by
        rw [UInt8.toNat_add]
        exact Nat.mod_eq_of_lt (by simp; omega)
      rw [leNat, leNat, hsucc, Nat.mod_eq_of_lt (by omega)]
      ring

/-! ### Hexadecimal text -/

def hexDigit (c : Char) : Option UInt8 :=
  if '0' ≤ c ∧ c ≤ '9' then some (UInt8.ofNat (c.toNat - '0'.toNat))
  else if 'a' ≤ c ∧ c ≤ 'f' then some (UInt8.ofNat (c.toNat - 'a'.toNat + 10))
  else if 'A' ≤ c ∧ c ≤ 'F' then some (UInt8.ofNat (c.toNat - 'A'.toNat + 10))
  else none

def hexDecode : List Char → Option Bytes
  | [] => some []
  | [_] => none
  | high :: low :: rest => do
    let high ← hexDigit high
    let low ← hexDigit low
    let bytes ← hexDecode rest
    pure ((16 * high + low) :: bytes)

def hexEncode (bytes : Bytes) : String :=
  String.ofList (bytes.flatMap fun byte =>
    [Nat.digitChar (byte.toNat / 16), Nat.digitChar (byte.toNat % 16)])

end Machine
