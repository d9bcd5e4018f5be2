import Mathlib.Data.Nat.Digits.Defs

namespace Hydracore.Formats

open List

abbrev Bytes := List UInt8

def bigEndian : ℕ → ℕ → Bytes
  | 0, _ => []
  | w + 1, n => UInt8.ofNat (n / 256 ^ w) :: bigEndian w (n % 256 ^ w)

def ofBigEndian (b : Bytes) : ℕ := b.foldl (fun acc x => acc * 256 + x.toNat) 0

@[simp] theorem bigEndian_length (w n : ℕ) : (bigEndian w n).length = w := by
  induction w generalizing n with
  | zero => rfl
  | succ w ih => simp [bigEndian, ih]

theorem foldl_eq_ofBigEndian (b : Bytes) (acc : ℕ) :
    b.foldl (fun acc x => acc * 256 + x.toNat) acc = acc * 256 ^ b.length + ofBigEndian b := by
  induction b generalizing acc with
  | nil => simp [ofBigEndian]
  | cons x b ih =>
    have hcons : ofBigEndian (x :: b) = (0 * 256 + x.toNat) * 256 ^ b.length + ofBigEndian b := by
      rw [ofBigEndian, foldl_cons, ih]
    rw [foldl_cons, ih, hcons, length_cons]
    ring

theorem ofBigEndian_cons (x : UInt8) (b : Bytes) :
    ofBigEndian (x :: b) = x.toNat * 256 ^ b.length + ofBigEndian b := by
  rw [ofBigEndian, foldl_cons, foldl_eq_ofBigEndian, Nat.zero_mul, Nat.zero_add]

theorem ofBigEndian_bigEndian {w n : ℕ} (h : n < 256 ^ w) : ofBigEndian (bigEndian w n) = n := by
  induction w generalizing n with
  | zero => exact (Nat.lt_one_iff.mp h).symm
  | succ w ih =>
    have hpos : 0 < 256 ^ w := Nat.pow_pos (by decide)
    have hq : n / 256 ^ w < 256 := by
      rw [Nat.div_lt_iff_lt_mul hpos, Nat.mul_comm, ← Nat.pow_succ]
      exact h
    rw [bigEndian, ofBigEndian_cons, ih (Nat.mod_lt _ hpos), bigEndian_length, UInt8.toNat_ofNat',
      Nat.mod_eq_of_lt hq, Nat.div_add_mod']

theorem ofBigEndian_lt (b : Bytes) : ofBigEndian b < 256 ^ b.length := by
  induction b with
  | nil => simp [ofBigEndian]
  | cons x b ih =>
    have hx : x.toNat + 1 ≤ 256 := x.toNat_lt
    calc ofBigEndian (x :: b) = x.toNat * 256 ^ b.length + ofBigEndian b := ofBigEndian_cons x b
      _ < x.toNat * 256 ^ b.length + 256 ^ b.length := Nat.add_lt_add_left ih _
      _ = (x.toNat + 1) * 256 ^ b.length := by ring
      _ ≤ 256 * 256 ^ b.length := Nat.mul_le_mul_right _ hx
      _ = 256 ^ (x :: b).length := by rw [length_cons, Nat.pow_succ, Nat.mul_comm]

theorem ofBigEndian_take_lt (b : Bytes) (n : ℕ) : ofBigEndian (b.take n) < 256 ^ n :=
  Nat.lt_of_lt_of_le (ofBigEndian_lt _) (Nat.pow_le_pow_right (by decide) (length_take_le n b))

theorem bigEndian_ofBigEndian (b : Bytes) : bigEndian b.length (ofBigEndian b) = b := by
  induction b with
  | nil => rfl
  | cons x b ih =>
    have hlt := ofBigEndian_lt b
    have hpos : 0 < 256 ^ b.length := Nat.pow_pos (by decide)
    rw [length_cons, bigEndian, ofBigEndian_cons]
    have hdiv : (x.toNat * 256 ^ b.length + ofBigEndian b) / 256 ^ b.length = x.toNat := by
      rw [Nat.add_comm, Nat.add_mul_div_right _ _ hpos, Nat.div_eq_of_lt hlt, Nat.zero_add]
    have hmod : (x.toNat * 256 ^ b.length + ofBigEndian b) % 256 ^ b.length = ofBigEndian b := by
      rw [Nat.add_comm, Nat.add_mul_mod_self_right, Nat.mod_eq_of_lt hlt]
    rw [hdiv, hmod, ih, UInt8.ofNat_toNat]

@[simp] theorem ofBigEndian_uint16 (x : UInt16) : ofBigEndian (bigEndian 2 x.toNat) = x.toNat :=
  ofBigEndian_bigEndian x.toNat_lt

@[simp] theorem ofBigEndian_uint32 (x : UInt32) : ofBigEndian (bigEndian 4 x.toNat) = x.toNat :=
  ofBigEndian_bigEndian x.toNat_lt

@[simp] theorem ofBigEndian_uint64 (x : UInt64) : ofBigEndian (bigEndian 8 x.toNat) = x.toNat :=
  ofBigEndian_bigEndian x.toNat_lt

variable {b : Bytes}

theorem bigEndian_mod_ofBigEndian {w m : ℕ} (h : b.length = w) (hm : m = 256 ^ w) :
    bigEndian w (ofBigEndian b % m) = b := by
  subst h hm
  rw [Nat.mod_eq_of_lt (ofBigEndian_lt b), bigEndian_ofBigEndian]

theorem bigEndian_uint16_ofNat (h : b.length = 2) : bigEndian 2 (UInt16.ofNat (ofBigEndian b)).toNat = b := by
  rw [UInt16.toNat_ofNat', bigEndian_mod_ofBigEndian h (by decide)]

theorem bigEndian_uint32_ofNat (h : b.length = 4) : bigEndian 4 (UInt32.ofNat (ofBigEndian b)).toNat = b := by
  rw [UInt32.toNat_ofNat', bigEndian_mod_ofBigEndian h (by decide)]

theorem bigEndian_uint64_ofNat (h : b.length = 8) : bigEndian 8 (UInt64.ofNat (ofBigEndian b)).toNat = b := by
  rw [UInt64.toNat_ofNat', bigEndian_mod_ofBigEndian h (by decide)]

theorem bigEndian_injective {w m n : ℕ} (hm : m < 256 ^ w) (hn : n < 256 ^ w)
    (h : bigEndian w m = bigEndian w n) : m = n := by
  rw [← ofBigEndian_bigEndian hm, h, ofBigEndian_bigEndian hn]

def maxVarintLen64 : ℕ := 10

def uvarintGroups : ℕ → ℕ → Bytes
  | 0, _ => []
  | k + 1, n => if n < 128 then [UInt8.ofNat n] else UInt8.ofNat (n % 128 + 128) :: uvarintGroups k (n / 128)

def putUvarint (x : UInt64) : Bytes := uvarintGroups maxVarintLen64 x.toNat

def readGroups : ℕ → Bytes → Option (ℕ × Bytes)
  | 0, _ => none
  | _ + 1, [] => none
  | k + 1, b :: rest =>
    if b.toNat < 128 then
      if k = 0 ∧ 1 < b.toNat then none else some (b.toNat, rest)
    else (readGroups k rest).map fun (x, rest) => (b.toNat % 128 + 128 * x, rest)

def readUvarint (raw : Bytes) : Option (UInt64 × Bytes) :=
  (readGroups maxVarintLen64 raw).map fun (x, rest) => (UInt64.ofNat x, rest)

theorem uvarintGroups_length {k n : ℕ} {j : ℕ} (hn : n < 128 ^ (j + 1)) : (uvarintGroups k n).length ≤ j + 1 := by
  induction k generalizing n j with
  | zero => exact Nat.zero_le _
  | succ k ih =>
    unfold uvarintGroups
    split_ifs with hsmall
    · simp
    · cases j with
      | zero => omega
      | succ j =>
        have hdiv : n / 128 < 128 ^ (j + 1) := by
          rw [Nat.div_lt_iff_lt_mul (by decide), ← Nat.pow_succ]
          exact hn
        exact Nat.succ_le_succ (ih hdiv)

theorem readGroups_uvarintGroups {k n : ℕ} (hn : n < 2 * 128 ^ k) (rest : Bytes) :
    readGroups (k + 1) (uvarintGroups (k + 1) n ++ rest) = some (n, rest) := by
  induction k generalizing n with
  | zero =>
    have hbyte : (UInt8.ofNat n).toNat = n := by
      rw [UInt8.toNat_ofNat', Nat.mod_eq_of_lt (by omega)]
    simp [uvarintGroups, readGroups, hbyte, (by omega : n < 128), (by omega : n ≤ 1)]
  | succ k ih =>
    rw [uvarintGroups]
    split_ifs with hsmall
    · have hbyte : (UInt8.ofNat n).toNat = n := by
        rw [UInt8.toNat_ofNat', Nat.mod_eq_of_lt (by omega)]
      simp [readGroups, hbyte, hsmall]
    · have hbyte : (UInt8.ofNat (n % 128 + 128)).toNat = n % 128 + 128 := by
        rw [UInt8.toNat_ofNat', Nat.mod_eq_of_lt (by omega)]
      have hdiv : n / 128 < 2 * 128 ^ k := by
        rw [Nat.div_lt_iff_lt_mul (by decide), Nat.mul_assoc, ← Nat.pow_succ]
        exact hn
      rw [cons_append, readGroups, hbyte, if_neg (by omega), ih hdiv]
      simp only [Option.map_some, Option.some.injEq, Prod.mk.injEq, and_true]
      omega

theorem readUvarint_putUvarint (x : UInt64) (rest : Bytes) : readUvarint (putUvarint x ++ rest) = some (x, rest) := by
  have hx : x.toNat < 2 * 128 ^ 9 := x.toNat_lt
  rw [readUvarint, putUvarint, maxVarintLen64, readGroups_uvarintGroups hx rest]
  simp

structure AddressSerializer (α : Type) where
  writeAddrPort : α → Option Bytes
  readAddrPort : Bytes → Option (α × Bytes)
  readAddrPort_append {a : α} {b : Bytes} (rest : Bytes) (h : writeAddrPort a = some b) :
    readAddrPort (b ++ rest) = some (a, rest)

structure IPv4AddrPort where
  a : UInt8
  b : UInt8
  c : UInt8
  d : UInt8
  high : UInt8
  low : UInt8
deriving DecidableEq

end Hydracore.Formats
