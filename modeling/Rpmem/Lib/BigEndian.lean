/-
# Big-endian fields of a byte buffer

A buffer of `n` bytes is a function `Fin n → UInt8`.  `readBE b o w` is the
number in the `w` bytes at offset `o`, most significant byte first;
`writeBE b o w v` stores `v` there and leaves every other byte alone.  The
two are inverse to each other on a field that lies in the buffer, and fields
that do not overlap do not see each other.

`getBits` and `putBits` are the same field typed by its width in bits.
-/

import Mathlib.Data.Nat.Basic
import Mathlib.Tactic.Ring

namespace BigEndian

/-- A buffer of `n` bytes. -/
abbrev Bytes (n : ℕ) := Fin n → UInt8

variable {n : ℕ}

/-- Byte `i` of the buffer, `0` past its end. -/
def byte (b : Bytes n) (i : ℕ) : ℕ := if h : i < n then (b ⟨i, h⟩).toNat else 0

theorem byte_lt (b : Bytes n) (i : ℕ) : byte b i < 256 := by
  unfold byte
  split_ifs
  · exact UInt8.toNat_lt _
  · norm_num

/-- The `w`-byte big-endian number at offset `o`. -/
def readBE (b : Bytes n) (o : ℕ) : ℕ → ℕ
  | 0 => 0
  | w + 1 => readBE b o w * 256 + byte b (o + w)

/-- Store the low `w` bytes of `v` at offset `o`, most significant byte first. -/
def writeBE (b : Bytes n) (o w v : ℕ) : Bytes n := fun i =>
  if o ≤ i.val ∧ i.val < o + w then UInt8.ofNat (v / 256 ^ (o + w - 1 - i.val)) else b i

theorem readBE_lt (b : Bytes n) (o w : ℕ) : readBE b o w < 256 ^ w := by
  induction w with
  | zero => exact Nat.one_pos
  | succ w ih =>
      have := byte_lt b (o + w)
      rw [readBE, Nat.pow_succ]
      omega

/-- A field is its first `k` bytes followed by the rest. -/
theorem readBE_add (b : Bytes n) (o k j : ℕ) :
    readBE b o (k + j) = readBE b o k * 256 ^ j + readBE b (o + k) j := by
  induction j with
  | zero => simp [readBE]
  | succ j ih =>
      rw [← Nat.add_assoc, readBE, ih, readBE, Nat.pow_succ, ← Nat.add_assoc]
      ring

/-- Bytes outside the stored field keep their value. -/
theorem writeBE_apply_of_not_mem (b : Bytes n) {o w : ℕ} (v : ℕ) {i : Fin n}
    (h : i.val < o ∨ o + w ≤ i.val) : writeBE b o w v i = b i := by
  rw [writeBE, if_neg (by omega)]

theorem byte_writeBE_of_mem (b : Bytes n) {o w i : ℕ} (v : ℕ) (hn : o + w ≤ n) (hi : o ≤ i)
    (hi' : i < o + w) : byte (writeBE b o w v) i = v / 256 ^ (o + w - 1 - i) % 256 := by
  rw [byte, dif_pos (by omega), writeBE, if_pos ⟨hi, hi'⟩, UInt8.toNat_ofNat']

theorem byte_writeBE_of_not_mem (b : Bytes n) {o w i : ℕ} (v : ℕ) (h : i < o ∨ o + w ≤ i) :
    byte (writeBE b o w v) i = byte b i := by
  unfold byte
  split_ifs
  · rw [writeBE_apply_of_not_mem b v h]
  · rfl

/-- The first `k` bytes of a stored field are the number's first `k` base-256 digits. -/
theorem readBE_writeBE_take (b : Bytes n) (o w v k : ℕ) (hn : o + w ≤ n) (hk : k ≤ w) :
    readBE (writeBE b o w v) o k = v / 256 ^ (w - k) % 256 ^ k := by
  induction k with
  | zero => simp [readBE, Nat.mod_one]
  | succ k ih =>
      rw [readBE, ih (by omega), byte_writeBE_of_mem b v hn (by omega) (by omega),
        show o + w - 1 - (o + k) = w - (k + 1) by omega,
        show w - k = w - (k + 1) + 1 by omega, Nat.pow_succ, Nat.pow_succ, ← Nat.div_div_eq_div_mul,
        Nat.mul_comm (256 ^ k), Nat.mod_mul]
      ring

/-- **Reading back a stored field** gives the number, up to the field's width. -/
theorem readBE_writeBE (b : Bytes n) {o w : ℕ} (v : ℕ) (hn : o + w ≤ n) :
    readBE (writeBE b o w v) o w = v % 256 ^ w := by
  simpa using readBE_writeBE_take b o w v w hn le_rfl

/-- **Fields that do not overlap** do not see each other's stores. -/
theorem readBE_writeBE_of_disjoint (b : Bytes n) {o w o' w' : ℕ} (v : ℕ)
    (h : o' + w' ≤ o ∨ o + w ≤ o') : readBE (writeBE b o w v) o' w' = readBE b o' w' := by
  induction w' with
  | zero => rfl
  | succ w' ih => rw [readBE, readBE, ih (by omega), byte_writeBE_of_not_mem b v (by omega)]

/-- **Storing what was read** changes nothing. -/
theorem writeBE_readBE (b : Bytes n) (o w : ℕ) : writeBE b o w (readBE b o w) = b := by
  funext i
  by_cases h : o ≤ i.val ∧ i.val < o + w
  · obtain ⟨k, hk⟩ := Nat.exists_eq_add_of_le h.1
    obtain ⟨j, hj⟩ := Nat.exists_eq_add_of_lt h.2
    have hw : w = k + 1 + j := by omega
    have hdiv : readBE b o w / 256 ^ j = readBE b o (k + 1) := by
      rw [hw, readBE_add, Nat.mul_comm, Nat.mul_add_div (Nat.pow_pos (by norm_num)),
        Nat.div_eq_of_lt (readBE_lt b _ j), Nat.add_zero]
    have hbyte : byte b i.val = (b i).toNat := by rw [byte, dif_pos i.isLt]
    rw [writeBE, if_pos h, show o + w - 1 - i.val = j by omega, hdiv, readBE, ← hk, hbyte]
    apply UInt8.toNat_inj.1
    have := UInt8.toNat_lt (b i)
    rw [UInt8.toNat_ofNat']
    omega
  · rw [writeBE, if_neg h]

/-! ### Fields typed by their width -/

/-- The `k`-bit big-endian field at offset `o`. -/
def getBits (k : ℕ) (b : Bytes n) (o : ℕ) : BitVec k := BitVec.ofNat k (readBE b o (k / 8))

/-- Store `v` as a `k`-bit big-endian field at offset `o`. -/
def putBits {k : ℕ} (b : Bytes n) (o : ℕ) (v : BitVec k) : Bytes n := writeBE b o (k / 8) v.toNat

theorem pow_width {k : ℕ} (hk : 8 ∣ k) : 256 ^ (k / 8) = 2 ^ k := by
  rw [show 256 = 2 ^ 8 by norm_num, ← Nat.pow_mul, Nat.mul_div_cancel' hk]

theorem putBits_apply_of_not_mem {k : ℕ} (b : Bytes n) {o : ℕ} (v : BitVec k) {i : Fin n}
    (h : i.val < o ∨ o + k / 8 ≤ i.val) : putBits b o v i = b i :=
  writeBE_apply_of_not_mem b v.toNat h

/-- A stored field reads back as the stored value. -/
theorem getBits_putBits {k : ℕ} (hk : 8 ∣ k) (b : Bytes n) {o : ℕ} (v : BitVec k)
    (hn : o + k / 8 ≤ n) : getBits k (putBits b o v) o = v := by
  rw [getBits, putBits, readBE_writeBE b v.toNat hn, pow_width hk, Nat.mod_eq_of_lt v.isLt,
    BitVec.ofNat_toNat, BitVec.setWidth_eq]

theorem getBits_putBits_of_disjoint {k k' : ℕ} (b : Bytes n) {o o' : ℕ} (v : BitVec k)
    (h : o' + k' / 8 ≤ o ∨ o + k / 8 ≤ o') : getBits k' (putBits b o v) o' = getBits k' b o' := by
  rw [getBits, putBits, readBE_writeBE_of_disjoint b v.toNat h, getBits]

/-- Storing what a field holds changes nothing. -/
theorem putBits_getBits {k : ℕ} (hk : 8 ∣ k) (b : Bytes n) (o : ℕ) :
    putBits b o (getBits k b o) = b := by
  rw [putBits, getBits, BitVec.toNat_ofNat, ← pow_width hk, Nat.mod_eq_of_lt (readBE_lt b o _),
    writeBE_readBE]

end BigEndian
