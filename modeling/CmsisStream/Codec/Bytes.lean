import Mathlib.Data.List.Basic
import Mathlib.Data.BitVec
import Mathlib.Tactic.NormNum
import Mathlib.Tactic.Ring

/-!
# Machine words as bytes

A word of `n` bytes is stored with its least significant byte first.
-/

namespace Codec

/-- The `n` bytes of a number modulo `256 ^ n`. -/
def littleEndian : ℕ → ℕ → List UInt8
  | 0, _ => []
  | n + 1, value => UInt8.ofNat value :: littleEndian n (value / 256)

/-- The number stored in some bytes. -/
def ofLittleEndian : List UInt8 → ℕ
  | [] => 0
  | byte :: bytes => byte.toNat + 256 * ofLittleEndian bytes

@[simp]
theorem length_littleEndian (n value : ℕ) : (littleEndian n value).length = n := by
  induction n generalizing value with
  | zero => rfl
  | succ n ih => simp [littleEndian, ih]

theorem ofLittleEndian_littleEndian (n value : ℕ) :
    ofLittleEndian (littleEndian n value) = value % 256 ^ n := by
  induction n generalizing value with
  | zero => simp [littleEndian, ofLittleEndian, Nat.mod_one]
  | succ n ih =>
      have split : value % 256 ^ (n + 1) = value % 256 + 256 * (value / 256 % 256 ^ n) := by
        rw [pow_succ', Nat.mod_mul]
      simp only [littleEndian, ofLittleEndian, ih, UInt8.toNat_ofNat', split]

theorem littleEndian_ofLittleEndian (bytes : List UInt8) :
    littleEndian bytes.length (ofLittleEndian bytes) = bytes := by
  induction bytes with
  | nil => rfl
  | cons byte bytes ih =>
      have lt := byte.toNat_lt
      have low : UInt8.ofNat (byte.toNat + 256 * ofLittleEndian bytes) = byte := by
        apply UInt8.toNat_inj.mp
        rw [UInt8.toNat_ofNat']
        omega
      have high : (byte.toNat + 256 * ofLittleEndian bytes) / 256 = ofLittleEndian bytes := by
        omega
      rw [List.length_cons, littleEndian, ofLittleEndian, low, high, ih]

theorem ofLittleEndian_lt (bytes : List UInt8) : ofLittleEndian bytes < 256 ^ bytes.length := by
  induction bytes with
  | nil => simp [ofLittleEndian]
  | cons byte bytes ih =>
      have lt := byte.toNat_lt
      rw [ofLittleEndian, List.length_cons, pow_succ']
      omega

/-- A word of `n` bytes. -/
abbrev Word (n : ℕ) := BitVec (8 * n)

namespace Word

variable {n : ℕ}

/-- A number modulo `2 ^ (8 * n)`. -/
def ofNat (n value : ℕ) : Word n := BitVec.ofNat _ value

/-- The two's complement of a number. -/
def ofInt (n : ℕ) (value : ℤ) : Word n := BitVec.ofInt _ value

def bytes (word : Word n) : List UInt8 := littleEndian n word.toNat

def ofBytes (n : ℕ) (bytes : List UInt8) : Word n := BitVec.ofNat _ (ofLittleEndian bytes)

@[simp]
theorem length_bytes (word : Word n) : word.bytes.length = n := length_littleEndian n _

@[simp]
theorem length_flatMap_bytes (words : List (Word n)) :
    (words.flatMap bytes).length = words.length * n := by
  induction words with
  | nil => simp
  | cons word words ih =>
      rw [List.flatMap_cons, List.length_append, length_bytes, ih, List.length_cons]
      ring

theorem two_pow_eq (n : ℕ) : 2 ^ (8 * n) = 256 ^ n := by
  rw [pow_mul]
  norm_num

@[simp]
theorem ofBytes_bytes (word : Word n) : ofBytes n word.bytes = word := by
  apply BitVec.eq_of_toNat_eq
  have power := two_pow_eq n
  have bound : word.toNat < 256 ^ n := power ▸ word.isLt
  simp only [ofBytes, bytes, ofLittleEndian_littleEndian, BitVec.toNat_ofNat, power]
  rw [Nat.mod_mod, Nat.mod_eq_of_lt bound]

theorem bytes_ofBytes {bytes : List UInt8} (length : bytes.length = n) :
    (ofBytes n bytes).bytes = bytes := by
  have power := two_pow_eq n
  have lt := ofLittleEndian_lt bytes
  simp only [ofBytes, Word.bytes, BitVec.toNat_ofNat, power]
  rw [← length, Nat.mod_eq_of_lt lt, littleEndian_ofLittleEndian]

end Word

end Codec
