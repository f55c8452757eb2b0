import Mathlib.Data.List.Basic
import Mathlib.Tactic.Ring

/-!
# Little-endian integers

The bytes of a fixed-width integer in memory order, least significant first, and the integer a list
of bytes stands for. Reading what was written gives the integer back modulo `256 ^ k`
(`ofBytes_toBytes`), hence the integer itself when it fits (`ofBytes_toBytes_of_lt`); the 32-bit
case is stated for the machine type (`int32_roundtrip`).
-/

namespace Lars.LittleEndian

/-- The `k` low bytes of `n`, least significant first. -/
def toBytes : ℕ → ℕ → List UInt8
  | 0, _ => []
  | k + 1, n => UInt8.ofNat (n % 256) :: toBytes k (n / 256)

/-- The natural number with the given bytes, least significant first. -/
def ofBytes (l : List UInt8) : ℕ := l.foldr (fun b n => b.toNat + 256 * n) 0

@[simp] theorem length_toBytes (k n : ℕ) : (toBytes k n).length = k := by
  induction k generalizing n with
  | zero => rfl
  | succ k ih => rw [toBytes, List.length_cons, ih]

theorem ofBytes_toBytes (k n : ℕ) : ofBytes (toBytes k n) = n % 256 ^ k := by
  induction k generalizing n with
  | zero => simp [toBytes, ofBytes, Nat.mod_one]
  | succ k ih =>
    have hrest : (toBytes k (n / 256)).foldr (fun b n => b.toNat + 256 * n) 0 =
        n / 256 % 256 ^ k := ih (n / 256)
    have hbyte : n % 256 % 2 ^ 8 = n % 256 := Nat.mod_mod_of_dvd n (by decide)
    rw [toBytes, ofBytes, List.foldr_cons, hrest, UInt8.toNat_ofNat', hbyte, pow_succ', Nat.mod_mul]

theorem ofBytes_toBytes_of_lt {k n : ℕ} (h : n < 256 ^ k) : ofBytes (toBytes k n) = n := by
  rw [ofBytes_toBytes, Nat.mod_eq_of_lt h]

theorem ofBytes_cons (b : UInt8) (l : List UInt8) :
    ofBytes (b :: l) = b.toNat + 256 * ofBytes l := rfl

theorem toBytes_ofBytes (l : List UInt8) : toBytes l.length (ofBytes l) = l := by
  induction l with
  | nil => rfl
  | cons b l ih =>
    have hb : b.toNat < 256 := b.toNat_lt
    have hmod : (b.toNat + 256 * ofBytes l) % 256 = b.toNat := by omega
    have hdiv : (b.toNat + 256 * ofBytes l) / 256 = ofBytes l := by omega
    rw [List.length_cons, toBytes, ofBytes_cons, hmod, hdiv, ih, UInt8.ofNat_toNat]

theorem ofBytes_lt (l : List UInt8) : ofBytes l < 256 ^ l.length := by
  induction l with
  | nil => simp [ofBytes]
  | cons b l ih =>
    have hb : b.toNat < 256 := b.toNat_lt
    rw [ofBytes_cons, List.length_cons, pow_succ]
    omega

/-- The four bytes of a 32-bit integer. -/
def int32Bytes (x : Int32) : List UInt8 := toBytes 4 x.toUInt32.toNat

/-- The 32-bit integer with the given bytes. -/
def int32OfBytes (l : List UInt8) : Int32 := (UInt32.ofNat (ofBytes l)).toInt32

@[simp] theorem length_int32Bytes (x : Int32) : (int32Bytes x).length = 4 := length_toBytes ..

/-- A 32-bit integer read back from its four bytes. -/
@[simp] theorem int32_roundtrip (x : Int32) : int32OfBytes (int32Bytes x) = x := by
  have hlt : x.toUInt32.toNat < 256 ^ 4 := UInt32.toNat_lt _
  rw [int32OfBytes, int32Bytes, ofBytes_toBytes_of_lt hlt, UInt32.ofNat_toNat]
  rfl

/-- Four bytes written back from the integer they stand for. -/
theorem int32Bytes_ofBytes {l : List UInt8} (h : l.length = 4) :
    int32Bytes (int32OfBytes l) = l := by
  have hlt : ofBytes l < 2 ^ 32 := by
    have := ofBytes_lt l
    rwa [h] at this
  have hnat : (int32OfBytes l).toUInt32.toNat = ofBytes l :=
    UInt32.toNat_ofNat_of_lt' hlt
  have := toBytes_ofBytes l
  rwa [h, ← hnat] at this

end Lars.LittleEndian
