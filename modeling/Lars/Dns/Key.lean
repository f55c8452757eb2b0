import Mathlib.Algebra.Order.Ring.Int
import Mathlib.Data.Int.Notation
import Mathlib.Data.Nat.Notation
import Mathlib.Logic.Function.Basic
import Mathlib.Tactic.SplitIfs

/-!
# Keys and values of the route map

Module's and command's ids are `int` in the program, columns of type `int unsigned` in the database
and `int32` in the messages; `route_map` has both in one 64-bit key, and a host's address and port
in one 64-bit value. An `int` is widened with its sign, so that a negative lower half takes one away
from the upper.

No two pairs have one key, or one value (`routeKey_injective`, `hostValue_injective`). The lower
half can be read off (`toInt_halves`); the upper half is read off one too small when the lower is
negative (`toInt_upper`).
-/

namespace Lars.Dns

/-- `atoi` of the text of an `int unsigned` column, which wraps beyond `INT_MAX`. -/
def atoi (n : UInt32) : Int32 := n.toInt32

/-- The conversion of an `int` to `uint64_t`. -/
def ofInt (i : Int32) : UInt64 := i.toInt64.toUInt64

/-- The conversion of a `uint64_t` to `int`, which keeps the lower half. -/
def toInt (n : UInt64) : Int32 := n.toUInt32.toInt32

/-- `((uint64_t)modid << 32) + cmdid`. -/
def routeKey (modid cmdid : Int32) : UInt64 := (ofInt modid <<< 32) + ofInt cmdid

/-- `((uint64_t)ip << 32) + port`. -/
def hostValue (ip : UInt32) (port : Int32) : UInt64 := (ip.toUInt64 <<< 32) + ofInt port

example : routeKey 1 (-1) = 0xffffffff := by decide

/-! ## The halves as integers -/

theorem toNat_ofInt (i : Int32) : ((ofInt i).toNat : ℤ) = i.toInt % 2 ^ 64 := by
  have hnat : (ofInt i).toNat = i.toInt64.toBitVec.toNat := rfl
  have hint : i.toInt64.toBitVec.toInt = i.toInt := Int32.toInt_toInt64 i
  have hlt := i.toInt64.toBitVec.isLt
  rw [hnat, ← hint, BitVec.toInt_eq_toNat_cond]
  split <;> omega

theorem toInt_toInt (n : UInt64) : (toInt n).toInt = Int.bmod n.toNat (2 ^ 32) := by
  have hint : (toInt n).toInt = n.toUInt32.toBitVec.toInt := rfl
  have hnat : n.toUInt32.toBitVec.toNat = n.toNat % 2 ^ 32 := UInt64.toNat_toUInt32 n
  rw [hint, BitVec.toInt_eq_toNat_bmod, hnat]
  exact Int.emod_bmod n.toNat (2 ^ 32)

@[simp] theorem toInt_ofInt (i : Int32) : toInt (ofInt i) = i := by
  have hlt := i.toInt_lt
  have hle := i.le_toInt
  rw [← Int32.toInt_inj, toInt_toInt, toNat_ofInt, Int.bmod_def]
  omega

/-- Two halves put into one number by a shift and a sum. -/
theorem toNat_halves (upper : UInt64) (lower : Int32) :
    (((upper <<< 32) + ofInt lower).toNat : ℤ) =
      ((upper.toNat : ℤ) * 2 ^ 32 + lower.toInt) % 2 ^ 64 := by
  have hshift : upper.toNat <<< ((32 : UInt64).toNat % 64) = upper.toNat * 2 ^ 32 :=
    Nat.shiftLeft_eq _ _
  have hlower := toNat_ofInt lower
  rw [UInt64.toNat_add, UInt64.toNat_shiftLeft, hshift]
  omega

theorem toInt_halves (upper : UInt64) (lower : Int32) :
    toInt ((upper <<< 32) + ofInt lower) = lower := by
  have hlt := lower.toInt_lt
  have hle := lower.le_toInt
  rw [← Int32.toInt_inj, toInt_toInt, toNat_halves, Int.bmod_def]
  omega

/-- A negative lower half has taken one away from the upper. -/
theorem toInt_upper (upper : UInt64) (lower : Int32) :
    toInt (((upper <<< 32) + ofInt lower) >>> 32) =
      toInt upper - if lower < 0 then 1 else 0 := by
  have hlt := lower.toInt_lt
  have hle := lower.le_toInt
  have hneg : lower < 0 ↔ lower.toInt < 0 := Int32.lt_iff_toInt_lt
  have hborrow : (if lower < 0 then (1 : Int32) else 0).toInt =
      if lower.toInt < 0 then 1 else 0 := by
    simp only [hneg]
    split_ifs <;> rfl
  have hshift : (((upper <<< 32) + ofInt lower) >>> 32).toNat =
      ((upper <<< 32) + ofInt lower).toNat / 2 ^ 32 := by
    rw [UInt64.toNat_shiftRight]
    exact Nat.shiftRight_eq_div_pow _ _
  have hnat := toNat_halves upper lower
  rw [← Int32.toInt_inj, Int32.toInt_sub, toInt_toInt, toInt_toInt, Int.bmod_sub_bmod, hborrow,
    ← Int.emod_bmod, ← Int.emod_bmod (_ - _), hshift]
  congr 1
  split_ifs <;> omega

theorem halves_injective {upper upper' : UInt64} {lower lower' : Int32}
    (h : (upper <<< 32) + ofInt lower = (upper' <<< 32) + ofInt lower') :
    toInt upper = toInt upper' ∧ lower = lower' := by
  obtain rfl : lower = lower' := by rw [← toInt_halves upper lower, h, toInt_halves]
  have hupper := toInt_upper upper lower
  rw [h, toInt_upper] at hupper
  exact ⟨((Int32.sub_left_inj _).mp hupper).symm, rfl⟩

/-! ## Keys and values -/

theorem toInt_routeKey (modid cmdid : Int32) : toInt (routeKey modid cmdid) = cmdid :=
  toInt_halves _ cmdid

theorem toInt_routeKey_upper (modid cmdid : Int32) :
    toInt (routeKey modid cmdid >>> 32) = modid - if cmdid < 0 then 1 else 0 := by
  rw [routeKey, toInt_upper, toInt_ofInt]

theorem routeKey_injective : Function.Injective2 routeKey := by
  intro modid modid' cmdid cmdid' h
  simpa using halves_injective h

theorem hostValue_injective : Function.Injective2 hostValue := by
  intro ip ip' port port' h
  obtain ⟨hip, hport⟩ := halves_injective h
  have hwiden : ∀ n : UInt32, toInt n.toUInt64 = n.toInt32 := fun n => by simp [toInt]
  rw [hwiden, hwiden] at hip
  exact ⟨by simpa using congrArg Int32.toUInt32 hip, hport⟩

end Lars.Dns
