import Mathlib
import JumpScript.Number.Double

/-!
# Bit patterns of finite doubles

A finite double is fixed by its sign and its magnitude, and every magnitude below infinity is the
magnitude of a double of either sign.

How packing undoes unpacking is in none of Mathlib's own modules, but in what comes with all of it.
-/

namespace JumpScript.Double

open Float.Model (Format)
open Float.Model.UnpackedFloat

theorem toNat_unpackExponent (v : BitVec 64) :
    (@unpackExponent Format.binary64 v).toNat
      = v.toNat / 2 ^ 52 % 2 ^ 11 := by
  simp [unpackExponent, BitVec.extractLsb_toNat, Nat.shiftRight_eq_div_pow]

/-- The bits of a magnitude below infinity are not those of NaN: the exponent bits are not all
set. -/
theorem isNaNBits_eq_false {n : UInt64}
    (hfinite : n.toNat % signBit < infinite) :
    @isNaNBits Format.binary64 n.toBitVec = false := by
  have hexponent : @unpackExponent Format.binary64 n.toBitVec ≠ 2047#11 := by
    intro hall
    have hnat := congrArg BitVec.toNat hall
    rw [toNat_unpackExponent] at hnat
    simp [infinite, signBit] at hfinite hnat
    omega
  simp [isNaNBits, hexponent]

theorem toBits_ofBits {n : UInt64}
    (hfinite : n.toNat % signBit < infinite) :
    (Float.ofBits n).toBits = n := by
  change UInt64.ofBitVec
    (pack Format.binary64 (unpack Format.binary64 n.toBitVec)) = n
  rw [pack_unpack, isNaNBits_eq_false hfinite]
  rfl

/-- A bit pattern is made up of its sign and its magnitude. -/
theorem toNat_toBits (x : Float) :
    x.toBits.toNat
      = if isNegative x then signBit + magnitude x else magnitude x := by
  have hlt := x.toBits.toNat_lt
  unfold isNegative magnitude signBit
  split <;> simp_all <;> omega

theorem toNat_toBits_ofMagnitude {b : Nat} (negative : Bool)
    (hfinite : b < infinite) :
    (ofMagnitude negative b).toBits.toNat
      = if negative then signBit + b else b := by
  unfold infinite at hfinite
  rw [ofMagnitude, toBits_ofBits]
  · cases negative <;> simp [signBit] <;> omega
  · cases negative <;> simp [infinite, signBit] <;> omega

@[simp] theorem magnitude_ofMagnitude {b : Nat} (negative : Bool)
    (hfinite : b < infinite) : magnitude (ofMagnitude negative b) = b := by
  rw [magnitude, toNat_toBits_ofMagnitude negative hfinite]
  unfold infinite at hfinite
  cases negative <;> simp <;> omega

theorem isFinite_ofMagnitude {b : Nat} (negative : Bool)
    (hfinite : b < infinite) : isFinite (ofMagnitude negative b) = true := by
  simp [isFinite, hfinite]

/-- Sign and magnitude determine a double. -/
theorem ofMagnitude_magnitude (x : Float) :
    ofMagnitude (isNegative x) (magnitude x) = x := by
  rw [ofMagnitude, ← toNat_toBits, UInt64.ofNat_toNat, Float.ofBits_toBits]

end JumpScript.Double
