import JumpScript.Proofs.Number.Bits
import JumpScript.Proofs.Number.Rounding

/-!
# The order of doubles

Two doubles that are numbers stand to each other as their magnitudes do, once these have been given
the signs of the doubles.  Rounding never turns two quotients round, so that the doubles nearest to
two integers stand to each other as the integers do, or are the same.
-/

namespace JumpScript.Double

open Float.Model
open Float.Model.UnpackedFloat (Sign unpackMantissa unpackExponent unpackSign)

def sign (x : Float) : Sign := if isNegative x then .negative else .positive

/-- The form in which doubles are compared, by sign and magnitude. -/
inductive Unpacked (s : Sign) : (magnitude : Nat) → UnpackedFloat → Prop where
  | notANumber {b : Nat} (hb : infinite < b) : Unpacked s b .notANumber
  | infinity : Unpacked s infinite (.infinity s)
  | zero : Unpacked s 0 (.zero s)
  | finite {b : Nat} (hpos : 0 < b) (hfinite : b < infinite) (h : 0 < significand b) :
      Unpacked s b (.finite s (significand b) (exponent b - 1074) h)

theorem toNat_unpackMantissa (v : BitVec 64) :
    (@unpackMantissa Format.binary64 v).toNat = v.toNat % 2 ^ 52 := by
  simp [unpackMantissa, BitVec.extractLsb_toNat]

theorem toNat_unpackSign (v : BitVec 64) :
    (@unpackSign Format.binary64 v).toNat = v.toNat / 2 ^ 63 := by
  have hlt := v.isLt
  simp [unpackSign, BitVec.extractLsb_toNat, Nat.shiftRight_eq_div_pow]
  omega

theorem ofBitVec_unpackSign (x : Float) :
    Sign.ofBitVec (@unpackSign Format.binary64 x.toBits.toBitVec) = sign x := by
  have hlt := x.toBits.toNat_lt
  have hzero : @unpackSign Format.binary64 x.toBits.toBitVec = 0#1 ↔ isNegative x = false := by
    rw [← BitVec.toNat_inj, toNat_unpackSign, isNegative, decide_eq_false_iff_not]
    simp only [BitVec.toNat_ofNat, UInt64.toNat_toBitVec, signBit]
    omega
  rw [Sign.ofBitVec, sign]
  cases hneg : isNegative x with
  | false => rw [if_pos (hzero.mpr hneg)]; rfl
  | true => rw [if_neg (by rw [hzero, hneg]; decide)]; rfl

theorem magnitude_eq (x : Float) :
    magnitude x = (@unpackExponent Format.binary64 x.toBits.toBitVec).toNat * leadingBit
      + (@unpackMantissa Format.binary64 x.toBits.toBitVec).toNat := by
  rw [toNat_unpackExponent, toNat_unpackMantissa, magnitude]
  simp only [UInt64.toNat_toBitVec, signBit, leadingBit]
  omega

theorem toNat_one_append (m : BitVec 52) : (1#1 ++ m).toNat = leadingBit + m.toNat := by
  rw [BitVec.toNat_append, BitVec.toNat_ofNat, ← Nat.shiftLeft_add_eq_or_of_lt m.isLt]
  rfl

theorem Unpacked.of_eq {s : Sign} {b m : Nat} {e : Int} {h : 0 < m} (hpos : 0 < b)
    (hfinite : b < infinite) (hm : m = significand b) (he : e = exponent b - 1074) :
    Unpacked s b (.finite s m e h) := by
  subst hm he
  exact .finite hpos hfinite h

/-- A double is unpacked as its sign and magnitude say. -/
theorem unpacked (x : Float) : Unpacked (sign x) (magnitude x) x.toModel.unpack := by
  change Unpacked _ _ (UnpackedFloat.unpack Format.binary64 x.toBits.toBitVec)
  have hexponent := (@unpackExponent Format.binary64 x.toBits.toBitVec).isLt
  have hmantissa := (@unpackMantissa Format.binary64 x.toBits.toBitVec).isLt
  change _ < 2 ^ 11 at hexponent
  change _ < 2 ^ 52 at hmantissa
  have hbias : (Format.binary64.exponentBias : Int)
      + Format.binary64.mantissaBitsWithoutImplicit = 1075 := rfl
  rw [UnpackedFloat.unpack, ofBitVec_unpackSign, magnitude_eq, hbias]
  dsimp only
  split
  next hones =>
    have hall := congrArg BitVec.toNat hones
    change _ = 2047 at hall
    split
    next hzero =>
      rw [hall, hzero]
      exact .infinity
    next hsome =>
      have hpos := mt BitVec.eq_of_toNat_eq hsome
      change _ ≠ 0 at hpos
      refine .notANumber ?_
      unfold infinite leadingBit
      omega
  next hones =>
    have hnot := mt BitVec.eq_of_toNat_eq hones
    change _ ≠ 2047 at hnot
    split
    next hzeros =>
      have hlow := congrArg BitVec.toNat hzeros
      change _ = 0 at hlow
      split
      next hzero =>
        rw [hlow, hzero]
        exact .zero
      next hsome =>
        have hpos := mt BitVec.eq_of_toNat_eq hsome
        change _ ≠ 0 at hpos
        refine .of_eq ?_ ?_ ?_ ?_
        · omega
        · unfold infinite leadingBit
          omega
        · unfold significand leadingBit
          split <;> omega
        · unfold exponent leadingBit
          split <;> omega
    next hzeros =>
      have hhigh := mt BitVec.eq_of_toNat_eq hzeros
      change _ ≠ 0 at hhigh
      refine .of_eq ?_ ?_ ?_ ?_
      · unfold leadingBit
        omega
      · unfold infinite leadingBit
        omega
      · rw [toNat_one_append]
        unfold significand leadingBit
        split <;> omega
      · unfold exponent leadingBit
        split <;> omega

def notANumber : Float := Float.ofBits 0x7FF8000000000001

/-- How two floats stand to each other; a float that is not a number stands nowhere. -/
def standing (x y : Float) : Option Ordering := x.toModel.unpack.compare y.toModel.unpack

theorem lt_iff_standing {x y : Float} : x < y ↔ standing x y = some .lt := by
  change decide (UnpackedFloat.lt _ _ = true) = true ↔ _
  rw [decide_eq_true_iff, UnpackedFloat.lt, beq_iff_eq]
  rfl

theorem beq_iff_standing {x y : Float} : (x == y) = true ↔ standing x y = some .eq := by
  change UnpackedFloat.beq _ _ = true ↔ _
  rw [UnpackedFloat.beq, beq_iff_eq]
  rfl

theorem compare_sign_swap (s t : UnpackedFloat.Sign) : (compare s t).swap = compare t s := by
  cases s <;> cases t <;> rfl

theorem compare_swap (x y : UnpackedFloat) : y.compare x = (x.compare y).map Ordering.swap := by
  have hmagnitudes : ∀ (e f : Int) (m n : Nat),
      (compare f e).then (compare n m) = ((compare e f).then (compare m n)).swap := by
    intro e f m n
    rw [Ordering.swap_then, Int.compare_swap, Nat.compare_swap]
  cases x with
  | notANumber => cases y <;> rfl
  | infinity s =>
      cases y with
      | infinity t => exact congrArg some (compare_sign_swap s t).symm
      | _ => cases s <;> rfl
  | zero s =>
      cases y with
      | infinity t => cases t <;> rfl
      | finite t n f hn => cases t <;> rfl
      | _ => rfl
  | finite s m e hm =>
      cases y with
      | notANumber => cases s <;> rfl
      | infinity t => cases s <;> cases t <;> rfl
      | zero t => cases s <;> rfl
      | finite t n f hn =>
          cases s with
          | positive =>
              cases t with
              | positive => exact congrArg some (hmagnitudes e f m n)
              | negative => rfl
          | negative =>
              cases t with
              | positive => rfl
              | negative => exact congrArg (some <| Ordering.swap ·) (hmagnitudes e f m n)

theorem standing_swap (x y : Float) : standing y x = (standing x y).map Ordering.swap :=
  compare_swap _ _

theorem compare_eq_none_iff {x y : UnpackedFloat} :
    x.compare y = none ↔ x = .notANumber ∨ y = .notANumber := by
  fun_cases UnpackedFloat.compare x y <;> simp_all

theorem standing_eq_none_iff {x y : Float} :
    standing x y = none ↔ (x.isNaN || y.isNaN) = true := by
  have hnan : ∀ u : UnpackedFloat, u.isNaN = true ↔ u = .notANumber := by
    intro u
    cases u <;> simp [UnpackedFloat.isNaN]
  rw [standing, compare_eq_none_iff, ← hnan, ← hnan, Bool.or_eq_true]
  rfl

/-- A magnitude is ordered by its exponent, and for the same exponent by its significand. -/
theorem compare_exponent_significand (b c : Nat) :
    (compare ((exponent b : Int) - 1074) ((exponent c : Int) - 1074)).then
      (compare (significand b) (significand c)) = compare b c := by
  have hb := exponent_significand b
  have hc := exponent_significand c
  have hblt := significand_lt b
  have hclt := significand_lt c
  have hble := @leadingBit_le_significand b
  have hcle := @leadingBit_le_significand c
  unfold leadingBit at hb hc
  rcases lt_trichotomy (exponent b) (exponent c) with h | h | h
  · have hexp : compare ((exponent b : Int) - 1074) ((exponent c : Int) - 1074) = .lt := by
      rw [Int.compare_eq_lt]
      omega
    have hall : compare b c = .lt := by
      rw [Nat.compare_eq_lt]
      omega
    rw [hexp, hall]
    rfl
  · rw [h, compare_eq_iff_eq.mpr rfl, Ordering.eq_then]
    rcases lt_trichotomy (significand b) (significand c) with hs | hs | hs
    · rw [compare_lt_iff_lt.mpr hs, compare_lt_iff_lt.mpr (by omega)]
    · rw [compare_eq_iff_eq.mpr hs, compare_eq_iff_eq.mpr (by omega)]
    · rw [compare_gt_iff_gt.mpr hs, compare_gt_iff_gt.mpr (by omega)]
  · have hexp : compare ((exponent b : Int) - 1074) ((exponent c : Int) - 1074) = .gt := by
      rw [Int.compare_eq_gt]
      omega
    have hall : compare b c = .gt := by
      rw [Nat.compare_eq_gt]
      omega
    rw [hexp, hall]
    rfl

def signed (s : Sign) (b : Nat) : Int :=
  match s with
  | .positive => b
  | .negative => -b

/-- The magnitude of a double with its sign. -/
def key (x : Float) : Int := signed (sign x) (magnitude x)

@[simp] theorem signed_zero (s : Sign) : signed s 0 = 0 := by
  cases s <;> rfl

theorem compare_signed (s : Sign) (b c : Nat) :
    compare (signed s b) (signed s c)
      = match s with
        | .positive => compare b c
        | .negative => (compare b c).swap := by
  rcases lt_trichotomy b c with h | rfl | h
  · rw [compare_lt_iff_lt.mpr h]
    cases s with
    | positive => exact compare_lt_iff_lt.mpr (by simp only [signed]; omega)
    | negative => exact compare_gt_iff_gt.mpr (by simp only [signed]; omega)
  · rw [compare_eq_iff_eq.mpr rfl, compare_eq_iff_eq.mpr rfl]
    cases s <;> rfl
  · rw [compare_gt_iff_gt.mpr h]
    cases s with
    | positive => exact compare_gt_iff_gt.mpr (by simp only [signed]; omega)
    | negative => exact compare_lt_iff_lt.mpr (by simp only [signed]; omega)

/-- Unpacked doubles that are numbers stand to each other as their magnitudes with their signs. -/
theorem Unpacked.compare_eq {s t : Sign} {b c : Nat} {u v : UnpackedFloat} (hu : Unpacked s b u)
    (hv : Unpacked t c v) (hb : b ≤ infinite) (hc : c ≤ infinite) :
    u.compare v = some (compare (signed s b) (signed t c)) := by
  have hlimit : 0 < infinite := by decide
  have hlt {m n : Int} (h : m < n) : some Ordering.lt = some (compare m n) :=
    congrArg some (compare_lt_iff_lt.mpr h).symm
  have hgt {m n : Int} (h : n < m) : some Ordering.gt = some (compare m n) :=
    congrArg some (compare_gt_iff_gt.mpr h).symm
  have heq {m n : Int} (h : m = n) : some Ordering.eq = some (compare m n) :=
    congrArg some (compare_eq_iff_eq.mpr h).symm
  cases hu with
  | notANumber hb' => omega
  | infinity =>
      cases hv with
      | notANumber hc' => omega
      | infinity =>
          cases s with
          | positive =>
              cases t with
              | positive => exact heq rfl
              | negative => exact hgt (by simp only [signed]; omega)
          | negative =>
              cases t with
              | positive => exact hlt (by simp only [signed]; omega)
              | negative => exact heq rfl
      | zero =>
          rw [signed_zero]
          cases s with
          | positive => exact hgt (by simp only [signed]; omega)
          | negative => exact hlt (by simp only [signed]; omega)
      | finite =>
          cases s with
          | positive => cases t <;> exact hgt (by simp only [signed]; omega)
          | negative => cases t <;> exact hlt (by simp only [signed]; omega)
  | zero =>
      rw [signed_zero]
      cases hv with
      | notANumber hc' => omega
      | infinity =>
          cases t with
          | positive => exact hlt (by simp only [signed]; omega)
          | negative => exact hgt (by simp only [signed]; omega)
      | zero => exact heq (signed_zero t).symm
      | finite =>
          cases t with
          | positive => exact hlt (by simp only [signed]; omega)
          | negative => exact hgt (by simp only [signed]; omega)
  | finite =>
      cases hv with
      | notANumber hc' => omega
      | infinity =>
          cases t with
          | positive => cases s <;> exact hlt (by simp only [signed]; omega)
          | negative => cases s <;> exact hgt (by simp only [signed]; omega)
      | zero =>
          rw [signed_zero]
          cases s with
          | positive => exact hgt (by simp only [signed]; omega)
          | negative => exact hlt (by simp only [signed]; omega)
      | finite =>
          cases s with
          | positive =>
              cases t with
              | positive =>
                  rw [compare_signed, ← compare_exponent_significand]
                  rfl
              | negative => exact hgt (by simp only [signed]; omega)
          | negative =>
              cases t with
              | positive => exact hlt (by simp only [signed]; omega)
              | negative =>
                  rw [compare_signed, ← compare_exponent_significand]
                  rfl

theorem Unpacked.isNaN_iff {s : Sign} {b : Nat} {u : UnpackedFloat} (hu : Unpacked s b u) :
    u.isNaN = true ↔ infinite < b := by
  cases hu with
  | notANumber hb => exact iff_of_true rfl hb
  | infinity => exact iff_of_false Bool.false_ne_true (Nat.lt_irrefl _)
  | zero => exact iff_of_false Bool.false_ne_true (Nat.not_lt_zero _)
  | finite _ hfinite => exact iff_of_false Bool.false_ne_true hfinite.le.not_gt

theorem le_infinite_iff {x : Float} : magnitude x ≤ infinite ↔ x.isNaN = false := by
  rw [← Nat.not_lt, ← (unpacked x).isNaN_iff, Bool.not_eq_true]
  rfl

/-- Doubles that are numbers stand to each other as their magnitudes with their signs. -/
theorem standing_eq_compare_key {x y : Float} (hx : x.isNaN = false) (hy : y.isNaN = false) :
    standing x y = some (compare (key x) (key y)) :=
  (unpacked x).compare_eq (unpacked y) (le_infinite_iff.mpr hx) (le_infinite_iff.mpr hy)

theorem nearest_natAbs_lt_infinite (n : Int64) : nearest n.toInt.natAbs 1 < infinite := by
  have hle : n.toInt.natAbs ≤ 2 ^ 63 := by
    have hlow := n.le_toInt
    have hhigh := n.toInt_lt
    omega
  calc nearest n.toInt.natAbs 1 ≤ nearest (2 ^ 63) 1 := nearest_mono Nat.one_pos hle
    _ < infinite := by decide +kernel

theorem isNegative_ofMagnitude {b : Nat} (negative : Bool) (hfinite : b < infinite) :
    isNegative (ofMagnitude negative b) = negative := by
  rw [isNegative, toNat_toBits_ofMagnitude negative hfinite]
  unfold infinite at hfinite
  cases negative <;> simp [signBit]
  omega

theorem isNaN_ofInt (n : Int64) : (ofInt n.toInt).isNaN = false := by
  rw [← le_infinite_iff, ofInt, magnitude_ofMagnitude _ (nearest_natAbs_lt_infinite n)]
  exact (nearest_natAbs_lt_infinite n).le

theorem key_ofInt (n : Int64) :
    key (ofInt n.toInt)
      = if n.toInt < 0 then -(nearest n.toInt.natAbs 1 : Int) else nearest n.toInt.natAbs 1 := by
  have hfinite := nearest_natAbs_lt_infinite n
  rw [key, sign, ofInt, isNegative_ofMagnitude _ hfinite, magnitude_ofMagnitude _ hfinite]
  by_cases hneg : n.toInt < 0 <;> simp [hneg, signed]

/-- Of two integers, the larger one does not become the smaller double. -/
theorem key_ofInt_mono {m n : Int64} (h : m ≤ n) :
    key (ofInt m.toInt) ≤ key (ofInt n.toInt) := by
  have hle : m.toInt ≤ n.toInt := Int64.le_iff_toInt_le.mp h
  rw [key_ofInt, key_ofInt]
  split_ifs with hm hn hn
  · have hmono : nearest n.toInt.natAbs 1 ≤ nearest m.toInt.natAbs 1 :=
      nearest_mono Nat.one_pos (by omega)
    omega
  · omega
  · omega
  · have hmono : nearest m.toInt.natAbs 1 ≤ nearest n.toInt.natAbs 1 :=
      nearest_mono Nat.one_pos (by omega)
    omega

end JumpScript.Double
