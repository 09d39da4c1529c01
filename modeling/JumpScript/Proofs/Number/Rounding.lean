import Mathlib.Tactic.Ring
import Mathlib.Tactic.SplitIfs
import JumpScript.Number.Decimal

/-!
# Rounding to a magnitude

Rounding looks at the value of a quotient and not at how it is written, it keeps every value that a
finite double has, and it never turns two quotients round.  A decimal `n · 10^e` is taken to be the
quotient of `n · 10^e` and one, or of `n` and `10^-e`.
-/

namespace JumpScript

namespace Double

theorem roundDiv_mul_left {c : Nat} (hc : 0 < c) (num den : Nat) :
    roundDiv (c * num) (c * den) = roundDiv num den := by
  have hdiv : c * num / (c * den) = num / den :=
    Nat.mul_div_mul_left num den hc
  have hmod : c * num % (c * den) = c * (num % den) :=
    Nat.mul_mod_mul_left c num den
  have hlow : 2 * (c * (num % den)) < c * den ↔ 2 * (num % den) < den := by
    rw [Nat.mul_left_comm]
    exact Nat.mul_lt_mul_left hc
  have hhigh : c * den < 2 * (c * (num % den)) ↔ den < 2 * (num % den) := by
    rw [Nat.mul_left_comm 2 c]
    exact Nat.mul_lt_mul_left hc
  simp only [roundDiv, hdiv, hmod, hlow, hhigh]

theorem roundDiv_mul_self {den : Nat} (hden : 0 < den) (n : Nat) :
    roundDiv (n * den) den = n := by
  simp [roundDiv, hden]

/-- Rounding gives one of the two neighbours of a quotient. -/
theorem roundDiv_eq_or (num den : Nat) :
    roundDiv num den = num / den ∨ roundDiv num den = num / den + 1 := by
  simp only [roundDiv]
  split_ifs
  · exact Or.inl rfl
  · exact Or.inr rfl
  · omega

theorem nearest_mul_left {c : Nat} (hc : 0 < c) (num den : Nat) :
    nearest (c * num) (c * den) = nearest num den := by
  have hwhole : c * num * unitsPerOne / (c * den)
      = num * unitsPerOne / den := by
    rw [Nat.mul_assoc, Nat.mul_div_mul_left _ _ hc]
  have hround (k : Nat) :
      roundDiv (c * num * unitsPerOne) (c * den * Nat.pow 2 k)
        = roundDiv (num * unitsPerOne) (den * Nat.pow 2 k) := by
    rw [Nat.mul_assoc, Nat.mul_assoc, roundDiv_mul_left hc]
  simp only [nearest, hround, hwhole]

/-- Equal quotients round to the same magnitude. -/
theorem nearest_congr {num den num' den' : Nat} (hden : 0 < den)
    (hden' : 0 < den') (hcross : num * den' = num' * den) :
    nearest num den = nearest num' den' := by
  calc nearest num den
      = nearest (den' * num) (den' * den) :=
        (nearest_mul_left hden' num den).symm
    _ = nearest (den * num') (den * den') := by
        rw [Nat.mul_comm den' num, hcross, Nat.mul_comm num' den,
          Nat.mul_comm den' den]
    _ = nearest num' den' := nearest_mul_left hden num' den'

theorem unitsPerOne_pos : 0 < unitsPerOne := by
  unfold unitsPerOne
  generalize 1074 = k
  exact Nat.two_pow_pos k

theorem significand_lt (b : Nat) : significand b < 2 ^ 53 := by
  unfold significand leadingBit
  split <;> omega

theorem leadingBit_le_significand {b : Nat} (hexp : 0 < exponent b) :
    2 ^ 52 ≤ significand b := by
  unfold exponent at hexp
  unfold significand leadingBit at *
  split at hexp <;> split <;> omega

theorem log2_units {b : Nat} (hexp : 0 < exponent b) :
    (units b).log2 = 52 + exponent b := by
  have hlow := leadingBit_le_significand hexp
  have hhigh := significand_lt b
  have hpow := Nat.two_pow_pos (exponent b)
  change (significand b * 2 ^ exponent b).log2 = _
  have hne : significand b * 2 ^ exponent b ≠ 0 :=
    (Nat.mul_pos (by omega) hpow).ne'
  refine (Nat.log2_eq_iff hne).2 ⟨?_, ?_⟩
  · rw [Nat.pow_add]
    exact Nat.mul_le_mul_right _ hlow
  · rw [show 52 + exponent b + 1 = 53 + exponent b by omega, Nat.pow_add]
    exact Nat.mul_lt_mul_of_pos_right hhigh hpow

/-- The number of bits of a finite value tells its exponent. -/
theorem exponent_eq_of_units (b : Nat) :
    (if units b < 2 * leadingBit then 0 else (units b).log2 - 52)
      = exponent b := by
  have hsig := significand_lt b
  rcases Nat.eq_zero_or_pos (exponent b) with hexp | hexp
  · have hunits : units b = significand b := by
      rw [units, hexp]
      exact Nat.mul_one _
    rw [hunits, hexp, if_pos (by unfold leadingBit; omega)]
  · have hlog := log2_units hexp
    have hlarge : ¬ units b < 2 * leadingBit := by
      intro hlt
      have hne : units b ≠ 0 := by
        intro hzero
        rw [hzero, Nat.log2_zero] at hlog
        omega
      have hle := (Nat.le_log2 hne).1
        (show 53 ≤ (units b).log2 by omega)
      unfold leadingBit at hlt
      omega
    rw [if_neg hlarge, hlog]
    omega

/-- The exact value of a finite magnitude rounds to that magnitude. -/
theorem nearest_units {b : Nat} (hfinite : b < infinite) :
    nearest (units b) unitsPerOne = b := by
  have hwhole : units b * unitsPerOne / unitsPerOne = units b :=
    Nat.mul_div_cancel _ unitsPerOne_pos
  have hround :
      roundDiv (units b * unitsPerOne) (unitsPerOne * Nat.pow 2 (exponent b))
        = significand b := by
    have hfactor : units b * unitsPerOne
        = significand b * (unitsPerOne * Nat.pow 2 (exponent b)) := by
      rw [units]
      ring
    rw [hfactor, roundDiv_mul_self]
    exact Nat.mul_pos unitsPerOne_pos (Nat.two_pow_pos _)
  simp only [nearest, hwhole, exponent_eq_of_units, hround,
    exponent_significand]
  omega

theorem roundDiv_mono {a b : Nat} (den : Nat) (h : a ≤ b) :
    roundDiv a den ≤ roundDiv b den := by
  have hdiv : a / den ≤ b / den := Nat.div_le_div_right h
  rcases hdiv.lt_or_eq with hlt | heq
  · have ha := roundDiv_eq_or a den
    have hb := roundDiv_eq_or b den
    have hup : a / den + 1 ≤ b / den := hlt
    rcases ha with ha | ha <;> rcases hb with hb | hb <;> omega
  · have hmod : a % den ≤ b % den := by
      have ha := Nat.div_add_mod a den
      have hb := Nat.div_add_mod b den
      rw [heq] at ha
      omega
    unfold roundDiv
    rw [heq]
    dsimp only
    split_ifs <;> omega

/-- The exponent that a value with a given whole part is rounded with. -/
def grade (whole : Nat) : Nat := if whole < 2 * leadingBit then 0 else whole.log2 - 52

theorem lt_two_pow_grade (whole : Nat) : whole < 2 ^ (53 + grade whole) := by
  unfold grade
  split
  next hsmall =>
    unfold leadingBit at hsmall
    omega
  next hlarge =>
    have hle : 53 + (whole.log2 - 52) ≥ whole.log2 + 1 := by omega
    exact Nat.lt_log2_self.trans_le (Nat.pow_le_pow_right (by decide) hle)

theorem two_pow_grade_le {whole : Nat} (hgrade : 0 < grade whole) :
    2 ^ (52 + grade whole) ≤ whole := by
  unfold grade at hgrade ⊢
  split at hgrade
  next => omega
  next hlarge =>
    have hne : whole ≠ 0 := by
      unfold leadingBit at hlarge
      omega
    rw [if_neg hlarge, show 52 + (whole.log2 - 52) = whole.log2 by omega]
    exact Nat.log2_self_le hne

theorem grade_mono {a b : Nat} (h : a ≤ b) : grade a ≤ grade b := by
  rw [← Nat.not_lt]
  intro hlt
  -- of two values, the one that is rounded with the larger exponent is the larger one
  have hlow := two_pow_grade_le (Nat.zero_lt_of_lt hlt)
  have hhigh := lt_two_pow_grade b
  have hpow : 2 ^ (53 + grade b) ≤ 2 ^ (52 + grade a) :=
    Nat.pow_le_pow_right (by decide) (by omega)
  omega

theorem roundDiv_le_of_lt {a den k : Nat} (hden : 0 < den) (h : a / den < 2 ^ (53 + k)) :
    roundDiv a (den * 2 ^ k) ≤ 2 * leadingBit := by
  have hpos : 0 < den * 2 ^ k := Nat.mul_pos hden (Nat.two_pow_pos k)
  have hle : a ≤ 2 ^ 53 * (den * 2 ^ k) := by
    rw [Nat.div_lt_iff_lt_mul hden] at h
    calc a ≤ 2 ^ (53 + k) * den := h.le
      _ = 2 ^ 53 * (den * 2 ^ k) := by ring
  calc roundDiv a (den * 2 ^ k) ≤ roundDiv (2 ^ 53 * (den * 2 ^ k)) (den * 2 ^ k) :=
        roundDiv_mono _ hle
    _ = 2 ^ 53 := roundDiv_mul_self hpos _

theorem le_roundDiv_of_le {a den k : Nat} (hden : 0 < den) (h : 2 ^ (52 + k) ≤ a / den) :
    leadingBit ≤ roundDiv a (den * 2 ^ k) := by
  have hpos : 0 < den * 2 ^ k := Nat.mul_pos hden (Nat.two_pow_pos k)
  have hle : 2 ^ 52 * (den * 2 ^ k) ≤ a := by
    rw [Nat.le_div_iff_mul_le hden] at h
    calc 2 ^ 52 * (den * 2 ^ k) = 2 ^ (52 + k) * den := by ring
      _ ≤ a := h
  calc leadingBit = roundDiv (2 ^ 52 * (den * 2 ^ k)) (den * 2 ^ k) :=
        (roundDiv_mul_self hpos _).symm
    _ ≤ roundDiv a (den * 2 ^ k) := roundDiv_mono _ hle

/-- A larger quotient is not rounded to a smaller magnitude. -/
theorem nearest_mono {a b den : Nat} (hden : 0 < den) (h : a ≤ b) :
    nearest a den ≤ nearest b den := by
  have hscaled : a * unitsPerOne ≤ b * unitsPerOne := Nat.mul_le_mul_right _ h
  have hwhole : a * unitsPerOne / den ≤ b * unitsPerOne / den := Nat.div_le_div_right hscaled
  have hlow := lt_two_pow_grade (a * unitsPerOne / den)
  have hhigh := @two_pow_grade_le (b * unitsPerOne / den)
  have hgrade := grade_mono hwhole
  change min _ (grade _ * leadingBit + roundDiv _ (den * 2 ^ grade _))
    ≤ min _ (grade _ * leadingBit + roundDiv _ (den * 2 ^ grade _))
  generalize grade (a * unitsPerOne / den) = i at *
  generalize grade (b * unitsPerOne / den) = k at *
  refine min_le_min_left _ ?_
  rcases hgrade.lt_or_eq with hlt | rfl
  · have ha := roundDiv_le_of_lt hden hlow
    have hb := le_roundDiv_of_le hden (hhigh (Nat.zero_lt_of_lt hlt))
    have hstep : (i + 1) * leadingBit ≤ k * leadingBit := Nat.mul_le_mul_right _ hlt
    rw [Nat.add_mul, Nat.one_mul] at hstep
    omega
  · exact Nat.add_le_add_left (roundDiv_mono _ hscaled) _

end Double

namespace Decimal

/-- The positive number `n · 10^e` rounds to the magnitude `b`. -/
def RoundsTo (n : Nat) (e : Int) (b : Nat) : Prop :=
  0 < n ∧ Double.nearest (n * 10 ^ e.toNat) (10 ^ (-e).toNat) = b

/-- Zeros at the end of a number count as much as its exponent. -/
theorem roundsTo_mul_pow {n b : Nat} {e : Int} (j : Nat) :
    RoundsTo (n * 10 ^ j) e b ↔ RoundsTo n (e + j) b := by
  have hpow : 0 < 10 ^ j := Nat.pow_pos (by decide)
  have hvalue : Double.nearest (n * 10 ^ j * 10 ^ e.toNat) (10 ^ (-e).toNat)
      = Double.nearest (n * 10 ^ (e + j).toNat) (10 ^ (-(e + j)).toNat) := by
    apply Double.nearest_congr (Nat.pow_pos (by decide))
      (Nat.pow_pos (by decide))
    rw [Nat.mul_assoc, Nat.mul_assoc, Nat.mul_assoc, ← Nat.pow_add,
      ← Nat.pow_add, ← Nat.pow_add]
    congr 2
    omega
  rw [RoundsTo, RoundsTo, hvalue, Nat.mul_pos_iff_of_pos_right hpow]

/-- A rounding that meets neither limit is a rounding of the quotient. -/
theorem roundsTo_of_nearest {b n size : Nat} {e : Int} (hpos : 0 < b)
    (hfinite : b < Double.infinite) (hnearest : nearest n size e = b) :
    RoundsTo n e b := by
  unfold nearest at hnearest
  split_ifs at hnearest with hzero hlarge hsmall hsign
  · omega
  · omega
  · omega
  · refine ⟨by omega, ?_⟩
    rw [show (-e).toNat = 0 by omega]
    exact hnearest
  · refine ⟨by omega, ?_⟩
    rw [show e.toNat = 0 by omega]
    simpa using hnearest

/-- Digits after a point leave no room for the limits of rounding. -/
theorem nearest_of_roundsTo {b n size fraction : Nat}
    (hsize : fraction ≤ size) (hrounds : RoundsTo n (-fraction) b) :
    nearest n size (-fraction) = b := by
  obtain ⟨hpos, hnearest⟩ := hrounds
  rw [Int.neg_neg, Int.toNat_natCast] at hnearest
  have hzero : (-(fraction : Int)).toNat = 0 := by omega
  rw [hzero] at hnearest
  unfold nearest
  split_ifs with hn hlarge hsmall hsign
  · omega
  · omega
  · omega
  · have hfraction : fraction = 0 := by omega
    subst hfraction
    exact hnearest
  · rw [Int.neg_neg, Int.toNat_natCast]
    simpa using hnearest

end Decimal

end JumpScript
