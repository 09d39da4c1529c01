import JumpScript.Number.Integer
import JumpScript.Value.Arithmetic

/-!
# Division of integers

Quotient and remainder of two ints are those of the integers, rounded toward zero, and the remainder
always fits in a word.  The quotient does with one exception: the least int divided by minus one
wraps around to the least int.  Multiplying back and adding the remainder is done in words, so it
gives the dividend in every case.
-/

namespace JumpScript.Value

variable {x y : Int64}

theorem quotient_eq_ofInt (x y : Int64) : x / y = Int64.ofInt (x.toInt.tdiv y.toInt) := by
  rw [Int64.ofInt_tdiv x.minValue_le_toInt x.toInt_le y.minValue_le_toInt y.toInt_le,
    Int64.ofInt_toInt, Int64.ofInt_toInt]

theorem remainder_eq_ofInt (x y : Int64) : x % y = Int64.ofInt (x.toInt.tmod y.toInt) := by
  rw [Int64.ofInt_tmod x.minValue_le_toInt x.toInt_le y.minValue_le_toInt y.toInt_le,
    Int64.ofInt_toInt, Int64.ofInt_toInt]

/-- Words are multiplied and added as integers are, so what holds of integers holds of them. -/
theorem quotient_mul_add_remainder (x y : Int64) : x / y * y + x % y = x := by
  calc x / y * y + x % y
      = Int64.ofInt (x.toInt.tdiv y.toInt * y.toInt + x.toInt.tmod y.toInt) := by
        rw [Int64.ofInt_add, Int64.ofInt_mul, ← quotient_eq_ofInt, ← remainder_eq_ofInt,
          Int64.ofInt_toInt]
    _ = Int64.ofInt x.toInt := by rw [Int.tdiv_mul_add_tmod]
    _ = x := Int64.ofInt_toInt x

theorem natAbs_remainder_lt (x : Int64) (hy : y ≠ 0) :
    (x % y).toInt.natAbs < y.toInt.natAbs := by
  have hpos : 0 < y.toInt.natAbs :=
    Int.natAbs_pos.mpr fun h => hy (Int64.toInt_inj.mp h)
  rw [Int64.toInt_mod, Int.natAbs_tmod]
  exact Nat.mod_lt _ hpos

theorem sign_remainder (x y : Int64) :
    (x % y).toInt = 0 ∨ (x % y).toInt.sign = x.toInt.sign := by
  rw [Int64.toInt_mod]
  by_cases hdvd : y.toInt ∣ x.toInt
  · exact .inl (Int.tmod_eq_zero_of_dvd hdvd)
  · exact .inr (by rw [Int.sign_tmod, if_neg hdvd])

/-- `q` and `r` are the quotient of `x` by `y`, rounded toward zero, and the remainder that goes
with it.  The quotient of the least int by minus one, which is no int, is the least int. -/
structure Truncates (x y q r : Int64) : Prop where
  restores : (do add (← mul (.int q) (.int y)) (.int r)) = .ok (.int x)
  small : r.toInt.natAbs < y.toInt.natAbs
  sign : r.toInt = 0 ∨ r.toInt.sign = x.toInt.sign
  quotient :
    if x.toInt = Integer.least ∧ y.toInt = -1 then q.toInt = Integer.least ∧ r.toInt = 0
    else q.toInt = x.toInt.tdiv y.toInt

theorem truncates (x : Int64) (hy : y ≠ 0) : Truncates x y (x / y) (x % y) where
  restores := congrArg (fun n => Except.ok (Value.int n)) (quotient_mul_add_remainder x y)
  small := natAbs_remainder_lt x hy
  sign := sign_remainder x y
  quotient := by
    split
    case isTrue h =>
      obtain rfl : x = Int64.minValue := Int64.toInt_inj.mp h.1
      obtain rfl : y = -1 := Int64.toInt_inj.mp h.2
      decide
    case isFalse h =>
      by_cases hleast : x = Int64.minValue
      · refine Int64.toInt_div_of_ne_right x y fun hminus => h ⟨?_, ?_⟩
        · rw [hleast]
          rfl
        · rw [hminus]
          rfl
      · exact Int64.toInt_div_of_ne_left x y hleast

theorem div_ints (x y : Int64) :
    div (.int x) (.int y) = if y = 0 then .error .divisionByZero else .ok (.int (x / y)) := by
  by_cases hy : y = 0 <;> simp [div, arithmetic, isNumber, kind, hy, Except.map]

theorem mod_ints (x y : Int64) :
    mod (.int x) (.int y) = if y = 0 then .error .divisionByZero else .ok (.int (x % y)) := by
  by_cases hy : y = 0 <;> simp [mod, arithmetic, isNumber, kind, hy, Except.map]

/-- Division and remainder of ints fail just for the divisor zero, as a division by zero.  Otherwise
they are a truncating pair, over the whole range of ints. -/
theorem division_truncates (x y : Int64) :
    (div (.int x) (.int y) = .error .divisionByZero ↔ y = 0) ∧
    (mod (.int x) (.int y) = .error .divisionByZero ↔ y = 0) ∧
    (y ≠ 0 → ∃ q r, div (.int x) (.int y) = .ok (.int q) ∧ mod (.int x) (.int y) = .ok (.int r) ∧
      Truncates x y q r) := by
  rw [div_ints, mod_ints]
  refine ⟨by simp, by simp, fun hy => ⟨x / y, x % y, if_neg hy, if_neg hy, truncates x hy⟩⟩

/-- The one quotient that is no int. -/
theorem division_truncates_leastByMinusOne :
    (-1 : Int64) ≠ 0 ∧ ∃ q r, div (.int Int64.minValue) (.int (-1)) = .ok (.int q) ∧
      mod (.int Int64.minValue) (.int (-1)) = .ok (.int r) ∧
      Truncates Int64.minValue (-1) q r ∧ q.toInt = Integer.least ∧ r.toInt = 0 := by
  have hnonzero : (-1 : Int64) ≠ 0 := by decide
  obtain ⟨-, -, hpair⟩ := division_truncates Int64.minValue (-1)
  obtain ⟨q, r, hq, hr, htruncates⟩ := hpair hnonzero
  have hquotient := htruncates.quotient
  rw [if_pos (by decide)] at hquotient
  exact ⟨hnonzero, q, r, hq, hr, htruncates, hquotient⟩

end JumpScript.Value
