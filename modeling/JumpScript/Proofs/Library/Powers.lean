import Mathlib.Data.Int.ModEq
import Mathlib.Tactic.Ring
import JumpScript.Library.Native

/-!
# Powers of integers

The power of an int is multiplied together from repeated squares in a loop over the bits of the
exponent.  Everything in the loop wraps around at 64 bits, so what a turn keeps is kept modulo
`2 ^ 64`: the product so far times the square to the exponent that is left.  A turn halves the
exponent, so there are no more turns than it has bits.
-/

namespace JumpScript

/-- The variables of the loop: the product so far, the square that is next, the exponent left. -/
structure Squaring where
  result : Int64
  base : Int64
  exponent : Int64

namespace Squaring

variable {s : Squaring} {r : Int64} {n : Nat}

def turn (s : Squaring) : Squaring where
  result := if s.exponent &&& 1 = 1 then s.result * s.base else s.result
  base := s.base * s.base
  exponent := s.exponent >>> 1

/-- The loop is left after so many turns, with this result. -/
inductive Ends : Squaring → Nat → Int64 → Prop where
  | done {s : Squaring} (hexponent : ¬ 0 < s.exponent) : Ends s 0 s.result
  | next {s : Squaring} {n : Nat} {r : Int64} (hexponent : 0 < s.exponent)
      (hrest : Ends s.turn n r) : Ends s (n + 1) r

/-- The exponent left, as a number; there is none left when it is not positive. -/
def left (s : Squaring) : Nat := s.exponent.toInt.toNat

/-- What is still to be multiplied together. -/
def power (s : Squaring) : Int := s.result.toInt * s.base.toInt ^ s.left

theorem left_eq_zero_iff : s.left = 0 ↔ ¬ 0 < s.exponent := by
  rw [left, Int.toNat_eq_zero, Int64.lt_iff_toInt_lt, not_lt]
  rfl

theorem toInt_shiftRight_one (e : Int64) : (e >>> 1).toInt = e.toInt / 2 := by
  have hbits : (e >>> 1).toBitVec = e.toBitVec.sshiftRight 1 := by
    rw [Int64.toBitVec_shiftRight]
    rfl
  rw [← Int64.toInt_toBitVec, hbits, BitVec.toInt_sshiftRight, Int.shiftRight_eq_div_pow]
  rfl

theorem and_one_eq_one_iff (e : Int64) : e &&& 1 = 1 ↔ e.toInt % 2 = 1 := by
  have hbits : e &&& 1 = 1 ↔ e.toBitVec.toNat % 2 = 1 := by
    rw [← Int64.toBitVec_inj, Int64.toBitVec_and, ← BitVec.toNat_inj, BitVec.toNat_and]
    change e.toBitVec.toNat &&& 1 = 1 ↔ _
    rw [Nat.and_one_is_mod]
  rw [hbits, ← Int64.toInt_toBitVec, BitVec.toInt_eq_toNat_cond]
  split <;> omega

/-- A turn halves the exponent. -/
theorem left_turn (s : Squaring) : s.turn.left = s.left / 2 := by
  rw [left, left, turn, toInt_shiftRight_one]
  omega

theorem odd_iff (hexponent : 0 < s.exponent) : s.exponent &&& 1 = 1 ↔ s.left % 2 = 1 := by
  have hpos : 0 < s.exponent.toInt := Int64.lt_iff_toInt_lt.mp hexponent
  rw [and_one_eq_one_iff, left]
  omega

theorem toInt_mul_modEq (a b : Int64) : (a * b).toInt ≡ a.toInt * b.toInt [ZMOD 2 ^ 64] := by
  rw [Int64.toInt_mul]
  exact Int.bmod_emod

theorem pow_eq_pow_half (b : Int) (n : Nat) :
    b ^ n = (if n % 2 = 1 then b else 1) * (b * b) ^ (n / 2) := by
  have hsplit : n = 2 * (n / 2) + n % 2 := (Nat.div_add_mod n 2).symm
  nth_rewrite 1 [hsplit]
  rw [pow_add, pow_mul, pow_two]
  rcases Nat.mod_two_eq_zero_or_one n with h | h
  · rw [h, if_neg (by decide), pow_zero, mul_one, one_mul]
  · rw [h, if_pos rfl, pow_one, mul_comm]

/-- A turn keeps what is to be multiplied together. -/
theorem power_turn (hexponent : 0 < s.exponent) : s.turn.power ≡ s.power [ZMOD 2 ^ 64] := by
  have hresult : s.turn.result.toInt
      ≡ s.result.toInt * (if s.left % 2 = 1 then s.base.toInt else 1) [ZMOD 2 ^ 64] := by
    by_cases hodd : s.left % 2 = 1
    · rw [turn, if_pos ((odd_iff hexponent).mpr hodd), if_pos hodd]
      exact toInt_mul_modEq s.result s.base
    · rw [turn, if_neg (mt (odd_iff hexponent).mp hodd), if_neg hodd, mul_one]
  have hbase : s.turn.base.toInt ≡ s.base.toInt * s.base.toInt [ZMOD 2 ^ 64] :=
    toInt_mul_modEq s.base s.base
  calc s.turn.power
      = s.turn.result.toInt * s.turn.base.toInt ^ (s.left / 2) := by rw [power, left_turn]
    _ ≡ s.result.toInt * (if s.left % 2 = 1 then s.base.toInt else 1)
          * (s.base.toInt * s.base.toInt) ^ (s.left / 2) [ZMOD 2 ^ 64] :=
        hresult.mul (hbase.pow _)
    _ = s.power := by rw [mul_assoc, ← pow_eq_pow_half, power]

/-- The result is what was to be multiplied together, modulo `2 ^ 64`. -/
theorem Ends.modEq (h : s.Ends n r) : r.toInt ≡ s.power [ZMOD 2 ^ 64] := by
  induction h with
  | @done s hexponent => rw [power, left_eq_zero_iff.mpr hexponent, pow_zero, mul_one]
  | next hexponent _ ih => exact ih.trans (power_turn hexponent)

/-- The loop ends after no more turns than the exponent has bits. -/
theorem exists_ends (s : Squaring) {bits : Nat} (hbits : s.left < 2 ^ bits) :
    ∃ n ≤ bits, s.Ends n (Integer.powerFrom s.result s.base s.left) := by
  -- on the bits and not on the exponent, which bounds the turns as well
  induction bits generalizing s with
  | zero =>
      have hzero : s.left = 0 := Nat.lt_one_iff.mp hbits
      rw [hzero, Integer.powerFrom, if_pos rfl]
      exact ⟨0, Nat.le_refl 0, Ends.done (left_eq_zero_iff.mp hzero)⟩
  | succ bits ih =>
      by_cases hexponent : 0 < s.exponent
      · have hhalf : s.turn.left < 2 ^ bits := by
          rw [left_turn]
          omega
        obtain ⟨n, hn, hends⟩ := ih s.turn hhalf
        have hnonzero : s.left ≠ 0 := mt left_eq_zero_iff.mp (not_not.mpr hexponent)
        have hresult : s.turn.result
            = if s.left % 2 = 1 then s.result * s.base else s.result := by
          simp only [turn, odd_iff hexponent]
        refine ⟨n + 1, Nat.succ_le_succ hn, Ends.next hexponent ?_⟩
        rw [Integer.powerFrom, if_neg hnonzero, ← hresult, ← left_turn]
        exact hends
      · have hzero : s.left = 0 := left_eq_zero_iff.mpr hexponent
        rw [hzero, Integer.powerFrom, if_pos rfl]
        exact ⟨0, Nat.zero_le _, Ends.done hexponent⟩

end Squaring

/-- Of the integers that are congruent modulo `2 ^ 64` only one is a word. -/
theorem toInt_eq_of_modEq {r : Int64} {k : Int} (h : r.toInt ≡ k [ZMOD 2 ^ 64])
    (hleast : Integer.least ≤ k) (hgreatest : k ≤ Integer.greatest) : r.toInt = k := by
  have hlow := r.le_toInt
  have hhigh := r.toInt_lt
  rw [Int.ModEq] at h
  rw [Integer.least] at hleast
  rw [Integer.greatest] at hgreatest
  omega

namespace Native

variable {ν : Type}

theorem run_pow (σ : Heap) (b e : Int64) :
    MathFunction.pow.run σ [.int b, .int e] =
      if 0 ≤ e then .ok (.int (Integer.power b e.toInt.toNat))
      else .ok (.float (Double.power (Value.int b).toFloat (Value.int e).toFloat)) := rfl

/-- The power of an int by an int that is not negative is exact modulo `2 ^ 64`, and exact when it
fits; the loop that computes it ends after at most 63 turns. -/
theorem power_is_exact (caller : Caller ν) (names : List Bytes) (m : Machine ν) (b e : Int64)
    (he : 0 ≤ e) :
    ∃ r, run caller (.math .pow) names [.int b, .int e] m = (m, .ok (.int r)) ∧
      r.toInt ≡ b.toInt ^ e.toInt.toNat [ZMOD 2 ^ 64] ∧
      (Integer.least ≤ b.toInt ^ e.toInt.toNat → b.toInt ^ e.toInt.toNat ≤ Integer.greatest →
        r.toInt = b.toInt ^ e.toInt.toNat) ∧
      ∃ turns ≤ 63, (Squaring.mk 1 b e).Ends turns r := by
  let start : Squaring := ⟨1, b, e⟩
  have hbits : start.left < 2 ^ 63 := by
    have hlt := e.toInt_lt
    change e.toInt.toNat < 2 ^ 63
    omega
  obtain ⟨turns, hturns, hends⟩ := start.exists_ends hbits
  have hmod : (Integer.power b e.toInt.toNat).toInt ≡ b.toInt ^ e.toInt.toNat [ZMOD 2 ^ 64] := by
    have hpower := hends.modEq
    rwa [Squaring.power, show start.result.toInt = 1 from rfl, one_mul] at hpower
  refine ⟨Integer.power b e.toInt.toNat, ?_, hmod, toInt_eq_of_modEq hmod, turns, hturns, hends⟩
  change computed m (MathFunction.pow.run m.heap [.int b, .int e]) = _
  rw [run_pow, if_pos he]
  rfl

/-- A power of a negative base that wraps around. -/
theorem power_is_exact_wrapped :
    let m : Machine Native := { program := #[] }
    (0 : Int64) ≤ 41 ∧ ∃ r, run (Machine.call host) (.math .pow) [] [.int (-3), .int 41] m
        = (m, .ok (.int r)) ∧
      r.toInt = (-3) ^ 41 + 2 * 2 ^ 64 ∧ ∃ turns ≤ 63, (Squaring.mk 1 (-3) 41).Ends turns r := by
  intro m
  have hexponent : (0 : Int64) ≤ 41 := by decide
  obtain ⟨r, hrun, hmod, -, hends⟩ :=
    power_is_exact (Machine.call host) [] m (-3) 41 hexponent
  have hwrapped : (-3) ^ 41 + 2 * 2 ^ 64 ≡ (-3) ^ 41 [ZMOD 2 ^ 64] := by decide
  refine ⟨hexponent, r, hrun, ?_, hends⟩
  exact toInt_eq_of_modEq (hmod.trans hwrapped.symm) (by decide) (by decide)

end Native

end JumpScript
