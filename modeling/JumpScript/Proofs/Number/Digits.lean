import Mathlib.Tactic.IntervalCases
import JumpScript.Number.Integer

/-!
# Digit sequences

Writing a natural number and reading its digits are inverse, and so are writing and reading a 64-bit
integer.
-/

namespace JumpScript

namespace Bytes

theorem isDigit_iff {c : UInt8} : isDigit c = true ↔ 0x30 ≤ c.toNat ∧ c.toNat ≤ 0x39 := by
  simp [isDigit, UInt8.le_iff_toNat_le]

theorem isDigit_digit {n : Nat} (hn : n < 10) : isDigit (digit n) = true := by
  interval_cases n <;> decide

theorem digitValue_digit {n : Nat} (hn : n < 10) : digitValue (digit n) = n := by
  interval_cases n <;> decide

theorem numeral_append (ds es : Bytes) :
    numeral (ds ++ es) = numeral ds * 10 ^ es.length + numeral es := by
  simp only [numeral, positional_eq_foldl, List.map_append, List.foldl_append]
  rw [foldl_digits, List.length_map]
  rfl

@[simp] theorem numeral_nil : numeral [] = 0 := by
  simp [numeral, positional_eq_foldl]

@[simp] theorem numeral_singleton (c : UInt8) : numeral [c] = digitValue c := by
  simp [numeral, positional_eq_foldl]

@[simp] theorem numeral_fill_zero (n : Nat) : numeral (fill n 0x30) = 0 := by
  induction n with
  | zero => exact numeral_nil
  | succ n ih =>
      have hsplit : fill (n + 1) 0x30 = fill n 0x30 ++ [0x30] := List.replicate_succ'
      rw [hsplit, numeral_append, ih, numeral_singleton]
      decide

theorem ofNat_ne_nil (n : Nat) : ofNat n ≠ [] := by
  rw [ofNat]
  split <;> simp

theorem isDigit_of_mem_ofNat {n : Nat} {c : UInt8} (hc : c ∈ ofNat n) : isDigit c = true := by
  induction n using Nat.strong_induction_on with
  | h n ih =>
      rw [ofNat] at hc
      split at hc
      · rename_i hlt
        rw [List.mem_singleton.mp hc]
        exact isDigit_digit hlt
      · rcases List.mem_append.mp hc with hinit | hlast
        · exact ih (n / 10) (by omega) hinit
        · rw [List.mem_singleton.mp hlast]
          exact isDigit_digit (Nat.mod_lt n (by decide))

theorem isDigit_of_mem_ofInt {n : Int} {c : UInt8} (hc : c ∈ ofInt n) :
    isDigit c = true ∨ c = 0x2D := by
  rw [ofInt] at hc
  split at hc
  · rcases List.mem_cons.mp hc with rfl | hdigit
    · exact .inr rfl
    · exact .inl (isDigit_of_mem_ofNat hdigit)
  · exact .inl (isDigit_of_mem_ofNat hc)

@[simp] theorem numeral_ofNat (n : Nat) : numeral (ofNat n) = n := by
  induction n using Nat.strong_induction_on with
  | h n ih =>
      rw [ofNat]
      split
      · rename_i hlt
        rw [numeral_singleton, digitValue_digit hlt]
      · rw [numeral_append, ih (n / 10) (by omega), numeral_singleton,
          digitValue_digit (Nat.mod_lt n (by decide))]
        simp only [List.length_singleton]
        omega

end Bytes

namespace Integer

theorem isDigits_iff {s : Bytes} :
    isDigits s = true ↔ s ≠ [] ∧ ∀ c ∈ s, Bytes.isDigit c = true := by
  rw [isDigits, Bool.and_eq_true, Bool.not_eq_true', List.isEmpty_eq_false_iff, List.all_eq_true]

theorem isDigits_ofNat (n : Nat) : isDigits (Bytes.ofNat n) = true :=
  isDigits_iff.mpr ⟨Bytes.ofNat_ne_nil n, fun _ hc => Bytes.isDigit_of_mem_ofNat hc⟩

theorem narrow_toInt (n : Int64) : narrow n.toInt = .ok n := by
  have hlow : least ≤ n.toInt := n.le_toInt
  have hhigh : n.toInt ≤ greatest := n.toInt_le
  rw [narrow, if_pos (by simp [hlow, hhigh]), Int64.ofInt_toInt]

/-- A numeral that begins with a digit has no sign. -/
theorem read_of_isDigit {c : UInt8} (hc : Bytes.isDigit c = true) (ds : Bytes) :
    read (c :: ds) = readDigits false (c :: ds) := by
  unfold read
  split
  · rename_i heq
    rw [(List.cons.inj heq).1] at hc
    exact absurd hc (by decide)
  · rename_i heq
    rw [(List.cons.inj heq).1] at hc
    exact absurd hc (by decide)
  · rfl

/-- Reading undoes writing for every 64-bit integer. -/
theorem read_ofInt (n : Int64) : read (Bytes.ofInt n.toInt) = .ok n := by
  rw [Bytes.ofInt]
  split
  · rename_i hneg
    change readDigits true (Bytes.ofNat n.toInt.natAbs) = .ok n
    rw [readDigits, if_pos (isDigits_ofNat _), if_pos rfl, Bytes.numeral_ofNat,
      show -(n.toInt.natAbs : Int) = n.toInt by omega]
    exact narrow_toInt n
  · rename_i hnonneg
    obtain ⟨c, ds, heq⟩ := List.exists_cons_of_ne_nil (Bytes.ofNat_ne_nil n.toInt.natAbs)
    have hc : Bytes.isDigit c = true :=
      Bytes.isDigit_of_mem_ofNat (heq ▸ List.mem_cons_self)
    rw [heq, read_of_isDigit hc, ← heq, readDigits, if_pos (isDigits_ofNat _),
      if_neg (by decide), Bytes.numeral_ofNat,
      show (n.toInt.natAbs : Int) = n.toInt by omega]
    exact narrow_toInt n

end Integer

end JumpScript
