import Mathlib.Data.Nat.Digits.Defs
import JumpScript.Proofs.Number.Numerals

/-!
# Integers in digits

A text of digits with or without a minus sign denotes an integer, however many digits it has and
whatever they begin with.  It is read as that integer when 64 bits hold it, and is out of range
otherwise.  Every integer is denoted by the text that is written for it.
-/

namespace JumpScript

theorem Bytes.numeral_eq_ofDigits (ds : Bytes) :
    numeral ds = Nat.ofDigits 10 (ds.reverse.map digitValue) := by
  rw [numeral, positional_eq_foldl, Nat.ofDigits_eq_foldr, List.map_reverse, List.foldr_reverse]
  congr 1
  funext n d
  rw [Nat.cast_id, Nat.add_comm, Nat.mul_comm]

/-- One or more digits, with a minus sign or without. -/
structure SignedDigits where
  negative : Bool
  digits : Bytes
  digits_ne_nil : digits ≠ []
  allDigits : Numeral.AllDigits digits

namespace SignedDigits

def text (d : SignedDigits) : Bytes := (if d.negative then [0x2D] else []) ++ d.digits

/-- The number that the digits denote in base ten; the last of them counts ones. -/
def magnitude (d : SignedDigits) : Nat := Nat.ofDigits 10 (d.digits.reverse.map Bytes.digitValue)

def value (d : SignedDigits) : Int := if d.negative then -(d.magnitude : Int) else d.magnitude

/-- Whether 64 bits hold the integer. -/
def Fits (d : SignedDigits) : Prop := -2 ^ 63 ≤ d.value ∧ d.value ≤ 2 ^ 63 - 1

instance (d : SignedDigits) : Decidable d.Fits := inferInstanceAs (Decidable (_ ∧ _))

/-- The digits that are written for an integer. -/
def ofInt (k : Int) : SignedDigits where
  negative := decide (k < 0)
  digits := Bytes.ofNat k.natAbs
  digits_ne_nil := Bytes.ofNat_ne_nil k.natAbs
  allDigits := fun _ hc => Bytes.isDigit_of_mem_ofNat hc

@[simp] theorem text_ofInt (k : Int) : (ofInt k).text = Bytes.ofInt k := by
  rw [text, Bytes.ofInt]
  by_cases hk : k < 0 <;> simp [ofInt, hk]

@[simp] theorem value_ofInt (k : Int) : (ofInt k).value = k := by
  have hmagnitude : (ofInt k).magnitude = k.natAbs := by
    rw [magnitude, ← Bytes.numeral_eq_ofDigits]
    exact Bytes.numeral_ofNat k.natAbs
  rw [value, hmagnitude]
  by_cases hk : k < 0
  · rw [if_pos (by simpa [ofInt] using hk)]
    omega
  · rw [if_neg (by simpa [ofInt] using hk)]
    omega

theorem fits_ofInt (n : Int64) : (ofInt n.toInt).Fits := by
  rw [Fits, value_ofInt]
  exact ⟨n.le_toInt, n.toInt_le⟩

variable {d : SignedDigits}

theorem text_of_negative (h : d.negative = true) : d.text = 0x2D :: d.digits := by
  rw [text, if_pos h]
  rfl

theorem text_of_not_negative (h : d.negative = false) : d.text = d.digits := by
  rw [text, h]
  rfl

/-- Reading puts the denoted integer into a word. -/
theorem read_text (d : SignedDigits) : Integer.read d.text = Integer.narrow d.value := by
  have hdigits : Integer.isDigits d.digits = true :=
    Integer.isDigits_iff.mpr ⟨d.digits_ne_nil, d.allDigits⟩
  have hsigned : Integer.readDigits d.negative d.digits = Integer.narrow d.value := by
    rw [Integer.readDigits, if_pos hdigits, Bytes.numeral_eq_ofDigits, value, magnitude]
  cases hnegative : d.negative with
  | true =>
      rw [text_of_negative hnegative, ← hsigned, hnegative]
      rfl
  | false =>
      obtain ⟨c, ds, hcons⟩ := List.exists_cons_of_ne_nil d.digits_ne_nil
      have hc : Bytes.isDigit c = true := d.allDigits c (hcons ▸ List.mem_cons_self)
      rw [text_of_not_negative hnegative, ← hsigned, hnegative, hcons, Integer.read_of_isDigit hc]

/-- An integer that fits is read. -/
theorem Fits.exists_read (h : d.Fits) :
    ∃ n : Int64, n.toInt = d.value ∧ Integer.read d.text = .ok n := by
  obtain ⟨hleast, hgreatest⟩ := h
  have hvalue : (Int64.ofInt d.value).toInt = d.value :=
    Int64.toInt_ofInt_of_le hleast (by omega)
  refine ⟨Int64.ofInt d.value, hvalue, ?_⟩
  rw [read_text, ← Integer.narrow_toInt, hvalue]

/-- An integer that does not fit is out of range. -/
theorem read_of_not_fits (h : ¬ d.Fits) : Integer.read d.text = .error .outOfRange := by
  rw [read_text, Integer.narrow, if_neg]
  rw [Bool.and_eq_true, decide_eq_true_eq, decide_eq_true_eq]
  exact h

end SignedDigits

end JumpScript
