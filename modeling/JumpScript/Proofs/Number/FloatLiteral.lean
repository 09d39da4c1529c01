import Mathlib.Data.List.TakeWhile
import Mathlib.Tactic.Set
import JumpScript.Proofs.Number.Numerals
import JumpScript.Proofs.Number.Rounding
import JumpScript.Statement.Basic

/-!
# Float literals

The literal of a finite double is a sign, digits, a point and more digits, and reading it gives the
double back, bit for bit.  The search for the shortest decimal reads every candidate back before it
is taken, and its last resort, the exact expansion, rounds to the double as well; laying out the
digits around a point does not change the number they spell.
-/

namespace JumpScript

namespace Decimal

/-- A candidate has been read back, whichever neighbour it is. -/
theorem exists_of_candidate? {b n : Nat} {p : Int} {d : Decimal} (hpos : 0 < b)
    (hfinite : b < Double.infinite) (hcandidate : candidate? b p n = some d) :
    ∃ m e, d = ofScaled m e ∧ RoundsTo m e b := by
  have hrounds : ∀ {m size : Nat} {e : Int}, (nearest m size e == b) = true →
      RoundsTo m e b :=
    fun h => roundsTo_of_nearest hpos hfinite (eq_of_beq h)
  revert hcandidate
  fun_cases candidate? b p n <;> intro hcandidate
  · rename_i e _ _ num den low below above hboth
    rw [Bool.and_eq_true] at hboth
    refine ⟨Double.roundDiv num den, e, (Option.some.inj hcandidate).symm, ?_⟩
    rcases Double.roundDiv_eq_or num den with hlow | hhigh
    · rw [hlow]
      exact hrounds hboth.1
    · rw [hhigh]
      exact hrounds hboth.2
  · rename_i e _ _ num den low below above _ hbelow
    exact ⟨low, e, (Option.some.inj hcandidate).symm, hrounds hbelow⟩
  · rename_i e _ _ num den low below above _ _ habove
    exact ⟨low + 1, e, (Option.some.inj hcandidate).symm, hrounds habove⟩
  · cases hcandidate

/-- Five-powers turn a fraction of a power of two into a decimal one. -/
theorem roundsTo_mul_five_pow {u b : Nat} (k : Nat) (hpos : 0 < u)
    (hnearest : Double.nearest u (Nat.pow 2 k) = b) :
    RoundsTo (u * Nat.pow 5 k) (-k) b := by
  refine ⟨Nat.mul_pos hpos (Nat.pow_pos (by decide)), ?_⟩
  change Double.nearest (u * 5 ^ k * 10 ^ (-(k : Int)).toNat) _ = b
  rw [show (-(k : Int)).toNat = 0 by omega, Int.neg_neg, Int.toNat_natCast,
    Nat.pow_zero, Nat.mul_one, Nat.mul_comm, show 10 = 5 * 2 by decide,
    Nat.mul_pow, Double.nearest_mul_left (Nat.pow_pos (by decide))]
  exact hnearest

theorem units_pos {b : Nat} (hpos : 0 < b) : 0 < Double.units b := by
  apply Nat.mul_pos _ (Nat.two_pow_pos _)
  unfold Double.significand Double.leadingBit
  split <;> omega

/-- The search gives a decimal that rounds to the magnitude: a candidate that was read back, or the
exact expansion. -/
theorem exists_of_search {b : Nat} {p : Int} (hpos : 0 < b)
    (hfinite : b < Double.infinite) (fuel n : Nat) :
    ∃ m e, search b p fuel n = ofScaled m e ∧ RoundsTo m e b := by
  induction fuel generalizing n with
  | zero =>
      obtain ⟨k, hone, hsearch⟩ : ∃ k, Double.unitsPerOne = Nat.pow 2 k ∧
          search b p 0 n = ofScaled (Double.units b * Nat.pow 5 k) (-k) :=
        ⟨1074, by unfold Double.unitsPerOne; rfl, rfl⟩
      have hunits := Double.nearest_units hfinite
      rw [hone] at hunits
      exact ⟨_, _, hsearch, roundsTo_mul_five_pow k (units_pos hpos) hunits⟩
  | succ fuel ih =>
      rw [search]
      cases hcandidate : candidate? b p n with
      | none => exact ih (n + 1)
      | some d => exact exists_of_candidate? hpos hfinite hcandidate

/-- The digits of a decimal spell a number that rounds to a magnitude. -/
structure Denotes (d : Decimal) (b : Nat) : Prop where
  nonempty : d.digits ≠ []
  digits : Numeral.AllDigits d.digits
  rounds : RoundsTo (Bytes.numeral d.digits) (d.point - d.digits.length) b

/-- A text is what is left without the zeros at its end, and those zeros. -/
theorem exists_zeros (s : Bytes) :
    ∃ z, s = (s.reverse.dropWhile (· == 0x30)).reverse ++ Bytes.fill z 0x30 := by
  refine ⟨(s.reverse.takeWhile (· == 0x30)).length, ?_⟩
  have hzeros : s.reverse.takeWhile (· == 0x30)
      = Bytes.fill (s.reverse.takeWhile (· == 0x30)).length 0x30 := by
    apply List.eq_replicate_of_mem
    intro c hc
    simpa using List.mem_takeWhile_imp hc
  have hsplit := congrArg List.reverse
    (List.takeWhile_append_dropWhile (p := (· == 0x30)) (l := s.reverse))
  rw [List.reverse_append, List.reverse_reverse, hzeros] at hsplit
  simpa [Bytes.fill] using hsplit.symm

/-- Dropping the zeros at the end of a number does not change what it denotes. -/
theorem denotes_ofScaled {m b : Nat} {e : Int} (hrounds : RoundsTo m e b) :
    (ofScaled m e).Denotes b := by
  obtain ⟨z, hz⟩ := exists_zeros (Bytes.ofNat m)
  set digits := ((Bytes.ofNat m).reverse.dropWhile (· == 0x30)).reverse with hdigits
  have hvalue : m = Bytes.numeral digits * 10 ^ z := by
    have h := congrArg Bytes.numeral hz
    rwa [Bytes.numeral_ofNat, Bytes.numeral_append, Bytes.numeral_fill_zero,
      Bytes.fill, List.length_replicate, Nat.add_zero] at h
  have hpoint : (ofScaled m e).point - digits.length = e + z := by
    have h := congrArg List.length hz
    simp only [List.length_append, Bytes.fill, List.length_replicate] at h
    simp only [ofScaled]
    omega
  have hpos := hrounds.1
  refine ⟨?_, ?_, ?_⟩
  · intro hnil
    change digits = [] at hnil
    rw [hnil] at hvalue
    simp at hvalue
    omega
  · intro c hc
    apply Bytes.isDigit_of_mem_ofNat (n := m)
    rw [hz]
    exact List.mem_append_left _ hc
  · change RoundsTo (Bytes.numeral digits) ((ofScaled m e).point - digits.length) b
    rw [hpoint, ← roundsTo_mul_pow, ← hvalue]
    exact hrounds

theorem denotes_shortest {b : Nat} (hpos : 0 < b) (hfinite : b < Double.infinite) :
    (shortest b).Denotes b := by
  rw [shortest, if_neg (by omega)]
  obtain ⟨m, e, heq, hrounds⟩ := exists_of_search hpos hfinite 17 1
  rw [heq]
  exact denotes_ofScaled hrounds

/-- A decimal as a numeral that always has a point. -/
def withPoint (d : Decimal) : Bytes :=
  if d.positional.contains 0x2E then d.positional else d.positional ++ text ".0"

theorem not_mem_of_allDigits {ds : Bytes} (hds : Numeral.AllDigits ds) :
    (0x2E : UInt8) ∉ ds :=
  fun hmem => absurd (hds _ hmem) (by decide)

/-- A text is digits, a point and more digits that spell a number rounding to a magnitude. -/
def PointedText (s : Bytes) (b : Nat) : Prop :=
  ∃ whole fraction, s = whole ++ 0x2E :: fraction ∧
    whole ≠ [] ∧ fraction ≠ [] ∧
    Numeral.AllDigits whole ∧ Numeral.AllDigits fraction ∧
    RoundsTo (Bytes.numeral (whole ++ fraction)) (-fraction.length) b

theorem withPoint_of_mem {d : Decimal} {whole fraction : Bytes}
    (hlayout : d.positional = whole ++ 0x2E :: fraction) :
    d.withPoint = whole ++ 0x2E :: fraction := by
  rw [withPoint, hlayout, if_pos (by simp)]

/-- Below one, zeros stand before the digits. -/
theorem pointedText_of_small {d : Decimal} {b : Nat} (hd : d.Denotes b)
    (hsmall : d.point ≤ 0) : PointedText d.withPoint b := by
  have hlayout : d.positional
      = [0x30] ++ 0x2E :: (Bytes.fill (-d.point).toNat 0x30 ++ d.digits) := by
    rw [positional, if_neg (by simpa using hd.nonempty), if_pos hsmall]
    rfl
  refine ⟨[0x30], Bytes.fill (-d.point).toNat 0x30 ++ d.digits,
    withPoint_of_mem hlayout, by simp, by simp [hd.nonempty],
    Numeral.allDigits_fill 1, (Numeral.allDigits_fill _).append hd.digits, ?_⟩
  have hvalue : Bytes.numeral ([0x30] ++ (Bytes.fill (-d.point).toNat 0x30 ++ d.digits))
      = Bytes.numeral d.digits := by
    rw [Bytes.numeral_append, Bytes.numeral_append, Bytes.numeral_fill_zero,
      Bytes.numeral_singleton, show Bytes.digitValue 0x30 = 0 by decide]
    simp
  have hscale : -((Bytes.fill (-d.point).toNat 0x30 ++ d.digits).length : Int)
      = d.point - d.digits.length := by
    simp only [List.length_append, Bytes.fill, List.length_replicate]
    omega
  rw [hvalue, hscale]
  exact hd.rounds

/-- A whole number gets zeros up to the point and one after it. -/
theorem pointedText_of_large {d : Decimal} {b : Nat} (hd : d.Denotes b)
    (hlarge : d.digits.length ≤ d.point) : PointedText d.withPoint b := by
  have hpos := List.length_pos_iff.mpr hd.nonempty
  set zeros := Bytes.fill (d.point.toNat - d.digits.length) 0x30 with hzeros
  have hwhole : Numeral.AllDigits (d.digits ++ zeros) :=
    hd.digits.append (Numeral.allDigits_fill _)
  have hlayout : d.positional = d.digits ++ zeros := by
    rw [positional, if_neg (by simpa using hd.nonempty), if_neg (by omega), if_pos hlarge]
  have htext : d.withPoint = (d.digits ++ zeros) ++ 0x2E :: [0x30] := by
    rw [withPoint, hlayout, if_neg (by simpa using not_mem_of_allDigits hwhole)]
    rfl
  refine ⟨d.digits ++ zeros, [0x30], htext, by simp [hd.nonempty], by simp, hwhole,
    Numeral.allDigits_fill 1, ?_⟩
  have hvalue : Bytes.numeral ((d.digits ++ zeros) ++ [0x30])
      = Bytes.numeral d.digits * 10 ^ (d.point.toNat - d.digits.length + 1) := by
    rw [Bytes.numeral_append, Bytes.numeral_append, hzeros, Bytes.numeral_fill_zero,
      Bytes.numeral_singleton, show Bytes.digitValue 0x30 = 0 by decide, Bytes.fill,
      List.length_replicate, List.length_singleton]
    ring
  rw [hvalue, roundsTo_mul_pow]
  have hscale : -(([0x30] : Bytes).length : Int)
      + ((d.point.toNat - d.digits.length + 1 : Nat) : Int)
      = d.point - d.digits.length := by
    simp only [List.length_singleton]
    omega
  rw [hscale]
  exact hd.rounds

/-- Otherwise the point stands between the digits. -/
theorem pointedText_of_between {d : Decimal} {b : Nat} (hd : d.Denotes b)
    (hsmall : ¬ d.point ≤ 0) (hlarge : ¬ d.digits.length ≤ d.point) :
    PointedText d.withPoint b := by
  have hlayout : d.positional
      = d.digits.take d.point.toNat ++ 0x2E :: d.digits.drop d.point.toNat := by
    rw [positional, if_neg (by simpa using hd.nonempty), if_neg hsmall, if_neg hlarge]
    simp
  refine ⟨d.digits.take d.point.toNat, d.digits.drop d.point.toNat,
    withPoint_of_mem hlayout, ?_, ?_, ?_, ?_, ?_⟩
  · simp only [ne_eq, List.take_eq_nil_iff, hd.nonempty, or_false]
    omega
  · simp only [ne_eq, List.drop_eq_nil_iff]
    omega
  · exact fun c hc => hd.digits c (List.mem_of_mem_take hc)
  · exact fun c hc => hd.digits c (List.mem_of_mem_drop hc)
  · have hscale : -((d.digits.drop d.point.toNat).length : Int)
        = d.point - d.digits.length := by
      simp only [List.length_drop]
      omega
    rw [List.take_append_drop, hscale]
    exact hd.rounds

theorem pointedText_withPoint {d : Decimal} {b : Nat} (hd : d.Denotes b) :
    PointedText d.withPoint b := by
  by_cases hsmall : d.point ≤ 0
  · exact pointedText_of_small hd hsmall
  · by_cases hlarge : d.digits.length ≤ d.point
    · exact pointedText_of_large hd hlarge
    · exact pointedText_of_between hd hsmall hlarge

end Decimal

theorem floatLiteral_eq {x : Float} (hfinite : Double.isFinite x = true) :
    floatLiteral x = (if Double.isNegative x then [0x2D] else [])
      ++ (Decimal.shortest (Double.magnitude x)).withPoint := by
  have hnan : Double.isNaN x = false := by
    simp [Double.isNaN, Double.isFinite] at *
    omega
  have hsign : (0x2E : UInt8) ∉ (if Double.isNegative x then [0x2D] else [] : Bytes) := by
    split <;> decide
  set sign : Bytes := if Double.isNegative x then [0x2D] else [] with hsignDef
  set body := (Decimal.shortest (Double.magnitude x)).positional with hbody
  have hplain : Double.plain x = sign ++ body := by
    rw [Double.plain, Double.write, hnan, hfinite]
    rfl
  have hcontains : (sign ++ body).contains 0x2E = body.contains 0x2E := by
    rw [Bool.eq_iff_iff]
    simp [hsign]
  simp only [floatLiteral, hplain, hcontains, Decimal.withPoint, ← hbody]
  split
  · rfl
  · rw [List.append_assoc]

/-- The literal of a finite double is a sign and digits around a point that are read as its
magnitude. -/
theorem exists_pointed {x : Float} (hfinite : Double.isFinite x = true) :
    ∃ whole fraction,
      floatLiteral x = Numeral.pointed (Double.isNegative x) whole fraction ∧
      whole ≠ [] ∧ fraction ≠ [] ∧
      Numeral.AllDigits whole ∧ Numeral.AllDigits fraction ∧
      Numeral.readMagnitude (whole ++ 0x2E :: fraction)
        = .ok (Double.magnitude x) := by
  have hlt : Double.magnitude x < Double.infinite := of_decide_eq_true hfinite
  rcases Nat.eq_zero_or_pos (Double.magnitude x) with hzero | hpos
  · have hdigit : Numeral.AllDigits [0x30] := Numeral.allDigits_fill 1
    refine ⟨[0x30], [0x30], ?_, by simp, by simp, hdigit, hdigit, ?_⟩
    · rw [floatLiteral_eq hfinite, hzero]
      rfl
    · have hvalue : Bytes.numeral ([0x30] ++ [0x30]) = 0 :=
        Bytes.numeral_fill_zero 2
      rw [hzero] at hlt ⊢
      apply Numeral.readMagnitude_pointed (by simp) hdigit hdigit hlt
      rw [hvalue, Decimal.nearest, if_pos rfl]
  · obtain ⟨whole, fraction, htext, hwhole, hfraction, hwholeDigits,
      hfractionDigits, hrounds⟩ :=
        Decimal.pointedText_withPoint (Decimal.denotes_shortest hpos hlt)
    refine ⟨whole, fraction, ?_, hwhole, hfraction, hwholeDigits, hfractionDigits, ?_⟩
    · rw [floatLiteral_eq hfinite, htext, Numeral.pointed]
    · apply Numeral.readMagnitude_pointed hwhole hwholeDigits hfractionDigits hlt
      exact Decimal.nearest_of_roundsTo (by simp) hrounds

/-- Reading undoes writing for every finite double, bit for bit. -/
theorem read_floatLiteral {x : Float} (hfinite : Double.isFinite x = true) :
    Numeral.read (floatLiteral x) = .ok x := by
  obtain ⟨whole, fraction, htext, hne, -, hwhole, -, hread⟩ := exists_pointed hfinite
  obtain ⟨c, r, rfl⟩ := List.exists_cons_of_ne_nil hne
  rw [htext, Numeral.pointed, List.cons_append,
    Numeral.read_of_isDigit (hwhole c List.mem_cons_self), ← List.cons_append, hread,
    Except.map, Double.ofMagnitude_magnitude x]

end JumpScript
