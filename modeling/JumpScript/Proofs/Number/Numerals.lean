import Mathlib.Tactic.ByContra
import JumpScript.Number.Numeral
import JumpScript.Proofs.Number.Bits
import JumpScript.Proofs.Number.Digits

/-!
# Reading floating-point numerals

A numeral that begins with a digit is never read as an infinity or as NaN, and what is read is
finite.  A numeral with a point is read as the number that its digits spell, scaled by the digits
after the point.
-/

namespace JumpScript

namespace Numeral

def AllDigits (ds : Bytes) : Prop := ∀ c ∈ ds, Bytes.isDigit c = true

instance (ds : Bytes) : Decidable (AllDigits ds) := List.decidableBAll _ ds

theorem AllDigits.append {ds es : Bytes} (hds : AllDigits ds)
    (hes : AllDigits es) : AllDigits (ds ++ es) := by
  intro c hc
  rcases List.mem_append.mp hc with h | h
  · exact hds c h
  · exact hes c h

theorem allDigits_fill (n : Nat) : AllDigits (Bytes.fill n 0x30) := by
  intro c hc
  rw [List.eq_of_mem_replicate hc]
  decide

/-- A numeral with a point: a sign, the whole part and the fraction. -/
def pointed (negative : Bool) (whole fraction : Bytes) : Bytes :=
  (if negative then [0x2D] else []) ++ (whole ++ 0x2E :: fraction)

theorem digit?_of_isDigit {c : UInt8} (hc : Bytes.isDigit c = true) :
    digit? 10 c = some (Bytes.digitValue c) := by
  have hbounds : 0x30 ≤ c ∧ c ≤ 0x39 := by
    simpa [Bytes.isDigit] using hc
  have hlt : c.toNat - 48 < 10 := by
    have := UInt8.le_iff_toNat_le.mp hbounds.2
    simp at this
    omega
  simp [digit?, Bytes.hexValue?, Bytes.digitValue, hbounds, hlt]

theorem isDigit_ne {c b : UInt8} (hc : Bytes.isDigit c = true)
    (hb : Bytes.isDigit b = false) : c ≠ b := by
  rintro rfl
  rw [hc] at hb
  exact absurd hb (by decide)

/-- Digits are taken into the mantissa one after another. -/
theorem readMantissa_digits {ds : Bytes} (hds : AllDigits ds) (m : Mantissa)
    (rest : Bytes) :
    readMantissa 10 m (ds ++ rest)
      = readMantissa 10
          { m with
            reversed := (ds.map Bytes.digitValue).reverse ++ m.reversed
            fraction :=
              if m.pointSeen then m.fraction + ds.length else m.fraction }
          rest := by
  induction ds generalizing m with
  | nil => simp
  | cons c ds ih =>
      have hc : Bytes.isDigit c = true := hds c List.mem_cons_self
      have hunderscore := isDigit_ne hc (show Bytes.isDigit 0x5F = false by decide)
      have hpoint := isDigit_ne hc (show Bytes.isDigit 0x2E = false by decide)
      have htail := ih (fun d hd => hds d (List.mem_cons_of_mem c hd))
        (m.push (Bytes.digitValue c))
      rw [List.cons_append, readMantissa, if_neg (by simpa using hunderscore),
        if_neg (by simpa using hpoint), digit?_of_isDigit hc]
      change readMantissa 10 (m.push (Bytes.digitValue c)) (ds ++ rest) = _
      rw [htail]
      obtain ⟨reversed, count, seen⟩ := m
      cases seen
      · simp [Mantissa.push]
      · simp [Mantissa.push, Nat.add_assoc, Nat.add_comm 1]

/-- The mantissa of a numeral with a point. -/
theorem readMantissa_pointed {whole fraction : Bytes} (hwhole : AllDigits whole)
    (hfraction : AllDigits fraction) :
    readMantissa 10 {} (whole ++ 0x2E :: fraction)
      = (⟨((whole ++ fraction).map Bytes.digitValue).reverse, fraction.length, true⟩, []) := by
  have hend := readMantissa_digits hfraction
    ⟨(whole.map Bytes.digitValue).reverse, 0, true⟩ []
  rw [List.append_nil] at hend
  rw [readMantissa_digits hwhole, readMantissa]
  simp [hend, readMantissa]

/-- Without underscores there is none in the wrong place. -/
theorem underscoresOk_of_not_mem {s : Bytes} (hs : 0x5F ∉ s)
    (isDigit : UInt8 → Bool) (afterDigit : Bool) :
    underscoresOk isDigit afterDigit false s = true := by
  induction s generalizing afterDigit with
  | nil => rfl
  | cons c s ih =>
      simp only [List.mem_cons, not_or] at hs
      have hc : (c == 0x5F) = false := by
        simpa using fun h => hs.1 h.symm
      rw [underscoresOk]
      split
      · exact ih hs.2 true
      · rw [hc]
        simpa using ih hs.2 false

/-- A text does not begin with a lower-case word when its first byte is neither the word's first
letter nor a capital. -/
theorem map_lowerAscii_ne {c d : UInt8} (hlower : Bytes.lowerAscii c = c)
    (hne : c ≠ d) (r w : Bytes) :
    ((c :: r).map Bytes.lowerAscii == d :: w) = false := by
  simp [hlower, hne]

theorem lowerAscii_of_isDigit {c : UInt8} (hc : Bytes.isDigit c = true) :
    Bytes.lowerAscii c = c := by
  have hbounds : 0x30 ≤ c ∧ c ≤ 0x39 := by
    simpa [Bytes.isDigit] using hc
  rw [Bytes.lowerAscii, if_neg]
  intro hcapital
  have hle : (0x41 : UInt8) ≤ c := by
    simp at hcapital
    exact hcapital.1
  exact absurd (UInt8.le_trans hle hbounds.2) (by decide)

/-- A numeral with a digit after its sign is read as digits, not as a name. -/
theorem read_of_isDigit {c : UInt8} (hc : Bytes.isDigit c = true)
    (negative : Bool) (r : Bytes) :
    read ((if negative then [0x2D] else []) ++ c :: r)
      = (readMagnitude (c :: r)).map (Double.ofMagnitude negative) := by
  have hlower := lowerAscii_of_isDigit hc
  have hletter := isDigit_ne hc (show Bytes.isDigit 0x69 = false by decide)
  have hinf : ((c :: r).map Bytes.lowerAscii == text "inf") = false :=
    map_lowerAscii_ne hlower hletter r [0x6E, 0x66]
  have hinfinity : ((c :: r).map Bytes.lowerAscii == text "infinity") = false :=
    map_lowerAscii_ne hlower hletter r (text "nfinity")
  cases negative with
  | true =>
      have hnan : ((0x2D :: c :: r).map Bytes.lowerAscii == text "nan") = false :=
        map_lowerAscii_ne rfl (by decide) (c :: r) [0x61, 0x6E]
      change read (0x2D :: c :: r) = _
      simp only [read, hinf, hinfinity, hnan]
      rfl
  | false =>
      have hnan : ((c :: r).map Bytes.lowerAscii == text "nan") = false :=
        map_lowerAscii_ne hlower (isDigit_ne hc (by decide)) r [0x61, 0x6E]
      change read (c :: r) = _
      unfold read
      split
      rename_i sign body hsign
      split at hsign
      · rename_i heq
        exact absurd (List.cons.inj heq).1 (isDigit_ne hc (by decide))
      · rename_i heq
        exact absurd (List.cons.inj heq).1 (isDigit_ne hc (by decide))
      · obtain ⟨rfl, rfl⟩ := Prod.mk.inj hsign
        change (if (_ || _) = true then _ else if _ = true then _ else _) = _
        rw [hinf, hinfinity, hnan]
        rfl

/-- Whatever is read lies below infinity. -/
theorem lt_infinite_of_readMagnitude {s : Bytes} {b : Nat}
    (hread : readMagnitude s = .ok b) : b < Double.infinite := by
  revert hread
  fun_cases readMagnitude s <;> intro hread
  · cases hread
  · cases hread
  · rename_i hfinite
    rw [← Except.ok.inj hread]
    exact hfinite
  · cases hread

/-- A numeral with a digit after its sign is read as a finite double. -/
theorem isFinite_of_read {c : UInt8} (hc : Bytes.isDigit c = true)
    (negative : Bool) {r : Bytes} {x : Float}
    (hread : read ((if negative then [0x2D] else []) ++ c :: r) = .ok x) :
    Double.isFinite x = true := by
  rw [read_of_isDigit hc] at hread
  cases hmagnitude : readMagnitude (c :: r) with
  | error e =>
      rw [hmagnitude] at hread
      simp [Except.map] at hread
  | ok b =>
      rw [hmagnitude] at hread
      rw [← Except.ok.inj hread]
      exact Double.isFinite_ofMagnitude negative
        (lt_infinite_of_readMagnitude hmagnitude)

/-- The magnitude of a numeral with a point is that of its digits. -/
theorem readMagnitude_pointed {whole fraction : Bytes} {b : Nat}
    (hne : whole ≠ []) (hwhole : AllDigits whole)
    (hfraction : AllDigits fraction) (hfinite : b < Double.infinite)
    (hnearest : Decimal.nearest (Bytes.numeral (whole ++ fraction))
      (whole ++ fraction).length (-fraction.length) = b) :
    readMagnitude (whole ++ 0x2E :: fraction) = .ok b := by
  have hbytes : ∀ d ∈ whole ++ 0x2E :: fraction,
      Bytes.isDigit d = true ∨ d = 0x2E := by
    intro d hd
    simp only [List.mem_append, List.mem_cons] at hd
    rcases hd with hd | rfl | hd
    · exact Or.inl (hwhole d hd)
    · exact Or.inr rfl
    · exact Or.inl (hfraction d hd)
  have hunderscore : (0x5F : UInt8) ∉ whole ++ 0x2E :: fraction := by
    intro hmem
    rcases hbytes _ hmem with h | h <;> exact absurd h (by decide)
  have hhex : (text "0x").isPrefixOf
      ((whole ++ 0x2E :: fraction).map Bytes.lowerAscii) = false := by
    by_contra hprefix
    rw [Bool.not_eq_false, List.isPrefixOf_iff_prefix] at hprefix
    have hmem : (0x78 : UInt8) ∈ (whole ++ 0x2E :: fraction).map Bytes.lowerAscii :=
      hprefix.subset (by decide)
    obtain ⟨d, hd, hlower⟩ := List.mem_map.mp hmem
    rcases hbytes d hd with hdigit | rfl
    · rw [lowerAscii_of_isDigit hdigit] at hlower
      subst hlower
      exact absurd hdigit (by decide)
    · exact absurd hlower (by decide)
  have hsize : (whole ++ fraction).length ≠ 0 := by
    simp [hne]
  simp only [readMagnitude, hhex, Bool.and_false, Bool.false_eq_true, if_false,
    readMantissa_pointed hwhole hfraction, underscoresOk_of_not_mem hunderscore,
    Mantissa.size, Mantissa.value, List.length_reverse, List.length_map,
    List.reverse_reverse, hsize, decide_false, Bool.not_true, Bool.or_self,
    Int.zero_sub]
  change (if Decimal.nearest (Bytes.numeral (whole ++ fraction)) _ _ < _ then
    Except.ok (Decimal.nearest (Bytes.numeral (whole ++ fraction)) _ _)
    else _) = _
  rw [hnearest, if_pos hfinite]

end Numeral

end JumpScript
