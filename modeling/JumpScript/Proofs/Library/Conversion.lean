import JumpScript.Library.Native
import JumpScript.Proofs.Text.Utf8
import JumpScript.Proofs.Token.Integers

/-!
# Reading and writing integers

Integers are read in two places, in a source and in a string that is converted, and written in one
way.  On digits with or without a minus sign the two readers agree: both take the integer that is
denoted as long as 64 bits hold it, and both refuse it otherwise.  What is written is such a text,
so that both read it back.
-/

namespace JumpScript

namespace Bytes

theorem trim_of_not_blank {s : Bytes} (h : ∀ u ∈ Utf8.symbols s, u.isBlank = false) :
    trim s = s := by
  have hkept : ∀ us : List Utf8.Symbol, (∀ u ∈ us, u.isBlank = false) →
      us.dropWhile (·.isBlank) = us := by
    intro us hus
    rw [List.dropWhile_eq_self_iff]
    intro hne
    simp [hus _ (List.getElem_mem hne)]
  rw [trim, hkept _ h, hkept _ fun u hu => h u (List.mem_reverse.mp hu), List.reverse_reverse,
    Utf8.spell_symbols]

/-- Digits and minus signs are not trimmed. -/
theorem trim_signed {s : Bytes} (h : ∀ c ∈ s, isDigit c = true ∨ c = 0x2D) : trim s = s := by
  have hbyte : ∀ c ∈ s, c.toNat < 0x80 ∧ isBlank c.toNat = false := by
    intro c hc
    rcases h c hc with hdigit | rfl
    · have hbounds : 0x30 ≤ c.toNat ∧ c.toNat ≤ 0x39 := isDigit_iff.mp hdigit
      refine ⟨by omega, ?_⟩
      simp [isBlank]
      omega
    · decide
  apply trim_of_not_blank
  rw [Utf8.IsAscii.symbols_eq fun c hc => (hbyte c hc).1]
  intro u hu
  obtain ⟨c, hc, rfl⟩ := List.mem_map.mp hu
  exact (hbyte c hc).2

end Bytes

namespace Native

variable {ν : Type} (caller : Caller ν) (names : List Bytes) (m : Machine ν)

theorem run_writeInt (n : Int64) :
    run caller (.conversion .writeInt) names [.int n] m
      = (m, .ok (.str (Bytes.ofInt n.toInt))) := rfl

theorem run_readInt (s : Bytes) :
    run caller (.conversion .readInt) names [.str s] m =
      (m, match Integer.read s.trim with
        | .ok n => .ok (.int n)
        | .error _ => .error (.fault (.notInteger s))) := by
  change computed m (match Integer.read s.trim with
    | .ok n => .ok (.int n)
    | .error _ => .error (.notInteger s)) = _
  cases Integer.read s.trim <;> rfl

theorem run_readInt_text (d : SignedDigits) :
    run caller (.conversion .readInt) names [.str d.text] m =
      (m, match Integer.read d.text with
        | .ok n => .ok (.int n)
        | .error _ => .error (.fault (.notInteger d.text))) := by
  rw [run_readInt, Bytes.trim_signed fun _ => SignedDigits.mem_text]

/-- An integer that fits is taken by both readers. -/
theorem exists_taken_of_fits (file : Bytes) {d : SignedDigits} (h : d.Fits) :
    ∃ n : Int64, n.toInt = d.value ∧ scan file d.text = scanOfInt file d.text n ∧
      run caller (.conversion .readInt) names [.str d.text] m = (m, .ok (.int n)) := by
  obtain ⟨n, hvalue, hread⟩ := h.exists_read
  refine ⟨n, hvalue, ?_, ?_⟩
  · rw [SignedDigits.scan_text, hread]
  · rw [run_readInt_text, hread]

/-- An integer that does not fit is refused by both readers. -/
theorem refused_of_not_fits (file : Bytes) {d : SignedDigits} (h : ¬ d.Fits) :
    scan file d.text = scanOutOfRange file d.text ∧
      run caller (.conversion .readInt) names [.str d.text] m
        = (m, .error (.fault (.notInteger d.text))) := by
  have hread := SignedDigits.read_of_not_fits h
  constructor
  · rw [SignedDigits.scan_text, hread]
  · rw [run_readInt_text, hread]

theorem exists_scan_iff_fits (file : Bytes) (d : SignedDigits) :
    (∃ n, scan file d.text = scanOfInt file d.text n) ↔ d.Fits := by
  rw [SignedDigits.scan_text]
  constructor
  · rintro ⟨n, hscan⟩
    by_contra hfits
    rw [SignedDigits.read_of_not_fits hfits] at hscan
    exact scanOutOfRange_ne_scanOfInt file d.text n hscan
  · intro hfits
    obtain ⟨n, -, hread⟩ := hfits.exists_read
    exact ⟨n, by rw [hread]⟩

theorem exists_readInt_iff_fits (d : SignedDigits) :
    (∃ n, run caller (.conversion .readInt) names [.str d.text] m = (m, .ok (.int n))) ↔
      d.Fits := by
  rw [run_readInt_text]
  constructor
  · rintro ⟨n, hrun⟩
    by_contra hfits
    rw [SignedDigits.read_of_not_fits hfits] at hrun
    cases hrun
  · intro hfits
    obtain ⟨n, -, hread⟩ := hfits.exists_read
    exact ⟨n, by rw [hread]⟩

/-- Without digits there is no integer, to either reader. -/
theorem refused_of_no_digits (file : Bytes) {s : Bytes} (hs : s ∈ [[], [0x2D]]) :
    (∀ t ∈ (scan file s).1, t.kind ≠ .int) ∧
      run caller (.conversion .readInt) names [.str s] m
        = (m, .error (.fault (.notInteger s))) := by
  have hsigns : ∀ c ∈ s, Bytes.isDigit c = true ∨ c = 0x2D := by
    intro c hc
    rcases List.mem_pair.mp hs with rfl | rfl
    · cases hc
    · exact .inr (List.mem_singleton.mp hc)
  rw [run_readInt, Bytes.trim_signed hsigns]
  rcases List.mem_pair.mp hs with rfl | rfl
  · refine ⟨?_, rfl⟩
    rw [scan, Cursor.tokens_nil rfl]
    intro t ht
    cases ht
  · refine ⟨?_, rfl⟩
    have hminus : Scan.lexemeAt 0x2D [] = .ok (.mark .minus, 0) := rfl
    rw [scan, Cursor.tokens_cons file rfl hminus, Cursor.tokens_nil rfl]
    intro t ht hkind
    rw [List.mem_singleton.mp ht] at hkind
    cases hkind

/-- The codecs of integers agree.  What is written for an int is its text in a source, and is read
back by the conversion and, standing alone as a source, by the scanner.  Of digits with or without a
minus sign, any number of them and with zeros in front or not, both readers take the integer that is
denoted, if it lies between the least int and the greatest; if it does not, the conversion refuses
the text and the scanner reports the whole of it as out of range.  A text that has no digits at all
is an integer to neither. -/
theorem integer_codecs_agree (file : Bytes) :
    (∀ n : Int64, ∃ s,
      run caller (.conversion .writeInt) names [.int n] m = (m, .ok (.str s)) ∧
        s = (Operand.int n).text ∧
        run caller (.conversion .readInt) names [.str s] m = (m, .ok (.int n)) ∧
        scan file s = scanOfInt file s n) ∧
    (∀ d : SignedDigits,
      ((∃ n, scan file d.text = scanOfInt file d.text n) ↔ d.Fits) ∧
      ((∃ n, run caller (.conversion .readInt) names [.str d.text] m = (m, .ok (.int n)))
        ↔ d.Fits) ∧
      (d.Fits → ∃ n : Int64, n.toInt = d.value ∧
        scan file d.text = scanOfInt file d.text n ∧
        run caller (.conversion .readInt) names [.str d.text] m = (m, .ok (.int n))) ∧
      (¬ d.Fits → scan file d.text = scanOutOfRange file d.text ∧
        run caller (.conversion .readInt) names [.str d.text] m
          = (m, .error (.fault (.notInteger d.text))))) ∧
    ∀ s ∈ [[], [0x2D]], (∀ t ∈ (scan file s).1, t.kind ≠ .int) ∧
      run caller (.conversion .readInt) names [.str s] m
        = (m, .error (.fault (.notInteger s))) := by
  refine ⟨fun n => ?_, fun d => ⟨exists_scan_iff_fits file d,
    exists_readInt_iff_fits caller names m d, exists_taken_of_fits caller names m file,
    refused_of_not_fits caller names m file⟩, fun s => refused_of_no_digits caller names m file⟩
  obtain ⟨k, hk, hscan, hrun⟩ :=
    exists_taken_of_fits caller names m file (SignedDigits.fits_ofInt n)
  rw [SignedDigits.value_ofInt, Int64.toInt_inj] at hk
  rw [SignedDigits.text_ofInt, hk] at hscan hrun
  exact ⟨_, run_writeInt caller names m n, rfl, hrun, hscan⟩

/-- The least int with zeros in front, the first integer above the greatest int, and a minus sign
without digits. -/
theorem integer_codecs_agree_limits :
    let m : Machine Native := { program := #[] }
    let least := text "-000009223372036854775808"
    let above := text "9223372036854775808"
    scan [] least = scanOfInt [] least Int64.minValue ∧
      run (Machine.call host) (.conversion .readInt) [] [.str least] m
        = (m, .ok (.int Int64.minValue)) ∧
      scan [] above = scanOutOfRange [] above ∧
      run (Machine.call host) (.conversion .readInt) [] [.str above] m
        = (m, .error (.fault (.notInteger above))) ∧
      run (Machine.call host) (.conversion .readInt) [] [.str [0x2D]] m
        = (m, .error (.fault (.notInteger [0x2D]))) := by
  intro m least above
  let d : SignedDigits := ⟨true, text "000009223372036854775808", by decide, by decide⟩
  let e : SignedDigits := ⟨false, above, by decide, by decide⟩
  obtain ⟨-, hdigits, hnone⟩ := integer_codecs_agree (Machine.call host) [] m []
  obtain ⟨-, -, htaken, -⟩ := hdigits d
  obtain ⟨-, -, -, hrefused⟩ := hdigits e
  obtain ⟨n, hvalue, hscan, hrun⟩ := htaken (by decide)
  obtain rfl : n = Int64.minValue := Int64.toInt_inj.mp (hvalue.trans (by decide))
  obtain ⟨hscanAbove, hrunAbove⟩ := hrefused (by decide)
  exact ⟨hscan, hrun, hscanAbove, hrunAbove, (hnone [0x2D] (by decide)).2⟩

end Native

end JumpScript
