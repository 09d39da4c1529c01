import JumpScript.Proofs.Number.Integers
import JumpScript.Proofs.Token.Faults

/-!
# Integers in sources

Digits with or without a minus sign are scanned as a whole, the sign with them.  A source that
consists of them is one int if 64 bits hold the integer that they denote.  Otherwise there is no
token at all, and the fault is about the whole of the source.
-/

namespace JumpScript

namespace SignedDigits

variable {d : SignedDigits}

theorem mem_text {c : UInt8} (hc : c ∈ d.text) : Bytes.isDigit c = true ∨ c = 0x2D := by
  rcases List.mem_append.mp hc with hsign | hdigit
  · split at hsign
    · exact .inr (List.mem_singleton.mp hsign)
    · cases hsign
  · exact .inl (d.allDigits c hdigit)

theorem not_mem_text {c : UInt8} (hdigit : Bytes.isDigit c = false) (hminus : c ≠ 0x2D) :
    c ∉ d.text := by
  intro hc
  rcases mem_text hc with h | h
  · rw [hdigit] at h
    cases h
  · exact hminus h

end SignedDigits

namespace Scan

variable {b : UInt8} {r rest : Bytes}

/-- Digits up to a boundary are one int, or one fault. -/
theorem number_of_digits (hr : Numeral.AllDigits r) (hrest : Bounded rest) :
    number b (r ++ rest) =
      match Integer.read (b :: r) with
      | .ok n => .ok (.int n, r.length)
      | .error _ => .error ⟨0, r.length + 1, .intOutOfRange (b :: r)⟩ := by
  have hspan : numberSpan false (r ++ rest) = ⟨r.length, false, false⟩ := by
    rw [numberSpan_digits hr, numberSpan_of_bounded hrest]
    simp
  cases hread : Integer.read (b :: r) <;>
    simp [number, hspan, filter_of_bounded hrest, hread]

/-- Digits and their sign begin a number, and nothing but digits comes after the first byte. -/
theorem exists_beginsNumber (d : SignedDigits) :
    ∃ b r, d.text = b :: r ∧ BeginsNumber b r ∧ Numeral.AllDigits r := by
  obtain ⟨c, ds, hcons⟩ := List.exists_cons_of_ne_nil d.digits_ne_nil
  obtain ⟨hc, hds⟩ := List.forall_mem_cons.mp (hcons ▸ d.allDigits)
  cases hnegative : d.negative with
  | true =>
      refine ⟨0x2D, c :: ds, ?_, .inr ⟨rfl, hc⟩, List.forall_mem_cons.mpr ⟨hc, hds⟩⟩
      rw [SignedDigits.text_of_negative hnegative, hcons]
  | false =>
      refine ⟨c, ds, ?_, .inl hc, hds⟩
      rw [SignedDigits.text_of_not_negative hnegative, hcons]

end Scan

/-- A line without a carriage return is quoted as it is. -/
theorem lineText_eq_self {s : Bytes} (hnewline : 0x0A ∉ s) (hreturn : 0x0D ∉ s) :
    lineText s = s := by
  have htake : s.takeWhile (· != 0x0A) = s := by
    rw [List.takeWhile_eq_self_iff]
    intro c hc
    exact bne_iff_ne.mpr fun h => hnewline (h ▸ hc)
  have hdrop : s.reverse.dropWhile (· == 0x0D) = s.reverse := by
    rw [List.dropWhile_eq_self_iff]
    intro hne hlast
    exact hreturn (eq_of_beq hlast ▸ List.mem_reverse.mp (List.getElem_mem hne))
  rw [lineText, htake, Bytes.dropWhileEnd, hdrop, List.reverse_reverse]

/-- The scan of a source that is one int from its first byte to its last. -/
def scanOfInt (file source : Bytes) (n : Int64) : List Token × Except Diagnostic Token :=
  ([⟨.int n, 1, 1, 0, source.length, file, source⟩],
    .ok ⟨.endOfFile, 1, source.length + 1, source.length, 0, file, source⟩)

/-- The scan of a source that is an integer out of range. -/
def scanOutOfRange (file source : Bytes) : List Token × Except Diagnostic Token :=
  ([], .error
    { stage := .lexing, file, line := 1, column := 1, offset := 0, width := source.length
      message := text "integer literal " ++ source ++ text " out of range"
      context := source, cause := none })

theorem scanOutOfRange_ne_scanOfInt (file s : Bytes) (n : Int64) :
    scanOutOfRange file s ≠ scanOfInt file s n :=
  nofun

namespace SignedDigits

def cursor (d : SignedDigits) : Cursor := ⟨d.text, 0, 1, 1, d.text⟩

theorem start_text (d : SignedDigits) : Cursor.start d.text = d.cursor := by
  rw [Cursor.start, cursor, lineText_eq_self (not_mem_text (by decide) (by decide))
    (not_mem_text (by decide) (by decide))]

theorem pass_cursor (d : SignedDigits) :
    d.cursor.pass d.text.length = ⟨[], d.text.length, 1, d.text.length + 1, d.text⟩ := by
  have hnewline : (0x0A : UInt8) ∉ d.text.take d.text.length := by
    rw [List.take_length]
    exact not_mem_text (by decide) (by decide)
  have hpass := Cursor.pass_of_newline_not_mem (c := d.cursor) (Nat.le_refl _) hnewline
  rw [cursor] at hpass ⊢
  rw [hpass, List.drop_length, Nat.zero_add, Nat.add_comm 1]

/-- A source of digits is scanned as it is read. -/
theorem scan_text (file : Bytes) (d : SignedDigits) :
    scan file d.text =
      match Integer.read d.text with
      | .ok n => scanOfInt file d.text n
      | .error _ => scanOutOfRange file d.text := by
  obtain ⟨b, r, htext, hbegins, hr⟩ := Scan.exists_beginsNumber d
  obtain ⟨hspace, hcomment, -⟩ := Scan.isSpace_of_beginsNumber hbegins
  have hskip : d.cursor.skip = d.cursor := Cursor.skip_eq_self htext hspace hcomment
  have hrest : d.cursor.skip.rest = b :: r := by
    rw [hskip]
    exact htext
  have hlength : r.length + 1 = d.text.length := by rw [htext, List.length_cons]
  have hbounded : Scan.Bounded [] := nofun
  have hlexeme :=
    (Scan.lexemeAt_of_beginsNumber hbegins []).trans (Scan.number_of_digits hr hbounded)
  rw [List.append_nil, ← htext, hlength] at hlexeme
  rw [scan, start_text]
  cases hread : Integer.read d.text with
  | ok n =>
      rw [hread] at hlexeme
      rw [Cursor.tokens_cons file hrest hlexeme, hskip, hlength, pass_cursor, Cursor.tokens_nil rfl]
      rfl
  | error e =>
      rw [hread] at hlexeme
      rw [Cursor.tokens_fault file hrest hlexeme, hskip]
      rfl

end SignedDigits

end JumpScript
