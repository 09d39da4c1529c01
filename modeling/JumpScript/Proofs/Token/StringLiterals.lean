import JumpScript.Proofs.Token.Faults

/-!
# String literals

The literal of a text is read back wherever a scanner meets it.  It needs no gap before it, ends
with its own closing quote whatever follows, and stays on one line, since the control characters
that could break a line are spelled by escapes.
-/

namespace JumpScript

namespace Cursor

variable {c : Cursor} {s rest : Bytes}

/-- A literal is passed on its line. -/
theorem pass_stringLiteral (hrest : c.rest = stringLiteral s ++ rest) :
    c.pass (stringLiteral s).length
      = ⟨rest, c.offset + (stringLiteral s).length, c.line, c.column + (stringLiteral s).length,
          c.context⟩ := by
  have hlength : (stringLiteral s).length ≤ c.rest.length := by
    rw [hrest, List.length_append]
    exact Nat.le_add_right _ _
  have hline : 0x0A ∉ c.rest.take (stringLiteral s).length := by
    rw [hrest, List.take_left]
    exact Scan.control_not_mem_stringLiteral (by decide) s
  rw [pass_of_newline_not_mem hlength hline, hrest, List.drop_left]

theorem next_stringLiteral (file : Bytes) (hrest : c.rest = stringLiteral s ++ rest) :
    c.next file
      = (c.pass (stringLiteral s).length,
          .ok (c.token file (.string s) (stringLiteral s).length)) := by
  obtain ⟨b, r, hliteral, hspace, hcomment, hl⟩ := (Scan.spells_string s rest).read
  have hcons : c.rest = b :: (r ++ rest) := by rw [hrest, hliteral, List.cons_append]
  rw [next, skip_eq_self hcons hspace hcomment, hcons]
  simp only [hl, hliteral, List.length_cons]

end Cursor

/-- String literals are read back in any context.  Whatever a scanner has counted so far, the
literal of any text is one string token that says this text and is as wide as the literal; the
scanner is then at the first byte behind it, whatever that is, and on the same line.  For the
literal has no newline in it, and no carriage return, tab or zero byte either. -/
theorem string_literals_read_back (file s rest : Bytes) (c : Cursor)
    (hrest : c.rest = stringLiteral s ++ rest) :
    (∀ b ∈ stringLiteral s, b ≠ 0x0A ∧ b ≠ 0x0D ∧ b ≠ 0x09 ∧ b ≠ 0x00) ∧
    ∃ t c', c.next file = (c', .ok t) ∧
      t = ⟨.string s, c.line, c.column, c.offset, (stringLiteral s).length, file, c.context⟩ ∧
      c' = ⟨rest, c.offset + (stringLiteral s).length, c.line,
          c.column + (stringLiteral s).length, c.context⟩ := by
  constructor
  · intro b hb
    have hcontrol : ∀ k ∈ Scan.escapedControls, b ≠ k := by
      rintro k hk rfl
      exact Scan.control_not_mem_stringLiteral hk s hb
    exact ⟨hcontrol _ (by decide), hcontrol _ (by decide), hcontrol _ (by decide),
      hcontrol _ (by decide)⟩
  · exact ⟨_, _, Cursor.next_stringLiteral file hrest, rfl, Cursor.pass_stringLiteral hrest⟩

/-- Backslashes and quotes in a row, a line end and a zero byte, with another quote and a letter
behind the literal. -/
theorem string_literals_read_back_beforeQuote :
    let s := text "\\\"\\\r\n\x00'"
    let literal := text "\"\\\\\\\"\\\\\\r\\n\\0'\""
    let c : Cursor := ⟨literal ++ text "\"n", 7, 3, 5, text "x = "⟩
    literal = stringLiteral s ∧
      c.next []
        = (⟨text "\"n", 22, 3, 20, text "x = "⟩,
            .ok ⟨.string s, 3, 5, 7, 15, [], text "x = "⟩) := by
  intro s literal c
  have hliteral : literal = stringLiteral s := by decide
  have hrest : c.rest = stringLiteral s ++ text "\"n" := congrArg (· ++ text "\"n") hliteral
  obtain ⟨-, t, c', hnext, ht, hc'⟩ := string_literals_read_back [] s (text "\"n") c hrest
  refine ⟨hliteral, ?_⟩
  rw [hnext, ht, hc']
  rfl

end JumpScript
