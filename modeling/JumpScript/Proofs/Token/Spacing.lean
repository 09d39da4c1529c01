import JumpScript.Proofs.Token.Lines

/-!
# Spacing

What stands between two tokens only keeps them apart.  The bytes of the tokens of a source, written
one after another with single spaces between them, are scanned into the same tokens again: each was
read without regard to what followed it, as long as that was a space.
-/

namespace JumpScript

namespace Scan

variable {b : UInt8} {r : Bytes} {l : Lexeme} {n : Nat}

/-- A text is read to its end as one lexeme if nothing or a space follows it. -/
def Separable (u : Bytes) (l : Lexeme) : Prop :=
  ∃ b r, u = b :: r ∧ isSpace b = false ∧ b ≠ 0x23 ∧
    ∀ x, Spaced x → lexemeAt b (r ++ x) = .ok (l, r.length)

theorem separable_take (h : lexemeAt b r = .ok (l, n)) : Separable (b :: r.take n) l := by
  obtain ⟨hspace, hcomment⟩ := not_gap_of_lexemeAt h
  refine ⟨b, r.take n, rfl, hspace, hcomment, fun x hx => ?_⟩
  rw [List.length_take_of_le (le_length_of_lexemeAt h)]
  exact lexemeAt_take h hx

end Scan

namespace Token

variable {source : Bytes} {t : Token}

theorem Lexed.separable (h : t.Lexed source) : Scan.Separable (t.bytes source) t.lexeme := by
  obtain ⟨b, r, n, hdrop, hl, hwidth⟩ := h
  rw [bytes_of_drop hdrop hwidth]
  exact Scan.separable_take hl

/-- The bytes of tokens, with single spaces between them. -/
def respaced (source : Bytes) (ts : List Token) : Bytes :=
  [0x20].intercalate (ts.map (bytes source))

end Token

namespace Cursor

variable {source file : Bytes} {c : Cursor}

/-- What follows the first of several texts with spaces between them: nothing, or a space that can
be left out. -/
theorem exists_rest_of_intercalate (source file u : Bytes) (us : List Bytes) :
    ∃ x, [0x20].intercalate (u :: us) = u ++ x ∧ Scan.Spaced x ∧
      ∀ c : Cursor, c.At source → c.rest = x →
        ∃ c' : Cursor, c'.At source ∧ c'.rest = [0x20].intercalate us ∧
          c.tokens file = c'.tokens file := by
  cases us with
  | nil =>
      exact ⟨[], by rw [List.intercalate_singleton, List.append_nil], Scan.spaced_nil,
        fun c hc hrest => ⟨c, hc, hrest, rfl⟩⟩
  | cons v vs =>
      refine ⟨0x20 :: [0x20].intercalate (v :: vs), ?_, ?_, fun c hc hrest => ?_⟩
      · rw [List.intercalate_cons_cons, List.append_assoc, List.singleton_append]
      · intro d hd
        obtain rfl : 0x20 = d := by simpa using hd
        decide
      · refine ⟨c.step, hc.step, by rw [rest_step, hrest]; rfl, ?_⟩
        exact (tokens_of_skip_eq (skip_step_of_isSpace (by decide) hrest)).symm

/-- Texts that can be told apart by spaces are scanned one by one. -/
theorem At.tokens_intercalate (h : c.At source) {us : List Bytes} {ls : List Lexeme}
    (hus : List.Forall₂ Scan.Separable us ls) (hrest : c.rest = [0x20].intercalate us) :
    ∃ ts last, c.tokens file = (ts, .ok last) ∧ ts.map Token.lexeme = ls ∧
      ts.map (Token.bytes source) = us ∧ last.lexeme = .endOfFile := by
  induction hus generalizing c with
  | nil =>
      have hnil : c.skip.rest = [] := by
        rw [rest_skip, hrest]
        rfl
      exact ⟨[], _, tokens_nil hnil, rfl, rfl, rfl⟩
  | @cons u l us ls hu _ ih =>
      -- the text `x` begins with the space, which the scanner passes before it goes on with `us`
      obtain ⟨x, htext, hspaced, hafter⟩ := exists_rest_of_intercalate source file u us
      obtain ⟨b, r, rfl, hspace, hcomment, hread⟩ := hu
      have hcons : c.rest = b :: (r ++ x) := by rw [hrest, htext, List.cons_append]
      have hself : c.skip = c := skip_eq_self hcons hspace hcomment
      have hpassed : (c.pass (r.length + 1)).rest = x := by
        rw [rest_pass, hcons, List.drop_succ_cons, List.drop_left]
      obtain ⟨c', hc', hrest', htokens'⟩ := hafter _ (h.pass _) hpassed
      obtain ⟨ts, last, htokens, hls, hbytes, hlast⟩ := ih hc' hrest'
      refine ⟨c.token file l (r.length + 1) :: ts, last, ?_, ?_, ?_, hlast⟩
      · rw [tokens_cons file (by rw [hself, hcons]) (hread x hspaced), hself, htokens', htokens]
      · rw [List.map_cons, hls]
        rfl
      · rw [List.map_cons, hbytes, Token.bytes_of_drop (h.rest_eq.symm.trans hcons) rfl,
          List.take_left]

end Cursor

/-- Spacing makes no difference.  If a source scans without a fault, then the bytes of its tokens,
one after another with single spaces between them and without the comments and the other white
space, scan without a fault into tokens that say the same and have the same bytes. -/
theorem respacing_keeps_tokens (file source : Bytes) (ts : List Token) (last : Token)
    (h : scan file source = (ts, .ok last)) :
    ∃ us last', scan file (Token.respaced source ts) = (us, .ok last') ∧
      us.map Token.lexeme = ts.map Token.lexeme ∧
      us.map (Token.bytes (Token.respaced source ts)) = ts.map (Token.bytes source) ∧
      last.lexeme = .endOfFile ∧ last'.lexeme = .endOfFile := by
  have hat : (Cursor.start source).At source := Cursor.at_start source
  have hlexed : ∀ t ∈ ts, t.Lexed source := by
    intro t ht
    have hscanned : t ∈ (scan file source).1 := by
      rw [h]
      exact ht
    exact hat.lexed hscanned
  have hseparable : List.Forall₂ Scan.Separable (ts.map (Token.bytes source))
      (ts.map Token.lexeme) := by
    rw [List.forall₂_map_left_iff, List.forall₂_map_right_iff, List.forall₂_same]
    exact fun t ht => (hlexed t ht).separable
  obtain ⟨us, last', hscan, hlexemes, hbytes, hlast'⟩ :=
    (Cursor.at_start (Token.respaced source ts)).tokens_intercalate hseparable rfl
  exact ⟨us, last', hscan, hlexemes, hbytes, (hat.covers h).last_eq.1, hlast'⟩

/-- Tokens that stand side by side, a comment, and a string over two lines. -/
theorem respacing_keeps_tokens_sideBySide :
    ∃ us last, scan [] (text "x = -1 \n a - \"b\nc\" \"\" == 3 ;") = (us, .ok last) ∧
      us.map Token.lexeme =
        [.identifier (text "x"), .mark .equals, .int (-1), .endOfStatement,
          .identifier (text "a"), .mark .minus, .string (text "b\nc"), .string [],
          .mark .equalsEquals, .int 3, .endOfStatement] := by
  let source := text "x=-1# c\n\ta-\"b\nc\"\"\"==3;"
  have hscan : (scan [] source).2
      = .ok ⟨.endOfFile, 3, 9, 22, 0, [], text "c\"\"\"==3;"⟩ := by decide +kernel
  obtain ⟨us, last, hus, hlexemes, -⟩ :=
    respacing_keeps_tokens [] source (scan [] source).1 _ (Prod.ext rfl hscan)
  refine ⟨us, last, ?_, hlexemes.trans (by decide +kernel)⟩
  rw [← hus]
  exact congrArg (scan []) (by decide +kernel)

end JumpScript
