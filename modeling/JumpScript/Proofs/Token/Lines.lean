import JumpScript.Proofs.Token.Faults

/-!
# Tokens on their lines

Only a string runs over the end of a line: the other lexemes hold neither newlines nor carriage
returns, and a string ends with its quote.  So the text of a line goes on at least as far as any
token that begins and ends on it, and a token with a newline in it runs past that text.
-/

namespace JumpScript

namespace Scan

variable {b : UInt8} {r u : Bytes} {l : Lexeme} {n k : Nat}

theorem isNamePart_unbroken (h : isNamePart b = true) : b ≠ 0x0A ∧ b ≠ 0x0D := by
  constructor
  · rintro rfl
    exact absurd h (by decide)
  · rintro rfl
    exact absurd h (by decide)

theorem unbroken_of_name (hb : isNameStart b = true) (h : name b r = .ok (l, n)) :
    Unbroken (b :: r.take n) := by
  obtain ⟨rfl, -⟩ := name_eq_ok h
  have htake : r.take (r.takeWhile isNamePart).length = r.takeWhile isNamePart :=
    (List.prefix_iff_eq_take.mp (List.takeWhile_prefix isNamePart)).symm
  rw [htake]
  refine unbroken_cons (isNamePart_unbroken (by rw [isNamePart, hb, Bool.true_or])) fun c hc => ?_
  exact isNamePart_unbroken (List.mem_takeWhile_imp hc)

theorem unbroken_of_mark (h : mark b r = .ok (l, n)) : Unbroken (b :: r.take n) := by
  rcases mark_eq_ok_cases h with ⟨m, s, hdouble, rfl, rfl, rfl⟩ | ⟨m, hsingle, rfl, rfl⟩
  · refine unbroken_cons ⟨?_, ?_⟩ (by simp [Unbroken])
    · rintro rfl
      cases hdouble
    · rintro rfl
      cases hdouble
  · refine unbroken_cons ⟨?_, ?_⟩ (by simp [Unbroken])
    · rintro rfl
      cases hsingle
    · rintro rfl
      cases hsingle

/-- A string ends with its quote. -/
theorem Quoted.getLast? (h : Quoted r u k) : (r.take k).getLast? = some 0x22 := by
  have hpos {r u : Bytes} {k : Nat} (h : Quoted r u k) : r.take k ≠ [] := by
    cases h <;> simp
  induction h with
  | close => rfl
  | escape he h ih =>
      rw [List.take_succ_cons, List.take_succ_cons, List.getLast?_cons_of_ne_nil (by simp),
        List.getLast?_cons_of_ne_nil (hpos h), ih]
  | plain hquote hslash h ih =>
      rw [List.take_succ_cons, List.getLast?_cons_of_ne_nil (hpos h), ih]

/-- What the bytes of a lexeme that closes no statement end with, and where a newline can be. -/
structure Ended (l : Lexeme) (s : Bytes) : Prop where
  last : ∃ c, s.getLast? = some c ∧ c ≠ 0x0D
  newline : 0x0A ∈ s → ∃ said, l = .string said

theorem Unbroken.ended {s : Bytes} (h : Unbroken s) (hne : s ≠ []) (l : Lexeme) : Ended l s := by
  refine ⟨⟨s.getLast hne, List.getLast?_eq_some_getLast hne, ?_⟩, fun hmem => ?_⟩
  · exact (h _ (List.getLast_mem hne)).2
  · exact absurd rfl (h _ hmem).1

theorem ended_of_lexemeAt (h : lexemeAt b r = .ok (l, n)) (hl : l ≠ .endOfStatement) :
    Ended l (b :: r.take n) := by
  revert h
  fun_cases lexemeAt b r <;> intro h
  case case1 => exact absurd (Prod.mk.inj (Except.ok.inj h)).1.symm hl
  case case2 hend hnumber =>
    obtain ⟨rfl, -⟩ := number_eq_ok h
    refine (unbroken_cons ⟨?_, ?_⟩ (unbroken_take_numberSpan false r)).ended (by simp) l
    · rintro rfl
      exact hend rfl
    · rintro rfl
      cases hnumber
  case case3 hname => exact (unbroken_of_name hname h).ended (by simp) l
  case case4 hquote =>
    obtain ⟨said, rfl, hquoted⟩ := string_eq_ok_iff.mp h
    have hlast := hquoted.getLast?
    refine ⟨⟨0x22, ?_, by decide⟩, fun _ => ⟨said, rfl⟩⟩
    rw [List.getLast?_cons_of_ne_nil, hlast]
    rintro hnil
    rw [hnil] at hlast
    cases hlast
  case case5 => exact (unbroken_of_mark h).ended (by simp) l

end Scan

section Lines

variable {s u source : Bytes} {b : UInt8} {offset : Nat}

/-- The text of a line goes on at least as far as bytes of it that do not end in a carriage
return. -/
theorem le_length_lineText (hu : u ++ [b] <+: s) (hline : 0x0A ∉ u ++ [b]) (hb : b ≠ 0x0D) :
    (u ++ [b]).length ≤ (lineText s).length := by
  obtain ⟨v, rfl⟩ := hu
  have hpass : ∀ c ∈ u ++ [b], (c != 0x0A) = true := by
    intro c hc
    rw [bne_iff_ne]
    rintro rfl
    exact hline hc
  rw [lineText, Bytes.dropWhileEnd, List.takeWhile_append_of_pos hpass, List.reverse_append,
    List.reverse_append, List.reverse_singleton, List.length_reverse, List.dropWhile_append]
  have hstop : ([b] ++ u.reverse).dropWhile (· == 0x0D) = [b] ++ u.reverse :=
    List.dropWhile_cons_of_neg (by simpa using hb)
  rw [hstop]
  split <;> simp

/-- Bytes with a newline in them run past the text of their line. -/
theorem length_lineText_lt (hu : u <+: s) (hline : 0x0A ∈ u) : (lineText s).length < u.length := by
  obtain ⟨v, rfl⟩ := hu
  obtain ⟨before, after, rfl⟩ := List.append_of_mem hline
  have htext : ((before ++ 0x0A :: after) ++ v).takeWhile (· != 0x0A)
      = before.takeWhile (· != 0x0A) := by
    rw [List.append_assoc, List.cons_append, Scan.takeWhile_append_stop (by decide)]
  have hdrop := (List.dropWhile_suffix (· == 0x0D)
    (l := (before.takeWhile (· != 0x0A)).reverse)).length_le
  have htake := (List.takeWhile_prefix (· != 0x0A) (l := before)).length_le
  rw [lineText, Bytes.dropWhileEnd, htext, List.length_reverse]
  rw [List.length_reverse] at hdrop
  simp only [List.length_append, List.length_cons]
  omega

theorem extract_append_drop {k : Nat} (h : offset ≤ k) :
    source.extract offset k ++ source.drop k = source.drop offset := by
  have hsplit : k = offset + (k - offset) := by omega
  rw [List.extract_eq_take_drop]
  nth_rewrite 2 [hsplit]
  rw [← List.drop_drop, List.take_append_drop]

/-- From the start of a line on there is no newline before the offset. -/
theorem newline_not_mem_line (source : Bytes) (offset : Nat) :
    0x0A ∉ source.extract (lineStart source offset) offset := by
  let passed := (source.take offset).reverse
  have hsplit : source.take offset
      = (passed.dropWhile (· != 0x0A)).reverse ++ (passed.takeWhile (· != 0x0A)).reverse := by
    rw [← List.reverse_append, List.takeWhile_append_dropWhile, List.reverse_reverse]
  have hline : source.extract (lineStart source offset) offset
      = (passed.takeWhile (· != 0x0A)).reverse := by
    rw [List.extract_eq_take_drop, ← List.drop_take, hsplit]
    exact List.drop_left' (List.length_reverse ..)
  rw [hline, List.mem_reverse]
  exact fun hmem => absurd (List.mem_takeWhile_imp hmem) (by decide)

theorem length_extract_of_le {k : Nat} (h : k ≤ source.length) :
    (source.extract offset k).length = k - offset := by
  rw [List.extract_eq_take_drop, List.length_take_of_le]
  rw [List.length_drop]
  omega

end Lines

/-- A token is the lexeme that its place begins with. -/
def Token.Lexed (source : Bytes) (t : Token) : Prop :=
  ∃ b r n, source.drop t.offset = b :: r ∧ Scan.lexemeAt b r = .ok (t.lexeme, n) ∧
    t.width = n + 1

theorem Cursor.At.lexed {source file : Bytes} {c : Cursor} {t : Token} (h : c.At source)
    (ht : t ∈ (c.tokens file).1) : t.Lexed source := by
  fun_induction Cursor.tokens file c with
  | case1 => cases ht
  | case2 => cases ht
  | case3 c b r hrest l n hl hlt ts stop hmore ih =>
      rw [hmore] at ih
      rcases List.mem_cons.mp ht with rfl | ht
      · exact ⟨b, r, n, h.skip.rest_eq.symm.trans hrest, hl, rfl⟩
      · exact ih (h.skip.pass (n + 1)) ht

namespace Token

variable {source : Bytes} {t u : Token}

theorem Lexed.stop_le (h : t.Lexed source) : t.stop ≤ source.length := by
  obtain ⟨b, r, n, hdrop, hl, hwidth⟩ := h
  have hle := Scan.le_length_of_lexemeAt hl
  have hlength := congrArg List.length hdrop
  rw [List.length_drop, List.length_cons] at hlength
  rw [stop]
  omega

theorem Lexed.ended (h : t.Lexed source) (ht : t.isEnd = false) :
    Scan.Ended t.lexeme (t.bytes source) := by
  obtain ⟨b, r, n, hdrop, hl, hwidth⟩ := h
  rw [bytes_of_drop hdrop hwidth]
  refine Scan.ended_of_lexemeAt hl fun hend => ?_
  rw [Token.isEnd, hend] at ht
  cases ht

theorem Placed.line_mono (ht : t.Placed source) (hu : u.Placed source)
    (hle : t.offset ≤ u.offset) : t.line ≤ u.line := by
  rw [ht.line_eq, hu.line_eq]
  exact Nat.add_le_add_left ((List.take_sublist_take_left hle).count_le 0x0A) 1

/-- Between tokens of one line there is no newline. -/
theorem Placed.newline_not_mem (ht : t.Placed source) (hu : u.Placed source)
    (hle : t.offset ≤ u.offset) (hline : u.line = t.line) :
    0x0A ∉ source.extract t.offset u.offset := by
  have htake : source.take u.offset
      = source.take t.offset ++ source.extract t.offset u.offset := by
    rw [List.extract_eq_take_drop, ← List.take_add, Nat.add_sub_cancel' hle]
  rw [ht.line_eq, hu.line_eq, htake, List.count_append] at hline
  exact List.count_eq_zero.mp (by omega)

/-- What begins at a token and ends with another one of its line lies within the text of the line
unless the other token has a newline in it. -/
theorem Placed.fits_iff (ht : t.Placed source) (hu : u.Placed source) (hlexed : u.Lexed source)
    (hend : u.isEnd = false) (hle : t.offset ≤ u.offset) (hline : u.line = t.line) :
    t.column - 1 + (u.stop - t.offset) ≤ t.context.length ↔ 0x0A ∉ u.bytes source := by
  let first := lineStart source t.offset
  let before := source.extract first t.offset ++ source.extract t.offset u.offset
  have hfirst : first ≤ t.offset := lineStart_le source t.offset
  have hstop : u.offset ≤ u.stop := Nat.le_add_right _ _
  have hbound := hlexed.stop_le
  -- the bytes from the start of the line up to the end of the other token
  have hprefix : before ++ u.bytes source <+: source.drop first := by
    refine ⟨source.drop u.stop, ?_⟩
    rw [List.append_assoc, bytes, extract_append_drop hstop, List.append_assoc,
      extract_append_drop hle, extract_append_drop hfirst]
  have hlength : (before ++ u.bytes source).length = t.column - 1 + (u.stop - t.offset) := by
    simp only [before, List.length_append, bytes, ht.column_eq]
    rw [length_extract_of_le (by omega), length_extract_of_le (by omega),
      length_extract_of_le hbound]
    omega
  have hbefore : 0x0A ∉ before := by
    rw [List.mem_append, not_or]
    exact ⟨newline_not_mem_line source t.offset, ht.newline_not_mem hu hle hline⟩
  rw [ht.context_eq, ← hlength]
  constructor
  · intro hfits hmem
    exact absurd (length_lineText_lt hprefix (List.mem_append_right before hmem))
      (Nat.not_lt.mpr hfits)
  · intro hnot
    obtain ⟨c, hlast, hc⟩ := (hlexed.ended hend).last
    obtain ⟨w, hw⟩ := List.getLast?_eq_some_iff.mp hlast
    rw [hw, ← List.append_assoc] at hprefix ⊢
    refine le_length_lineText hprefix ?_ hc
    rw [List.append_assoc, ← hw, List.mem_append, not_or]
    exact ⟨hbefore, hnot⟩

end Token

end JumpScript
