import JumpScript.Proofs.Token.Extent

/-!
# Places of tokens

A cursor counts lines and columns as it passes bytes.  What it has counted is determined by the
source and the offset alone, so every token says where it stands.  The tokens of a source and the
gaps between them make up all of it.
-/

namespace JumpScript

/-- Where the line that an offset is in starts: after the last newline before the offset. -/
def lineStart (source : Bytes) (offset : Nat) : Nat :=
  ((source.take offset).reverse.dropWhile (· != 0x0A)).length

theorem lineStart_le (source : Bytes) (offset : Nat) : lineStart source offset ≤ offset := by
  have hdrop := (List.dropWhile_suffix (· != 0x0A) (l := (source.take offset).reverse)).length_le
  rw [List.length_reverse] at hdrop
  exact hdrop.trans (List.length_take_le offset source)

section Next

variable {source r : Bytes} {offset : Nat} {b : UInt8}

theorem take_succ_of_drop (h : source.drop offset = b :: r) :
    source.take (offset + 1) = source.take offset ++ [b] := by
  rw [List.take_add, h]
  rfl

theorem lt_length_of_drop (h : source.drop offset = b :: r) : offset < source.length := by
  have hlength := congrArg List.length h
  rw [List.length_drop, List.length_cons] at hlength
  omega

/-- A newline starts a line after it. -/
theorem lineStart_succ_newline (h : source.drop offset = 0x0A :: r) :
    lineStart source (offset + 1) = offset + 1 := by
  have hlt := lt_length_of_drop h
  rw [lineStart, take_succ_of_drop h, List.reverse_append, List.reverse_singleton]
  change (0x0A :: (source.take offset).reverse).length = offset + 1
  rw [List.length_cons, List.length_reverse, List.length_take_of_le (Nat.le_of_lt hlt)]

/-- Other bytes are on the line of the byte before. -/
theorem lineStart_succ (h : source.drop offset = b :: r) (hb : b ≠ 0x0A) :
    lineStart source (offset + 1) = lineStart source offset := by
  rw [lineStart, take_succ_of_drop h, List.reverse_append, List.reverse_singleton,
    List.singleton_append, List.dropWhile_cons_of_pos (by simpa using hb), lineStart]

end Next

namespace Cursor

variable {source : Bytes} {c : Cursor}

/-- A cursor stands at a place of a source, with everything it has counted right. -/
structure At (source : Bytes) (c : Cursor) : Prop where
  offset_le : c.offset ≤ source.length
  rest_eq : c.rest = source.drop c.offset
  line_eq : c.line = 1 + (source.take c.offset).count 0x0A
  column_eq : c.column = c.offset - lineStart source c.offset + 1
  context_eq : c.context = lineText (source.drop (lineStart source c.offset))

theorem at_start (source : Bytes) : (start source).At source where
  offset_le := Nat.zero_le _
  rest_eq := rfl
  line_eq := rfl
  column_eq := rfl
  context_eq := rfl

theorem At.step (h : c.At source) : c.step.At source := by
  cases hrest : c.rest with
  | nil =>
      have hstay : c.step = c := by rw [Cursor.step, hrest]
      rw [hstay]
      exact h
  | cons b r =>
      have hdrop : source.drop c.offset = b :: r := h.rest_eq.symm.trans hrest
      have hlt := lt_length_of_drop hdrop
      have hnext : r = source.drop (c.offset + 1) := by
        rw [← List.drop_drop, hdrop]
        rfl
      have htake := take_succ_of_drop hdrop
      by_cases hb : b = 0x0A
      · subst hb
        have hstep : c.step = ⟨r, c.offset + 1, c.line + 1, 1, lineText r⟩ := by
          rw [Cursor.step, hrest]
          rfl
        have hstart := lineStart_succ_newline hdrop
        rw [hstep]
        refine ⟨hlt, hnext, ?_, ?_, ?_⟩
        · rw [htake, List.count_append, h.line_eq]
          rfl
        · rw [hstart, Nat.sub_self]
        · rw [hstart, ← hnext]
      · have hstep : c.step = ⟨r, c.offset + 1, c.line, c.column + 1, c.context⟩ := by
          rw [Cursor.step, hrest]
          simp only [beq_iff_eq, hb, if_false]
        have hstart := lineStart_succ hdrop hb
        have hle := lineStart_le source c.offset
        rw [hstep]
        refine ⟨hlt, hnext, ?_, ?_, ?_⟩
        · rw [htake, List.count_append, List.count_singleton, h.line_eq]
          simp [hb]
        · rw [hstart, h.column_eq]
          dsimp only
          omega
        · rw [hstart, h.context_eq]

theorem At.pass (h : c.At source) (n : Nat) : (c.pass n).At source := by
  induction n generalizing c with
  | zero => exact h
  | succ n ih => exact ih h.step

theorem At.skip (h : c.At source) : c.skip.At source := h.pass _

theorem offset_pass {n : Nat} (hn : n ≤ c.rest.length) : (c.pass n).offset = c.offset + n := by
  induction n generalizing c with
  | zero => rfl
  | succ n ih =>
      cases hrest : c.rest with
      | nil =>
          rw [hrest] at hn
          cases hn
      | cons b r =>
          have hstep : c.step.offset = c.offset + 1 := by
            rw [Cursor.step, hrest]
            dsimp only
            split
            · rfl
            · rfl
          have hle : n ≤ c.step.rest.length := by
            rw [rest_step, List.length_drop]
            omega
          rw [Cursor.pass, ih hle, hstep]
          omega

/-- The bytes of a lexeme are there to be passed. -/
theorem le_length_rest {b : UInt8} {r : Bytes} {l : Lexeme} {n : Nat} (hrest : c.rest = b :: r)
    (hl : Scan.lexemeAt b r = .ok (l, n)) : n + 1 ≤ c.rest.length := by
  rw [hrest]
  exact Nat.succ_le_succ (Scan.le_length_of_lexemeAt hl)

theorem offset_skip (c : Cursor) : c.skip.offset = c.offset + (Scan.gap c.rest).length :=
  offset_pass (Scan.length_gap_le c.rest)

end Cursor

namespace Token

def stop (t : Token) : Nat := t.offset + t.width

/-- The bytes of a token. -/
def bytes (source : Bytes) (t : Token) : Bytes := source.extract t.offset t.stop

theorem bytes_of_drop {source r : Bytes} {t : Token} {b : UInt8} {n : Nat}
    (hdrop : source.drop t.offset = b :: r) (hwidth : t.width = n + 1) :
    t.bytes source = b :: r.take n := by
  rw [bytes, stop, List.extract_eq_take_drop, Nat.add_sub_cancel_left, hdrop, hwidth,
    List.take_succ_cons]

/-- The line, the column and the line text of a token are those of its offset. -/
structure Placed (source : Bytes) (t : Token) : Prop where
  line_eq : t.line = 1 + (source.take t.offset).count 0x0A
  column_eq : t.column = t.offset - lineStart source t.offset + 1
  context_eq : t.context = lineText (source.drop (lineStart source t.offset))

/-- Between an offset and a token there is a gap. -/
structure After (source : Bytes) (offset : Nat) (t : Token) : Prop where
  offset_le : offset ≤ t.offset
  isGap : Scan.IsGap (source.extract offset t.offset) (source.drop t.offset)

/-- The bytes of a token make up a source with this token alone. -/
def Alone (source : Bytes) (t : Token) : Prop :=
  ∀ file, ∃ u last, scan file (t.bytes source) = ([u], .ok last) ∧ u.lexeme = t.lexeme

end Token

/-- Tokens from an offset of a source on, and the end of file after them. -/
inductive Covers (source : Bytes) : Nat → List Token → Token → Prop where
  | done {offset : Nat} {last : Token} (hafter : last.After source offset)
      (hplaced : last.Placed source) (hlexeme : last.lexeme = .endOfFile)
      (hoffset : last.offset = source.length) (hwidth : last.width = 0) :
      Covers source offset [] last
  | next {offset : Nat} {t : Token} {ts : List Token} {last : Token}
      (hafter : t.After source offset) (hplaced : t.Placed source) (hwidth : 0 < t.width)
      (halone : t.Alone source) (hrest : Covers source t.stop ts last) :
      Covers source offset (t :: ts) last

namespace Cursor

variable {source : Bytes} {c : Cursor} {file : Bytes}

theorem At.placed (h : c.At source) (l : Lexeme) (width : Nat) :
    (c.token file l width).Placed source :=
  ⟨h.line_eq, h.column_eq, h.context_eq⟩

/-- What is skipped is a gap. -/
theorem At.after_skip (h : c.At source) (l : Lexeme) (width : Nat) :
    (c.skip.token file l width).After source c.offset := by
  have hextract : source.extract c.offset c.skip.offset = Scan.gap c.rest := by
    rw [offset_skip, List.extract_eq_take_drop, Nat.add_sub_cancel_left, ← h.rest_eq]
    nth_rewrite 2 [← Scan.gap_append_afterGap c.rest]
    rw [List.take_left]
  have hdrop : source.drop c.skip.offset = Scan.afterGap c.rest := by
    rw [← h.skip.rest_eq, rest_skip]
  refine ⟨?_, ?_⟩
  · change c.offset ≤ c.skip.offset
    rw [offset_skip]
    exact Nat.le_add_right _ _
  · change Scan.IsGap (source.extract c.offset c.skip.offset) (source.drop c.skip.offset)
    rw [hextract, hdrop]
    exact Scan.isGap_gap c.rest

theorem At.alone (h : c.At source) {b : UInt8} {r : Bytes} {l : Lexeme} {n : Nat}
    (hrest : c.skip.rest = b :: r) (hl : Scan.lexemeAt b r = .ok (l, n)) :
    (c.skip.token file l (n + 1)).Alone source := by
  have hbytes : (c.skip.token file l (n + 1)).bytes source = b :: r.take n :=
    Token.bytes_of_drop (h.skip.rest_eq.symm.trans hrest) rfl
  intro name
  have hscans := Scan.scans_take (c.rest_skip.symm.trans hrest) hl
  obtain ⟨us, last, hscan, hlexemes⟩ := scan_eq_ok_iff.mpr hscans
  obtain ⟨u, rfl, hu⟩ := List.map_eq_singleton_iff.mp hlexemes
  rw [hbytes]
  exact ⟨u, last, hscan, hu⟩

/-- Tokens are laid out from the place where scanning begins. -/
theorem At.covers (h : c.At source) {ts : List Token} {last : Token}
    (htokens : c.tokens file = (ts, .ok last)) : Covers source c.offset ts last := by
  induction ts generalizing c with
  | nil =>
      obtain ⟨hrest, rfl⟩ := end_of_tokens htokens
      refine Covers.done (h.after_skip _ _) (h.skip.placed _ _) rfl ?_ rfl
      have hend : source.drop c.skip.offset = [] := h.skip.rest_eq.symm.trans hrest
      have hle := List.drop_eq_nil_iff.mp hend
      exact Nat.le_antisymm h.skip.offset_le hle
  | cons t ts ih =>
      obtain ⟨b, r, l, n, hrest, hl, rfl, hmore⟩ := first_of_tokens htokens
      have hcovers := ih (h.skip.pass (n + 1)) hmore
      rw [offset_pass (le_length_rest hrest hl)] at hcovers
      exact Covers.next (h.after_skip _ _) (h.skip.placed _ _) (Nat.succ_pos n) (h.alone hrest hl)
        hcovers

end Cursor

namespace Covers

variable {source : Bytes} {offset : Nat} {ts : List Token} {last : Token}

theorem offset_le (h : Covers source offset ts last) : ∀ t ∈ ts ++ [last], offset ≤ t.offset := by
  induction h with
  | done hafter _ _ _ _ =>
      intro t ht
      obtain rfl := List.mem_singleton.mp ht
      exact hafter.offset_le
  | @next offset t ts last hafter _ _ _ _ ih =>
      intro u hu
      rcases List.mem_cons.mp hu with rfl | hu
      · exact hafter.offset_le
      · have hstop := ih u hu
        have hle := hafter.offset_le
        rw [Token.stop] at hstop
        omega

/-- Each token ends before the others begin. -/
theorem pairwise (h : Covers source offset ts last) :
    (ts ++ [last]).Pairwise fun t u => t.offset + t.width ≤ u.offset := by
  induction h with
  | done => exact List.pairwise_singleton _ _
  | next _ _ _ _ hrest ih => exact List.Pairwise.cons hrest.offset_le ih

theorem isGap (h : Covers source offset ts last) :
    ∀ p ∈ (offset :: ts.map Token.stop).zip (ts ++ [last]),
      Scan.IsGap (source.extract p.1 p.2.offset) (source.drop p.2.offset) := by
  induction h with
  | done hafter _ _ _ _ =>
      intro p hp
      obtain rfl := List.mem_singleton.mp hp
      exact hafter.isGap
  | next hafter _ _ _ _ ih =>
      intro p hp
      rcases List.mem_cons.mp hp with rfl | hp
      · exact hafter.isGap
      · exact ih p hp

theorem alone (h : Covers source offset ts last) : ∀ t ∈ ts, 0 < t.width ∧ t.Alone source := by
  induction h with
  | done =>
      intro t ht
      cases ht
  | next _ _ hwidth halone _ ih =>
      intro u hu
      rcases List.mem_cons.mp hu with rfl | hu
      · exact ⟨hwidth, halone⟩
      · exact ih u hu

theorem placed (h : Covers source offset ts last) : ∀ t ∈ ts ++ [last], t.Placed source := by
  induction h with
  | done _ hplaced _ _ _ =>
      intro t ht
      obtain rfl := List.mem_singleton.mp ht
      exact hplaced
  | next _ hplaced _ _ _ ih =>
      intro u hu
      rcases List.mem_cons.mp hu with rfl | hu
      · exact hplaced
      · exact ih u hu

theorem last_eq (h : Covers source offset ts last) :
    last.lexeme = .endOfFile ∧ last.offset = source.length ∧ last.width = 0 := by
  induction h with
  | done _ _ hlexeme hoffset hwidth => exact ⟨hlexeme, hoffset, hwidth⟩
  | next _ _ _ _ _ ih => exact ih

end Covers

/-- Scanning loses nothing, and places are right.  The tokens of a source and the end of file after
its last byte stand one after another, with nothing but gaps between them and before the first; the
bytes of each token are by themselves a source of that token; and each token, the end of file
included, has the line, the column and the line text of its offset. -/
theorem scan_covers_source (file source : Bytes) (ts : List Token) (last : Token)
    (h : scan file source = (ts, .ok last)) :
    (last.lexeme = .endOfFile ∧ last.offset = source.length ∧ last.width = 0) ∧
    ((ts ++ [last]).Pairwise fun t u => t.offset + t.width ≤ u.offset) ∧
    (∀ p ∈ (0 :: ts.map Token.stop).zip (ts ++ [last]),
      Scan.IsGap (source.extract p.1 p.2.offset) (source.drop p.2.offset)) ∧
    (∀ t ∈ ts, 0 < t.width ∧ t.Alone source) ∧
    ∀ t ∈ ts ++ [last], t.Placed source := by
  have hcovers : Covers source 0 ts last := (Cursor.at_start source).covers h
  exact ⟨hcovers.last_eq, hcovers.pairwise, hcovers.isGap, hcovers.alone, hcovers.placed⟩

/-- A string over two lines, a comment, a carriage return and a statement after them. -/
theorem scan_covers_source_twoLines :
    let source := text "\"a\nb\" # c\r\n ret"
    let ts : List Token :=
      [⟨.string (text "a\nb"), 1, 1, 0, 5, [], text "\"a"⟩,
        ⟨.endOfStatement, 2, 8, 10, 1, [], text "b\" # c"⟩,
        ⟨.mark .retWord, 3, 2, 12, 3, [], text " ret"⟩]
    let last : Token := ⟨.endOfFile, 3, 5, 15, 0, [], text " ret"⟩
    scan [] source = (ts, .ok last) ∧ Scan.IsGap (source.extract 5 10) (source.drop 10) ∧
      (∀ t ∈ ts, t.Alone source) ∧ ∀ t ∈ ts ++ [last], t.Placed source := by
  intro source ts last
  have hscan : scan [] source = (ts, .ok last) := by decide +kernel
  obtain ⟨-, -, hgap, halone, hplaced⟩ := scan_covers_source [] source ts last hscan
  exact ⟨hscan, hgap (5, ts.get ⟨1, by decide⟩) (by decide +kernel), fun t ht => (halone t ht).2,
    hplaced⟩

end JumpScript
