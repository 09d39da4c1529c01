import JumpScript.Proofs.Token.Places

/-!
# Sources one after another

A source that scans without a fault can be followed by a newline and any other source, and each of
the two is scanned as if it stood alone: the newline is an end of statement between their tokens,
and those of the second are found further down.

A cursor in the first source corresponds to one in a source that goes on (`Cursor.followed`), and a
cursor in the second to one that has so many bytes and lines above it (`Cursor.moved`).  Passing a
byte keeps either correspondence, so scanning does.
-/

namespace JumpScript

/-- The token with so many more bytes and lines above it. -/
def Token.moved (bytes lines : Nat) (t : Token) : Token :=
  { t with offset := t.offset + bytes, line := t.line + lines }

/-- The diagnostic with so many more bytes and lines above it. -/
def Diagnostic.moved (bytes lines : Nat) (d : Diagnostic) : Diagnostic :=
  { d with offset := d.offset + bytes, line := d.line + lines }

/-- The answer of a scanner with so many more bytes and lines above it. -/
def movedAnswer (bytes lines : Nat) : Except Diagnostic Token → Except Diagnostic Token
  | .ok t => .ok (t.moved bytes lines)
  | .error d => .error (d.moved bytes lines)

namespace Cursor

variable {c : Cursor} {file : Bytes}

/-- The place with so many more bytes and lines above it. -/
def moved (bytes lines : Nat) (c : Cursor) : Cursor :=
  { c with offset := c.offset + bytes, line := c.line + lines }

section Moved

variable (bytes lines : Nat)

theorem step_moved (c : Cursor) : (c.moved bytes lines).step = c.step.moved bytes lines := by
  obtain ⟨_ | ⟨b, r⟩, offset, line, column, context⟩ := c
  · rfl
  · simp only [step, moved]
    split
    · rw [Nat.add_right_comm, Nat.add_right_comm line]
    · rw [Nat.add_right_comm]

theorem pass_moved (n : Nat) (c : Cursor) :
    (c.moved bytes lines).pass n = (c.pass n).moved bytes lines := by
  induction n generalizing c with
  | zero => rfl
  | succ n ih => rw [pass, pass, step_moved, ih]

theorem skip_moved (c : Cursor) : (c.moved bytes lines).skip = c.skip.moved bytes lines :=
  pass_moved bytes lines _ c

theorem diagnostic_moved (c : Cursor) (e : ScanError) :
    (c.moved bytes lines).diagnostic file e = (c.diagnostic file e).moved bytes lines := by
  simp only [diagnostic, moved, Diagnostic.moved, Nat.cast_add]
  rw [Int.add_right_comm]

/-- Scanning further down finds the same, further down. -/
theorem tokens_moved (file : Bytes) (c : Cursor) :
    (c.moved bytes lines).tokens file
      = ((c.tokens file).1.map (Token.moved bytes lines),
          movedAnswer bytes lines (c.tokens file).2) := by
  induction hlength : c.rest.length using Nat.strong_induction_on generalizing c with
  | _ length ih =>
      have hsame : (c.moved bytes lines).skip.rest = c.skip.rest := by
        rw [skip_moved]
        rfl
      rw [tokens_eq, tokens_eq file c, hsame, skip_moved]
      cases hrest : c.skip.rest with
      | nil => rfl
      | cons b r =>
          cases hl : Scan.lexemeAt b r with
          | error e => simp only [hl, diagnostic_moved, List.map_nil, movedAnswer]
          | ok p =>
              have hlt := c.length_rest_pass_skip_lt hrest p.2
              simp only [hl, pass_moved, ih _ (hlength ▸ hlt) _ rfl, List.map_cons]
              rfl

end Moved

/-- The place in a source that goes on with a newline and another text. -/
def followed (x : Bytes) (c : Cursor) : Cursor := { c with rest := c.rest ++ 0x0A :: x }

theorem lineText_append_newline (s x : Bytes) : lineText (s ++ 0x0A :: x) = lineText s := by
  rw [lineText, Scan.takeWhile_append_stop (by decide), lineText]

theorem start_append_newline (a x : Bytes) : start (a ++ 0x0A :: x) = (start a).followed x := by
  rw [start, lineText_append_newline]
  rfl

theorem pass_followed (x : Bytes) {n : Nat} (hn : n ≤ c.rest.length) :
    (c.followed x).pass n = (c.pass n).followed x := by
  induction n generalizing c with
  | zero => rfl
  | succ n ih =>
      obtain ⟨_ | ⟨b, r⟩, offset, line, column, context⟩ := c
      · cases hn
      · have hstep : (followed x ⟨b :: r, offset, line, column, context⟩).step
            = (step ⟨b :: r, offset, line, column, context⟩).followed x := by
          simp only [step, followed, List.cons_append]
          split
          · rw [lineText_append_newline]
          · rfl
        rw [pass, pass, hstep]
        apply ih
        rw [rest_step]
        exact Nat.le_of_succ_le_succ hn

theorem skip_followed (x : Bytes) (c : Cursor) : (c.followed x).skip = c.skip.followed x := by
  change (c.followed x).pass (Scan.gap (c.rest ++ 0x0A :: x)).length = _
  rw [Scan.gap_append_newline, pass_followed x (Scan.length_gap_le c.rest)]
  rfl

/-- Behind a newline a source begins anew, one line further down. -/
theorem step_newline {x : Bytes} (hrest : c.rest = 0x0A :: x) :
    c.step = (start x).moved (c.offset + 1) c.line := by
  have hstep : c.step = ⟨x, c.offset + 1, c.line + 1, 1, lineText x⟩ := by
    rw [step, hrest]
    rfl
  rw [hstep, moved, start, Nat.zero_add, Nat.add_comm 1]

/-- A source that is scanned to its end is scanned in the same way if it goes on with a newline. The
newline stands where the end of the file was, and the other text begins anew behind it. -/
theorem tokens_followed (x : Bytes) {ts : List Token} {last : Token}
    (htokens : c.tokens file = (ts, .ok last)) :
    (c.followed x).tokens file
      = (ts ++ { last with lexeme := .endOfStatement, width := 1 } ::
          (scan file x).1.map (Token.moved (last.offset + 1) last.line),
        movedAnswer (last.offset + 1) last.line (scan file x).2) := by
  induction ts generalizing c with
  | nil =>
      obtain ⟨hrest, rfl⟩ := end_of_tokens htokens
      have hnewline : (c.followed x).skip.rest = 0x0A :: x := by
        rw [skip_followed, followed, hrest, List.nil_append]
      have hanew : (c.followed x).skip.pass 1
          = (start x).moved (c.skip.offset + 1) c.skip.line := by
        rw [pass, pass, step_newline hnewline, skip_followed]
        rfl
      rw [tokens_cons file hnewline (Scan.lexemeAt_newline x), hanew, tokens_moved, skip_followed]
      rfl
  | cons t ts ih =>
      obtain ⟨b, r, l, n, hrest, hl, rfl, hmore⟩ := first_of_tokens htokens
      have hcons : (c.followed x).skip.rest = b :: (r ++ 0x0A :: x) := by
        rw [skip_followed, followed, hrest, List.cons_append]
      rw [tokens_cons file hcons (Scan.lexemeAt_append_newline hl x), skip_followed,
        pass_followed x (le_length_rest hrest hl), ih hmore]
      rfl

end Cursor

/-- Scanning is compositional at newlines.  If a source scans without a fault, then the source, a
newline and any other text scan to the same tokens, an end of statement where the end of the file
was, and the tokens of the other text, up to its end or its first fault, with as many bytes above
them as the source and the newline have and as many lines as the source has. -/
theorem scanning_cut_at_newline (file a b : Bytes) (ts : List Token) (last : Token)
    (h : scan file a = (ts, .ok last)) :
    last.offset = a.length ∧
    scan file (a ++ 0x0A :: b)
      = (ts ++ { last with lexeme := .endOfStatement, width := 1 } ::
          (scan file b).1.map (Token.moved (a.length + 1) (1 + a.count 0x0A)),
        movedAnswer (a.length + 1) (1 + a.count 0x0A) (scan file b).2) := by
  have hcovers : Covers a 0 ts last := (Cursor.at_start a).covers h
  obtain ⟨-, hoffset, -⟩ := hcovers.last_eq
  have hline : last.line = 1 + a.count 0x0A := by
    have hplaced := hcovers.placed last (List.mem_append_right ts List.mem_cons_self)
    rw [hplaced.line_eq, hoffset, List.take_length]
  refine ⟨hoffset, ?_⟩
  rw [scan, Cursor.start_append_newline, Cursor.tokens_followed b h, hoffset, hline]

/-- A comment with a carriage return before the newline, and a number that runs into a letter behind
it. -/
theorem scanning_cut_at_newline_afterComment :
    let first := text "\"p\nq\" -# c\r"
    let second := text " z 1z"
    let ts : List Token :=
      [⟨.string (text "p\nq"), 1, 1, 0, 5, [], text "\"p"⟩,
        ⟨.mark .minus, 2, 4, 6, 1, [], text "q\" -# c"⟩]
    let fault : Diagnostic :=
      ⟨.lexing, [], 1, 5, 4, 1, text "unexpected character 'z' in numeric literal", second, none⟩
    (∃ last, scan [] first = (ts, .ok last)) ∧ (scan [] second).2 = .error fault ∧
      scan [] (first ++ 0x0A :: second)
        = (ts ++ [⟨.endOfStatement, 2, 9, 11, 1, [], text "q\" -# c"⟩,
            ⟨.identifier (text "z"), 3, 2, 13, 1, [], second⟩],
          .error { fault with line := 3, offset := 16 }) := by
  intro first second ts fault
  have hfirst : scan [] first
      = (ts, .ok ⟨.endOfFile, 2, 9, 11, 0, [], text "q\" -# c"⟩) := by decide +kernel
  obtain ⟨-, hboth⟩ := scanning_cut_at_newline [] first second ts _ hfirst
  exact ⟨⟨_, hfirst⟩, by decide +kernel, hboth.trans (by decide +kernel)⟩

end JumpScript
