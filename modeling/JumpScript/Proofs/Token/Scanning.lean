import JumpScript.Token.Scan

/-!
# Scanning as a derivation

The lexemes of a source depend on its bytes alone, not on where they stand.  `Scans` derives them
one after another; scanning a source succeeds exactly when there is a derivation.
-/

namespace JumpScript

namespace Scan

/-- What is left of a text after spaces and a comment at its head. -/
def afterGap (s : Bytes) : Bytes := s.drop (gap s).length

/-- A text is made of these lexemes from its head to its end, with gaps between them. -/
inductive Scans : Bytes → List Lexeme → Prop where
  | done {s : Bytes} (hgap : afterGap s = []) : Scans s []
  | next {s r : Bytes} {b : UInt8} {l : Lexeme} {n : Nat} {ls : List Lexeme}
      (hgap : afterGap s = b :: r) (hl : lexemeAt b r = .ok (l, n))
      (hrest : Scans (r.drop n) ls) : Scans s (l :: ls)

/-- The lexemes of a text are determined. -/
theorem scans_unique {s : Bytes} {ls ms : List Lexeme} (hls : Scans s ls)
    (hms : Scans s ms) : ls = ms := by
  induction hls generalizing ms with
  | done hgap =>
      cases hms with
      | done _ => rfl
      | next hgap' _ _ =>
          rw [hgap] at hgap'
          cases hgap'
  | next hgap hl _ ih =>
      cases hms with
      | done hgap' =>
          rw [hgap] at hgap'
          cases hgap'
      | next hgap' hl' hrest' =>
          rw [hgap] at hgap'
          obtain ⟨rfl, rfl⟩ := List.cons.inj hgap'
          rw [hl] at hl'
          obtain ⟨rfl, rfl⟩ := Prod.mk.inj (Except.ok.inj hl')
          rw [ih hrest']

theorem gap_cons_of_isSpace {b : UInt8} (hb : isSpace b = true) (s : Bytes) :
    gap (b :: s) = b :: gap s := by
  simp only [gap, List.takeWhile_cons, List.dropWhile_cons, hb, if_true]
  split <;> rfl

theorem gap_cons_of_not_isSpace {b : UInt8} (hspace : isSpace b = false) (hcomment : b ≠ 0x23)
    (s : Bytes) : gap (b :: s) = [] := by
  simp only [gap, List.takeWhile_cons, List.dropWhile_cons, hspace]
  split
  · rename_i heq
    exact absurd (List.cons.inj heq).1 hcomment
  · rfl

end Scan

namespace Cursor

open Scan (lexemeAt afterGap Scans)

variable {c : Cursor} {file : Bytes} {b : UInt8} {r : Bytes} {l : Lexeme} {n : Nat}

theorem rest_skip (c : Cursor) : c.skip.rest = afterGap c.rest := rest_pass _ c

theorem pass_step (n : Nat) (c : Cursor) : c.step.pass n = c.pass (n + 1) := rfl

/-- The line stays while no newline is passed. -/
theorem line_pass (n : Nat) (c : Cursor) (hline : 0x0A ∉ c.rest.take n) :
    (c.pass n).line = c.line := by
  induction n generalizing c with
  | zero => rfl
  | succ n ih =>
      cases hrest : c.rest with
      | nil =>
          have hstep : c.step = c := by rw [step, hrest]
          rw [pass, hstep]
          exact ih c (by simp [hrest])
      | cons b r =>
          rw [hrest, List.take_succ_cons, List.mem_cons, not_or] at hline
          have hb : (b == 0x0A) = false := by
            simpa using fun h : b = 0x0A => hline.1 h.symm
          have hstep : c.step = ⟨r, c.offset + 1, c.line, c.column + 1, c.context⟩ := by
            rw [step, hrest]
            simp only [hb, Bool.false_eq_true, if_false]
          rw [pass, hstep]
          exact ih ⟨r, c.offset + 1, c.line, c.column + 1, c.context⟩ hline.2

theorem line_step_newline (hrest : c.rest = 0x0A :: r) : c.step.line = c.line + 1 := by
  rw [step, hrest]
  rfl

/-- A space at the head makes no difference to what follows it. -/
theorem skip_step_of_isSpace (hb : Scan.isSpace b = true) (hrest : c.rest = b :: r) :
    c.step.skip = c.skip := by
  have hstep : c.step.rest = r := by rw [rest_step, hrest, List.drop_one, List.tail_cons]
  rw [skip, hstep, pass_step, skip, hrest, Scan.gap_cons_of_isSpace hb, List.length_cons]

/-- Scanning looks only at what stands after the gap. -/
theorem tokens_eq (file : Bytes) (c : Cursor) :
    c.tokens file =
      match c.skip.rest with
      | [] => ([], .ok (c.skip.token file .endOfFile 0))
      | b :: r =>
        match lexemeAt b r with
        | .error e => ([], .error (c.skip.diagnostic file e))
        | .ok (l, n) =>
          (c.skip.token file l (n + 1) :: ((c.skip.pass (n + 1)).tokens file).1,
            ((c.skip.pass (n + 1)).tokens file).2) := by
  rw [tokens]
  split
  · rename_i hrest
    rw [hrest]
  · rename_i b r hrest
    cases hl : lexemeAt b r with
    | error e => simp [hrest, hl]
    | ok p => simp [hrest, hl]

theorem tokens_of_skip_eq {c' : Cursor} (h : c.skip = c'.skip) :
    c.tokens file = c'.tokens file := by
  rw [tokens_eq, tokens_eq, h]

theorem tokens_nil (hrest : c.skip.rest = []) :
    c.tokens file = ([], .ok (c.skip.token file .endOfFile 0)) := by
  rw [tokens_eq, hrest]

theorem tokens_cons (file : Bytes) (hrest : c.skip.rest = b :: r) (hl : lexemeAt b r = .ok (l, n)) :
    c.tokens file
      = (c.skip.token file l (n + 1) :: ((c.skip.pass (n + 1)).tokens file).1,
          ((c.skip.pass (n + 1)).tokens file).2) := by
  rw [tokens_eq, hrest]
  simp only [hl]

theorem tokens_fault (file : Bytes) {e : ScanError} (hrest : c.skip.rest = b :: r)
    (he : lexemeAt b r = .error e) :
    c.tokens file = ([], .error (c.skip.diagnostic file e)) := by
  rw [tokens_eq, hrest]
  simp only [he]

theorem rest_pass_skip (hrest : c.skip.rest = b :: r) (n : Nat) :
    (c.skip.pass (n + 1)).rest = r.drop n := by
  rw [rest_pass, hrest, List.drop_succ_cons]

/-- Scanning from a place succeeds with these lexemes. -/
def Yields (file : Bytes) (c : Cursor) (ls : List Lexeme) : Prop :=
  ∃ ts last, c.tokens file = (ts, .ok last) ∧ ts.map Token.lexeme = ls

theorem yields_of_scans {s : Bytes} {ls : List Lexeme} (h : Scans s ls) (c : Cursor)
    (hrest : c.rest = s) : c.Yields file ls := by
  induction h generalizing c with
  | done hgap =>
      subst hrest
      exact ⟨[], _, tokens_nil (by rw [rest_skip, hgap]), rfl⟩
  | @next s r b l n ls hgap hl _ ih =>
      subst hrest
      have hskip : c.skip.rest = b :: r := by rw [rest_skip, hgap]
      obtain ⟨ts, last, htokens, hls⟩ := ih (c.skip.pass (n + 1)) (rest_pass_skip hskip n)
      refine ⟨c.skip.token file l (n + 1) :: ts, last, ?_, by rw [List.map_cons, hls]; rfl⟩
      rw [tokens_cons file hskip hl, htokens]

/-! A scan says what stands at its place. -/

theorem end_of_tokens {last : Token} (h : c.tokens file = ([], .ok last)) :
    c.skip.rest = [] ∧ last = c.skip.token file .endOfFile 0 := by
  rw [tokens_eq] at h
  split at h
  · rename_i hrest
    exact ⟨hrest, (Except.ok.inj (Prod.mk.inj h).2).symm⟩
  · split at h <;> cases h

theorem fault_of_tokens {d : Diagnostic} (h : c.tokens file = ([], .error d)) :
    ∃ b r e, c.skip.rest = b :: r ∧ lexemeAt b r = .error e ∧ d = c.skip.diagnostic file e := by
  rw [tokens_eq] at h
  split at h
  · cases h
  · rename_i b r hrest
    split at h
    · rename_i e he
      exact ⟨b, r, e, hrest, he, (Except.error.inj (Prod.mk.inj h).2).symm⟩
    · cases h

theorem first_of_tokens {t : Token} {ts : List Token} {stop : Except Diagnostic Token}
    (h : c.tokens file = (t :: ts, stop)) :
    ∃ b r l n, c.skip.rest = b :: r ∧ lexemeAt b r = .ok (l, n) ∧
      t = c.skip.token file l (n + 1) ∧ (c.skip.pass (n + 1)).tokens file = (ts, stop) := by
  rw [tokens_eq] at h
  split at h
  · cases h
  · rename_i b r hrest
    split at h
    · cases h
    · rename_i l n hl
      obtain ⟨hts, hstop⟩ := Prod.mk.inj h
      obtain ⟨ht, hmore⟩ := List.cons.inj hts
      exact ⟨b, r, l, n, hrest, hl, ht.symm, Prod.ext hmore hstop⟩

theorem scans_of_tokens {ts : List Token} {last : Token}
    (h : c.tokens file = (ts, .ok last)) : Scans c.rest (ts.map Token.lexeme) := by
  induction ts generalizing c with
  | nil => exact Scans.done (c.rest_skip.symm.trans (end_of_tokens h).1)
  | cons t ts ih =>
      obtain ⟨b, r, l, n, hrest, hl, rfl, hmore⟩ := first_of_tokens h
      refine Scans.next (c.rest_skip.symm.trans hrest) hl ?_
      rw [← rest_pass_skip hrest n]
      exact ih hmore

end Cursor

/-- A source scans without a fault exactly when its lexemes have a derivation. -/
theorem scan_eq_ok_iff {file source : Bytes} {ls : List Lexeme} :
    (∃ ts last, scan file source = (ts, .ok last) ∧ ts.map Token.lexeme = ls) ↔
      Scan.Scans source ls := by
  constructor
  · rintro ⟨ts, last, hscan, rfl⟩
    exact Cursor.scans_of_tokens hscan
  · intro h
    exact Cursor.yields_of_scans h (Cursor.start source) rfl

end JumpScript
