import Mathlib.Logic.Function.Iterate
import JumpScript.Proofs.Token.Positions

/-!
# Scanners that stand still

A scanner that has met a fault or the end of its source is asked for nothing new by another call: it
gives the same answer again and keeps its place.  For every other answer it moves on, and never
beyond the source, so no source has more tokens than bytes.

Both halves rest on one case distinction on what a call does (`Cursor.next_cases`).
-/

namespace JumpScript

/-- An answer that no token comes after: a diagnostic or the end of the file. -/
def IsLast : Except Diagnostic Token → Prop
  | .ok t => t.lexeme = .endOfFile
  | .error _ => True

namespace Cursor

variable {c : Cursor} {file source : Bytes}

theorem skip_of_rest_nil (hrest : c.rest = []) : c.skip = c := by
  rw [skip, hrest]
  rfl

/-- After a gap there is no other one. -/
theorem skip_skip (c : Cursor) : c.skip.skip = c.skip := by
  cases hrest : c.skip.rest with
  | nil => exact skip_of_rest_nil hrest
  | cons b r =>
      obtain ⟨hspace, hcomment⟩ := Scan.head_of_afterGap (c.rest_skip.symm.trans hrest)
      exact skip_eq_self hrest hspace hcomment

theorem next_skip (file : Bytes) (c : Cursor) : c.skip.next file = c.next file := by
  rw [next, next, skip_skip]

/-- A call skips a gap and then gives the last answer where it is or passes the bytes of a token. -/
theorem next_cases (file : Bytes) (c : Cursor) :
    (∃ answer, IsLast answer ∧ c.next file = (c.skip, answer)) ∨
      ∃ b r l n, c.skip.rest = b :: r ∧ Scan.lexemeAt b r = .ok (l, n) ∧
        c.next file = (c.skip.pass (n + 1), .ok (c.skip.token file l (n + 1))) := by
  rw [next]
  cases hrest : c.skip.rest with
  | nil => exact .inl ⟨.ok (c.skip.token file .endOfFile 0), rfl, rfl⟩
  | cons b r =>
      cases hl : Scan.lexemeAt b r with
      | error e => exact .inl ⟨.error (c.skip.diagnostic file e), trivial, by simp only [hl]⟩
      | ok p => exact .inr ⟨b, r, p.1, p.2, rfl, hl, by simp only [hl]⟩

/-- A call that gives the last answer leaves a place where the next call does the same. -/
theorem next_of_isLast (h : IsLast (c.next file).2) : (c.next file).1.next file = c.next file := by
  obtain ⟨answer, -, hnext⟩ | ⟨b, r, l, n, -, hl, hnext⟩ := c.next_cases file
  · calc (c.next file).1.next file = c.skip.next file := by rw [hnext]
      _ = c.next file := c.next_skip file
  · rw [hnext] at h
    exact absurd h (ne_endOfFile_of_lexemeAt hl)

/-- A call that gives a token moves on. -/
theorem offset_lt_next (h : ¬ IsLast (c.next file).2) : c.offset < (c.next file).1.offset := by
  obtain ⟨answer, hlast, hnext⟩ | ⟨b, r, l, n, hrest, hl, hnext⟩ := c.next_cases file
  · rw [hnext] at h
    exact absurd hlast h
  · rw [hnext, offset_pass (le_length_rest hrest hl), offset_skip]
    omega

theorem At.next (h : c.At source) (file : Bytes) : (c.next file).1.At source := by
  obtain ⟨answer, -, hnext⟩ | ⟨b, r, l, n, -, -, hnext⟩ := c.next_cases file
  · rw [hnext]
    exact h.skip
  · rw [hnext]
    exact h.skip.pass _

theorem tokens_of_isLast (h : IsLast (c.next file).2) :
    c.tokens file = ([], (c.next file).2) := by
  rw [tokens_eq]
  rw [next] at h ⊢
  cases hrest : c.skip.rest with
  | nil => rfl
  | cons b r =>
      cases hl : Scan.lexemeAt b r with
      | error e => simp only [hl]
      | ok p =>
          simp only [hrest, hl] at h
          exact absurd h (ne_endOfFile_of_lexemeAt hl)

theorem tokens_of_not_isLast (h : ¬ IsLast (c.next file).2) :
    ∃ t, (c.next file).2 = .ok t ∧ c.tokens file
      = (t :: ((c.next file).1.tokens file).1, ((c.next file).1.tokens file).2) := by
  obtain ⟨answer, hlast, hnext⟩ | ⟨b, r, l, n, hrest, hl, hnext⟩ := c.next_cases file
  · rw [hnext] at h
    exact absurd hlast h
  · rw [hnext]
    exact ⟨_, rfl, tokens_cons file hrest hl⟩

/-- The place after so many calls. -/
def after (file : Bytes) (n : Nat) (c : Cursor) : Cursor := (fun c => (c.next file).1)^[n] c

/-- What the call after so many calls answers. -/
def answer (file : Bytes) (c : Cursor) (n : Nat) : Except Diagnostic Token :=
  ((c.after file n).next file).2

theorem after_succ (file : Bytes) (n : Nat) (c : Cursor) :
    c.after file (n + 1) = ((c.after file n).next file).1 :=
  Function.iterate_succ_apply' _ n c

theorem At.after (h : c.At source) (file : Bytes) (n : Nat) : (c.after file n).At source := by
  induction n generalizing c with
  | zero => exact h
  | succ n ih => exact ih (h.next file)

/-- After the last answer nothing changes any more. -/
theorem next_after_of_isLast (h : IsLast (c.next file).2) (m : Nat) :
    (c.after file m).next file = c.next file := by
  induction m with
  | zero => rfl
  | succ m ih =>
      have hlast : IsLast ((c.after file m).next file).2 := by
        rw [ih]
        exact h
      rw [after_succ, next_of_isLast hlast, ih]

/-- Before the last answer every call has passed a byte. -/
theorem le_offset_after {n : Nat} (h : ∀ i < n, ¬ IsLast (c.answer file i)) :
    c.offset + n ≤ (c.after file n).offset := by
  induction n with
  | zero => exact Nat.le_refl _
  | succ n ih =>
      have hstep := offset_lt_next (h n (Nat.lt_succ_self n))
      have hbefore := ih fun i hi => h i (Nat.lt_succ_of_lt hi)
      rw [after_succ]
      omega

/-- The tokens from a place on are the answers up to the last one. -/
theorem tokens_eq_answers (file : Bytes) (c : Cursor) :
    (List.range (c.tokens file).1.length).map (c.answer file) = (c.tokens file).1.map .ok ∧
      c.answer file (c.tokens file).1.length = (c.tokens file).2 ∧
      IsLast (c.tokens file).2 ∧ ∀ i < (c.tokens file).1.length, ¬ IsLast (c.answer file i) := by
  obtain ⟨ts, hts⟩ : ∃ ts, ts = (c.tokens file).1 := ⟨_, rfl⟩
  induction ts generalizing c with
  | nil =>
      by_cases hlast : IsLast (c.next file).2
      · rw [tokens_of_isLast hlast]
        exact ⟨rfl, rfl, hlast, nofun⟩
      · obtain ⟨t, -, htokens⟩ := tokens_of_not_isLast hlast
        rw [htokens] at hts
        cases hts
  | cons t ts ih =>
      by_cases hlast : IsLast (c.next file).2
      · rw [tokens_of_isLast hlast] at hts
        cases hts
      · obtain ⟨u, hu, htokens⟩ := tokens_of_not_isLast hlast
        rw [htokens] at hts ⊢
        obtain ⟨hanswers, hend, hended, hbefore⟩ := ih (c.next file).1 (List.cons.inj hts).2
        refine ⟨?_, hend, hended, fun i hi => ?_⟩
        · rw [List.length_cons, List.range_succ_eq_map, List.map_cons, List.map_map, List.map_cons,
            ← hanswers]
          exact congrArg (· :: _) hu
        · cases i with
          | zero => exact hlast
          | succ i => exact hbefore i (Nat.lt_of_succ_lt_succ hi)

end Cursor

namespace Head

open Position

variable {h h' : Head} {file : Bytes} {answer : Except Diagnostic Token}

/-- The scanner after the gap at its place. -/
def afterGap (h : Head) : Head := h.advance (Scan.gap (h.source.drop h.place)).length

/-- A call looks at what stands after the gap. -/
theorem next_eq_afterGap (file : Bytes) (h : Head) :
    h.next file =
      if h.afterGap.source.length ≤ h.afterGap.place then
        (h.afterGap.token file .endOfFile h.afterGap.place 0).bind fun t =>
          pure (h.afterGap, .ok t)
      else (read h.afterGap.source h.afterGap.place).bind (h.afterGap.lexeme file) := by
  rw [next, gapEnd_eq, Option.bind_eq_bind, Option.bind_some, Nat.add_sub_cancel_left]
  rfl

theorem afterGap_afterGap (h : Head) : h.afterGap.afterGap = h.afterGap := by
  have hrest : h.afterGap.source.drop h.afterGap.place
      = Scan.afterGap (h.source.drop h.place) := by
    rw [Scan.afterGap, List.drop_drop]
    rfl
  have hgap : Scan.gap (Scan.afterGap (h.source.drop h.place)) = [] := by
    cases hafter : Scan.afterGap (h.source.drop h.place) with
    | nil => rfl
    | cons b r =>
        obtain ⟨hspace, hcomment⟩ := Scan.head_of_afterGap hafter
        exact Scan.gap_cons_of_not_isSpace hspace hcomment r
  rw [afterGap, hrest, hgap]
  rfl

theorem next_afterGap (file : Bytes) (h : Head) : h.afterGap.next file = h.next file := by
  rw [next_eq_afterGap, next_eq_afterGap, afterGap_afterGap]

theorem Inside.afterGap (hin : h.Inside) : h.afterGap.Inside := by
  have hlength := Scan.length_gap_le (h.source.drop h.place)
  have hplace := hin.place_le
  rw [List.length_drop] at hlength
  exact hin.advance (by omega)

/-- Whatever a part of a scanner has looked at, nothing but the gap is passed when it gives the last
answer. -/
theorem eq_afterGap_of_isLast (hin : h.Inside) (hnext : h.next file = some (h', answer))
    (hlast : IsLast answer) : h' = h.afterGap := by
  rw [next_eq_afterGap] at hnext
  split at hnext
  · obtain ⟨t, -, heq⟩ := Option.bind_eq_some_iff.mp hnext
    exact (Prod.mk.inj (Option.some.inj heq)).1.symm
  · rename_i hmore
    obtain ⟨b, r, hrest⟩ := List.exists_cons_of_ne_nil
      (mt List.drop_eq_nil_iff.mp hmore)
    have hagrees := lexeme_agrees file hin.afterGap hrest
    rw [read_of_drop hrest, Option.bind_some] at hnext
    rw [hnext] at hagrees
    rcases hl : Scan.lexemeAt b r with e | ⟨l, n⟩
    · rw [hl] at hagrees
      exact (Prod.mk.inj (Option.some.inj hagrees)).1
    · rw [hl] at hagrees
      obtain ⟨g, heq, -, -⟩ := hagrees
      obtain ⟨-, rfl⟩ := Prod.mk.inj (Option.some.inj heq)
      exact absurd hlast (ne_endOfFile_of_lexemeAt hl)

theorem next_of_isLast (hin : h.Inside) (hnext : h.next file = some (h', answer))
    (hlast : IsLast answer) : h'.next file = some (h', answer) := by
  rw [← hnext, eq_afterGap_of_isLast hin hnext hlast, next_afterGap]

end Head

/-- A scanner that has failed or finished stays put.  Wherever it has got to, after a diagnostic or
the end of the file it gives just that again, however often it is asked, and keeps its place; for
every other answer it moves on without passing the end of the source.  So the tokens of a source,
which are the answers up to the last one, are no more than its bytes.  A scanner that looks at
positions has the same state again after the last answer, whichever fault it has met. -/
theorem scanner_stays_put (file source : Bytes) :
    (∀ n c, (Cursor.start source).after file n = c →
      (IsLast (c.next file).2 → ∀ m, (c.after file m).next file = c.next file) ∧
      (¬ IsLast (c.next file).2 →
        c.offset < (c.next file).1.offset ∧ (c.next file).1.offset ≤ source.length)) ∧
    (∃ n, n ≤ source.length ∧ (scan file source).1.length = n ∧
      (List.range n).map ((Cursor.start source).answer file) = (scan file source).1.map .ok ∧
      (Cursor.start source).answer file n = (scan file source).2 ∧ IsLast (scan file source).2) ∧
    (∀ (h h' : Head) answer, h.Reachable → h.next file = some (h', answer) → IsLast answer →
      h'.next file = some (h', answer)) := by
  have hat : (Cursor.start source).At source := Cursor.at_start source
  refine ⟨?_, ?_, fun h h' answer hh hnext hlast => Head.next_of_isLast hh.inside hnext hlast⟩
  · rintro n c rfl
    refine ⟨Cursor.next_after_of_isLast, fun hmore => ⟨Cursor.offset_lt_next hmore, ?_⟩⟩
    exact ((hat.after file n).next file).offset_le
  · obtain ⟨hanswers, hend, hlast, hbefore⟩ := (Cursor.start source).tokens_eq_answers file
    refine ⟨_, ?_, rfl, hanswers, hend, hlast⟩
    have hpassed := Cursor.le_offset_after hbefore
    have hinside := (hat.after file (scan file source).1.length).offset_le
    exact (Nat.zero_add _ ▸ hpassed).trans hinside

/-- After a string over two lines, a number that runs into a letter. -/
theorem scanner_stays_put_afterString :
    ∃ d, d.message = text "unexpected character 'x' in numeric literal" ∧
      d.position = text "main:2:6" ∧
      (∀ m, (Cursor.start (text "\"a\nb\" 12x")).answer (text "main") (m + 1) = .error d) ∧
      (scan (text "main") (text "\"a\nb\" 12x")).1.length ≤ 9 := by
  obtain ⟨hplaces, ⟨n, hn, hlength, -⟩, -⟩ :=
    scanner_stays_put (text "main") (text "\"a\nb\" 12x")
  obtain ⟨hstays, -⟩ := hplaces 1 ⟨text " 12x", 5, 2, 3, text "b\" 12x"⟩ rfl
  refine ⟨_, by decide +kernel, by decide +kernel, fun m => congrArg Prod.snd (hstays trivial m),
    hlength ▸ hn⟩

end JumpScript
