import JumpScript.Proofs.Token.Lexemes

/-!
# Newlines cut a source

A source that scans without a fault can be followed by a newline and any other text: neither part
sees the other.  A comment ends before the newline, a name or a number may end there, and a string
has been closed.
-/

namespace JumpScript

namespace Scan

section Stop

variable {p : UInt8 → Bool} {c : UInt8}

theorem takeWhile_append_stop (hc : p c = false) (s x : Bytes) :
    (s ++ c :: x).takeWhile p = s.takeWhile p := by
  induction s with
  | nil => rw [List.nil_append, List.takeWhile_cons, hc]; rfl
  | cons b s ih => rw [List.cons_append, List.takeWhile_cons, List.takeWhile_cons, ih]

theorem dropWhile_append_stop (hc : p c = false) (s x : Bytes) :
    (s ++ c :: x).dropWhile p = s.dropWhile p ++ c :: x := by
  induction s with
  | nil => rw [List.nil_append, List.dropWhile_cons, hc]; rfl
  | cons b s ih =>
      rw [List.cons_append, List.dropWhile_cons, List.dropWhile_cons, ih]
      split <;> rfl

end Stop

variable {b : UInt8} {r s x : Bytes} {l : Lexeme} {n : Nat}

theorem gap_comment (r : Bytes) : gap (0x23 :: r) = 0x23 :: r.takeWhile (· != 0x0A) := rfl

theorem gap_append_newline (s x : Bytes) : gap (s ++ 0x0A :: x) = gap s := by
  induction s with
  | nil => rfl
  | cons b s ih =>
      rw [List.cons_append]
      by_cases hspace : isSpace b = true
      · rw [gap_cons_of_isSpace hspace, gap_cons_of_isSpace hspace, ih]
      · by_cases hcomment : b = 0x23
        · rw [hcomment, gap_comment, gap_comment, takeWhile_append_stop (by decide)]
        · rw [Bool.not_eq_true] at hspace
          rw [gap_cons_of_not_isSpace hspace hcomment, gap_cons_of_not_isSpace hspace hcomment]

theorem length_gap_le (s : Bytes) : (gap s).length ≤ s.length := by
  induction s with
  | nil => exact Nat.le_refl 0
  | cons b s ih =>
      by_cases hspace : isSpace b = true
      · rw [gap_cons_of_isSpace hspace]
        exact Nat.succ_le_succ ih
      · by_cases hcomment : b = 0x23
        · rw [hcomment, gap_comment]
          exact Nat.succ_le_succ (List.takeWhile_sublist _).length_le
        · rw [Bool.not_eq_true] at hspace
          rw [gap_cons_of_not_isSpace hspace hcomment]
          exact Nat.zero_le _

theorem afterGap_append_newline (s x : Bytes) :
    afterGap (s ++ 0x0A :: x) = afterGap s ++ 0x0A :: x := by
  rw [afterGap, gap_append_newline, List.drop_append_of_le_length (length_gap_le s), afterGap]

theorem numberSpan_append_newline (pointSeen : Bool) (r x : Bytes) :
    numberSpan pointSeen (r ++ 0x0A :: x) = numberSpan pointSeen r := by
  induction r generalizing pointSeen with
  | nil => rfl
  | cons c r ih =>
      have hhead : ((r ++ 0x0A :: x).head? == some 0x2E) = (r.head? == some 0x2E) := by
        cases r <;> rfl
      rw [List.cons_append, numberSpan, numberSpan, ih, ih, hhead]

theorem length_numberSpan_le (pointSeen : Bool) (r : Bytes) :
    (numberSpan pointSeen r).length ≤ r.length := by
  induction r generalizing pointSeen with
  | nil => exact Nat.le_refl 0
  | cons c r ih =>
      rw [numberSpan]
      split
      · exact Nat.succ_le_succ (ih pointSeen)
      · split
        · exact Nat.zero_le _
        · split
          · exact Nat.zero_le _
          · exact Nat.succ_le_succ (ih true)

theorem filter_append_newline (r x : Bytes) :
    (r ++ 0x0A :: x).head?.filter (!isBoundary ·) = r.head?.filter (!isBoundary ·) := by
  cases r <;> rfl

theorem number_append_newline (b : UInt8) (r x : Bytes) :
    number b (r ++ 0x0A :: x) = number b r := by
  have hle := length_numberSpan_le false r
  simp only [number, numberSpan_append_newline, List.take_append_of_le_length hle,
    List.drop_append_of_le_length hle, filter_append_newline]

theorem name_append_newline (b : UInt8) (r x : Bytes) :
    name b (r ++ 0x0A :: x) = name b r := by
  simp only [name, takeWhile_append_stop (show isNamePart 0x0A = false by decide),
    dropWhile_append_stop (show isNamePart 0x0A = false by decide), filter_append_newline]

theorem mark_append_newline (b : UInt8) (r x : Bytes) :
    mark b (r ++ 0x0A :: x) = mark b r := by
  have hhead : ((r ++ 0x0A :: x).head? == some 0x3D) = (r.head? == some 0x3D) := by
    cases r <;> rfl
  rw [mark, mark, hhead]

/-- Whatever follows the closing quote makes no difference. -/
theorem Quoted.append {r u : Bytes} {k : Nat} (h : Quoted r u k) (x : Bytes) :
    Quoted (r ++ x) u k := by
  induction h with
  | close => exact Quoted.close
  | escape he _ ih => exact Quoted.escape he ih
  | plain hquote hslash _ ih => exact Quoted.plain hquote hslash ih

/-- A newline at the end closes no string. -/
theorem Quoted.of_append_newline {r u : Bytes} {k : Nat} (h : Quoted (r ++ [0x0A]) u k) :
    Quoted r u k := by
  generalize hs : r ++ [0x0A] = s at h
  induction h generalizing r with
  | close =>
      cases r with
      | nil => cases hs
      | cons c r =>
          obtain ⟨rfl, -⟩ := List.cons.inj hs
          exact Quoted.close
  | escape he h ih =>
      cases r with
      | nil => cases hs
      | cons c r =>
          obtain ⟨rfl, htail⟩ := List.cons.inj hs
          cases r with
          | nil =>
              obtain ⟨rfl, -⟩ := List.cons.inj htail
              cases he
          | cons e r =>
              obtain ⟨rfl, hrest⟩ := List.cons.inj htail
              exact Quoted.escape he (ih hrest)
  | plain hquote hslash h ih =>
      cases r with
      | nil =>
          obtain ⟨-, rfl⟩ := List.cons.inj hs
          cases h
      | cons c r =>
          obtain ⟨rfl, htail⟩ := List.cons.inj hs
          exact Quoted.plain hquote hslash (ih htail)

theorem Quoted.le_length {r u : Bytes} {k : Nat} (h : Quoted r u k) : k ≤ r.length := by
  induction h with
  | close => exact Nat.succ_le_succ (Nat.zero_le _)
  | escape _ _ ih => exact Nat.succ_le_succ (Nat.succ_le_succ ih)
  | plain _ _ _ ih => exact Nat.succ_le_succ ih

theorem lexemeAt_append_newline (h : lexemeAt b r = .ok (l, n)) (x : Bytes) :
    lexemeAt b (r ++ 0x0A :: x) = .ok (l, n) := by
  have hhead : (r ++ 0x0A :: x).head?.any Bytes.isDigit = r.head?.any Bytes.isDigit := by
    cases r <;> rfl
  rw [lexemeAt] at h ⊢
  rw [hhead, number_append_newline, name_append_newline, mark_append_newline]
  split_ifs at h ⊢ with hend hnumber hname hquote
  · exact h
  · exact h
  · exact h
  · obtain ⟨u, rfl, hu⟩ := string_eq_ok_iff.mp h
    exact string_eq_ok_iff.mpr ⟨u, rfl, hu.append _⟩
  · exact h

theorem lexemeAt_of_append_newline (h : lexemeAt b (r ++ [0x0A]) = .ok (l, n)) :
    lexemeAt b r = .ok (l, n) := by
  have hhead : (r ++ [0x0A]).head?.any Bytes.isDigit = r.head?.any Bytes.isDigit := by
    cases r <;> rfl
  rw [lexemeAt] at h ⊢
  rw [hhead, number_append_newline, name_append_newline, mark_append_newline] at h
  split_ifs at h ⊢ with hend hnumber hname hquote
  · exact h
  · exact h
  · exact h
  · obtain ⟨u, rfl, hu⟩ := string_eq_ok_iff.mp h
    exact string_eq_ok_iff.mpr ⟨u, rfl, hu.of_append_newline⟩
  · exact h

theorem le_length_of_lexemeAt (h : lexemeAt b r = .ok (l, n)) : n ≤ r.length := by
  rw [lexemeAt] at h
  split_ifs at h with hend hnumber hname hquote
  · obtain ⟨-, rfl⟩ := Prod.mk.inj (Except.ok.inj h)
    exact Nat.zero_le _
  · rw [(number_eq_ok h).1]
    exact length_numberSpan_le false r
  · rw [(name_eq_ok h).1]
    exact (List.takeWhile_sublist _).length_le
  · obtain ⟨u, -, hu⟩ := string_eq_ok_iff.mp h
    exact hu.le_length
  · obtain ⟨m, -, hn⟩ := mark_eq_ok h
    exact hn

theorem drop_append_newline (h : lexemeAt b r = .ok (l, n)) (x : Bytes) :
    (r ++ 0x0A :: x).drop n = r.drop n ++ 0x0A :: x :=
  List.drop_append_of_le_length (le_length_of_lexemeAt h)

theorem lexemeAt_newline (x : Bytes) : lexemeAt 0x0A x = .ok (.endOfStatement, 0) := rfl

/-- A source, a newline and another source: the lexemes of both with an end of statement between
them. -/
theorem scans_append_newline {ls xs : List Lexeme} (hs : Scans s ls) (hx : Scans x xs) :
    Scans (s ++ 0x0A :: x) (ls ++ .endOfStatement :: xs) := by
  induction hs with
  | @done s hgap =>
      have hnewline : afterGap (s ++ 0x0A :: x) = 0x0A :: x := by
        rw [afterGap_append_newline, hgap, List.nil_append]
      exact Scans.next hnewline (lexemeAt_newline x) hx
  | @next s r b l n ls hgap hl _ ih =>
      have hcons : afterGap (s ++ 0x0A :: x) = b :: (r ++ 0x0A :: x) := by
        rw [afterGap_append_newline, hgap, List.cons_append]
      refine Scans.next hcons (lexemeAt_append_newline hl x) ?_
      rw [drop_append_newline hl]
      exact ih

/-- What follows a source and a newline is scanned by itself. -/
theorem scans_of_append_newline {ls ms : List Lexeme} (hs : Scans s ls)
    (h : Scans (s ++ 0x0A :: x) ms) :
    ∃ xs, Scans x xs ∧ ms = ls ++ .endOfStatement :: xs := by
  induction hs generalizing ms with
  | @done s hgap =>
      have hnewline : afterGap (s ++ 0x0A :: x) = 0x0A :: x := by
        rw [afterGap_append_newline, hgap, List.nil_append]
      cases h with
      | done hnil =>
          rw [hnewline] at hnil
          cases hnil
      | next hcons hl hrest =>
          rw [hnewline] at hcons
          obtain ⟨rfl, rfl⟩ := List.cons.inj hcons
          obtain ⟨rfl, rfl⟩ := Prod.mk.inj (Except.ok.inj hl)
          exact ⟨_, hrest, rfl⟩
  | @next s r b l n ls hgap hl _ ih =>
      have hnewline : afterGap (s ++ 0x0A :: x) = b :: (r ++ 0x0A :: x) := by
        rw [afterGap_append_newline, hgap, List.cons_append]
      cases h with
      | done hnil =>
          rw [hnewline] at hnil
          cases hnil
      | next hcons hl' hrest =>
          rw [hnewline] at hcons
          obtain ⟨rfl, rfl⟩ := List.cons.inj hcons
          rw [lexemeAt_append_newline hl x] at hl'
          obtain ⟨rfl, rfl⟩ := Prod.mk.inj (Except.ok.inj hl')
          rw [drop_append_newline hl] at hrest
          obtain ⟨xs, hx, rfl⟩ := ih hrest
          exact ⟨xs, hx, rfl⟩

theorem scans_append_newline_iff {ls ms : List Lexeme} (hs : Scans s ls) :
    Scans (s ++ 0x0A :: x) ms ↔ ∃ xs, Scans x xs ∧ ms = ls ++ .endOfStatement :: xs := by
  constructor
  · exact scans_of_append_newline hs
  · rintro ⟨xs, hx, rfl⟩
    exact scans_append_newline hs hx

/-- A newline at the end of a source can be left out. -/
theorem scans_of_newline_at_end {ms : List Lexeme} (h : Scans (s ++ [0x0A]) ms) :
    ∃ ls, Scans s ls := by
  generalize ht : s ++ [0x0A] = t at h
  induction h generalizing s with
  | done hgap =>
      rw [← ht, afterGap_append_newline] at hgap
      exact absurd hgap (by simp)
  | @next t r b l n ls hgap hl _ ih =>
      rw [← ht, afterGap_append_newline] at hgap
      cases hs : afterGap s with
      | nil => exact ⟨[], Scans.done hs⟩
      | cons c r' =>
          rw [hs] at hgap
          obtain ⟨rfl, rfl⟩ := List.cons.inj hgap
          have hl' := lexemeAt_of_append_newline hl
          obtain ⟨ls', hls'⟩ := ih (drop_append_newline hl' []).symm
          exact ⟨l :: ls', Scans.next hs hl' hls'⟩

theorem afterGap_cons {b : UInt8} (hspace : isSpace b = false) (hcomment : b ≠ 0x23)
    (s : Bytes) : afterGap (b :: s) = b :: s := by
  rw [afterGap, gap_cons_of_not_isSpace hspace hcomment]
  rfl

theorem afterGap_cons_space (hspace : isSpace b = true) (s : Bytes) :
    afterGap (b :: s) = afterGap s := by
  rw [afterGap, gap_cons_of_isSpace hspace]
  rfl

theorem scans_of_afterGap_eq {t : Bytes} {ls : List Lexeme} (heq : afterGap s = afterGap t)
    (h : Scans t ls) : Scans s ls := by
  cases h with
  | done hnil => exact Scans.done (heq.trans hnil)
  | next hcons hl hrest => exact Scans.next (heq.trans hcons) hl hrest

theorem Writes.scans {u rest : Bytes} {ls ms : List Lexeme} (h : Writes u ls rest)
    (hrest : Scans rest ms) : Scans (u ++ rest) (ls ++ ms) := by
  induction h with
  | done => exact hrest
  | @space u rest ls _ ih =>
      exact scans_of_afterGap_eq (afterGap_cons_space (by decide) (u ++ rest)) (ih hrest)
  | @lexeme u v rest l ls hu _ ih =>
      obtain ⟨b, r, rfl, hspace, hcomment, hl⟩ := hu.read
      rw [List.append_assoc]
      refine Scans.next (afterGap_cons hspace hcomment (r ++ (v ++ rest))) hl ?_
      rw [List.drop_left]
      exact ih hrest

end Scan

end JumpScript
