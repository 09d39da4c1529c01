import JumpScript.Proofs.Token.Newline

/-!
# Lexemes by themselves

Reading a lexeme looks at most one byte ahead, to see that the lexeme does not go on.  So a lexeme
that has been read can be cut out of its source: its own bytes are read as the same lexeme when
nothing or a space follows them.
-/

namespace JumpScript

namespace Scan

variable {b : UInt8} {r x : Bytes} {l : Lexeme} {n : Nat}

/-- A text that is empty or begins with a space. -/
def Spaced (x : Bytes) : Prop := ∀ c ∈ x.head?, isSpace c = true

theorem spaced_nil : Spaced [] := by
  intro c hc
  cases hc

theorem Spaced.bounded (hx : Spaced x) : Bounded x := by
  intro c hc
  rw [isBoundary, hx c hc, Bool.true_or]

theorem Spaced.head?_ne (hx : Spaced x) {c : UInt8} (hc : isSpace c = false) :
    (x.head? == some c) = false := by
  rw [beq_eq_false_iff_ne]
  intro hhead
  rw [hx c hhead] at hc
  cases hc

theorem Spaced.any_isDigit (hx : Spaced x) : x.head?.any Bytes.isDigit = false := by
  cases x with
  | nil => rfl
  | cons c x => exact isDigit_of_isBoundary (hx.bounded c rfl)

theorem Bounded.head?_ne_point (hx : Bounded x) : x.head? ≠ some 0x2E := by
  intro hhead
  exact (isNamePart_of_isBoundary (hx 0x2E hhead)).2 rfl

theorem head?_take_append_ne {c : UInt8} (hr : r.head? ≠ some c) (hx : x.head? ≠ some c) (k : Nat) :
    (r.take k ++ x).head? ≠ some c := by
  cases k with
  | zero => exact hx
  | succ k =>
      cases r with
      | nil => exact hx
      | cons d r => exact hr

/-- A number reaches as far within its own bytes. -/
theorem numberSpan_take (hx : Bounded x) (pointSeen : Bool) (r : Bytes)
    (hpoint : (numberSpan pointSeen r).secondPoint = false) :
    numberSpan pointSeen (r.take (numberSpan pointSeen r).length ++ x)
      = numberSpan pointSeen r := by
  induction r generalizing pointSeen with
  | nil => exact numberSpan_of_bounded hx pointSeen
  | cons c r ih =>
      by_cases hdigit : Bytes.isDigit c = true
      · rw [numberSpan, if_pos hdigit] at hpoint ⊢
        rw [List.take_succ_cons, List.cons_append, numberSpan, if_pos hdigit, ih pointSeen hpoint]
      · by_cases hstop : (c != 0x2E || r.head? == some 0x2E) = true
        · rw [numberSpan, if_neg hdigit, if_pos hstop]
          exact numberSpan_of_bounded hx pointSeen
        · cases pointSeen with
          | true =>
              rw [numberSpan, if_neg hdigit, if_neg hstop] at hpoint
              cases hpoint
          | false =>
              rw [numberSpan, if_neg hdigit, if_neg hstop] at hpoint ⊢
              simp only [Bool.or_eq_true, bne_iff_ne, beq_iff_eq, not_or, not_not] at hstop
              have hnext := head?_take_append_ne hstop.2 hx.head?_ne_point
                (numberSpan true r).length
              have hgo : ¬ (c != 0x2E || (r.take (numberSpan true r).length ++ x).head?
                  == some 0x2E) = true := by
                simp only [Bool.or_eq_true, bne_iff_ne, beq_iff_eq, not_or, not_not]
                exact ⟨hstop.1, hnext⟩
              rw [if_neg Bool.false_ne_true] at hpoint ⊢
              rw [List.take_succ_cons, List.cons_append, numberSpan, if_neg hdigit, if_neg hgo,
                if_neg Bool.false_ne_true, ih true hpoint]

theorem secondPoint_of_number (h : number b r = .ok (l, n)) :
    (numberSpan false r).secondPoint = false := by
  rw [number] at h
  split at h
  · cases h
  · rename_i hpoint
    exact Bool.eq_false_iff.mpr hpoint

theorem number_take (h : number b r = .ok (l, n)) (hx : Spaced x) :
    number b (r.take n ++ x) = .ok (l, n) := by
  obtain ⟨rfl, hlexeme⟩ := number_eq_ok h
  have hpoint := secondPoint_of_number h
  have hlength : (r.take (numberSpan false r).length).length = (numberSpan false r).length :=
    List.length_take_of_le (length_numberSpan_le false r)
  have hspan : numberSpan false (r.take (numberSpan false r).length ++ x)
      = ⟨(r.take (numberSpan false r).length).length, (numberSpan false r).hasPoint, false⟩ := by
    rw [numberSpan_take hx.bounded false r hpoint, hlength]
    exact congrArg (NumberSpan.mk _ _) hpoint
  have hread := number_of_span hspan hx.bounded hlexeme
  rw [hlength] at hread
  exact hread

theorem name_take (hb : isNameStart b = true) (h : name b r = .ok (l, n)) (hx : Spaced x) :
    name b (r.take n ++ x) = .ok (l, n) := by
  obtain ⟨rfl, rfl⟩ := name_eq_ok h
  have htake : r.take (r.takeWhile isNamePart).length = r.takeWhile isNamePart :=
    (List.prefix_iff_eq_take.mp (List.takeWhile_prefix isNamePart)).symm
  have hpart : (r.takeWhile isNamePart).all isNamePart = true := List.all_takeWhile
  obtain ⟨c, s, hcons, -, -, hread⟩ := (spells_word hb hpart hx.bounded).read
  obtain ⟨rfl, rfl⟩ := List.cons.inj hcons
  rw [htake, ← lexemeAt_of_isNameStart hb]
  exact hread

/-- A string ends with its closing quote. -/
theorem Quoted.take {u : Bytes} {k : Nat} (h : Quoted r u k) (x : Bytes) :
    Quoted (r.take k ++ x) u k := by
  induction h with
  | close => exact Quoted.close
  | escape he _ ih => exact Quoted.escape he ih
  | plain hquote hslash _ ih => exact Quoted.plain hquote hslash ih

theorem string_take (h : string r = .ok (l, n)) (x : Bytes) :
    string (r.take n ++ x) = .ok (l, n) := by
  obtain ⟨u, rfl, hu⟩ := string_eq_ok_iff.mp h
  exact string_eq_ok_iff.mpr ⟨u, rfl, hu.take x⟩

theorem mark_eq_ok_cases (h : mark b r = .ok (l, n)) :
    (∃ m s, doubleMark? b = some m ∧ r = 0x3D :: s ∧ l = .mark m ∧ n = 1) ∨
      ∃ m, singleMark? b = some m ∧ l = .mark m ∧ n = 0 := by
  revert h
  fun_cases mark b r <;> intro h
  · rename_i m hequals hdouble
    obtain ⟨rfl, rfl⟩ := Prod.mk.inj (Except.ok.inj h)
    cases r with
    | nil => cases hequals
    | cons c s =>
        obtain rfl : c = 0x3D := by simpa using hequals
        exact Or.inl ⟨m, s, hdouble, rfl, rfl, rfl⟩
  · rename_i m hsingle _
    obtain ⟨rfl, rfl⟩ := Prod.mk.inj (Except.ok.inj h)
    exact Or.inr ⟨m, hsingle, rfl, rfl⟩
  · cases h

theorem mark_take (h : mark b r = .ok (l, n)) (hx : Spaced x) :
    mark b (r.take n ++ x) = .ok (l, n) := by
  rcases mark_eq_ok_cases h with ⟨m, s, hdouble, rfl, rfl, rfl⟩ | ⟨m, hsingle, rfl, rfl⟩
  · rw [mark, hdouble]
    rfl
  · rw [List.take_zero, List.nil_append, mark, hx.head?_ne (by decide), hsingle]
    cases doubleMark? b <;> rfl

/-- No digit follows the first byte of a mark within its own bytes. -/
theorem any_isDigit_take_mark (h : mark b r = .ok (l, n)) (hx : Spaced x) :
    (r.take n ++ x).head?.any Bytes.isDigit = false := by
  rcases mark_eq_ok_cases h with ⟨m, s, -, rfl, -, rfl⟩ | ⟨m, -, -, rfl⟩
  · rfl
  · exact hx.any_isDigit

/-- A digit at the head of a number is one of its bytes. -/
theorem any_isDigit_take_number (h : number b r = .ok (l, n))
    (hr : r.head?.any Bytes.isDigit = true) (x : Bytes) :
    (r.take n ++ x).head?.any Bytes.isDigit = true := by
  obtain ⟨rfl, -⟩ := number_eq_ok h
  cases r with
  | nil => cases hr
  | cons d r =>
      have hd : Bytes.isDigit d = true := hr
      rw [numberSpan, if_pos hd]
      exact hr

/-- A lexeme is read again from its own bytes. -/
theorem lexemeAt_take (h : lexemeAt b r = .ok (l, n)) (hx : Spaced x) :
    lexemeAt b (r.take n ++ x) = .ok (l, n) := by
  rw [lexemeAt] at h
  split_ifs at h with hend hnumber hname hquote
  · rw [lexemeAt, if_pos hend]
    exact h
  · have hagain : (Bytes.isDigit b
        || (b == 0x2D && (r.take n ++ x).head?.any Bytes.isDigit)) = true := by
      rw [Bool.or_eq_true, Bool.and_eq_true] at hnumber ⊢
      rcases hnumber with hb | ⟨hb, hr⟩
      · exact Or.inl hb
      · exact Or.inr ⟨hb, any_isDigit_take_number h hr x⟩
    rw [lexemeAt, if_neg hend, if_pos hagain]
    exact number_take h hx
  · rw [lexemeAt_of_isNameStart hname]
    exact name_take hname h hx
  · obtain rfl := eq_of_beq hquote
    exact string_take h x
  · have hstill : ¬ (Bytes.isDigit b
        || (b == 0x2D && (r.take n ++ x).head?.any Bytes.isDigit)) = true := by
      rw [Bool.or_eq_true, not_or] at hnumber
      rw [any_isDigit_take_mark h hx, Bool.and_false, Bool.or_false]
      exact hnumber.1
    rw [lexemeAt, if_neg hend, if_neg hstill, if_neg hname, if_neg hquote]
    exact mark_take h hx

/-- No lexeme begins with a space or as a comment does. -/
theorem not_gap_of_lexemeAt (h : lexemeAt b r = .ok (l, n)) : isSpace b = false ∧ b ≠ 0x23 := by
  constructor
  · rw [Bool.eq_false_iff]
    intro hspace
    simp only [isSpace, Bool.or_eq_true, beq_iff_eq] at hspace
    rcases hspace with (rfl | rfl) | rfl
    all_goals cases h
  · rintro rfl
    cases h

/-- What stands between lexemes: spaces, and a comment up to a newline or the end. -/
def IsGap (gap rest : Bytes) : Prop :=
  ∃ blank comment, gap = blank ++ comment ∧ (∀ b ∈ blank, isSpace b = true) ∧
    (comment = [] ∨ ∃ words, comment = 0x23 :: words ∧ 0x0A ∉ words ∧
      (rest = [] ∨ rest.head? = some 0x0A))

theorem afterGap_comment (r : Bytes) : afterGap (0x23 :: r) = r.dropWhile (· != 0x0A) := by
  rw [afterGap, gap_comment, List.length_cons, List.drop_succ_cons]
  nth_rewrite 2 [← List.takeWhile_append_dropWhile (p := (· != 0x0A)) (l := r)]
  rw [List.drop_left]

theorem gap_append_afterGap (s : Bytes) : gap s ++ afterGap s = s := by
  induction s with
  | nil => rfl
  | cons b s ih =>
      by_cases hspace : isSpace b = true
      · rw [gap_cons_of_isSpace hspace, afterGap_cons_space hspace, List.cons_append, ih]
      · by_cases hcomment : b = 0x23
        · rw [hcomment, gap_comment, afterGap_comment, List.cons_append,
            List.takeWhile_append_dropWhile]
        · rw [Bool.not_eq_true] at hspace
          rw [gap_cons_of_not_isSpace hspace hcomment, afterGap_cons hspace hcomment]
          rfl

theorem head?_dropWhile_newline (r : Bytes) :
    r.dropWhile (· != 0x0A) = [] ∨ (r.dropWhile (· != 0x0A)).head? = some 0x0A := by
  induction r with
  | nil => exact Or.inl rfl
  | cons b r ih =>
      by_cases hb : b = 0x0A
      · rw [hb]
        exact Or.inr rfl
      · rw [List.dropWhile_cons_of_pos (by simpa using hb)]
        exact ih

/-- A gap with a space before it is one. -/
theorem IsGap.cons {gap rest : Bytes} (hb : isSpace b = true) (h : IsGap gap rest) :
    IsGap (b :: gap) rest := by
  obtain ⟨blank, comment, rfl, hblank, hcomment⟩ := h
  refine ⟨b :: blank, comment, rfl, ?_, hcomment⟩
  intro c hc
  rcases List.mem_cons.mp hc with rfl | hc
  · exact hb
  · exact hblank c hc

theorem isGap_gap (s : Bytes) : IsGap (gap s) (afterGap s) := by
  induction s with
  | nil => exact ⟨[], [], rfl, by simp, Or.inl rfl⟩
  | cons b s ih =>
      by_cases hspace : isSpace b = true
      · rw [gap_cons_of_isSpace hspace, afterGap_cons_space hspace]
        exact ih.cons hspace
      · by_cases hcomment : b = 0x23
        · rw [hcomment, gap_comment, afterGap_comment]
          refine ⟨[], _, rfl, by simp, Or.inr ⟨_, rfl, ?_, head?_dropWhile_newline s⟩⟩
          intro hmem
          exact absurd (List.mem_takeWhile_imp hmem) (by decide)
        · rw [Bool.not_eq_true] at hspace
          rw [gap_cons_of_not_isSpace hspace hcomment]
          exact ⟨[], [], rfl, by simp, Or.inl rfl⟩

/-- What follows a gap is neither a space nor a comment. -/
theorem head_of_afterGap {s : Bytes} (h : afterGap s = b :: r) : isSpace b = false ∧ b ≠ 0x23 := by
  induction s with
  | nil => cases h
  | cons c s ih =>
      by_cases hspace : isSpace c = true
      · rw [afterGap_cons_space hspace] at h
        exact ih h
      · by_cases hcomment : c = 0x23
        · rw [hcomment, afterGap_comment] at h
          rcases head?_dropWhile_newline s with hnil | hnewline
          · rw [hnil] at h
            cases h
          · rw [h] at hnewline
            obtain rfl := Option.some.inj hnewline
            decide
        · rw [Bool.not_eq_true] at hspace
          rw [afterGap_cons hspace hcomment] at h
          obtain ⟨rfl, rfl⟩ := List.cons.inj h
          exact ⟨hspace, hcomment⟩

/-- The bytes of a lexeme are scanned as that lexeme alone. -/
theorem scans_take {s : Bytes} (hgap : afterGap s = b :: r) (hl : lexemeAt b r = .ok (l, n)) :
    Scans (b :: r.take n) [l] := by
  obtain ⟨hspace, hcomment⟩ := head_of_afterGap hgap
  have hread := lexemeAt_take hl spaced_nil
  rw [List.append_nil] at hread
  refine Scans.next (afterGap_cons hspace hcomment _) hread (Scans.done ?_)
  rw [List.drop_take, Nat.sub_self, List.take_zero]
  rfl

end Scan

end JumpScript
