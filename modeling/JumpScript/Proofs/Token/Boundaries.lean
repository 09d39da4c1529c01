import JumpScript.Proofs.Token.Lines
import JumpScript.Proofs.Token.Standstill

/-!
# Bytes after tokens

A number, a name or a keyword ends where the source ends or before a byte that may follow it, and
one that runs into another byte is a fault, so none of them is cut short.  The rule is kept by the
readers of numbers and of words.  The reader of strings does not look behind the closing quote:
there anything can follow.
-/

namespace JumpScript

/-- Keywords, as opposed to punctuation. -/
def Mark.isWord : Mark → Bool
  | .ifWord | .gotoWord | .callWord | .retWord => true
  | _ => false

/-- The classes of values, names and keywords. -/
def TokenKind.isWordlike : TokenKind → Bool
  | .mark m => m.isWord
  | k => k.isValue

namespace Scan

variable {b d : UInt8} {r x u : Bytes} {l : Lexeme} {n : Nat}

theorem bounded_of_filter (h : r.head?.filter (!isBoundary ·) = none) : Bounded r := by
  intro c hc
  simpa using Option.filter_eq_none_iff.mp h c hc

theorem bounded_of_number (h : number b r = .ok (l, n)) : Bounded (r.drop n) := by
  obtain ⟨rfl, -⟩ := number_eq_ok h
  revert h
  fun_cases number b r <;> intro h
  case case3 hfilter _ _ _ => exact bounded_of_filter hfilter
  case case5 hfilter _ _ _ => exact bounded_of_filter hfilter
  all_goals cases h

theorem bounded_of_name (h : name b r = .ok (l, n)) : Bounded (r.drop n) := by
  have hdrop : r.drop (r.takeWhile isNamePart).length = r.dropWhile isNamePart := by
    simpa using Position.drop_takeWhile r isNamePart 0
  obtain ⟨rfl, -⟩ := name_eq_ok h
  rw [hdrop]
  revert h
  fun_cases name b r <;> intro h
  case case1 => cases h
  case case2 hfilter => exact bounded_of_filter hfilter

theorem isWord_of_mark (h : mark b r = .ok (l, n)) : l.kind.isWordlike = false := by
  rcases mark_eq_ok_cases h with ⟨m, -, hm, -, rfl, -⟩ | ⟨m, hm, rfl, -⟩
  · revert hm
    fun_cases doubleMark? b <;> rintro ⟨⟩ <;> rfl
  · revert hm
    fun_cases singleMark? b <;> rintro ⟨⟩ <;> rfl

/-- The readers of numbers and of words look at the byte behind what they read. -/
theorem bounded_of_lexemeAt (h : lexemeAt b r = .ok (l, n)) (hl : l.kind.isWordlike = true)
    (hstring : l.kind ≠ .string) : Bounded (r.drop n) := by
  revert h
  fun_cases lexemeAt b r <;> intro h
  case case1 =>
    obtain ⟨rfl, -⟩ := Prod.mk.inj (Except.ok.inj h)
    cases hl
  case case2 => exact bounded_of_number h
  case case3 => exact bounded_of_name h
  case case4 =>
    obtain ⟨said, rfl, -⟩ := string_eq_ok_iff.mp h
    exact absurd rfl hstring
  case case5 =>
    rw [isWord_of_mark h] at hl
    cases hl

theorem string_of_lexemeAt (h : lexemeAt b r = .ok (l, n)) (hl : l.kind = .string) :
    b = 0x22 ∧ string r = .ok (l, n) := by
  revert h
  fun_cases lexemeAt b r <;> intro h
  case case1 =>
    obtain ⟨rfl, -⟩ := Prod.mk.inj (Except.ok.inj h)
    cases hl
  case case2 =>
    obtain ⟨-, hlexeme⟩ := number_eq_ok h
    unfold NumberLexeme at hlexeme
    split at hlexeme
    all_goals
      obtain ⟨v, -, rfl⟩ := hlexeme
      cases hl
  case case3 =>
    obtain ⟨-, rfl⟩ := name_eq_ok h
    unfold word at hl
    split_ifs at hl
    all_goals cases hl
  case case4 hquote => exact ⟨eq_of_beq hquote, h⟩
  case case5 =>
    obtain ⟨m, rfl, -⟩ := mark_eq_ok h
    cases hl

/-- The reader of strings stops at the closing quote. -/
theorem lexemeAt_append_of_string (h : lexemeAt b r = .ok (l, n)) (hl : l.kind = .string)
    (x : Bytes) : lexemeAt b (r.take n ++ x) = .ok (l, n) := by
  obtain ⟨rfl, hstring⟩ := string_of_lexemeAt h hl
  exact string_take hstring x

/-- A word or a number that is not continued by the byte `d` and the text `x` after it, and what the
scanner says if `d` may not follow it either.  Two points in a row do not continue a number. -/
inductive RunsInto (d : UInt8) (x : Bytes) : Bytes → ScanFault → Prop where
  | word {b : UInt8} {r : Bytes} (hb : isNameStart b = true) (hr : r.all isNamePart = true)
      (hd : isNamePart d = false) : RunsInto d x (b :: r) (.unexpectedInName d)
  | whole {b : UInt8} {ds : Bytes} (hb : BeginsNumber b ds) (hds : Numeral.AllDigits ds)
      (hd : Bytes.isDigit d = false) (hpoint : d = 0x2E → x.head? = some 0x2E) :
      RunsInto d x (b :: ds) (.unexpectedInNumber d)
  | pointed {b : UInt8} {ds es : Bytes} (hb : BeginsNumber b ds) (hds : Numeral.AllDigits ds)
      (hes : Numeral.AllDigits es) (hd : Bytes.isDigit d = false)
      (hpoint : d = 0x2E → es ≠ []) :
      RunsInto d x (b :: (ds ++ 0x2E :: es))
        (if d = 0x2E ∧ x.head? ≠ some 0x2E then .secondPoint else .unexpectedInNumber d)

theorem numberSpan_stop (hd : Bytes.isDigit d = false) (hpoint : d = 0x2E → x.head? = some 0x2E)
    (pointSeen : Bool) : numberSpan pointSeen (d :: x) = ⟨0, pointSeen, false⟩ := by
  have hstop : (d != 0x2E || x.head? == some 0x2E) = true := by
    rw [Bool.or_eq_true, bne_iff_ne, beq_iff_eq]
    exact or_iff_not_imp_left.mpr fun h => hpoint (not_not.mp h)
  rw [numberSpan, hd, if_neg Bool.false_ne_true, if_pos hstop]

/-- A number with a point ends before any byte but a digit, and another point is a fault. -/
theorem numberSpan_pointed (hd : Bytes.isDigit d = false) :
    numberSpan true (d :: x) = ⟨0, true, decide (d = 0x2E ∧ x.head? ≠ some 0x2E)⟩ := by
  by_cases hsecond : d = 0x2E ∧ x.head? ≠ some 0x2E
  · obtain ⟨rfl, hx⟩ := hsecond
    have hgo : ((0x2E : UInt8) != 0x2E || x.head? == some 0x2E) = false := by simpa using hx
    rw [numberSpan, hd, if_neg Bool.false_ne_true, hgo, if_neg Bool.false_ne_true, if_pos rfl,
      decide_eq_true ⟨rfl, hx⟩]
  · rw [numberSpan_stop hd (by simpa using hsecond), decide_eq_false hsecond]

theorem filter_of_not_boundary (hd : isBoundary d = false) :
    (d :: x).head?.filter (!isBoundary ·) = some d := by
  rw [List.head?_cons, Option.filter_some, hd]
  rfl

theorem number_refused {hasPoint second : Bool}
    (hspan : numberSpan false (r ++ d :: x) = ⟨r.length, hasPoint, second⟩)
    (hd : isBoundary d = false) :
    number b (r ++ d :: x)
      = .error ⟨r.length + 1, 1, if second then .secondPoint else .unexpectedInNumber d⟩ := by
  simp only [number, hspan, List.drop_left, filter_of_not_boundary hd]
  cases second <;> rfl

theorem RunsInto.refused {f : ScanFault} (h : RunsInto d x u f) (hd : isBoundary d = false) :
    ∃ b r, u = b :: r ∧ lexemeAt b (r ++ d :: x) = .error ⟨u.length, 1, f⟩ := by
  cases h with
  | @word b r hb hr hpart =>
      have hall : ∀ c ∈ r, isNamePart c = true := List.all_eq_true.mp hr
      refine ⟨b, r, rfl, ?_⟩
      rw [lexemeAt_of_isNameStart hb, name, takeWhile_append_stop hpart,
        dropWhile_append_stop hpart, List.takeWhile_eq_self_iff.mpr hall,
        List.dropWhile_eq_nil_iff.mpr hall, List.nil_append, filter_of_not_boundary hd]
      rfl
  | @whole b ds hb hds hdigit hpoint =>
      have hspan : numberSpan false (ds ++ d :: x) = ⟨ds.length, false, false⟩ := by
        rw [numberSpan_digits hds, numberSpan_stop hdigit hpoint]
        simp
      refine ⟨b, ds, rfl, ?_⟩
      rw [lexemeAt_of_beginsNumber hb, number_refused hspan hd]
      rfl
  | @pointed b ds es hb hds hes hdigit hpoint =>
      -- the point belongs to the number because no other one follows it
      have hhead : (es ++ d :: x).head? ≠ some 0x2E := by
        cases es with
        | nil =>
            rw [List.nil_append, List.head?_cons, ne_eq, Option.some_inj]
            exact fun hd => hpoint hd rfl
        | cons e es =>
            rw [List.cons_append, List.head?_cons, ne_eq, Option.some_inj]
            exact Numeral.isDigit_ne (hes e List.mem_cons_self) (by decide)
      have hspan : numberSpan false ((ds ++ 0x2E :: es) ++ d :: x)
          = ⟨(ds ++ 0x2E :: es).length, true, decide (d = 0x2E ∧ x.head? ≠ some 0x2E)⟩ := by
        rw [List.append_assoc, numberSpan_digits hds, List.cons_append, numberSpan_point hhead,
          numberSpan_digits hes, numberSpan_pointed hdigit]
        simp only [List.length_append, List.length_cons, NumberSpan.mk.injEq, and_true]
        omega
      refine ⟨b, ds ++ 0x2E :: es, rfl, ?_⟩
      rw [List.append_assoc, lexemeAt_of_beginsNumber hb, ← List.append_assoc,
        number_refused hspan hd]
      simp

end Scan

namespace Cursor

variable {c : Cursor} {file source : Bytes} {t : Token}

/-- A token other than the end of the file is the lexeme that its place begins with. -/
theorem At.lexed_of_next (h : c.At source) (hnext : (c.next file).2 = .ok t)
    (ht : t.lexeme ≠ .endOfFile) : t.Lexed source := by
  obtain ⟨answer, hlast, heq⟩ | ⟨b, r, l, n, hrest, hl, heq⟩ := c.next_cases file
  · rw [heq] at hnext
    obtain rfl : answer = .ok t := hnext
    exact absurd hlast ht
  · rw [heq] at hnext
    obtain rfl := Except.ok.inj hnext
    exact ⟨b, r, n, h.skip.rest_eq.symm.trans hrest, hl, rfl⟩

end Cursor

/-- No number, name or keyword is cut short.  Every token of a source with a bool, an int, a float,
an identifier or a keyword ends at the end of the source or before a byte that may follow it, and
where a word or a number runs into a byte that neither goes on with it nor may follow it, the
scanner fails at that byte.  A string is a token whatever follows its closing quote. -/
theorem values_bounded_unless_string (file source : Bytes) :
    (∀ n t, (Cursor.start source).answer file n = .ok t → t.kind.isWordlike = true →
      t.kind ≠ .string → Scan.Bounded (source.drop t.stop)) ∧
    (∀ (c : Cursor) u d x f, c.skip.rest = u ++ d :: x → Scan.RunsInto d x u f →
      Scan.isBoundary d = false →
      (c.next file).2 = .error (c.skip.diagnostic file ⟨u.length, 1, f⟩)) ∧
    (∀ n t, (Cursor.start source).answer file n = .ok t → t.kind = .string →
      ∀ (c : Cursor) x, c.rest = t.bytes source ++ x →
        (c.next file).2 = .ok (c.token file t.lexeme t.width)) := by
  have hlexed : ∀ n t, (Cursor.start source).answer file n = .ok t → t.kind.isWordlike = true →
      t.Lexed source := by
    intro n t hanswer hkind
    refine ((Cursor.at_start source).after file n).lexed_of_next hanswer fun hend => ?_
    rw [Token.kind, hend] at hkind
    cases hkind
  refine ⟨fun n t hanswer hkind hstring => ?_, fun c u d x f hrest hruns hd => ?_,
    fun n t hanswer hkind c x hrest => ?_⟩
  · obtain ⟨b, r, k, hdrop, hl, hwidth⟩ := hlexed n t hanswer hkind
    have hstop : source.drop t.stop = r.drop k := by
      rw [Token.stop, hwidth, ← List.drop_drop, hdrop, List.drop_succ_cons]
    rw [hstop]
    exact Scan.bounded_of_lexemeAt hl hkind hstring
  · obtain ⟨b, r, rfl, hl⟩ := hruns.refused hd
    rw [Cursor.next, hrest]
    simp only [List.cons_append, hl]
  · obtain ⟨b, r, k, hdrop, hl, hwidth⟩ := hlexed n t hanswer (by rw [hkind]; rfl)
    have hcons : c.rest = b :: (r.take k ++ x) := by
      rw [hrest, Token.bytes_of_drop hdrop hwidth, List.cons_append]
    obtain ⟨hspace, hcomment⟩ := Scan.not_gap_of_lexemeAt hl
    have hself : c.skip = c := Cursor.skip_eq_self hcons hspace hcomment
    rw [Cursor.next, hself, hcons]
    simp only [Scan.lexemeAt_append_of_string hl hkind x, hwidth]

/-- A name before an equals sign, a string before a letter, and a number before two points. -/
theorem values_bounded_unless_string_letterAfterQuote :
    let source := text "x=\"a\"b"
    let name : Token := ⟨.identifier (text "x"), 1, 1, 0, 1, [], source⟩
    let said : Token := ⟨.string (text "a"), 1, 3, 2, 3, [], source⟩
    ((Cursor.start source).answer [] 0 = .ok name ∧ Scan.Bounded (source.drop name.stop)) ∧
    (∀ c : Cursor, c.skip.rest = text "-1.5..2" →
      (c.next []).2 = .error (c.skip.diagnostic [] ⟨4, 1, .unexpectedInNumber 0x2E⟩)) ∧
    (Cursor.start source).answer [] 2 = .ok said ∧
    ∀ (c : Cursor) x, c.rest = text "\"a\"" ++ x →
      (c.next []).2 = .ok (c.token [] (.string (text "a")) 3) := by
  intro source name said
  have hname : (Cursor.start source).answer [] 0 = .ok name := by decide +kernel
  have hsaid : (Cursor.start source).answer [] 2 = .ok said := by decide +kernel
  obtain ⟨hbounded, hrefused, hstring⟩ := values_bounded_unless_string [] source
  refine ⟨⟨hname, hbounded 0 name hname rfl (by decide)⟩, fun c hc => ?_, hsaid,
    hstring 2 said hsaid rfl⟩
  have hdigits : Numeral.AllDigits (text "1") ∧ Numeral.AllDigits (text "5") := by
    constructor <;> exact List.all_eq_true.mp rfl
  have hruns := Scan.RunsInto.pointed (d := 0x2E) (x := text ".2") (b := 0x2D) (.inr ⟨rfl, rfl⟩)
    hdigits.1 hdigits.2 rfl (by decide)
  exact hrefused c (text "-1.5") 0x2E (text ".2") _ hc hruns (by decide)

/-- A string can run into a name. -/
theorem not_values_always_bounded :
    ¬ ∀ (file source : Bytes) (n : Nat) (t : Token),
      (Cursor.start source).answer file n = .ok t → t.kind.isWordlike = true →
      Scan.Bounded (source.drop t.stop) := by
  intro h
  have hbounded := h (text "main") (text "x = \"a\"b") 2
    ⟨.string (text "a"), 1, 5, 4, 3, text "main", text "x = \"a\"b"⟩ (by decide +kernel) rfl
  exact absurd (hbounded 0x62 rfl) (by decide)

end JumpScript
