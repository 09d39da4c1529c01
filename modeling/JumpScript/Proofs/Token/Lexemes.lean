import Mathlib.Data.List.TakeWhile
import JumpScript.Proofs.Number.FloatLiteral
import JumpScript.Proofs.Token.Scanning

/-!
# Written lexemes

Names, numbers, strings and marks are scanned back from their texts, whatever follows, as long as
the byte after a name or a number is one that may stand there.
-/

namespace JumpScript

namespace Scan

/-- The words that are not names. -/
def reserved : List Bytes :=
  [text "if", text "goto", text "call", text "ret", text "true", text "false"]

/-- Whether a text is a name: a letter or an underscore, then letters, digits and underscores, and
not a reserved word. -/
def isName : Bytes → Bool
  | [] => false
  | b :: r => isNameStart b && r.all isNamePart && !reserved.contains (b :: r)

/-- A text after which a name or a number may end. -/
def Bounded (rest : Bytes) : Prop := ∀ c ∈ rest.head?, isBoundary c = true

theorem bounded_cons {b : UInt8} (hb : isBoundary b = true) (rest : Bytes) :
    Bounded (b :: rest) := by
  intro c hc
  obtain rfl : b = c := by simpa using hc
  exact hb

theorem isNamePart_of_isBoundary {b : UInt8} (hb : isBoundary b = true) :
    isNamePart b = false ∧ b ≠ 0x2E := by
  have hmem : b ∈ [0x20, 0x09, 0x0D] ++ text "\n;#=+-*/%!<>:~@" := by
    simp only [isBoundary, isSpace, Bool.or_eq_true, beq_iff_eq, List.contains_iff_mem] at hb
    rcases hb with (((rfl | rfl) | rfl) | hb)
    · decide
    · decide
    · decide
    · exact List.mem_append_right _ hb
  have hall : ([0x20, 0x09, 0x0D] ++ text "\n;#=+-*/%!<>:~@").all
      (fun c => !isNamePart c && c != 0x2E) = true := by
    decide
  simpa using List.all_eq_true.mp hall b hmem

theorem isDigit_of_isBoundary {b : UInt8} (hb : isBoundary b = true) :
    Bytes.isDigit b = false := by
  have hpart := (isNamePart_of_isBoundary hb).1
  rw [isNamePart, Bool.or_eq_false_iff] at hpart
  exact hpart.2

theorem filter_of_bounded {rest : Bytes} (hrest : Bounded rest) :
    rest.head?.filter (!isBoundary ·) = none := by
  rw [Option.filter_eq_none_iff]
  intro c hc
  simp [hrest c hc]

/-- A text on one line is one lexeme, read to its end when the text `rest` follows. -/
structure Spells (u : Bytes) (l : Lexeme) (rest : Bytes) : Prop where
  newline_not_mem : 0x0A ∉ u
  read : ∃ b r, u = b :: r ∧ isSpace b = false ∧ b ≠ 0x23 ∧
    lexemeAt b (r ++ rest) = .ok (l, r.length)

theorem isNameStart_cases {b : UInt8} (hb : isNameStart b = true) :
    0x41 ≤ b ∧ b ≤ 0x5A ∨ 0x61 ≤ b ∧ b ≤ 0x7A ∨ b = 0x5F := by
  simp only [isNameStart, Bool.or_eq_true, Bool.and_eq_true, decide_eq_true_eq,
    beq_iff_eq] at hb
  rcases hb with (hb | hb) | hb
  · exact Or.inr (Or.inl hb)
  · exact Or.inl hb
  · exact Or.inr (Or.inr hb)

theorem isNameStart_ne {b c : UInt8} (hb : isNameStart b = true)
    (hc : isNameStart c = false) : b ≠ c := by
  rintro rfl
  rw [hb] at hc
  exact absurd hc (by decide)

theorem isDigit_of_isNameStart {b : UInt8} (hb : isNameStart b = true) :
    Bytes.isDigit b = false := by
  rw [Bytes.isDigit, Bool.and_eq_false_iff, decide_eq_false_iff_not]
  right
  simp only [decide_eq_false_iff_not, UInt8.le_iff_toNat_le]
  rcases isNameStart_cases hb with h | h | h
  all_goals simp only [UInt8.le_iff_toNat_le, ← UInt8.toNat_inj] at h; simp at h ⊢; omega

theorem lexemeAt_of_isNameStart {b : UInt8} (hb : isNameStart b = true) (r : Bytes) :
    lexemeAt b r = name b r := by
  have hnewline := isNameStart_ne hb (c := 0x0A) (by decide)
  have hsemicolon := isNameStart_ne hb (c := 0x3B) (by decide)
  have hminus := isNameStart_ne hb (c := 0x2D) (by decide)
  simp [lexemeAt, hnewline, hsemicolon, hminus, isDigit_of_isNameStart hb, hb]

/-- A word is scanned as a whole. -/
theorem spells_word {b : UInt8} {r rest : Bytes} (hb : isNameStart b = true)
    (hr : r.all isNamePart = true) (hrest : Bounded rest) :
    Spells (b :: r) (word (b :: r)) rest := by
  have hpart : ∀ c ∈ r, isNamePart c = true := List.all_eq_true.mp hr
  have htake : rest.takeWhile isNamePart = [] := by
    cases rest with
    | nil => rfl
    | cons c rest =>
        have hc := (isNamePart_of_isBoundary (hrest c rfl)).1
        rw [List.takeWhile_cons, hc]
        rfl
  have hdrop : rest.dropWhile isNamePart = rest := by
    cases rest with
    | nil => rfl
    | cons c rest =>
        have hc := (isNamePart_of_isBoundary (hrest c rfl)).1
        rw [List.dropWhile_cons, hc]
        rfl
  have hspace : isSpace b = false := by
    simp [isSpace, isNameStart_ne hb (c := 0x20) (by decide),
      isNameStart_ne hb (c := 0x09) (by decide), isNameStart_ne hb (c := 0x0D) (by decide)]
  have hnewline : (0x0A : UInt8) ∉ b :: r := by
    rw [List.mem_cons, not_or]
    refine ⟨(isNameStart_ne hb (by decide)).symm, ?_⟩
    intro hmem
    exact absurd (hpart _ hmem) (by decide)
  refine ⟨hnewline, b, r, rfl, hspace, isNameStart_ne hb (by decide), ?_⟩
  rw [lexemeAt_of_isNameStart hb, name, List.takeWhile_append_of_pos hpart,
    List.dropWhile_append_of_pos hpart, htake, hdrop, filter_of_bounded hrest, List.append_nil]

theorem name_eq_ok {b : UInt8} {r : Bytes} {l : Lexeme} {n : Nat}
    (h : name b r = .ok (l, n)) :
    n = (r.takeWhile isNamePart).length ∧ l = word (b :: r.takeWhile isNamePart) := by
  revert h
  fun_cases name b r <;> intro h
  · cases h
  · obtain ⟨rfl, rfl⟩ := Prod.mk.inj (Except.ok.inj h)
    exact ⟨rfl, rfl⟩

theorem word_of_not_reserved {w : Bytes} (hw : reserved.contains w = false) :
    word w = .identifier w := by
  simp only [reserved, List.contains_cons, List.contains_nil, Bool.or_eq_false_iff] at hw
  obtain ⟨h₁, h₂, h₃, h₄, h₅, h₆, -⟩ := hw
  simp [word, h₁, h₂, h₃, h₄, h₅, h₆]

theorem spells_name {w rest : Bytes} (hw : isName w = true) (hrest : Bounded rest) :
    Spells w (.identifier w) rest := by
  cases w with
  | nil => cases hw
  | cons b r =>
      simp only [isName, Bool.and_eq_true, Bool.not_eq_true'] at hw
      rw [← word_of_not_reserved hw.2]
      exact spells_word hw.1.1 hw.1.2 hrest

theorem numberSpan_digits {ds : Bytes} (hds : Numeral.AllDigits ds) (pointSeen : Bool)
    (s : Bytes) :
    numberSpan pointSeen (ds ++ s)
      = { numberSpan pointSeen s with
          length := (numberSpan pointSeen s).length + ds.length } := by
  induction ds with
  | nil => rfl
  | cons d ds ih =>
      have hd : Bytes.isDigit d = true := hds d List.mem_cons_self
      have htail := ih fun e he => hds e (List.mem_cons_of_mem d he)
      rw [List.cons_append, numberSpan, if_pos hd, htail]
      rfl

theorem numberSpan_of_bounded {rest : Bytes} (hrest : Bounded rest) (pointSeen : Bool) :
    numberSpan pointSeen rest = ⟨0, pointSeen, false⟩ := by
  cases rest with
  | nil => rfl
  | cons c rest =>
      have hc := hrest c rfl
      have hpoint : (c != 0x2E) = true := by
        simpa using (isNamePart_of_isBoundary hc).2
      rw [numberSpan, isDigit_of_isBoundary hc, hpoint]
      rfl

theorem numberSpan_point {s : Bytes} (hs : s.head? ≠ some 0x2E) :
    numberSpan false (0x2E :: s)
      = { numberSpan true s with length := (numberSpan true s).length + 1 } := by
  have hpoint : (s.head? == some 0x2E) = false := beq_eq_false_iff_ne.mpr hs
  rw [numberSpan, hpoint]
  rfl

theorem lexemeAt_of_isDigit {d : UInt8} (hd : Bytes.isDigit d = true) (r : Bytes) :
    lexemeAt d r = number d r := by
  have hnewline := Numeral.isDigit_ne hd (show Bytes.isDigit 0x0A = false by decide)
  have hsemicolon := Numeral.isDigit_ne hd (show Bytes.isDigit 0x3B = false by decide)
  simp [lexemeAt, hnewline, hsemicolon, hd]

/-- A number begins with this byte, a digit or a minus sign before one; after it come `ds`. -/
def BeginsNumber (b : UInt8) (ds : Bytes) : Prop :=
  Bytes.isDigit b = true ∨ b = 0x2D ∧ ds.head?.any Bytes.isDigit = true

theorem lexemeAt_of_beginsNumber {b : UInt8} {ds : Bytes} (hb : BeginsNumber b ds) (s : Bytes) :
    lexemeAt b (ds ++ s) = number b (ds ++ s) := by
  rcases hb with hb | ⟨rfl, hds⟩
  · exact lexemeAt_of_isDigit hb _
  · cases ds with
    | nil => cases hds
    | cons e ds =>
        have he : Bytes.isDigit e = true := hds
        simp [lexemeAt, he]

theorem isSpace_of_beginsNumber {b : UInt8} {ds : Bytes} (hb : BeginsNumber b ds) :
    isSpace b = false ∧ b ≠ 0x23 ∧ b ≠ 0x0A := by
  rcases hb with hdigit | ⟨rfl, -⟩
  · have hne (k : UInt8) (hk : Bytes.isDigit k = false) : b ≠ k := Numeral.isDigit_ne hdigit hk
    refine ⟨?_, hne 0x23 (by decide), hne 0x0A (by decide)⟩
    simp [isSpace, hne 0x20 (by decide), hne 0x09 (by decide), hne 0x0D (by decide)]
  · exact ⟨by decide, by decide, by decide⟩

/-- The lexeme of a number: a float if it has a point. -/
def NumberLexeme (hasPoint : Bool) (numeral : Bytes) (l : Lexeme) : Prop :=
  if hasPoint then ∃ x, Numeral.read numeral = .ok x ∧ l = .float x
  else ∃ k, Integer.read numeral = .ok k ∧ l = .int k

theorem number_of_span {b : UInt8} {r rest : Bytes} {hasPoint : Bool} {l : Lexeme}
    (hspan : numberSpan false (r ++ rest) = ⟨r.length, hasPoint, false⟩)
    (hrest : Bounded rest) (hl : NumberLexeme hasPoint (b :: r) l) :
    number b (r ++ rest) = .ok (l, r.length) := by
  simp only [number, hspan, List.take_left, List.drop_left, filter_of_bounded hrest]
  cases hasPoint with
  | true =>
      obtain ⟨x, hread, rfl⟩ := hl
      simp [hread]
  | false =>
      obtain ⟨k, hread, rfl⟩ := hl
      simp [hread]

theorem number_eq_ok {b : UInt8} {r : Bytes} {l : Lexeme} {n : Nat}
    (h : number b r = .ok (l, n)) :
    n = (numberSpan false r).length ∧
      NumberLexeme (numberSpan false r).hasPoint (b :: r.take n) l := by
  revert h
  fun_cases number b r <;> intro h
  case case3 hpoint x hread =>
    obtain ⟨rfl, rfl⟩ := Prod.mk.inj (Except.ok.inj h)
    refine ⟨rfl, ?_⟩
    rw [NumberLexeme, if_pos hpoint]
    exact ⟨x, hread, rfl⟩
  case case5 hpoint k hread =>
    obtain ⟨rfl, rfl⟩ := Prod.mk.inj (Except.ok.inj h)
    refine ⟨rfl, ?_⟩
    rw [NumberLexeme, if_neg hpoint]
    exact ⟨k, hread, rfl⟩
  all_goals cases h

/-- A signed numeral is scanned as a whole. -/
theorem spells_number {negative hasPoint : Bool} {d : UInt8} {r rest : Bytes} {l : Lexeme}
    (hd : Bytes.isDigit d = true)
    (hspan : numberSpan false (r ++ rest) = ⟨r.length, hasPoint, false⟩)
    (hrest : Bounded rest) (hnewline : 0x0A ∉ r)
    (hl : NumberLexeme hasPoint ((if negative then [0x2D] else []) ++ d :: r) l) :
    Spells ((if negative then [0x2D] else []) ++ d :: r) l rest := by
  have hdigit : BeginsNumber d r := .inl hd
  obtain ⟨hspace, hcomment, hline⟩ := isSpace_of_beginsNumber hdigit
  cases negative with
  | false =>
      refine ⟨by simp [hnewline, hline.symm], d, r, rfl, hspace, hcomment, ?_⟩
      rw [lexemeAt_of_beginsNumber hdigit]
      exact number_of_span hspan hrest hl
  | true =>
      have hwhole : numberSpan false (d :: r ++ rest)
          = ⟨(d :: r).length, hasPoint, false⟩ := by
        rw [List.cons_append, numberSpan, if_pos hd, hspan]
        rfl
      have hbegins : BeginsNumber 0x2D (d :: r) := .inr ⟨rfl, hd⟩
      refine ⟨by simp [hnewline, hline.symm], 0x2D, d :: r, rfl, by decide, by decide, ?_⟩
      rw [lexemeAt_of_beginsNumber hbegins]
      exact number_of_span hwhole hrest hl

theorem newline_not_mem_digits {ds : Bytes} (hds : Numeral.AllDigits ds) :
    (0x0A : UInt8) ∉ ds := by
  intro hmem
  exact absurd (hds _ hmem) (by decide)

theorem spells_int (n : Int64) {rest : Bytes} (hrest : Bounded rest) :
    Spells (Bytes.ofInt n.toInt) (.int n) rest := by
  obtain ⟨d, ds, hcons⟩ := List.exists_cons_of_ne_nil (Bytes.ofNat_ne_nil n.toInt.natAbs)
  have hdigits : Numeral.AllDigits (d :: ds) :=
    fun c hc => Bytes.isDigit_of_mem_ofNat (hcons ▸ hc)
  have hds : Numeral.AllDigits ds := fun c hc => hdigits c (List.mem_cons_of_mem d hc)
  have htext : Bytes.ofInt n.toInt
      = (if decide (n.toInt < 0) then [0x2D] else []) ++ d :: ds := by
    rw [Bytes.ofInt, hcons]
    by_cases hneg : n.toInt < 0 <;> simp [hneg]
  have hspan : numberSpan false (ds ++ rest) = ⟨ds.length, false, false⟩ := by
    rw [numberSpan_digits hds, numberSpan_of_bounded hrest]
    simp
  have hread := Integer.read_ofInt n
  rw [htext] at hread ⊢
  exact spells_number (hdigits d List.mem_cons_self) hspan hrest (newline_not_mem_digits hds)
    ⟨n, hread, rfl⟩

theorem spells_float {x : Float} (hfinite : Double.isFinite x = true) {rest : Bytes}
    (hrest : Bounded rest) : Spells (floatLiteral x) (.float x) rest := by
  obtain ⟨whole, fraction, htext, hwhole, hfraction, hwholeDigits, hfractionDigits, -⟩ :=
    exists_pointed hfinite
  obtain ⟨d, ds, rfl⟩ := List.exists_cons_of_ne_nil hwhole
  obtain ⟨e, es, rfl⟩ := List.exists_cons_of_ne_nil hfraction
  have hds : Numeral.AllDigits ds := fun c hc => hwholeDigits c (List.mem_cons_of_mem d hc)
  have hspan : numberSpan false ((ds ++ 0x2E :: e :: es) ++ rest)
      = ⟨(ds ++ 0x2E :: e :: es).length, true, false⟩ := by
    have hpoint : (e :: (es ++ rest)).head? ≠ some 0x2E := by
      rw [List.head?_cons, ne_eq, Option.some_inj]
      exact Numeral.isDigit_ne (hfractionDigits e List.mem_cons_self) (by decide)
    rw [List.append_assoc, numberSpan_digits hds, List.cons_append, List.cons_append,
      numberSpan_point hpoint, ← List.cons_append, numberSpan_digits hfractionDigits,
      numberSpan_of_bounded hrest]
    simp only [List.length_append, List.length_cons, NumberSpan.mk.injEq, and_true]
    omega
  have hnewline : (0x0A : UInt8) ∉ ds ++ 0x2E :: e :: es := by
    rw [List.mem_append, List.mem_cons, not_or, not_or]
    exact ⟨newline_not_mem_digits hds, by decide, newline_not_mem_digits hfractionDigits⟩
  have hread := read_floatLiteral hfinite
  rw [htext, Numeral.pointed, List.cons_append] at hread ⊢
  exact spells_number (hwholeDigits d List.mem_cons_self) hspan hrest hnewline ⟨x, hread, rfl⟩

/-- A text begins with the rest of a string: what the string says and the bytes it takes. -/
inductive Quoted : Bytes → Bytes → Nat → Prop where
  | close {r : Bytes} : Quoted (0x22 :: r) [] 1
  | escape {e b : UInt8} {r u : Bytes} {k : Nat} (he : unescape? e = some b)
      (h : Quoted r u k) : Quoted (0x5C :: e :: r) (b :: u) (k + 2)
  | plain {c : UInt8} {r u : Bytes} {k : Nat} (hquote : c ≠ 0x22) (hslash : c ≠ 0x5C)
      (h : Quoted r u k) : Quoted (c :: r) (c :: u) (k + 1)

theorem stringBody_of_quoted {r u : Bytes} {k : Nat} (h : Quoted r u k) :
    stringBody r = .ok (u, k) := by
  induction h with
  | close => rfl
  | escape he _ ih => simp only [stringBody, he, ih, stringBody.shift]
  | @plain c r u k hquote hslash _ ih =>
      rw [stringBody.eq_def]
      split
      · rename_i heq
        cases heq
      · rename_i heq
        exact absurd (List.cons.inj heq).1 hquote
      · rename_i heq
        exact absurd (List.cons.inj heq).1 hslash
      · rename_i heq
        exact absurd (List.cons.inj heq).1 hslash
      · rename_i heq
        obtain ⟨rfl, rfl⟩ := List.cons.inj heq
        rw [ih, stringBody.shift]

theorem shift_eq_ok {b : UInt8} {n k : Nat} {u : Bytes}
    {x : Except (Option (Nat × UInt8)) (Bytes × Nat)}
    (h : stringBody.shift b n x = .ok (u, k)) :
    ∃ v j, x = .ok (v, j) ∧ u = b :: v ∧ k = j + n := by
  revert h
  fun_cases stringBody.shift b n x <;> intro h
  · obtain ⟨rfl, rfl⟩ := Prod.mk.inj (Except.ok.inj h)
    exact ⟨_, _, rfl, rfl, rfl⟩
  all_goals cases h

theorem quoted_of_stringBody {r u : Bytes} {k : Nat} (h : stringBody r = .ok (u, k)) :
    Quoted r u k := by
  fun_induction stringBody r generalizing u k with
  | case1 => cases h
  | case2 r =>
      obtain ⟨rfl, rfl⟩ := Prod.mk.inj (Except.ok.inj h)
      exact Quoted.close
  | case3 => cases h
  | case4 => cases h
  | case5 e r b he ih =>
      obtain ⟨v, j, hx, rfl, rfl⟩ := shift_eq_ok h
      exact Quoted.escape he (ih hx)
  | case6 c r hquote hone hslash ih =>
      obtain ⟨v, j, hx, rfl, rfl⟩ := shift_eq_ok h
      refine Quoted.plain hquote ?_ (ih hx)
      intro hc
      cases r with
      | nil => exact hone hc rfl
      | cons e r => exact hslash e r hc rfl

theorem string_eq_ok_iff {r : Bytes} {l : Lexeme} {n : Nat} :
    string r = .ok (l, n) ↔ ∃ u, l = .string u ∧ Quoted r u n := by
  constructor
  · intro h
    revert h
    fun_cases string r <;> intro h
    case case1 u k hbody =>
      obtain ⟨rfl, rfl⟩ := Prod.mk.inj (Except.ok.inj h)
      exact ⟨u, rfl, quoted_of_stringBody hbody⟩
    all_goals cases h
  · rintro ⟨u, rfl, h⟩
    rw [string, stringBody_of_quoted h]

theorem unescape?_escapeByte_cases (b : UInt8) :
    (∃ e, escapeByte b = [0x5C, e] ∧ unescape? e = some b) ∨
      (escapeByte b = [b] ∧ b ≠ 0x22 ∧ b ≠ 0x5C) := by
  unfold escapeByte
  split_ifs with h₁ h₂ h₃ h₄ h₅ h₆
  · rw [eq_of_beq h₁]
    exact Or.inl ⟨0x5C, rfl, rfl⟩
  · rw [eq_of_beq h₂]
    exact Or.inl ⟨0x22, rfl, rfl⟩
  · rw [eq_of_beq h₃]
    exact Or.inl ⟨0x6E, rfl, rfl⟩
  · rw [eq_of_beq h₄]
    exact Or.inl ⟨0x74, rfl, rfl⟩
  · rw [eq_of_beq h₅]
    exact Or.inl ⟨0x72, rfl, rfl⟩
  · rw [eq_of_beq h₆]
    exact Or.inl ⟨0x30, rfl, rfl⟩
  · exact Or.inr ⟨rfl, by simpa using h₂, by simpa using h₁⟩

/-- The escaped form of a text says that text. -/
theorem quoted_escaped (s rest : Bytes) :
    Quoted (s.flatMap escapeByte ++ 0x22 :: rest) s ((s.flatMap escapeByte).length + 1) := by
  induction s with
  | nil => exact Quoted.close
  | cons b s ih =>
      rw [List.flatMap_cons, List.append_assoc]
      rcases unescape?_escapeByte_cases b with ⟨e, hescape, hb⟩ | ⟨hescape, hquote, hslash⟩
      · rw [hescape]
        exact Quoted.escape hb ih
      · rw [hescape]
        exact Quoted.plain hquote hslash ih

/-- The control characters that a string literal spells by escapes. -/
def escapedControls : List UInt8 := [0x0A, 0x0D, 0x09, 0x00]

theorem unescape?_of_control {c : UInt8} (hc : c ∈ escapedControls) : unescape? c = none := by
  simp only [escapedControls, List.mem_cons, List.not_mem_nil, or_false] at hc
  rcases hc with rfl | rfl | rfl | rfl
  all_goals rfl

theorem escapeByte_ne_of_control {c : UInt8} (hc : c ∈ escapedControls) :
    escapeByte c ≠ [c] := by
  simp only [escapedControls, List.mem_cons, List.not_mem_nil, or_false] at hc
  rcases hc with rfl | rfl | rfl | rfl
  all_goals decide

theorem control_not_mem_escapeByte {c : UInt8} (hc : c ∈ escapedControls) (b : UInt8) :
    c ∉ escapeByte b := by
  rcases unescape?_escapeByte_cases b with ⟨e, hescape, he⟩ | ⟨hescape, -, -⟩
  · rw [hescape, List.mem_cons, List.mem_singleton, not_or]
    refine ⟨fun hslash => absurd (hslash ▸ hc) (by decide), fun hletter => ?_⟩
    rw [← hletter, unescape?_of_control hc] at he
    cases he
  · rw [hescape, List.mem_singleton]
    rintro rfl
    exact escapeByte_ne_of_control hc hescape

theorem control_not_mem_stringLiteral {c : UInt8} (hc : c ∈ escapedControls) (s : Bytes) :
    c ∉ stringLiteral s := by
  have hquote : c ∉ [0x22] := fun hmem => absurd (List.mem_singleton.mp hmem ▸ hc) (by decide)
  simp only [stringLiteral, List.mem_append, List.mem_flatMap, not_or]
  refine ⟨⟨hquote, ?_⟩, hquote⟩
  rintro ⟨b, -, hmem⟩
  exact control_not_mem_escapeByte hc b hmem

theorem spells_string (s rest : Bytes) : Spells (stringLiteral s) (.string s) rest := by
  refine ⟨control_not_mem_stringLiteral (by decide) s, 0x22, s.flatMap escapeByte ++ [0x22], ?_,
    by decide, by decide, ?_⟩
  · rw [stringLiteral, List.append_assoc]
    rfl
  · change string (s.flatMap escapeByte ++ [0x22] ++ rest) = _
    rw [List.append_assoc, string, List.singleton_append,
      stringBody_of_quoted (quoted_escaped s rest)]
    simp

theorem mark_eq_ok {b : UInt8} {r : Bytes} {l : Lexeme} {n : Nat}
    (h : mark b r = .ok (l, n)) : ∃ m, l = .mark m ∧ n ≤ r.length := by
  revert h
  fun_cases mark b r <;> intro h
  · rename_i m hequals _
    obtain ⟨rfl, rfl⟩ := Prod.mk.inj (Except.ok.inj h)
    refine ⟨m, rfl, ?_⟩
    cases r with
    | nil => cases hequals
    | cons c r => exact Nat.succ_le_succ (Nat.zero_le _)
  · rename_i m _ _
    obtain ⟨rfl, rfl⟩ := Prod.mk.inj (Except.ok.inj h)
    exact ⟨m, rfl, Nat.zero_le _⟩
  · cases h

/-- A mark with a space after it is scanned as that mark. -/
theorem spells_mark (m : Mark) (rest : Bytes) :
    Spells m.spelling (.mark m) (0x20 :: rest) := by
  cases m <;> exact ⟨by decide, _, _, rfl, by decide, by decide, rfl⟩

/-- A colon, an at sign and a tilde are marks before anything. -/
theorem spells_sign {m : Mark} (hm : m ∈ [Mark.colon, .atSign, .tilde]) (rest : Bytes) :
    Spells m.spelling (.mark m) rest := by
  simp only [List.mem_cons, List.not_mem_nil, or_false] at hm
  rcases hm with rfl | rfl | rfl
  all_goals exact ⟨by decide, _, _, rfl, by decide, by decide, rfl⟩

/-- A text is these lexemes, with spaces between them, when the text `rest` follows. -/
inductive Writes : Bytes → List Lexeme → Bytes → Prop where
  | done {rest : Bytes} : Writes [] [] rest
  | space {u rest : Bytes} {ls : List Lexeme} (h : Writes u ls rest) :
      Writes (0x20 :: u) ls rest
  | lexeme {u v rest : Bytes} {l : Lexeme} {ls : List Lexeme} (hu : Spells u l (v ++ rest))
      (hv : Writes v ls rest) : Writes (u ++ v) (l :: ls) rest

theorem Spells.writes {u rest : Bytes} {l : Lexeme} (h : Spells u l rest) :
    Writes u [l] rest := by
  have h' : Spells u l ([] ++ rest) := h
  simpa using Writes.lexeme h' Writes.done

theorem Writes.newline_not_mem {u rest : Bytes} {ls : List Lexeme} (h : Writes u ls rest) :
    (0x0A : UInt8) ∉ u := by
  induction h with
  | done => exact List.not_mem_nil
  | space _ ih =>
      rw [List.mem_cons, not_or]
      exact ⟨by decide, ih⟩
  | lexeme hu _ ih =>
      rw [List.mem_append, not_or]
      exact ⟨hu.newline_not_mem, ih⟩

end Scan

namespace Cursor

variable {c : Cursor}

theorem pass_pass (m n : Nat) (c : Cursor) : (c.pass m).pass n = c.pass (m + n) := by
  induction m generalizing c with
  | zero => rw [Nat.zero_add, pass]
  | succ m ih => rw [Nat.add_right_comm, pass, pass, ih]

theorem skip_eq_self {b : UInt8} {r : Bytes} (hrest : c.rest = b :: r)
    (hspace : Scan.isSpace b = false) (hcomment : b ≠ 0x23) : c.skip = c := by
  rw [skip, hrest, Scan.gap_cons_of_not_isSpace hspace hcomment]
  rfl

/-- A written text is scanned into its lexemes, all on the line where it begins. -/
theorem tokens_of_writes (file : Bytes) {u rest : Bytes} {ls : List Lexeme}
    (h : Scan.Writes u ls rest) (c : Cursor) (hrest : c.rest = u ++ rest) :
    ∃ ts, c.tokens file = (ts ++ ((c.pass u.length).tokens file).1,
        ((c.pass u.length).tokens file).2) ∧
      ts.map Token.lexeme = ls ∧ ∀ t ∈ ts, t.line = c.line := by
  induction h generalizing c with
  | done => exact ⟨[], rfl, rfl, by simp⟩
  | @space u rest ls h ih =>
      have hstep : c.step.rest = u ++ rest := by rw [rest_step, hrest]; rfl
      have hline : c.step.line = c.line := line_pass 1 c (by rw [hrest]; simp)
      obtain ⟨ts, htokens, hls, hlines⟩ := ih c.step hstep
      refine ⟨ts, ?_, hls, fun t ht => (hlines t ht).trans hline⟩
      rw [← tokens_of_skip_eq (skip_step_of_isSpace (by decide) hrest), htokens, pass_step]
      rfl
  | @lexeme u v rest l ls hu hv ih =>
      have hnewline := hu.newline_not_mem
      obtain ⟨b, r, rfl, hspace, hcomment, hl⟩ := hu.read
      have hcons : c.rest = b :: (r ++ (v ++ rest)) := by rw [hrest]; simp
      have hself := skip_eq_self hcons hspace hcomment
      have hpass : (c.pass (r.length + 1)).rest = v ++ rest := by
        rw [rest_pass, hcons, List.drop_succ_cons, List.drop_left]
      have hline : (c.pass (r.length + 1)).line = c.line := by
        apply line_pass
        rw [hcons, List.take_succ_cons, List.take_left]
        exact hnewline
      obtain ⟨ts, htokens, hls, hlines⟩ := ih (c.pass (r.length + 1)) hpass
      refine ⟨c.token file l (r.length + 1) :: ts, ?_, ?_, ?_⟩
      · rw [tokens_cons file (by rw [hself, hcons]) hl, hself, htokens, pass_pass,
          List.length_append, List.length_cons]
        rfl
      · rw [List.map_cons, hls]
        rfl
      · intro t ht
        rcases List.mem_cons.mp ht with rfl | ht
        · rfl
        · exact (hlines t ht).trans hline

end Cursor

end JumpScript
