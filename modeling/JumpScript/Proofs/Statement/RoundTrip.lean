import JumpScript.Proofs.Statement.Grammar
import JumpScript.Proofs.Token.Lexemes
import JumpScript.Proofs.Token.Splicing

/-!
# Programs and their texts

The text of a well-formed program is read back as that program, one statement a line; and every
program that is read from a source is well formed.
-/

namespace JumpScript

open Scan (isName Bounded bounded_cons Spells Writes)

/-- An operand that a source can spell: a variable has a name, a double is finite. -/
def Operand.WellFormed : Operand → Prop
  | .float x => Double.isFinite x = true
  | .variable name => isName name = true
  | _ => True

instance : DecidablePred Operand.WellFormed
  | .bool _ | .int _ | .str _ => isTrue trivial
  | .float x => inferInstanceAs (Decidable (Double.isFinite x = true))
  | .variable name => inferInstanceAs (Decidable (isName name = true))

/-- The names in an action: of variables assigned to, of labels, modules and functions. -/
def Action.names : Action → List Bytes
  | .assign name _ => [name]
  | .compute name _ _ _ => [name]
  | .assignCall name t _ => [name, t.module, t.function]
  | .call t _ => [t.module, t.function]
  | .label l => [l]
  | .goto l => [l]
  | .gotoIf l _ _ _ => [l]
  | .callLabel l => [l]
  | .ret => []

/-- An action that a source can spell. -/
structure Action.WellFormed (a : Action) : Prop where
  names : ∀ name ∈ a.names, isName name = true
  operands : ∀ v ∈ a.operands, v.WellFormed

instance : DecidablePred Action.WellFormed := fun a =>
  decidable_of_iff
    ((∀ name ∈ a.names, isName name = true) ∧ ∀ v ∈ a.operands, v.WellFormed)
    ⟨fun h => ⟨h.1, h.2⟩, fun h => ⟨h.names, h.operands⟩⟩

section Text

variable {rest : Bytes}

theorem spells_operand {v : Operand} (hv : v.WellFormed) (hrest : Bounded rest) :
    Spells v.text v.lexeme rest := by
  cases v with
  | bool b =>
      cases b with
      | true =>
          exact Scan.spells_word (b := 0x74) (r := text "rue") (by decide) (by decide) hrest
      | false =>
          exact Scan.spells_word (b := 0x66) (r := text "alse") (by decide) (by decide) hrest
  | int n => exact Scan.spells_int n hrest
  | float x => exact Scan.spells_float hv hrest
  | str s => exact Scan.spells_string s rest
  | «variable» name => exact Scan.spells_name hv hrest

theorem bounded_space (s : Bytes) : Bounded (0x20 :: s) := bounded_cons (by decide) s

/-- A lexeme, a space and what follows it. -/
theorem writes_spaced {u v : Bytes} {l : Lexeme} {ls : List Lexeme}
    (hu : Spells u l (0x20 :: (v ++ rest))) (hv : Writes v ls rest) :
    Writes (u ++ 0x20 :: v) (l :: ls) rest :=
  Writes.lexeme hu hv.space

theorem bounded_args (args : List Operand) (hrest : Bounded rest) :
    Bounded ((args.flatMap fun v => 0x20 :: v.text) ++ rest) := by
  cases args with
  | nil => exact hrest
  | cons v args => exact bounded_space _

theorem writes_args {args : List Operand} (hargs : ∀ v ∈ args, v.WellFormed)
    (hrest : Bounded rest) :
    Writes (args.flatMap fun v => 0x20 :: v.text) (args.map Operand.lexeme) rest := by
  induction args with
  | nil => exact Writes.done
  | cons v args ih =>
      rw [List.flatMap_cons, List.map_cons, List.cons_append]
      apply Writes.space
      apply Writes.lexeme
      · exact spells_operand (hargs v List.mem_cons_self) (bounded_args args hrest)
      · exact ih fun w hw => hargs w (List.mem_cons_of_mem v hw)

theorem writes_call {t : CallTarget} {args : List Operand} (hmodule : isName t.module = true)
    (hfunction : isName t.function = true) (hargs : ∀ v ∈ args, v.WellFormed)
    (hrest : Bounded rest) :
    Writes (Action.callText t args) (Action.callLexemes t args) rest := by
  have htext : Action.callText t args = Mark.atSign.spelling ++ (t.module ++
      (Mark.colon.spelling ++ (t.function ++ args.flatMap fun v => 0x20 :: v.text))) := by
    simp only [Action.callText, CallTarget.key, List.append_assoc]
    rfl
  rw [htext]
  apply Writes.lexeme (Scan.spells_sign (by decide) _)
  apply Writes.lexeme (Scan.spells_name hmodule (bounded_cons (by decide) _))
  apply Writes.lexeme (Scan.spells_sign (by decide) _)
  apply Writes.lexeme (Scan.spells_name hfunction (bounded_args args hrest))
  exact writes_args hargs hrest

theorem Operator.text_eq_spelling (op : Operator) :
    ∃ m : Mark, op.lexeme = .mark m ∧ op.text = m.spelling := by
  cases op <;> exact ⟨_, rfl, rfl⟩

theorem Comparator.text_eq_spelling (op : Comparator) :
    ∃ m : Mark, op.lexeme = .mark m ∧ op.text = m.spelling := by
  cases op <;> exact ⟨_, rfl, rfl⟩

/-- Two operands with a mark between them. -/
theorem writes_between {l r : Operand} {m : Mark} (hl : l.WellFormed) (hr : r.WellFormed)
    (hrest : Bounded rest) :
    Writes (l.text ++ 0x20 :: (m.spelling ++ 0x20 :: r.text)) [l.lexeme, .mark m, r.lexeme]
      rest := by
  apply writes_spaced (spells_operand hl (bounded_space _))
  apply writes_spaced (Scan.spells_mark m _)
  exact (spells_operand hr hrest).writes

theorem writes_assignment {name v : Bytes} {ls : List Lexeme} (hname : isName name = true)
    (hv : Writes v ls rest) :
    Writes (name ++ 0x20 :: (Mark.equals.spelling ++ 0x20 :: v))
      (.identifier name :: .mark .equals :: ls) rest := by
  apply writes_spaced (Scan.spells_name hname (bounded_space _))
  exact writes_spaced (Scan.spells_mark .equals _) hv

/-- The text of an action is scanned into the lexemes that spell it. -/
theorem writes_action {a : Action} (ha : a.WellFormed) (hrest : Bounded rest) :
    Writes a.text a.lexemes rest := by
  obtain ⟨hnames, hoperands⟩ := ha
  cases a with
  | assign name v =>
      have hname := hnames name List.mem_cons_self
      have hv := spells_operand (hoperands v List.mem_cons_self) hrest
      rw [Action.text, List.append_assoc]
      exact writes_assignment hname hv.writes
  | compute name op l r =>
      obtain ⟨m, hlexeme, htext⟩ := op.text_eq_spelling
      have hname := hnames name List.mem_cons_self
      have hl := hoperands l List.mem_cons_self
      have hr := hoperands r (List.mem_cons_of_mem l List.mem_cons_self)
      simp only [Action.text, Action.lexemes, htext, hlexeme, List.append_assoc]
      exact writes_assignment hname (writes_between hl hr hrest)
  | assignCall name t args =>
      have hname := hnames name List.mem_cons_self
      have hmodule := hnames t.module (by simp [Action.names])
      have hfunction := hnames t.function (by simp [Action.names])
      rw [Action.text, List.append_assoc]
      exact writes_assignment hname (writes_call hmodule hfunction hoperands hrest)
  | call t args =>
      have hmodule := hnames t.module (by simp [Action.names])
      have hfunction := hnames t.function (by simp [Action.names])
      exact writes_call hmodule hfunction hoperands hrest
  | label l =>
      have hname := Scan.spells_name (hnames l List.mem_cons_self) hrest
      exact Writes.lexeme (Scan.spells_sign (m := .tilde) (by decide) _) hname.writes
  | goto l =>
      have hname := Scan.spells_name (hnames l List.mem_cons_self) hrest
      exact writes_spaced (Scan.spells_mark .gotoWord _) hname.writes
  | gotoIf l op a b =>
      obtain ⟨m, hlexeme, htext⟩ := op.text_eq_spelling
      have ha := hoperands a List.mem_cons_self
      have hb := hoperands b (List.mem_cons_of_mem a List.mem_cons_self)
      have hcondition := writes_spaced (Scan.spells_mark .ifWord _)
        (writes_between (m := m) ha hb hrest)
      have hjump := writes_spaced
        (Scan.spells_name (hnames l List.mem_cons_self) (bounded_space _)) hcondition
      simp only [Action.text, Action.lexemes, htext, hlexeme, List.append_assoc]
      exact writes_spaced (Scan.spells_mark .gotoWord _) hjump
  | callLabel l =>
      have hname := Scan.spells_name (hnames l List.mem_cons_self) hrest
      exact writes_spaced (Scan.spells_mark .callWord _) hname.writes
  | ret =>
      have hword := Scan.spells_word (b := 0x72) (r := text "et") (by decide) (by decide) hrest
      exact Spells.writes hword

end Text

/-- Tokens that spell actions one after another, each on a line of its own, from line `k` on. -/
inductive Laid : Nat → List Action → List Token → Prop where
  | nil {k : Nat} : Laid k [] []
  | cons {k : Nat} {a : Action} {actions : List Action} {body rest : List Token} {close : Token}
      (hbody : body.map Token.lexeme = a.lexemes) (hline : ∀ t ∈ body, t.line = k)
      (hclose : close.isEnd = true) (hrest : Laid (k + 1) actions rest) :
      Laid k (a :: actions) (body ++ close :: rest)

variable {file : Bytes} {body ts : List Token} {a : Action}

theorem unclosed_of_lexemes (hbody : body.map Token.lexeme = a.lexemes) : Unclosed body := by
  intro t ht
  have hmem : t.lexeme ∈ a.lexemes := by
    rw [← hbody]
    exact List.mem_map_of_mem ht
  rw [Token.isEnd, beq_eq_false_iff_ne]
  intro hend
  rw [hend] at hmem
  exact a.endOfStatement_not_mem_lexemes hmem

theorem ne_nil_of_lexemes (hbody : body.map Token.lexeme = a.lexemes) : body ≠ [] := by
  rintro rfl
  exact a.lexemes_ne_nil hbody.symm

/-- No statement is an import: none is a name followed by a string and nothing else. -/
theorem import?_of_lexemes {close : Option Token}
    (hbody : body.map Token.lexeme = a.lexemes) :
    TokenRun.import? ⟨body, close⟩ = none := by
  rw [TokenRun.import?]
  split
  · rename_i t u heq
    obtain rfl : body = [t, u] := heq
    split
    · rename_i word path ht hu
      have hlexemes : a.lexemes = [.identifier word, .string path] := by
        rw [← hbody, List.map_cons, List.map_cons, ht, hu]
        rfl
      cases a <;> cases hlexemes
    · rfl
  · rfl

/-- The text of an action and a newline are scanned into a closed run, and scanning goes on at the
start of the next line. -/
theorem tokens_line (file : Bytes) (ha : a.WellFormed) {rest : Bytes} (c : Cursor)
    (htext : c.rest = a.text ++ 0x0A :: rest) :
    ∃ body close c', c.tokens file
        = (body ++ close :: (Cursor.tokens file c').1, (Cursor.tokens file c').2) ∧
      body.map Token.lexeme = a.lexemes ∧ (∀ t ∈ body, t.line = c.line) ∧
      close.isEnd = true ∧ c'.rest = rest ∧ c'.line = c.line + 1 := by
  have hbounded : Bounded (0x0A :: rest) := bounded_cons (by decide) rest
  have hwrites := writes_action ha hbounded
  obtain ⟨body, hbody, hlexemes, hlines⟩ := Cursor.tokens_of_writes file hwrites c htext
  set c₁ := c.pass a.text.length with hc₁
  have hrest₁ : c₁.rest = 0x0A :: rest := by
    rw [hc₁, Cursor.rest_pass, htext, List.drop_left]
  have hline₁ : c₁.line = c.line := by
    apply Cursor.line_pass
    rw [htext, List.take_left]
    exact hwrites.newline_not_mem
  have hskip := Cursor.skip_eq_self hrest₁ (by decide) (by decide)
  have hend : Scan.lexemeAt 0x0A rest = .ok (.endOfStatement, 0) := rfl
  have hclose := Cursor.tokens_cons file (by rw [hskip, hrest₁]) hend
  rw [hskip] at hclose
  refine ⟨body, c₁.token file .endOfStatement 1, c₁.step, ?_, hlexemes, hlines, rfl, ?_, ?_⟩
  · rw [hbody, hclose]
    rfl
  · rw [Cursor.rest_step, hrest₁]
    rfl
  · rw [Cursor.line_step_newline hrest₁, hline₁]

theorem tokens_format (file : Bytes) {program : List Statement}
    (hprogram : ∀ s ∈ program, s.action.WellFormed) (c : Cursor)
    (hrest : c.rest = format program) :
    ∃ ts last, c.tokens file = (ts, .ok last) ∧
      Laid c.line (program.map (·.action)) ts := by
  induction program generalizing c with
  | nil =>
      have hnil : c.skip.rest = [] := by
        rw [Cursor.rest_skip, hrest]
        rfl
      exact ⟨[], _, Cursor.tokens_nil hnil, Laid.nil⟩
  | cons s program ih =>
      have htext : c.rest = s.action.text ++ 0x0A :: format program := by
        rw [hrest, format, List.flatMap_cons, Statement.text, List.append_assoc]
        rfl
      obtain ⟨body, close, c', htokens, hlexemes, hlines, hclose, hrest', hline'⟩ :=
        tokens_line file (hprogram s List.mem_cons_self) c htext
      obtain ⟨ts, last, hmore, hlaid⟩ :=
        ih (fun q hq => hprogram q (List.mem_cons_of_mem s hq)) c' hrest'
      rw [hline'] at hlaid
      refine ⟨body ++ close :: ts, last, ?_, Laid.cons hlexemes hlines hclose hlaid⟩
      rw [htokens, hmore]

theorem import?_of_laid {k : Nat} {actions : List Action} (hlaid : Laid k actions ts) :
    ∀ r ∈ TokenRun.cut ts, r.import? = none := by
  induction hlaid with
  | nil =>
      intro r hr
      obtain rfl := List.mem_singleton.mp hr
      rfl
  | cons hbody _ hclose _ ih =>
      rw [TokenRun.cut_closed (unclosed_of_lexemes hbody) hclose]
      intro r hr
      rcases List.mem_cons.mp hr with rfl | hr
      · exact import?_of_lexemes hbody
      · exact ih r hr

theorem collapse_of_laid {k : Nat} {actions : List Action} (hlaid : Laid k actions ts)
    {last : Token} (hlast : last.isEnd = true) : collapse true (ts ++ [last]) = ts := by
  induction hlaid with
  | nil => rw [List.nil_append, collapse, if_pos hlast, if_pos rfl, collapse]
  | @cons k a actions body rest close hbody _ hclose _ ih =>
      rw [List.append_assoc, List.cons_append,
        collapse_unclosed (unclosed_of_lexemes hbody) (ne_nil_of_lexemes hbody), collapse,
        if_pos hclose, if_neg Bool.false_ne_true, ih]

/-- Laid-out tokens are spliced and collapsed into themselves. -/
theorem snd_finish_of_laid {load : Loader} {source : Bytes} {last : Token} {k : Nat}
    {actions : List Action} (hscan : scan file source = (ts, .ok last))
    (hlaid : Laid k actions ts) : (tokenizeWithin.finish file source load).2 = .ok ts := by
  rw [snd_finish, hscan]
  change ((splice load (TokenRun.cut ts)).2 >>= _) = _
  rw [splice_of_import?_none (import?_of_laid hlaid), TokenRun.flatMap_tokens_cut]
  exact congrArg Except.ok (collapse_of_laid hlaid rfl)

theorem parse_of_laid {k : Nat} {actions : List Action} (hlaid : Laid k actions ts) :
    ∃ program, parse ts = .ok program ∧ program.map (·.action) = actions ∧
      ∀ i s, program[i]? = some s → s.head.line = k + i := by
  induction hlaid with
  | nil => exact ⟨[], by rw [parse], rfl, by simp⟩
  | @cons k a actions body rest close hbody hline hclose _ ih =>
      obtain ⟨program, hparse, hactions, hlines⟩ := ih
      obtain ⟨first, more, rfl⟩ := List.exists_cons_of_ne_nil (ne_nil_of_lexemes hbody)
      obtain ⟨offsets, haction⟩ := Statement.parseAction_of_lexemes hclose hbody
      refine ⟨⟨first, Statement.spanEnd first more - first.offset, a, offsets⟩ :: program,
        ?_, ?_, ?_⟩
      · rw [parse_closed (unclosed_of_lexemes hbody) hclose, Statement.ofTokens, haction,
          hparse]
        rfl
      · rw [List.map_cons, hactions]
      · intro i s hs
        cases i with
        | zero =>
            obtain rfl := Option.some.inj hs
            exact hline first List.mem_cons_self
        | succ i =>
            rw [List.getElem?_cons_succ] at hs
            rw [hlines i s hs]
            omega

/-- A lexeme that scanning can give. -/
def Lexeme.WellFormed : Lexeme → Prop
  | .float x => Double.isFinite x = true
  | .identifier name => isName name = true
  | _ => True

theorem wellFormed_lexeme_iff {v : Operand} : v.lexeme.WellFormed ↔ v.WellFormed := by
  cases v <;> rfl

section Scanned

variable {b : UInt8} {r : Bytes} {l : Lexeme} {n : Nat}

theorem wellFormed_word (hb : Scan.isNameStart b = true)
    (hr : r.all Scan.isNamePart = true) : (Scan.word (b :: r)).WellFormed := by
  by_cases hw : Scan.reserved.contains (b :: r) = true
  · simp only [Scan.reserved, List.contains_cons, List.contains_nil, Bool.or_false,
      Bool.or_eq_true, beq_iff_eq] at hw
    rcases hw with hw | hw | hw | hw | hw | hw
    all_goals rw [hw]; exact trivial
  · rw [Bool.not_eq_true] at hw
    rw [Scan.word_of_not_reserved hw]
    simp only [Lexeme.WellFormed, isName, hb, hr, hw]
    rfl

theorem wellFormed_of_name (hb : Scan.isNameStart b = true)
    (h : Scan.name b r = .ok (l, n)) : l.WellFormed := by
  obtain ⟨-, rfl⟩ := Scan.name_eq_ok h
  apply wellFormed_word hb
  rw [List.all_eq_true]
  intro c hc
  exact List.mem_takeWhile_imp hc

/-- A number that is scanned as a float is finite. -/
theorem wellFormed_of_number
    (hb : (Bytes.isDigit b || (b == 0x2D && r.head?.any Bytes.isDigit)) = true)
    (h : Scan.number b r = .ok (l, n)) : l.WellFormed := by
  obtain ⟨hn, hl⟩ := Scan.number_eq_ok h
  rw [Scan.NumberLexeme] at hl
  split at hl
  · obtain ⟨x, hread, rfl⟩ := hl
    rw [Bool.or_eq_true, Bool.and_eq_true] at hb
    rcases hb with hb | ⟨hminus, hdigit⟩
    · exact Numeral.isFinite_of_read hb false hread
    · obtain rfl := eq_of_beq hminus
      cases r with
      | nil => cases hdigit
      | cons d r =>
          have hd : Bytes.isDigit d = true := hdigit
          rw [hn, Scan.numberSpan, if_pos hd, List.take_succ_cons] at hread
          exact Numeral.isFinite_of_read hd true hread
  · obtain ⟨k, -, rfl⟩ := hl
    exact trivial

theorem wellFormed_of_lexemeAt (h : Scan.lexemeAt b r = .ok (l, n)) : l.WellFormed := by
  rw [Scan.lexemeAt] at h
  split_ifs at h with hend hnumber hname hquote
  · obtain ⟨rfl, -⟩ := Prod.mk.inj (Except.ok.inj h)
    exact trivial
  · exact wellFormed_of_number hnumber h
  · exact wellFormed_of_name hname h
  · obtain ⟨u, rfl, -⟩ := Scan.string_eq_ok_iff.mp h
    exact trivial
  · obtain ⟨m, rfl, -⟩ := Scan.mark_eq_ok h
    exact trivial

theorem wellFormed_of_scans {s : Bytes} {ls : List Lexeme} (h : Scan.Scans s ls) :
    ∀ l ∈ ls, l.WellFormed := by
  induction h with
  | done _ =>
      intro l hl
      cases hl
  | next _ hl _ ih =>
      intro m hm
      rcases List.mem_cons.mp hm with rfl | hm
      · exact wellFormed_of_lexemeAt hl
      · exact ih m hm

end Scanned

theorem identifier_mem_lexemes {name : Bytes} (h : name ∈ a.names) :
    Lexeme.identifier name ∈ a.lexemes := by
  cases a <;>
    simp_all [Action.names, Action.lexemes, Action.callLexemes] <;> grind

theorem lexeme_mem_lexemes {v : Operand} (h : v ∈ a.operands) : v.lexeme ∈ a.lexemes := by
  cases a <;>
    simp_all [Action.operands, Action.lexemes, Action.callLexemes] <;> grind

/-- An action is well formed when the lexemes that spell it are. -/
theorem wellFormed_of_lexemes (h : ∀ l ∈ a.lexemes, l.WellFormed) : a.WellFormed where
  names _ hname := h _ (identifier_mem_lexemes hname)
  operands _ hv := wellFormed_lexeme_iff.mp (h _ (lexeme_mem_lexemes hv))

/-- Writing a well-formed program and reading it back gives the same actions, the k-th on line k;
and whatever is read from a source is a well-formed program. -/
theorem format_round_trip :
    (∀ (read : FileReader) (limit : Nat) (file : Bytes) (program : List Statement),
      (∀ s ∈ program, s.action.WellFormed) →
      ∃ ts again, (tokenize read limit file (format program)).2 = .ok ts ∧
        parse ts = .ok again ∧ again.map (·.action) = program.map (·.action) ∧
        ∀ k s, again[k]? = some s → s.head.line = k + 1) ∧
    (∀ (read : FileReader) (limit : Nat) (file source : Bytes) (ts : List Token)
      (program : List Statement), (tokenize read limit file source).2 = .ok ts →
      parse ts = .ok program → ∀ s ∈ program, s.action.WellFormed) := by
  constructor
  · intro read limit file program hprogram
    obtain ⟨ts, last, hscan, hlaid⟩ :=
      tokens_format file hprogram (Cursor.start (format program)) rfl
    obtain ⟨again, hparse, hactions, hlines⟩ := parse_of_laid hlaid
    refine ⟨ts, again, ?_, hparse, hactions, ?_⟩
    · rw [tokenize, tokenizeWithin_eq_finish]
      exact snd_finish_of_laid hscan hlaid
    · intro k s hs
      rw [hlines k s hs, Nat.add_comm]
      rfl
  · intro read limit file source ts program htokens hparse s hs
    apply wellFormed_of_lexemes
    intro l hl
    obtain ⟨t, ht, rfl⟩ := exists_token_of_parse hparse hs l hl
    exact tokenizeWithin_forall trivial (fun _ _ h => wellFormed_of_scans h) htokens t ht

/-- The subtraction of a negative number and a call with a text that needs escapes. -/
def escapedSample : List Statement :=
  [⟨⟨.endOfFile, 0, 0, 0, 0, [], []⟩, 0,
      .compute (text "n") .sub (.variable (text "import")) (.int (-5)), []⟩,
    ⟨⟨.endOfFile, 0, 0, 0, 0, [], []⟩, 0,
      .call ⟨text "io", text "print"⟩ [.str [0x22, 0x0A, 0x00, 0xFF], .bool true], []⟩]

theorem format_round_trip_escapedSample :
    ∃ ts again, (tokenize (fun _ => .ok []) 64 [] (format escapedSample)).2 = .ok ts ∧
      parse ts = .ok again ∧ again.map (·.action) = escapedSample.map (·.action) ∧
      (∀ k s, again[k]? = some s → s.head.line = k + 1) ∧
      ∀ s ∈ again, s.action.WellFormed := by
  obtain ⟨ts, again, htokens, hparse, hactions, hlines⟩ :=
    format_round_trip.1 (fun _ => .ok []) 64 [] escapedSample (by decide)
  exact ⟨ts, again, htokens, hparse, hactions, hlines,
    format_round_trip.2 _ _ _ _ ts again htokens hparse⟩

end JumpScript
