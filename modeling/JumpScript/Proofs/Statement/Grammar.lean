import JumpScript.Proofs.Outcomes
import JumpScript.Proofs.Statement.Spelling
import JumpScript.Proofs.Token.Runs
import Mathlib.Data.List.Forall2
import Mathlib.Data.List.TakeWhile

/-!
# The grammar of programs

Parsing accepts exactly the token lists whose runs are empty or spell an action and are closed, and
then gives the actions spelled, in order.  A refusal is anchored at the first run that does neither.

One reading step is described by `Reads`: what holds of its result if it succeeds, and that a
refusal stands at one of the tokens at hand.
-/

namespace JumpScript

namespace Statement

variable {α β : Type} {within ts : List Token} {close : Token}

/-- A reading step gives a result that satisfies `Q`, or refuses at one of the tokens `within`. -/
def Reads (within : List Token) (x : Except Diagnostic α) (Q : α → Prop) : Prop :=
  match x with
  | .ok a => Q a
  | .error d => ∃ t ∈ within, ∃ f : ShapeFault, d = t.diagnostic .parsing f.message none

theorem Reads.pure {a : α} {Q : α → Prop} (h : Q a) :
    Reads within (Pure.pure a : Except Diagnostic α) Q := h

theorem Reads.refuse {t : Token} (ht : t ∈ within) (f : ShapeFault) {Q : α → Prop} :
    Reads within (Statement.refuse t f) Q :=
  ⟨t, ht, f, rfl⟩

/-- Steps are taken one after another. -/
theorem Reads.bind {x : Except Diagnostic α} {f : α → Except Diagnostic β}
    {P : α → Prop} {Q : β → Prop} (hx : Reads within x P)
    (hf : ∀ a, P a → Reads within (f a) Q) : Reads within (x >>= f) Q := by
  cases x with
  | ok a => exact hf a hx
  | error d => exact hx

/-- The tokens still to be read in a run: they come from the run and do not close it. -/
structure Remaining (within : List Token) (close : Token) (ts : List Token) : Prop where
  close_mem : close ∈ within
  close_isEnd : close.isEnd = true
  mem : ∀ t ∈ ts, t ∈ within
  not_isEnd : ∀ t ∈ ts, t.isEnd = false

theorem Remaining.tail {t : Token} (h : Remaining within close (t :: ts)) :
    Remaining within close ts :=
  ⟨h.close_mem, h.close_isEnd, fun u hu => h.mem u (List.mem_cons_of_mem t hu),
    fun u hu => h.not_isEnd u (List.mem_cons_of_mem t hu)⟩

theorem Remaining.peek_mem (h : Remaining within close ts) : peek close ts ∈ within := by
  cases ts with
  | nil => exact h.close_mem
  | cons t ts => exact h.mem t List.mem_cons_self

/-- A token other than an end of statement is the first of those that remain. -/
theorem Remaining.eq_cons (h : Remaining within close ts)
    (hpeek : (peek close ts).lexeme ≠ .endOfStatement) :
    ts = peek close ts :: ts.tail := by
  cases ts with
  | nil => exact absurd (eq_of_beq h.close_isEnd) hpeek
  | cons t ts => rfl

theorem lexeme_eq_mark_of_kind {t : Token} {m : Mark} (h : t.kind = .mark m) :
    t.lexeme = .mark m := by
  cases hl : t.lexeme <;> rw [Token.kind, hl] at h <;> cases h
  rfl

theorem reads_expect (h : Remaining within close ts) (m : Mark) :
    Reads within (expect close (.mark m) ts)
      (fun rest => ∃ t, ts = t :: rest ∧ t.lexeme = .mark m) := by
  simp only [expect]
  split
  · rename_i hkind
    have hlexeme := lexeme_eq_mark_of_kind (eq_of_beq hkind)
    exact ⟨_, h.eq_cons (by rw [hlexeme]; exact Lexeme.noConfusion), hlexeme⟩
  · exact Reads.refuse h.peek_mem _

theorem reads_takeName (h : Remaining within close ts) :
    Reads within (takeName close ts)
      (fun p => ∃ t, ts = t :: p.2 ∧ t.lexeme = .identifier p.1) := by
  simp only [takeName]
  split
  · rename_i name hlexeme
    exact ⟨_, h.eq_cons (by rw [hlexeme]; exact Lexeme.noConfusion), hlexeme⟩
  · exact Reads.refuse h.peek_mem _

theorem reads_takeValue (h : Remaining within close ts) :
    Reads within (takeValue close ts)
      (fun p => ∃ t, ts = t :: p.2 ∧ t.lexeme = p.1.1.lexeme) := by
  simp only [takeValue]
  split
  · rename_i v hv
    have hlexeme := operand?_eq_some_iff.mp hv
    exact ⟨_, h.eq_cons (by rw [hlexeme]; exact v.lexeme_ne_endOfStatement), hlexeme⟩
  · exact Reads.refuse h.peek_mem _

theorem reads_takeComparator (h : Remaining within close ts) :
    Reads within (takeComparator close ts)
      (fun p => ∃ t, ts = t :: p.2 ∧ t.lexeme = p.1.lexeme) := by
  simp only [takeComparator]
  split
  · rename_i op hop
    have hlexeme := comparator?_eq_some_iff.mp hop
    refine ⟨_, h.eq_cons ?_, hlexeme⟩
    rw [hlexeme]
    cases op <;> exact Lexeme.noConfusion
  · exact Reads.refuse h.peek_mem _

theorem reads_takeEnd (h : Remaining within close ts) :
    Reads within (takeEnd close ts) (fun _ => ts = []) := by
  cases ts with
  | nil =>
      have hkind : close.kind = .endOfStatement := by
        rw [Token.kind, eq_of_beq h.close_isEnd, Lexeme.kind]
      rw [takeEnd, expect, peek, List.headD_nil, hkind]
      exact rfl
  | cons t ts =>
      have hkind : t.kind ≠ .endOfStatement := by
        intro hend
        have hopen := h.not_isEnd t List.mem_cons_self
        rw [Token.isEnd] at hopen
        cases hl : t.lexeme <;> simp_all [Token.kind, Lexeme.kind]
      rw [takeEnd, expect, peek, List.headD_cons, if_neg (by simpa using hkind)]
      exact ⟨t, h.mem t List.mem_cons_self, _, rfl⟩

theorem reads_takeValues (h : Remaining within close ts) :
    Reads within (takeValues close ts)
      (fun vs => ts.map Token.lexeme = vs.map (·.1.lexeme)) := by
  induction ts with
  | nil => exact rfl
  | cons t ts ih =>
      rw [takeValues]
      refine (reads_takeValue h).bind ?_
      rintro ⟨v, rest⟩ ⟨u, hcons, hlexeme⟩
      refine (ih h.tail).bind ?_
      intro vs hvs
      apply Reads.pure
      rw [List.map_cons, List.map_cons, hvs, ← hlexeme, (List.cons.inj hcons).1]

/-! ### The nine shapes -/

/-- The action read from a run is the one that its lexemes spell. -/
def Spelled (lexemes : List Lexeme) (p : Parsed) : Prop := lexemes = p.1.lexemes

theorem reads_callTail (h : Remaining within close ts) :
    Reads within (callTail close ts)
      (fun p => ts.map Token.lexeme = Action.callLexemes p.1 (p.2.map (·.1))) := by
  refine (reads_expect h .atSign).bind ?_
  rintro ts₁ ⟨t₁, rfl, h₁⟩
  refine (reads_takeName h.tail).bind ?_
  rintro ⟨module, ts₂⟩ ⟨t₂, hts₂, h₂⟩
  obtain rfl : ts₁ = t₂ :: ts₂ := hts₂
  refine (reads_expect h.tail.tail .colon).bind ?_
  rintro ts₃ ⟨t₃, rfl, h₃⟩
  refine (reads_takeName h.tail.tail.tail).bind ?_
  rintro ⟨function, ts₄⟩ ⟨t₄, hts₄, h₄⟩
  obtain rfl : ts₃ = t₄ :: ts₄ := hts₄
  refine (reads_takeValues h.tail.tail.tail.tail).bind ?_
  intro args hargs
  apply Reads.pure
  simp [Action.callLexemes, h₁, h₂, h₃, h₄, hargs]

theorem reads_parseLabel (h : Remaining within close ts) :
    Reads within (parseLabel close ts)
      (Spelled (.mark .tilde :: ts.map Token.lexeme)) := by
  refine (reads_takeName h).bind ?_
  rintro ⟨label, rest⟩ ⟨t, hts, ht⟩
  obtain rfl : ts = t :: rest := hts
  refine (reads_takeEnd h.tail).bind ?_
  rintro - rfl
  apply Reads.pure
  simp [Spelled, Action.lexemes, ht]

theorem reads_parseCallLabel (h : Remaining within close ts) :
    Reads within (parseCallLabel close ts)
      (Spelled (.mark .callWord :: ts.map Token.lexeme)) := by
  refine (reads_takeName h).bind ?_
  rintro ⟨label, rest⟩ ⟨t, hts, ht⟩
  obtain rfl : ts = t :: rest := hts
  refine (reads_takeEnd h.tail).bind ?_
  rintro - rfl
  apply Reads.pure
  simp [Spelled, Action.lexemes, ht]

theorem reads_parseRet (h : Remaining within close ts) :
    Reads within (parseRet close ts)
      (Spelled (.mark .retWord :: ts.map Token.lexeme)) := by
  refine (reads_takeEnd h).bind ?_
  rintro - rfl
  apply Reads.pure
  simp [Spelled, Action.lexemes]

theorem reads_parseCall (h : Remaining within close ts) :
    Reads within (parseCall close ts) (Spelled (ts.map Token.lexeme)) := by
  refine (reads_callTail h).bind ?_
  rintro ⟨target, args⟩ hargs
  exact Reads.pure hargs

theorem reads_parseGoto (h : Remaining within close ts) :
    Reads within (parseGoto close ts)
      (Spelled (.mark .gotoWord :: ts.map Token.lexeme)) := by
  refine (reads_takeName h).bind ?_
  rintro ⟨label, ts₁⟩ ⟨t₁, hts₁, h₁⟩
  obtain rfl : ts = t₁ :: ts₁ := hts₁
  by_cases hempty : ts₁.isEmpty = true
  · obtain rfl := List.isEmpty_iff.mp hempty
    apply Reads.pure
    simp [Spelled, Action.lexemes, h₁]
  · simp only [hempty]
    refine (reads_expect h.tail .ifWord).bind ?_
    rintro ts₂ ⟨t₂, rfl, h₂⟩
    refine (reads_takeValue h.tail.tail).bind ?_
    rintro ⟨lhs, ts₃⟩ ⟨t₃, hts₃, h₃⟩
    obtain rfl : ts₂ = t₃ :: ts₃ := hts₃
    refine (reads_takeComparator h.tail.tail.tail).bind ?_
    rintro ⟨op, ts₄⟩ ⟨t₄, hts₄, h₄⟩
    obtain rfl : ts₃ = t₄ :: ts₄ := hts₄
    refine (reads_takeValue h.tail.tail.tail.tail).bind ?_
    rintro ⟨rhs, ts₅⟩ ⟨t₅, hts₅, h₅⟩
    obtain rfl : ts₄ = t₅ :: ts₅ := hts₅
    refine (reads_takeEnd h.tail.tail.tail.tail.tail).bind ?_
    rintro - rfl
    apply Reads.pure
    simp [Spelled, Action.lexemes, h₁, h₂, h₃, h₄, h₅]

theorem reads_parseAssign (h : Remaining within close ts) (name : Bytes) :
    Reads within (parseAssign close name ts)
      (Spelled (.identifier name :: ts.map Token.lexeme)) := by
  refine (reads_expect h .equals).bind ?_
  rintro ts₁ ⟨t₁, rfl, h₁⟩
  split
  · rename_i t u more
    split
    · rename_i op hop
      have hlexeme := operator?_eq_some_iff.mp hop
      refine (reads_takeValue h.tail).bind ?_
      rintro ⟨lhs, ts₂⟩ ⟨t₂, hts₂, h₂⟩
      obtain ⟨rfl, rfl⟩ := List.cons.inj hts₂
      refine (reads_takeValue h.tail.tail.tail).bind ?_
      rintro ⟨rhs, ts₃⟩ ⟨t₃, hts₃, h₃⟩
      obtain rfl : more = t₃ :: ts₃ := hts₃
      refine (reads_takeEnd h.tail.tail.tail.tail).bind ?_
      rintro - rfl
      apply Reads.pure
      simp [Spelled, Action.lexemes, h₁, h₂, h₃, hlexeme]
    · refine (reads_callTail h.tail).bind ?_
      rintro ⟨target, args⟩ hargs
      apply Reads.pure
      simp only [Spelled, Action.lexemes, ← hargs, List.map_cons, h₁]
  · refine (reads_takeValue h.tail).bind ?_
    rintro ⟨v, ts₂⟩ ⟨t₂, hts₂, h₂⟩
    obtain rfl : ts₁ = t₂ :: ts₂ := hts₂
    refine (reads_takeEnd h.tail.tail).bind ?_
    rintro - rfl
    apply Reads.pure
    simp [Spelled, Action.lexemes, h₁, h₂]

/-- What is read from a run is spelled by it, and a refusal stands within it. -/
theorem reads_parseAction {first : Token} (h : Remaining within close (first :: ts)) :
    Reads within (parseAction close first ts)
      (Spelled ((first :: ts).map Token.lexeme)) := by
  rw [parseAction, List.map_cons]
  split
  · rename_i hfirst
    rw [hfirst]
    exact reads_parseLabel h.tail
  · exact reads_parseCall h
  · rename_i hfirst
    rw [hfirst]
    exact reads_parseGoto h.tail
  · rename_i name hfirst
    rw [hfirst]
    exact reads_parseAssign h.tail name
  · rename_i hfirst
    rw [hfirst]
    exact reads_parseCallLabel h.tail
  · rename_i hfirst
    rw [hfirst]
    exact reads_parseRet h.tail
  · exact Reads.refuse (h.mem first List.mem_cons_self) _

/-! ### Every spelling is read -/

theorem expect_of_lexeme {t : Token} {m : Mark} (ht : t.lexeme = .mark m) :
    expect close (.mark m) (t :: ts) = .ok ts := by
  simp [expect, peek, Token.kind, ht, Lexeme.kind]

theorem takeName_of_lexeme {t : Token} {name : Bytes} (ht : t.lexeme = .identifier name) :
    takeName close (t :: ts) = .ok (name, ts) := by
  simp [takeName, peek, ht]

theorem takeValue_of_lexeme {t : Token} {v : Operand} (ht : t.lexeme = v.lexeme) :
    takeValue close (t :: ts) = .ok ((v, t.offset), ts) := by
  simp [takeValue, peek, operand?_eq_some_iff.mpr ht]

theorem takeComparator_of_lexeme {t : Token} {op : Comparator} (ht : t.lexeme = op.lexeme) :
    takeComparator close (t :: ts) = .ok (op, ts) := by
  simp [takeComparator, peek, comparator?_eq_some_iff.mpr ht]

theorem takeEnd_nil (hclose : close.isEnd = true) : takeEnd close [] = .ok () := by
  simp [takeEnd, expect, peek, Token.kind, eq_of_beq hclose, Lexeme.kind, Except.map]

theorem takeValues_of_lexemes (close : Token) {args : List Operand}
    (hargs : ts.map Token.lexeme = args.map Operand.lexeme) :
    ∃ vs, takeValues close ts = .ok vs ∧ vs.map (·.1) = args := by
  induction ts generalizing args with
  | nil =>
      obtain rfl : args = [] := by simpa using hargs.symm
      exact ⟨[], rfl, rfl⟩
  | cons t ts ih =>
      obtain ⟨v, rest, rfl, hv, hrest⟩ := List.map_eq_cons_iff.mp hargs.symm
      obtain ⟨vs, hvs, hmap⟩ := ih hrest.symm
      refine ⟨(v, t.offset) :: vs, ?_, by rw [List.map_cons, hmap]⟩
      rw [takeValues, takeValue_of_lexeme hv.symm, ok_bind, hvs]
      rfl

theorem callTail_of_lexemes (close : Token) {target : CallTarget} {args : List Operand}
    (hts : ts.map Token.lexeme = Action.callLexemes target args) :
    ∃ vs, callTail close ts = .ok (target, vs) ∧ vs.map (·.1) = args := by
  obtain ⟨t₁, ts₁, rfl, h₁, hts₁⟩ := List.map_eq_cons_iff.mp hts
  obtain ⟨t₂, ts₂, rfl, h₂, hts₂⟩ := List.map_eq_cons_iff.mp hts₁
  obtain ⟨t₃, ts₃, rfl, h₃, hts₃⟩ := List.map_eq_cons_iff.mp hts₂
  obtain ⟨t₄, ts₄, rfl, h₄, hts₄⟩ := List.map_eq_cons_iff.mp hts₃
  obtain ⟨vs, hvs, hmap⟩ := takeValues_of_lexemes close hts₄
  refine ⟨vs, ?_, hmap⟩
  simp only [callTail, expect_of_lexeme h₁, takeName_of_lexeme h₂, expect_of_lexeme h₃,
    takeName_of_lexeme h₄, hvs, ok_bind]
  rfl

/-- Every run that spells an action is read as that action. -/
theorem parseAction_of_lexemes {first : Token} {a : Action} (hclose : close.isEnd = true)
    (hlexemes : (first :: ts).map Token.lexeme = a.lexemes) :
    ∃ offsets, parseAction close first ts = .ok (a, offsets) := by
  rw [List.map_cons] at hlexemes
  cases a with
  | assign name v =>
      obtain ⟨hfirst, hts⟩ := List.cons.inj hlexemes
      obtain ⟨t₁, ts₁, rfl, h₁, hts₁⟩ := List.map_eq_cons_iff.mp hts
      obtain ⟨t₂, _, rfl, h₂, hnil⟩ := List.map_eq_cons_iff.mp hts₁
      obtain rfl := List.map_eq_nil_iff.mp hnil
      refine ⟨[t₂.offset], ?_⟩
      simp only [parseAction, hfirst, parseAssign, expect_of_lexeme h₁,
        takeValue_of_lexeme h₂, ok_bind, takeEnd_nil hclose]
      rfl
  | compute name op l r =>
      obtain ⟨hfirst, hts⟩ := List.cons.inj hlexemes
      obtain ⟨t₁, ts₁, rfl, h₁, hts₁⟩ := List.map_eq_cons_iff.mp hts
      obtain ⟨t₂, ts₂, rfl, h₂, hts₂⟩ := List.map_eq_cons_iff.mp hts₁
      obtain ⟨t₃, ts₃, rfl, h₃, hts₃⟩ := List.map_eq_cons_iff.mp hts₂
      obtain ⟨t₄, _, rfl, h₄, hnil⟩ := List.map_eq_cons_iff.mp hts₃
      obtain rfl := List.map_eq_nil_iff.mp hnil
      refine ⟨[t₂.offset, t₄.offset], ?_⟩
      simp only [parseAction, hfirst, parseAssign, expect_of_lexeme h₁,
        operator?_eq_some_iff.mpr h₃, takeValue_of_lexeme h₂,
        takeValue_of_lexeme h₄, ok_bind, takeEnd_nil hclose]
      rfl
  | assignCall name target args =>
      obtain ⟨hfirst, hts⟩ := List.cons.inj hlexemes
      obtain ⟨t₁, ts₁, rfl, h₁, hts₁⟩ := List.map_eq_cons_iff.mp hts
      obtain ⟨vs, hvs, hmap⟩ := callTail_of_lexemes close hts₁
      obtain ⟨t₂, ts₂, rfl, h₂, hts₂⟩ := List.map_eq_cons_iff.mp hts₁
      obtain ⟨t₃, ts₃, rfl, h₃, hts₃⟩ := List.map_eq_cons_iff.mp hts₂
      have hop : t₃.lexeme.operator? = none := by rw [h₃]; rfl
      refine ⟨vs.map (·.2), ?_⟩
      simp only [parseAction, hfirst, parseAssign, expect_of_lexeme h₁, hop, hvs, hmap,
        ok_bind]
      rfl
  | call target args =>
      have htokens : (first :: ts).map Token.lexeme = Action.callLexemes target args := hlexemes
      obtain ⟨vs, hvs, hmap⟩ := callTail_of_lexemes close htokens
      obtain ⟨hfirst, -⟩ := List.cons.inj hlexemes
      refine ⟨vs.map (·.2), ?_⟩
      simp only [parseAction, hfirst, parseCall, hvs, hmap, ok_bind]
      rfl
  | label name =>
      obtain ⟨hfirst, hts⟩ := List.cons.inj hlexemes
      obtain ⟨t, _, rfl, ht, hnil⟩ := List.map_eq_cons_iff.mp hts
      obtain rfl := List.map_eq_nil_iff.mp hnil
      refine ⟨[], ?_⟩
      simp only [parseAction, hfirst, parseLabel, takeName_of_lexeme ht, ok_bind,
        takeEnd_nil hclose]
      rfl
  | goto label =>
      obtain ⟨hfirst, hts⟩ := List.cons.inj hlexemes
      obtain ⟨t, _, rfl, ht, hnil⟩ := List.map_eq_cons_iff.mp hts
      obtain rfl := List.map_eq_nil_iff.mp hnil
      refine ⟨[], ?_⟩
      simp only [parseAction, hfirst, parseGoto, takeName_of_lexeme ht, ok_bind]
      rfl
  | gotoIf label op l r =>
      obtain ⟨hfirst, hts⟩ := List.cons.inj hlexemes
      obtain ⟨t₁, ts₁, rfl, h₁, hts₁⟩ := List.map_eq_cons_iff.mp hts
      obtain ⟨t₂, ts₂, rfl, h₂, hts₂⟩ := List.map_eq_cons_iff.mp hts₁
      obtain ⟨t₃, ts₃, rfl, h₃, hts₃⟩ := List.map_eq_cons_iff.mp hts₂
      obtain ⟨t₄, ts₄, rfl, h₄, hts₄⟩ := List.map_eq_cons_iff.mp hts₃
      obtain ⟨t₅, _, rfl, h₅, hnil⟩ := List.map_eq_cons_iff.mp hts₄
      obtain rfl := List.map_eq_nil_iff.mp hnil
      refine ⟨[t₃.offset, t₅.offset], ?_⟩
      simp only [parseAction, hfirst, parseGoto, takeName_of_lexeme h₁, expect_of_lexeme h₂,
        takeValue_of_lexeme h₃, takeComparator_of_lexeme h₄, takeValue_of_lexeme h₅,
        ok_bind, takeEnd_nil hclose]
      rfl
  | callLabel label =>
      obtain ⟨hfirst, hts⟩ := List.cons.inj hlexemes
      obtain ⟨t, _, rfl, ht, hnil⟩ := List.map_eq_cons_iff.mp hts
      obtain rfl := List.map_eq_nil_iff.mp hnil
      refine ⟨[], ?_⟩
      simp only [parseAction, hfirst, parseCallLabel, takeName_of_lexeme ht, ok_bind,
        takeEnd_nil hclose]
      rfl
  | ret =>
      obtain ⟨hfirst, hts⟩ := List.cons.inj hlexemes
      obtain rfl := List.map_eq_nil_iff.mp hts
      refine ⟨[], ?_⟩
      simp only [parseAction, hfirst, parseRet, takeEnd_nil hclose, ok_bind]
      rfl

end Statement

/-! ### Programs -/

namespace TokenRun

/-- A run that parsing accepts: an empty one, or one that is closed and spells an action. -/
def WellShaped (r : TokenRun) : Prop :=
  r.body = [] ∨ (r.close.isSome = true ∧ ∃ a : Action, r.body.map Token.lexeme = a.lexemes)

/-- The statement of a run begins at its first token and does what its lexemes spell. -/
def Gives (r : TokenRun) (s : Statement) : Prop :=
  r.body.head? = some s.head ∧ r.body.map Token.lexeme = s.action.lexemes

/-- A parsing diagnostic for a run: a closed run is refused at one of its tokens, the closing one
included; an open one at its first token, as incomplete. -/
def RefusedBy (r : TokenRun) (d : Diagnostic) : Prop :=
  match r.close with
  | some close => ∃ t ∈ r.body ++ [close], ∃ f : ShapeFault,
      d = t.diagnostic .parsing f.message none
  | none => ∃ first, r.body.head? = some first ∧
      d = first.diagnostic .parsing (text "incomplete statement") none

end TokenRun

variable {body rest : List Token} {first close : Token}

theorem parse_cons_of_isEnd (hclose : close.isEnd = true) :
    parse (close :: rest) = parse rest := by
  rw [parse, if_pos hclose]

theorem parse_unclosed (hbody : Unclosed (first :: body)) :
    parse (first :: body) = Statement.refuse first .incomplete := by
  have hdrop : body.dropWhile (!·.isEnd) = [] := by
    apply List.dropWhile_eq_nil_iff.mpr
    intro t ht
    rw [hbody.tail t ht, Bool.not_false]
  rw [parse, if_neg hbody.not_isEnd]
  split
  · rfl
  · rename_i close rest hcons
    rw [hdrop] at hcons
    cases hcons

theorem parse_closed (hbody : Unclosed (first :: body)) (hclose : close.isEnd = true) :
    parse (first :: body ++ close :: rest) = (do
      let s ← Statement.ofTokens close first body
      let more ← parse rest
      return s :: more) := by
  have hopen : ∀ t ∈ body, (!t.isEnd) = true := by
    intro t ht
    rw [hbody.tail t ht, Bool.not_false]
  have hdrop : (body ++ close :: rest).dropWhile (!·.isEnd) = close :: rest := by
    rw [List.dropWhile_append_of_pos hopen]
    simp [hclose]
  have htake : (body ++ close :: rest).takeWhile (!·.isEnd) = body := by
    rw [List.takeWhile_append_of_pos hopen]
    simp [hclose]
  rw [List.cons_append, parse, if_neg hbody.not_isEnd]
  split
  · rename_i hnil
    rw [hdrop] at hnil
    cases hnil
  · rename_i close' rest' hcons
    rw [hdrop] at hcons
    obtain ⟨rfl, rfl⟩ := List.cons.inj hcons
    rw [htake]

/-- A closed run is read as a statement that it gives, or refused at one of its tokens. -/
theorem reads_ofTokens (hbody : Unclosed (first :: body)) (hclose : close.isEnd = true) :
    Statement.Reads (first :: body ++ [close]) (Statement.ofTokens close first body)
      (TokenRun.Gives ⟨first :: body, some close⟩) := by
  have hremaining : Statement.Remaining (first :: body ++ [close]) close (first :: body) :=
    ⟨by simp, hclose, fun t ht => List.mem_append_left _ ht, hbody⟩
  refine (Statement.reads_parseAction hremaining).bind ?_
  rintro ⟨action, offsets⟩ hspelled
  exact Statement.Reads.pure ⟨rfl, hspelled⟩

/-- A closed run that spells an action is not refused. -/
theorem not_wellShaped_of_ofTokens_error {d : Diagnostic} (hclose : close.isEnd = true)
    (herror : Statement.ofTokens close first body = .error d) :
    ¬ TokenRun.WellShaped ⟨first :: body, some close⟩ := by
  rintro (hnil | ⟨-, a, ha⟩)
  · cases hnil
  · obtain ⟨offsets, hok⟩ := Statement.parseAction_of_lexemes hclose ha
    rw [Statement.ofTokens, hok] at herror
    cases herror

/-- The runs of a program are well shaped and give its statements in order. -/
def Parses (runs : List TokenRun) (program : List Statement) : Prop :=
  (∀ r ∈ runs, r.WellShaped) ∧
    List.Forall₂ TokenRun.Gives (runs.filter fun r => !r.body.isEmpty) program

/-- The first run that is not well shaped is the one that a diagnostic refuses. -/
def Refuses (runs : List TokenRun) (d : Diagnostic) : Prop :=
  ∃ before r after, runs = before ++ r :: after ∧
    (∀ q ∈ before, q.WellShaped) ∧ ¬ r.WellShaped ∧ r.RefusedBy d

theorem Refuses.cons {runs : List TokenRun} {d : Diagnostic} {r : TokenRun}
    (hr : r.WellShaped) (h : Refuses runs d) : Refuses (r :: runs) d := by
  obtain ⟨before, q, after, rfl, hbefore, hq, hd⟩ := h
  refine ⟨r :: before, q, after, rfl, ?_, hq, hd⟩
  intro p hp
  rcases List.mem_cons.mp hp with rfl | hp
  · exact hr
  · exact hbefore p hp

theorem Parses.cons_empty {runs : List TokenRun} {program : List Statement}
    (h : Parses runs program) : Parses (⟨[], some close⟩ :: runs) program := by
  refine ⟨?_, h.2⟩
  intro p hp
  rcases List.mem_cons.mp hp with rfl | hp
  · exact Or.inl rfl
  · exact h.1 p hp

theorem Parses.cons {runs : List TokenRun} {program : List Statement} {s : Statement}
    (hs : TokenRun.Gives ⟨first :: body, some close⟩ s) (h : Parses runs program) :
    Parses (⟨first :: body, some close⟩ :: runs) (s :: program) := by
  refine ⟨?_, List.Forall₂.cons hs h.2⟩
  intro p hp
  rcases List.mem_cons.mp hp with rfl | hp
  · exact Or.inr ⟨rfl, s.action, hs.2⟩
  · exact h.1 p hp

/-- Parsing follows the runs of a token list: each one that is not empty gives a statement, and
the first that cannot is refused. -/
theorem parse_spec (ts : List Token) :
    match parse ts with
    | .ok program => Parses (TokenRun.cut ts) program
    | .error d => Refuses (TokenRun.cut ts) d := by
  induction ts using run_induction with
  | unclosed body hbody =>
      rw [TokenRun.cut_unclosed hbody]
      cases body with
      | nil =>
          rw [parse]
          exact ⟨by simp [TokenRun.WellShaped], List.Forall₂.nil⟩
      | cons first body =>
          rw [parse_unclosed hbody]
          refine ⟨[], _, [], rfl, by simp, ?_, first, rfl, rfl⟩
          simp [TokenRun.WellShaped]
  | closed body close rest hbody hclose ih =>
      rw [TokenRun.cut_closed hbody hclose]
      cases body with
      | nil =>
          rw [List.nil_append, parse_cons_of_isEnd hclose]
          cases hrest : parse rest with
          | ok program =>
              rw [hrest] at ih
              exact Parses.cons_empty ih
          | error d =>
              rw [hrest] at ih
              exact Refuses.cons (Or.inl rfl) ih
      | cons first body =>
          rw [parse_closed hbody hclose]
          have hreads := reads_ofTokens hbody hclose
          cases hs : Statement.ofTokens close first body with
          | error d =>
              rw [hs] at hreads
              exact ⟨[], _, _, rfl, by simp, not_wellShaped_of_ofTokens_error hclose hs,
                hreads⟩
          | ok s =>
              rw [hs] at hreads
              rw [ok_bind]
              cases hrest : parse rest with
              | ok program =>
                  rw [hrest] at ih
                  exact Parses.cons hreads ih
              | error d =>
                  rw [hrest] at ih
                  exact Refuses.cons (Or.inr ⟨rfl, s.action, hreads.2⟩) ih

/-- Each member of a list is related to one of the list that it goes with. -/
theorem exists_of_forall₂ {α β : Type} {R : α → β → Prop} {as : List α} {bs : List β}
    (h : List.Forall₂ R as bs) {b : β} (hb : b ∈ bs) : ∃ a ∈ as, R a b := by
  induction h with
  | nil => cases hb
  | @cons a c as bs hac _ ih =>
      rcases List.mem_cons.mp hb with rfl | hb
      · exact ⟨a, List.mem_cons_self, hac⟩
      · obtain ⟨a', ha', hab⟩ := ih hb
        exact ⟨a', List.mem_cons_of_mem a ha', hab⟩

/-- A statement begins at the first token of a closed run, and its width spans the tokens of the run
that start on the same line. -/
theorem exists_run_of_parse {ts : List Token} {program : List Statement} {s : Statement}
    (hparse : parse ts = .ok program) (hs : s ∈ program) :
    ∃ body close, ⟨s.head :: body, some close⟩ ∈ TokenRun.cut ts ∧
      s.width = Statement.spanEnd s.head body - s.head.offset := by
  induction ts using run_induction generalizing program with
  | unclosed body hbody =>
      cases body with
      | nil =>
          rw [parse] at hparse
          obtain rfl := Except.ok.inj hparse
          cases hs
      | cons first body =>
          rw [parse_unclosed hbody] at hparse
          cases hparse
  | closed body close rest hbody hclose ih =>
      rw [TokenRun.cut_closed hbody hclose]
      cases body with
      | nil =>
          rw [List.nil_append, parse_cons_of_isEnd hclose] at hparse
          obtain ⟨body, close', hrun, hwidth⟩ := ih hparse hs
          exact ⟨body, close', List.mem_cons_of_mem _ hrun, hwidth⟩
      | cons first body =>
          rw [parse_closed hbody hclose] at hparse
          obtain ⟨s', hs', hparse⟩ := bind_eq_ok_iff.mp hparse
          obtain ⟨more, hmore, hparse⟩ := bind_eq_ok_iff.mp hparse
          obtain rfl := Except.ok.inj hparse
          rcases List.mem_cons.mp hs with rfl | hs
          · obtain ⟨parsed, -, hmade⟩ := bind_eq_ok_iff.mp hs'
            obtain rfl := Except.ok.inj hmade
            exact ⟨body, close, List.mem_cons_self, rfl⟩
          · obtain ⟨body', close', hrun, hwidth⟩ := ih hmore hs
            exact ⟨body', close', List.mem_cons_of_mem _ hrun, hwidth⟩

/-- Every lexeme of a parsed statement is that of a token. -/
theorem exists_token_of_parse {ts : List Token} {program : List Statement} {s : Statement}
    (hparse : parse ts = .ok program) (hs : s ∈ program) :
    ∀ l ∈ s.action.lexemes, ∃ t ∈ ts, t.lexeme = l := by
  have hspec := parse_spec ts
  rw [hparse] at hspec
  obtain ⟨r, hr, -, hlexemes⟩ := exists_of_forall₂ hspec.2 hs
  intro l hl
  rw [← hlexemes] at hl
  obtain ⟨t, ht, rfl⟩ := List.mem_map.mp hl
  refine ⟨t, ?_, rfl⟩
  rw [← TokenRun.flatMap_tokens_cut ts]
  exact List.mem_flatMap.mpr ⟨r, List.mem_of_mem_filter hr, List.mem_append_left _ ht⟩

/-- Parsing accepts exactly the token lists whose runs are all well shaped; it then gives one
statement for each run that is not empty, in order, with what its lexemes spell.  Otherwise it
refuses the first run that is not well shaped. -/
theorem parse_accepts_exactly_grammar (ts : List Token) :
    ((∃ program, parse ts = .ok program) ↔ ∀ r ∈ TokenRun.cut ts, r.WellShaped) ∧
    (∀ program, parse ts = .ok program →
      List.Forall₂ TokenRun.Gives
        ((TokenRun.cut ts).filter fun r => !r.body.isEmpty) program) ∧
    (∀ d, parse ts = .error d →
      ∃ before r after, TokenRun.cut ts = before ++ r :: after ∧
        (∀ q ∈ before, q.WellShaped) ∧ ¬ r.WellShaped ∧ r.RefusedBy d) := by
  have hspec := parse_spec ts
  cases hparse : parse ts with
  | ok program =>
      rw [hparse] at hspec
      refine ⟨⟨fun _ => hspec.1, fun _ => ⟨program, rfl⟩⟩, ?_, ?_⟩
      · intro _ heq
        cases heq
        exact hspec.2
      · intro d hd
        cases hd
  | error d =>
      rw [hparse] at hspec
      refine ⟨⟨?_, ?_⟩, ?_, ?_⟩
      · rintro ⟨program, hprogram⟩
        cases hprogram
      · intro hall
        obtain ⟨before, r, after, hcut, -, hr, -⟩ := hspec
        exact absurd (hall r (by rw [hcut]; simp)) hr
      · intro program hprogram
        cases hprogram
      · intro _ heq
        cases heq
        exact hspec

end JumpScript
