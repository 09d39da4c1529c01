import JumpScript.Statement.Parse

/-!
# The lexemes of a statement

Every action is spelled by one sequence of lexemes.  The nine shapes of a statement are the shapes
of these spellings.
-/

namespace JumpScript

def Operand.lexeme : Operand → Lexeme
  | .bool b => .bool b
  | .int n => .int n
  | .float x => .float x
  | .str s => .string s
  | .variable name => .identifier name

def Operator.lexeme : Operator → Lexeme
  | .add => .mark .plus
  | .sub => .mark .minus
  | .mul => .mark .star
  | .div => .mark .slash
  | .mod => .mark .percent

def Comparator.lexeme : Comparator → Lexeme
  | .eq => .mark .equalsEquals
  | .ne => .mark .bangEquals
  | .lt => .mark .less
  | .gt => .mark .greater
  | .le => .mark .lessEquals
  | .ge => .mark .greaterEquals

namespace Action

/-- `@ MODULE : FUNCTION VALUE*` -/
def callLexemes (t : CallTarget) (args : List Operand) : List Lexeme :=
  .mark .atSign :: .identifier t.module :: .mark .colon ::
    .identifier t.function :: args.map Operand.lexeme

/-- The lexemes that spell an action. -/
def lexemes : Action → List Lexeme
  | .assign name v => [.identifier name, .mark .equals, v.lexeme]
  | .compute name op l r =>
    [.identifier name, .mark .equals, l.lexeme, op.lexeme, r.lexeme]
  | .assignCall name t args =>
    .identifier name :: .mark .equals :: callLexemes t args
  | .call t args => callLexemes t args
  | .label l => [.mark .tilde, .identifier l]
  | .goto l => [.mark .gotoWord, .identifier l]
  | .gotoIf l op a b =>
    [.mark .gotoWord, .identifier l, .mark .ifWord, a.lexeme, op.lexeme,
      b.lexeme]
  | .callLabel l => [.mark .callWord, .identifier l]
  | .ret => [.mark .retWord]

end Action

theorem operand?_eq_some_iff {l : Lexeme} {v : Operand} :
    l.operand? = some v ↔ l = v.lexeme := by
  constructor
  · intro h
    cases l <;> cases h <;> rfl
  · rintro rfl
    cases v <;> rfl

theorem operator?_eq_some_iff {l : Lexeme} {op : Operator} :
    l.operator? = some op ↔ l = op.lexeme := by
  constructor
  · intro h
    cases l with
    | mark m => cases m <;> cases h <;> rfl
    | _ => cases h
  · rintro rfl
    cases op <;> rfl

theorem comparator?_eq_some_iff {l : Lexeme} {op : Comparator} :
    l.comparator? = some op ↔ l = op.lexeme := by
  constructor
  · intro h
    cases l with
    | mark m => cases m <;> cases h <;> rfl
    | _ => cases h
  · rintro rfl
    cases op <;> rfl

theorem Operand.lexeme_ne_endOfStatement (v : Operand) :
    v.lexeme ≠ .endOfStatement := by
  cases v <;> exact Lexeme.noConfusion

namespace Action

theorem lexemes_ne_nil (a : Action) : a.lexemes ≠ [] := by
  cases a <;> exact List.cons_ne_nil _ _

theorem endOfStatement_not_mem_callLexemes (t : CallTarget)
    (args : List Operand) : Lexeme.endOfStatement ∉ callLexemes t args := by
  simp only [callLexemes, List.mem_cons, reduceCtorEq, false_or, List.mem_map,
    not_exists, not_and]
  intro v _
  exact v.lexeme_ne_endOfStatement

/-- No spelling holds an end of statement. -/
theorem endOfStatement_not_mem_lexemes (a : Action) :
    Lexeme.endOfStatement ∉ a.lexemes := by
  have hvalue : ∀ v : Operand, Lexeme.endOfStatement ≠ v.lexeme :=
    fun v => v.lexeme_ne_endOfStatement.symm
  have hcall := endOfStatement_not_mem_callLexemes
  cases a with
  | compute name op l r => cases op <;> simp [lexemes, Operator.lexeme, hvalue]
  | gotoIf l op a b => cases op <;> simp [lexemes, Comparator.lexeme, hvalue]
  | _ => simp [lexemes, hvalue, hcall]

end Action

end JumpScript
