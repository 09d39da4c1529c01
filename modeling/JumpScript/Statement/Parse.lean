import JumpScript.Statement.Basic

/-!
# Parsing

Every statement has one of nine fixed shapes, so parsing takes the tokens up to the next end of
statement and checks them one after another.  A token that does not fit is the place of the
diagnostic; where tokens run out, the end of the statement is.
-/

namespace JumpScript

/-- Why tokens have none of the nine shapes. -/
inductive ShapeFault where
  | incomplete
  | unexpectedStart (found : Lexeme)
  | expected (kind : TokenKind) (found : Lexeme)
  | expectedValue (found : Lexeme)
  | expectedComparison (found : Lexeme)
  deriving DecidableEq, Repr

def ShapeFault.message : ShapeFault → Bytes
  | .incomplete => text "incomplete statement"
  | .unexpectedStart l => text "unexpected " ++ l.describe ++ text " at start of statement"
  | .expected k l => text "expected " ++ k.name ++ text ", found " ++ l.describe
  | .expectedValue l => text "expected value, found " ++ l.describe
  | .expectedComparison l => text "expected comparison operator, found " ++ l.describe

/-- The operand that a lexeme spells. -/
def Lexeme.operand? : Lexeme → Option Operand
  | .bool b => some (.bool b)
  | .int n => some (.int n)
  | .float x => some (.float x)
  | .string s => some (.str s)
  | .identifier name => some (.variable name)
  | _ => none

def Lexeme.operator? : Lexeme → Option Operator
  | .mark .plus => some .add
  | .mark .minus => some .sub
  | .mark .star => some .mul
  | .mark .slash => some .div
  | .mark .percent => some .mod
  | _ => none

def Lexeme.comparator? : Lexeme → Option Comparator
  | .mark .equalsEquals => some .eq
  | .mark .bangEquals => some .ne
  | .mark .less => some .lt
  | .mark .greater => some .gt
  | .mark .lessEquals => some .le
  | .mark .greaterEquals => some .ge
  | _ => none

/-- What parsing takes for an operator is told by the class of the token. -/
theorem Lexeme.isSome_operator? (l : Lexeme) : l.operator?.isSome = l.kind.isOperator := by
  cases l with
  | mark m => cases m <;> rfl
  | _ => rfl

theorem Lexeme.isSome_comparator? (l : Lexeme) : l.comparator?.isSome = l.kind.isComparison := by
  cases l with
  | mark m => cases m <;> rfl
  | _ => rfl

namespace Statement

def refuse {α : Type} (t : Token) (f : ShapeFault) : Except Diagnostic α :=
  .error (t.diagnostic .parsing f.message none)

/-- The first of the remaining tokens, or the closing one when none remain. -/
def peek (close : Token) (ts : List Token) : Token := ts.headD close

def expect (close : Token) (k : TokenKind) (ts : List Token) : Except Diagnostic (List Token) :=
  let t := peek close ts
  if t.kind == k then .ok ts.tail else refuse t (.expected k t.lexeme)

def takeName (close : Token) (ts : List Token) : Except Diagnostic (Bytes × List Token) :=
  let t := peek close ts
  match t.lexeme with
  | .identifier name => .ok (name, ts.tail)
  | l => refuse t (.expected .identifier l)

def takeValue (close : Token) (ts : List Token) :
    Except Diagnostic ((Operand × Nat) × List Token) :=
  let t := peek close ts
  match t.lexeme.operand? with
  | some v => .ok ((v, t.offset), ts.tail)
  | none => refuse t (.expectedValue t.lexeme)

def takeComparator (close : Token) (ts : List Token) :
    Except Diagnostic (Comparator × List Token) :=
  let t := peek close ts
  match t.lexeme.comparator? with
  | some op => .ok (op, ts.tail)
  | none => refuse t (.expectedComparison t.lexeme)

def takeEnd (close : Token) (ts : List Token) : Except Diagnostic Unit :=
  (expect close .endOfStatement ts).map fun _ => ()

/-- Takes all remaining tokens as values. -/
def takeValues (close : Token) : List Token → Except Diagnostic (List (Operand × Nat))
  | [] => .ok []
  | t :: ts => do
    let (v, _) ← takeValue close (t :: ts)
    let vs ← takeValues close ts
    return v :: vs

/-- An action and the offsets of its operands. -/
abbrev Parsed := Action × List Nat

/-- `@ MODULE : FUNCTION VALUE*` -/
def callTail (close : Token) (ts : List Token) :
    Except Diagnostic (CallTarget × List (Operand × Nat)) := do
  let ts ← expect close (.mark .atSign) ts
  let (module, ts) ← takeName close ts
  let ts ← expect close (.mark .colon) ts
  let (function, ts) ← takeName close ts
  let args ← takeValues close ts
  return (⟨module, function⟩, args)

/-- `~ LABEL` after the tilde. -/
def parseLabel (close : Token) (ts : List Token) : Except Diagnostic Parsed := do
  let (label, ts) ← takeName close ts
  takeEnd close ts
  return (.label label, [])

/-- `@ MODULE : FUNCTION VALUE*` as a whole statement. -/
def parseCall (close : Token) (ts : List Token) : Except Diagnostic Parsed := do
  let (target, args) ← callTail close ts
  return (.call target (args.map (·.1)), args.map (·.2))

/-- `goto LABEL` and `goto LABEL if VALUE CMP VALUE` after the first word. -/
def parseGoto (close : Token) (ts : List Token) : Except Diagnostic Parsed := do
  let (label, ts) ← takeName close ts
  if ts.isEmpty then return (.goto label, [])
  let ts ← expect close (.mark .ifWord) ts
  let (lhs, ts) ← takeValue close ts
  let (op, ts) ← takeComparator close ts
  let (rhs, ts) ← takeValue close ts
  takeEnd close ts
  return (.gotoIf label op lhs.1 rhs.1, [lhs.2, rhs.2])

/-- `NAME = VALUE`, `NAME = VALUE OP VALUE` and `NAME = @ MODULE : FUNCTION VALUE*` after the
name. -/
def parseAssign (close : Token) (name : Bytes) (ts : List Token) : Except Diagnostic Parsed := do
  let ts ← expect close (.mark .equals) ts
  match ts with
  | t :: u :: more =>
    match u.lexeme.operator? with
    | some op =>
      let (lhs, _) ← takeValue close (t :: u :: more)
      let (rhs, ts) ← takeValue close more
      takeEnd close ts
      return (.compute name op lhs.1 rhs.1, [lhs.2, rhs.2])
    | none =>
      let (target, args) ← callTail close (t :: u :: more)
      return (.assignCall name target (args.map (·.1)), args.map (·.2))
  | ts =>
    let (v, ts) ← takeValue close ts
    takeEnd close ts
    return (.assign name v.1, [v.2])

/-- `call LABEL` after the first word. -/
def parseCallLabel (close : Token) (ts : List Token) : Except Diagnostic Parsed := do
  let (label, ts) ← takeName close ts
  takeEnd close ts
  return (.callLabel label, [])

/-- `ret` after the word. -/
def parseRet (close : Token) (ts : List Token) : Except Diagnostic Parsed := do
  takeEnd close ts
  return (.ret, [])

/-- The shape that the first token decides on. -/
def parseAction (close first : Token) (ts : List Token) : Except Diagnostic Parsed :=
  match first.lexeme with
  | .mark .tilde => parseLabel close ts
  | .mark .atSign => parseCall close (first :: ts)
  | .mark .gotoWord => parseGoto close ts
  | .identifier name => parseAssign close name ts
  | .mark .callWord => parseCallLabel close ts
  | .mark .retWord => parseRet close ts
  | l => refuse first (.unexpectedStart l)

/-- Where the tokens that start on the line of `first` end. -/
def spanEnd (first : Token) (ts : List Token) : Nat :=
  let here := ts.takeWhile (·.line == first.line)
  let last := here.getLastD first
  last.offset + last.width

/-- The statement made of a first token, the tokens after it, and the token that closes it. -/
def ofTokens (close first : Token) (ts : List Token) : Except Diagnostic Statement := do
  let (action, offsets) ← parseAction close first ts
  return ⟨first, spanEnd first ts - first.offset, action, offsets⟩

end Statement

/-- The program that tokens spell, or the diagnostic of the first malformed statement. -/
def parse : List Token → Except Diagnostic (List Statement)
  | [] => .ok []
  | first :: ts =>
    if first.isEnd then parse ts
    else
      match h : ts.dropWhile (!·.isEnd) with
      | [] => Statement.refuse first .incomplete
      | close :: rest => do
        have : rest.length < ts.length := by
          have hle := (List.dropWhile_suffix (l := ts) (!·.isEnd)).length_le
          rw [h, List.length_cons] at hle
          omega
        let s ← Statement.ofTokens close first (ts.takeWhile (!·.isEnd))
        let more ← parse rest
        return s :: more
termination_by ts => ts.length

end JumpScript
