import JumpScript.Token.Basic

/-!
# Statements

A program is a list of statements.  What a statement does is its action; actions refer to variables,
labels and native functions by name only and know nothing of places in a source.  Every action has
one canonical text.
-/

namespace JumpScript

/-- A literal or a variable, where a statement needs a value. -/
inductive Operand where
  | bool (b : Bool)
  | int (n : Int64)
  | float (x : Float)
  | str (s : Bytes)
  | variable (name : Bytes)
  deriving DecidableEq, Repr

inductive Operator where
  | add
  | sub
  | mul
  | div
  | mod
  deriving DecidableEq, Repr

inductive Comparator where
  | eq
  | ne
  | lt
  | gt
  | le
  | ge
  deriving DecidableEq, Repr

/-- A native function, by module and name. -/
structure CallTarget where
  module : Bytes
  function : Bytes
  deriving DecidableEq, Repr

inductive Action where
  | assign (name : Bytes) (value : Operand)
  | compute (name : Bytes) (op : Operator) (lhs rhs : Operand)
  | assignCall (name : Bytes) (target : CallTarget) (args : List Operand)
  | call (target : CallTarget) (args : List Operand)
  | label (name : Bytes)
  | goto (label : Bytes)
  | gotoIf (label : Bytes) (op : Comparator) (lhs rhs : Operand)
  | callLabel (label : Bytes)
  | ret
  deriving DecidableEq, Repr

/-- An action with its place: the first token, the bytes it spans on that token's line, and the
offsets of its operands in order. -/
structure Statement where
  head : Token
  width : Nat
  action : Action
  offsets : List Nat
  deriving DecidableEq, Repr

def escapeByte (b : UInt8) : Bytes :=
  if b == 0x5C then text "\\\\"
  else if b == 0x22 then text "\\\""
  else if b == 0x0A then text "\\n"
  else if b == 0x09 then text "\\t"
  else if b == 0x0D then text "\\r"
  else if b == 0x00 then text "\\0"
  else [b]

/-- A text as a string literal of the language. -/
def stringLiteral (s : Bytes) : Bytes := [0x22] ++ s.flatMap escapeByte ++ [0x22]

/-- A double as a literal of the language; a point marks it as a float. -/
def floatLiteral (x : Float) : Bytes :=
  let s := Double.plain x
  if s.contains 0x2E then s else s ++ text ".0"

/-- The canonical text of an operand. -/
def Operand.text : Operand → Bytes
  | .bool b => if b then JumpScript.text "true" else JumpScript.text "false"
  | .int n => Bytes.ofInt n.toInt
  | .float x => floatLiteral x
  | .str s => stringLiteral s
  | .variable name => name

def Operator.text : Operator → Bytes
  | .add => JumpScript.text "+"
  | .sub => JumpScript.text "-"
  | .mul => JumpScript.text "*"
  | .div => JumpScript.text "/"
  | .mod => JumpScript.text "%"

def Comparator.text : Comparator → Bytes
  | .eq => JumpScript.text "=="
  | .ne => JumpScript.text "!="
  | .lt => JumpScript.text "<"
  | .gt => JumpScript.text ">"
  | .le => JumpScript.text "<="
  | .ge => JumpScript.text ">="

/-- The name under which a native function is registered. -/
def CallTarget.key (t : CallTarget) : Bytes := t.module ++ [0x3A] ++ t.function

namespace Action

def callText (t : CallTarget) (args : List Operand) : Bytes :=
  [0x40] ++ t.key ++ args.flatMap fun a => 0x20 :: a.text

def text : Action → Bytes
  | .assign name v => name ++ JumpScript.text " = " ++ v.text
  | .compute name op l r =>
    name ++ JumpScript.text " = " ++ l.text ++ [0x20] ++ op.text ++ [0x20] ++ r.text
  | .assignCall name t args => name ++ JumpScript.text " = " ++ callText t args
  | .call t args => callText t args
  | .label l => [0x7E] ++ l
  | .goto l => JumpScript.text "goto " ++ l
  | .gotoIf l op a b =>
    JumpScript.text "goto " ++ l ++ JumpScript.text " if " ++ a.text ++ [0x20] ++ op.text ++ [0x20]
      ++ b.text
  | .callLabel l => JumpScript.text "call " ++ l
  | .ret => JumpScript.text "ret"

/-- The operands of an action, in the order of its text. -/
def operands : Action → List Operand
  | .assign _ v => [v]
  | .compute _ _ l r => [l, r]
  | .assignCall _ _ args => args
  | .call _ args => args
  | .gotoIf _ _ l r => [l, r]
  | _ => []

end Action

def Statement.text (s : Statement) : Bytes := s.action.text

/-- A program as a source, one statement per line. -/
def format (program : List Statement) : Bytes :=
  program.flatMap fun s => s.text ++ [0x0A]

end JumpScript
