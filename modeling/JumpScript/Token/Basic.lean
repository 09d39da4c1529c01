import JumpScript.Diagnostic

/-!
# Tokens

A lexeme is what a token says; a token adds where it stands.  Keywords and punctuation are marks:
they carry no payload.
-/

namespace JumpScript

/-- Keywords and punctuation. -/
inductive Mark where
  | ifWord
  | gotoWord
  | callWord
  | retWord
  | colon
  | equals
  | atSign
  | tilde
  | plus
  | minus
  | star
  | slash
  | percent
  | less
  | greater
  | equalsEquals
  | bangEquals
  | lessEquals
  | greaterEquals
  deriving DecidableEq, Repr

/-- All marks, in the order of their codes. -/
def Mark.all : List Mark :=
  [.ifWord, .gotoWord, .callWord, .retWord, .colon, .equals, .atSign, .tilde, .plus, .minus, .star,
    .slash, .percent, .less, .greater, .equalsEquals, .bangEquals, .lessEquals, .greaterEquals]

def Mark.spelling : Mark → Bytes
  | .ifWord => text "if"
  | .gotoWord => text "goto"
  | .callWord => text "call"
  | .retWord => text "ret"
  | .colon => text ":"
  | .equals => text "="
  | .atSign => text "@"
  | .tilde => text "~"
  | .plus => text "+"
  | .minus => text "-"
  | .star => text "*"
  | .slash => text "/"
  | .percent => text "%"
  | .less => text "<"
  | .greater => text ">"
  | .equalsEquals => text "=="
  | .bangEquals => text "!="
  | .lessEquals => text "<="
  | .greaterEquals => text ">="

/-- What a token says. -/
inductive Lexeme where
  | endOfFile
  | endOfStatement
  | bool (b : Bool)
  | int (n : Int64)
  | float (x : Float)
  | string (s : Bytes)
  | identifier (name : Bytes)
  | mark (m : Mark)
  deriving DecidableEq, Repr

/-- Classes of lexemes. -/
inductive TokenKind where
  | endOfFile
  | endOfStatement
  | bool
  | int
  | float
  | string
  | identifier
  | mark (m : Mark)
  deriving DecidableEq, Repr

namespace TokenKind

/-- All classes, in the order of their codes. -/
def all : List TokenKind :=
  [.endOfFile, .endOfStatement, .bool, .int, .float, .string, .identifier] ++ Mark.all.map .mark

def name : TokenKind → Bytes
  | .endOfFile => text "end of file"
  | .endOfStatement => text "end of statement"
  | .bool => text "bool"
  | .int => text "int"
  | .float => text "float"
  | .string => text "string"
  | .identifier => text "identifier"
  | .mark m => text "'" ++ m.spelling ++ text "'"

def nameOfCode (n : Nat) : Bytes :=
  match all[n]? with
  | some k => k.name
  | none => text "Kind(" ++ Bytes.ofNat n ++ text ")"

/-- Whether tokens of the class are bool, int, float or string literals. -/
def isLiteral : TokenKind → Bool
  | .bool | .int | .float | .string => true
  | _ => false

/-- Whether a token of the class may stand where a value is expected. -/
def isValue (k : TokenKind) : Bool := k.isLiteral || k == .identifier

def isComparison : TokenKind → Bool
  | .mark .equalsEquals | .mark .bangEquals | .mark .less | .mark .greater | .mark .lessEquals
  | .mark .greaterEquals => true
  | _ => false

def isOperator : TokenKind → Bool
  | .mark .plus | .mark .minus | .mark .star | .mark .slash | .mark .percent => true
  | _ => false

end TokenKind

namespace Lexeme

def kind : Lexeme → TokenKind
  | .endOfFile => .endOfFile
  | .endOfStatement => .endOfStatement
  | .bool _ => .bool
  | .int _ => .int
  | .float _ => .float
  | .string _ => .string
  | .identifier _ => .identifier
  | .mark m => .mark m

/-- The name of a lexeme in messages, with its payload. -/
def describe : Lexeme → Bytes
  | .identifier name => text "identifier '" ++ name ++ text "'"
  | .string s => text "string " ++ s.quoted
  | .int n => text "int " ++ Bytes.ofInt n.toInt
  | .float x => text "float " ++ Double.compact x
  | .bool b => if b then text "bool true" else text "bool false"
  | l => l.kind.name

end Lexeme

/-- A lexeme with its place: the line and column of its first byte, counted from one, its byte
offset and width, the file, and the text of the line. -/
structure Token where
  lexeme : Lexeme
  line : Nat
  column : Nat
  offset : Nat
  width : Nat
  file : Bytes
  context : Bytes
  deriving DecidableEq, Repr

namespace Token

def kind (t : Token) : TokenKind := t.lexeme.kind

/-- Whether a token closes a statement. -/
def isEnd (t : Token) : Bool := t.lexeme == .endOfStatement

/-- A diagnostic anchored at a token. -/
def diagnostic (t : Token) (stage : Stage) (message : Bytes) (cause : Option Fault) :
    Diagnostic where
  stage := stage
  file := t.file
  line := t.line
  column := t.column
  offset := t.offset
  width := t.width
  message := message
  context := t.context
  cause := cause

end Token

end JumpScript
