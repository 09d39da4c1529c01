import JumpScript.Fault

/-!
# Diagnostics

A diagnostic is a message anchored at a place in a source file.  Its rendering quotes the source
line and puts carets under the offending part; with colour on, escape sequences surround the parts
but never change them.
-/

namespace JumpScript

/-- The phase that a diagnostic comes from. -/
inductive Stage where
  | lexing
  | parsing
  | runtime
  | unknown
  deriving DecidableEq, Repr

def Stage.name : Stage → Bytes
  | .lexing => text "Lexing"
  | .parsing => text "Parsing"
  | .runtime => text "Runtime"
  | .unknown => text "Unknown"

def Stage.ofCode : Nat → Stage
  | 0 => .lexing
  | 1 => .parsing
  | 2 => .runtime
  | _ => .unknown

/-- A message with its place: line and column count from one, the offset from zero. -/
structure Diagnostic where
  stage : Stage
  file : Bytes
  line : Int
  column : Int
  offset : Int
  width : Int
  message : Bytes
  context : Bytes
  cause : Option Fault := none
  deriving DecidableEq, Repr

/-- The parts of a rendering that have a colour of their own. -/
inductive Paint where
  | plain
  | red
  | green
  | blue
  | cyan
  deriving DecidableEq, Repr

/-- The number that selects a colour on a terminal. -/
def Paint.code? : Paint → Option Bytes
  | .plain => none
  | .red => some (text "1;31")
  | .green => some (text "32")
  | .blue => some (text "1;34")
  | .cyan => some (text "36")

/-- A stretch of text in one colour. -/
structure Span where
  paint : Paint
  body : Bytes
  deriving DecidableEq, Repr

/-- The bytes of a span, with escape sequences around it when colour is on. -/
def Span.render (color : Bool) (s : Span) : Bytes :=
  match s.paint.code? with
  | some code =>
    if color then text "\x1b[" ++ code ++ text "m" ++ s.body ++ text "\x1b[0m" else s.body
  | none => s.body

namespace Diagnostic

def position (d : Diagnostic) : Bytes :=
  d.file ++ [0x3A] ++ Bytes.ofInt d.line ++ [0x3A] ++ Bytes.ofInt d.column

/-- The coloured stretches of the rendering, in order. -/
def spans (d : Diagnostic) : List Span :=
  let number := Bytes.ofInt d.line
  let gutter := Bytes.fill number.length 0x20
  let indent := Bytes.fill (max d.column 1 - 1).toNat 0x20
  let carets := Bytes.fill (max d.width 1).toNat 0x5E
  [⟨.plain, d.stage.name ++ text " error:\n" ++ gutter⟩,
    ⟨.blue, text "-->"⟩, ⟨.plain, text " "⟩, ⟨.cyan, d.file⟩,
    ⟨.plain, text " " ++ Bytes.ofInt d.line ++ text ":" ++ Bytes.ofInt d.column ++ text " ("
      ++ Bytes.ofInt d.offset ++ text ")\n" ++ gutter ++ text " "⟩,
    ⟨.blue, text "|"⟩, ⟨.plain, text "\n"⟩,
    ⟨.blue, number⟩, ⟨.plain, text " "⟩, ⟨.blue, text "|"⟩, ⟨.plain, text " "⟩,
    ⟨.green, d.context⟩, ⟨.plain, text "\n" ++ gutter ++ text " "⟩,
    ⟨.blue, text "|"⟩, ⟨.plain, text " " ++ indent⟩, ⟨.blue, carets⟩, ⟨.plain, text " "⟩,
    ⟨.red, d.message⟩]

/-- The rendering as five lines: heading, place, rule, source line, carets with the message. -/
def render (color : Bool) (d : Diagnostic) : Bytes :=
  d.spans.flatMap (Span.render color)

end Diagnostic

/-- How an activity can end early: with a fault, with a request to leave the program, or with a
diagnostic that is already anchored somewhere.  The note stands before the text of the latter. -/
inductive Failure where
  | fault (f : Fault)
  | exit (code : Int)
  | anchored (note : Bytes) (d : Diagnostic)
  deriving DecidableEq, Repr

def Failure.message : Failure → Bytes
  | .fault f => f.message
  | .exit code => text "exit status " ++ Bytes.ofInt code
  | .anchored note d => note ++ d.render false

end JumpScript
