import JumpScript.Library.Arguments
import JumpScript.Machine.Basic

/-!
# Printing and reading

A format holds placeholders, which the arguments replace from the left.  A replacement is not
searched for placeholders; those left over stay as they are, and arguments left over are a failure,
in which case nothing is printed.
-/

namespace JumpScript

inductive StreamFunction where
  | print
  | printLine
  | printFormat
  | show
  | showFormat
  | read
  | readLine
  deriving DecidableEq, Repr

/-- The mark that an argument replaces in a format. -/
def placeholder : Bytes := text "\x7b\x7d"

/-- Replaces placeholders by texts from the left.  Gives the result and the number of texts that
found none. -/
def fillPlaceholders (format : Bytes) : List Bytes → Bytes × Nat
  | [] => (format, 0)
  | a :: as =>
    match Bytes.cut? placeholder format with
    | none => (format, (a :: as).length)
    | some (before, rest) =>
      let (filled, unused) := fillPlaceholders rest as
      (before ++ a ++ filled, unused)

namespace StreamFunction

def all : List (Bytes × StreamFunction) :=
  [(text "print", print), (text "println", printLine), (text "printf", printFormat),
    (text "sprint", .show), (text "sprintf", showFormat), (text "read", read),
    (text "readln", readLine)]

/-- The text of a format with its arguments. -/
def formatted (σ : Heap) : List Value → Except Fault Bytes
  | [] => .error (.argumentCount (.atLeast 1) 0)
  | f :: args => do
    let format ← f.asString
    match fillPlaceholders format (args.map σ.text) with
    | (filled, 0) => return filled
    | (_, unused) => .error (.unusedArguments unused)

/-- A line without the newline at its end and a carriage return before it. -/
def lineText (line : Bytes) : Bytes := Bytes.dropSuffix [0x0D] (Bytes.dropSuffix [0x0A] line)

def run {ν : Type} (f : StreamFunction) (m : Machine ν) (args : List Value) :
    Except Fault (Machine ν × Value) :=
  match f with
  | .print => do return (m.print (m.heap.text (← Arguments.one args)), .void)
  | .printLine => do return (m.print (m.heap.text (← Arguments.one args) ++ [0x0A]), .void)
  | .printFormat => do return (m.print (← formatted m.heap args), .void)
  | .show => do return (m, .str (m.heap.text (← Arguments.one args)))
  | .showFormat => do return (m, .str (← formatted m.heap args))
  | .read => do
    Arguments.none args
    let (line, input) := m.input.readLine
    return ({ m with input }, .str line)
  | .readLine => do
    Arguments.none args
    let (line, input) := m.input.readLine
    return ({ m with input }, .str (lineText line))

end StreamFunction

end JumpScript
