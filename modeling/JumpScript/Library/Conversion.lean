import JumpScript.Library.Arguments
import JumpScript.Number.Numeral
import JumpScript.Text.Blank

/-!
# Conversion functions

Reading numbers from text and writing them, and the kind of a value.  White space around a numeral
is ignored.
-/

namespace JumpScript

inductive ConversionFunction where
  | readInt
  | writeInt
  | readFloat
  | writeFloat
  | kind
  deriving DecidableEq, Repr

namespace ConversionFunction

def all : List (Bytes × ConversionFunction) :=
  [(text "atoi", readInt), (text "itoa", writeInt), (text "atof", readFloat),
    (text "ftoa", writeFloat), (text "type", kind)]

def run (f : ConversionFunction) (args : List Value) : Except Fault Value := do
  let a ← Arguments.one args
  match f with
  | .readInt =>
    let s ← a.asString
    match Integer.read s.trim with
    | .ok n => return .int n
    | .error _ => .error (.notInteger s)
  | .writeInt => return .str (Bytes.ofInt (← a.asInt).toInt)
  | .readFloat =>
    let s ← a.asString
    match Numeral.read s.trim with
    | .ok x => return .float x
    | .error _ => .error (.notFloat s)
  | .writeFloat => return .str (Double.plain (← a.asFloat))
  | .kind => return .str a.kind.name

end ConversionFunction

end JumpScript
