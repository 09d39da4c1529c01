import JumpScript.Library.Arguments
import JumpScript.Locale.Lookup
import JumpScript.Text.Blank
import JumpScript.Text.LetterCase

/-!
# String functions

Splitting adds a fresh array to the heap; every other function only computes a result.
-/

namespace JumpScript

inductive StringFunction where
  | split
  | join
  | notEmpty
  | length
  | concat
  | upper
  | lower
  | trim
  | includes
  | formatNumber
  deriving DecidableEq, Repr

namespace StringFunction

def all : List (Bytes × StringFunction) :=
  [(text "split", split), (text "join", join), (text "notempty", notEmpty), (text "len", length),
    (text "concat", concat), (text "upper", upper), (text "lower", lower), (text "trim", trim),
    (text "contains", includes), (text "fmtnum", formatNumber)]

/-- The pieces of a text between separators; an empty separator cuts after every symbol. -/
def pieces (s sep : Bytes) : List Bytes :=
  if sep.isEmpty then (Utf8.symbols s).map (·.bytes) else Bytes.splitOn sep s

/-- The contents of values that must all be strings. -/
def contents : List Value → Except Fault (List Bytes)
  | [] => .ok []
  | .str s :: vs => do return s :: (← contents vs)
  | v :: _ => .error (.elementKind .string v.kind)

def only (args : List Value) : Except Fault Bytes := do (← Arguments.one args).asString

def both (args : List Value) : Except Fault (Bytes × Bytes) := do
  let (a, b) ← Arguments.two args
  return (← a.asString, ← b.asString)

/-- A number and the tag of a locale, which is English unless given. -/
def numberAndTag : List Value → Except Fault (Value × Bytes)
  | [n] => do return (← n.asNumber, text "en")
  | [n, tag] => do return (← n.asNumber, ← tag.asString)
  | args => .error (.argumentCount .oneOrTwo args.length)

def formatted (args : List Value) : Except Fault Bytes := do
  let (n, tag) ← numberAndTag args
  match Locale.ofTag? tag with
  | none => .error (.unknownLocale tag)
  | some l =>
    match n with
    | .int i => return l.writeInt i.toInt
    | v => return l.writeFloat v.toFloat

/-- An array of strings with a text between them. -/
def joined (σ : Heap) (args : List Value) : Except Fault Bytes := do
  let (a, b) ← Arguments.two args
  let h ← a.asArray
  let sep ← b.asString
  return Bytes.join sep (← contents (σ.items h).toList)

def run (f : StringFunction) (args : List Value) (σ : Heap) : Heap × Except Fault Value :=
  match f with
  | .split =>
    σ.given (both args) fun σ (s, sep) =>
      let (σ, h) := σ.alloc ((pieces s sep).map Value.str).toArray
      (σ, .ok (.array h))
  | .join => (σ, do return .str (← joined σ args))
  | .notEmpty => (σ, do return .bool (!(← only args).isEmpty))
  | .length => (σ, do return .int (Int64.ofNat (← only args).length))
  | .concat => (σ, .ok (.str (args.flatMap σ.text)))
  | .upper => (σ, do return .str (← only args).toUpper)
  | .lower => (σ, do return .str (← only args).toLower)
  | .trim => (σ, do return .str (← only args).trim)
  | .includes =>
    (σ, do
      let (s, sub) ← both args
      return .bool (s.includes sub))
  | .formatNumber => (σ, do return .str (← formatted args))

end StringFunction

end JumpScript
