import JumpScript.Json.Read
import JumpScript.Library.Arguments
import JumpScript.Number.Numeral

/-!
# JSON functions

One function takes a member out of an object, the other writes a value as JSON.  Numbers become ints
when they are spelled as ints in range and floats otherwise; an object inside a document stays text,
so that it can be taken apart by a further call.  Cyclic arrays have no finite form and are refused
by a limit on nesting.
-/

namespace JumpScript

inductive DocumentFunction where
  | get
  | encode
  deriving DecidableEq, Repr

namespace Json

def numberValue (numeral : Bytes) : Except Fault Value :=
  match Integer.read numeral with
  | .ok n => .ok (.int n)
  | .error _ =>
    match Numeral.read numeral with
    | .ok x => .ok (.float x)
    | .error _ => .error (.jsonNumberRange numeral)

mutual

/-- The value of a document; its arrays are fresh. -/
def toValue : Json → Heap → Except Fault (Heap × Value)
  | .null, σ => .ok (σ, .str [])
  | .bool b, σ => .ok (σ, .bool b)
  | .number n, σ => (numberValue n).map (σ, ·)
  | .string s, σ => .ok (σ, .str s)
  | .array items, σ => do
    let (σ, vs) ← toValues items σ
    let (σ, h) := σ.alloc vs.toArray
    return (σ, .array h)
  | .object ms, σ => .ok (σ, .str (Json.object ms).write)

/-- The values of documents, from the left. -/
def toValues : List Json → Heap → Except Fault (Heap × List Value)
  | [], σ => .ok (σ, [])
  | j :: js, σ => do
    let (σ, v) ← toValue j σ
    let (σ, vs) ← toValues js σ
    return (σ, v :: vs)

end

/-- The document of a value whose arrays nest `levels` deep at most. -/
def ofValue (σ : Heap) : (levels : Nat) → Value → Except Fault Json
  | _, .void => .ok .null
  | _, .bool b => .ok (.bool b)
  | _, .int n => .ok (.number (Bytes.ofInt n.toInt))
  | _, .float x =>
    if Double.isFinite x then .ok (.number (Double.interchange x)) else .error (.jsonNotFinite x)
  | _, .str s => .ok (.string s)
  | 0, .array _ => .error .jsonTooDeep
  | levels + 1, .array h => (((σ.items h).toList.mapM (ofValue σ levels))).map .array

end Json

namespace DocumentFunction

def all : List (Bytes × DocumentFunction) := [(text "get", get), (text "encode", encode)]

/-- How deep the arrays of a value may nest to be written. -/
def levels : Nat := 65

def member (σ : Heap) (doc key : Bytes) : Except Fault (Heap × Value) :=
  match Json.readObject? doc with
  | none => .error .jsonMalformed
  | some ms =>
    match Table.get? ms key with
    | none => .error (.jsonKeyNotFound key)
    | some j => j.toValue σ

def run (f : DocumentFunction) (args : List Value) (σ : Heap) : Heap × Except Fault Value :=
  match f with
  | .get =>
    let found : Except Fault (Heap × Value) := do
      let (a, b) ← Arguments.two args
      member σ (← a.asString) (← b.asString)
    match found with
    | .ok (τ, v) => (τ, .ok v)
    | .error e => (σ, .error e)
  | .encode =>
    (σ, do
      let a ← Arguments.one args
      return .str (← Json.ofValue σ levels a).write)

end DocumentFunction

end JumpScript
