import JumpScript.Library.Arguments

/-!
# Array functions

Functions on arrays work on the heap alone.  Some change the array they are given, for every
variable that holds it; the others leave all arrays as they are or add a fresh one.
-/

namespace JumpScript

inductive ArrayFunction where
  | new
  | get
  | set
  | push
  | pop
  | popAt
  | index
  | reverse
  | sort
  | length
  | clone
  | same
  deriving DecidableEq, Repr

namespace ArrayFunction

def all : List (Bytes × ArrayFunction) :=
  [(text "new", new), (text "get", get), (text "set", set), (text "push", push),
    (text "pop", pop), (text "popat", popAt), (text "index", index), (text "reverse", reverse),
    (text "sort", sort), (text "len", length), (text "clone", clone), (text "is", same)]

/-- Whether a function works in place; the array is then also stored back under the name of the
variable it came from. -/
def inPlace : ArrayFunction → Bool
  | .set | .push | .pop | .popAt | .reverse | .sort => true
  | _ => false

def fresh (r : Heap × Handle) : Heap × Except Fault Value := (r.1, .ok (.array r.2))

/-- A change without a result. -/
def silent (r : Heap × Except Fault Unit) : Heap × Except Fault Value :=
  (r.1, r.2.map fun () => .void)

def array (args : List Value) : Except Fault Handle := do (← Arguments.one args).asArray

/-- The only two arguments, an array and anything. -/
def arrayAndValue (args : List Value) : Except Fault (Handle × Value) := do
  let (a, v) ← Arguments.two args
  return (← a.asArray, v)

def arrayAndIndex (args : List Value) : Except Fault (Handle × Int64) := do
  let (a, i) ← Arguments.two args
  return (← a.asArray, ← i.asInt)

/-- The only three arguments: an array, an index and anything. -/
def arrayIndexAndValue (args : List Value) : Except Fault (Handle × Int64 × Value) := do
  let (a, i, v) ← Arguments.three args
  return (← a.asArray, ← i.asInt, v)

/-- The position of a value in an array, minus one if it is not there. -/
def position (σ : Heap) (h : Handle) (v : Value) : Except Fault Value :=
  if σ.searchEnds h v then .ok (.int (((σ.index? h v).map Int64.ofNat).getD (-1)))
  else .error .endless

def run (f : ArrayFunction) (args : List Value) (σ : Heap) : Heap × Except Fault Value :=
  match f with
  | .new => fresh (σ.alloc args.toArray)
  | .get => (σ, do let (h, i) ← arrayAndIndex args; σ.getAt h i)
  | .set => σ.given (arrayIndexAndValue args) fun σ (h, i, v) => silent (σ.setAt h i v)
  | .push => σ.given (arrayAndValue args) fun σ (h, v) => (σ.push h v, .ok .void)
  | .pop => σ.given (array args) fun σ h => σ.pop h
  | .popAt => σ.given (arrayAndIndex args) fun σ (h, i) => σ.remove h i
  | .index =>
    (σ, do
      let (h, v) ← arrayAndValue args
      position σ h v)
  | .reverse => σ.given (array args) fun σ h => (σ.reverse h, .ok .void)
  | .sort => σ.given (array args) fun σ h => silent (σ.sort h)
  | .length => (σ, do return .int (Int64.ofNat (σ.length (← array args))))
  | .clone => σ.given (array args) fun σ h => fresh (σ.clone h)
  | .same =>
    (σ, do
      let (h, b) ← arrayAndValue args
      return .bool (h == (← b.asArray)))

end ArrayFunction

end JumpScript
