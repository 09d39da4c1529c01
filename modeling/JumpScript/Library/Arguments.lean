import JumpScript.Value.Heap

/-!
# Arguments of native functions

Native functions check how many arguments they got before they look at any, and then the kinds they
insist on, in order.
-/

namespace JumpScript

namespace Arguments

def none : List Value → Except Fault Unit
  | [] => .ok ()
  | args => .error (.argumentCount (.exactly 0) args.length)

def one : List Value → Except Fault Value
  | [a] => .ok a
  | args => .error (.argumentCount (.exactly 1) args.length)

def two : List Value → Except Fault (Value × Value)
  | [a, b] => .ok (a, b)
  | args => .error (.argumentCount (.exactly 2) args.length)

def three : List Value → Except Fault (Value × Value × Value)
  | [a, b, c] => .ok (a, b, c)
  | args => .error (.argumentCount (.exactly 3) args.length)

end Arguments

namespace Value

/-- The handle of a value that must be an array. -/
def asArray : Value → Except Fault Handle
  | .array h => .ok h
  | v => .error (.argumentKind .array v.kind)

def asString : Value → Except Fault Bytes
  | .str s => .ok s
  | v => .error (.argumentKind .string v.kind)

def asInt : Value → Except Fault Int64
  | .int n => .ok n
  | v => .error (.argumentKind .int v.kind)

def asFloat : Value → Except Fault Float
  | .float x => .ok x
  | v => .error (.argumentKind .float v.kind)

/-- A value that must be an int or a float. -/
def asNumber (v : Value) : Except Fault Value :=
  if v.isNumber then .ok v else .error (.argumentKind .number v.kind)

end Value

/-- What a change does to the heap with arguments that were checked; a heap whose arguments were
refused stays as it is. -/
def Heap.given {α : Type} (σ : Heap) (checked : Except Fault α)
    (change : Heap → α → Heap × Except Fault Value) : Heap × Except Fault Value :=
  match checked with
  | .ok a => change σ a
  | .error e => (σ, .error e)

end JumpScript
