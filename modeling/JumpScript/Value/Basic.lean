import JumpScript.Fault

/-!
# Values

A value is void, a scalar, a string, or the handle of an array.  Arrays live in a heap, so copying a
value copies scalars and shares arrays.
-/

namespace JumpScript

/-- The name of an array in a heap.  Number zero names no array. -/
structure Handle where
  number : Nat
  deriving DecidableEq, Repr

/-- The handle that names no array. -/
def Handle.null : Handle := ⟨0⟩

/-- Runtime values. -/
inductive Value where
  | void
  | bool (b : Bool)
  | int (n : Int64)
  | float (x : Float)
  | str (s : Bytes)
  | array (h : Handle)
  deriving DecidableEq, Repr

namespace Value

def kind : Value → Kind
  | .void => .void
  | .bool _ => .bool
  | .int _ => .int
  | .float _ => .float
  | .str _ => .string
  | .array _ => .array

def isVoid (v : Value) : Bool := v.kind == .void

def isNumber (v : Value) : Bool := v.kind == .int || v.kind == .float

/-- The bit pattern of a double as a signed word; there is one pattern for NaN. -/
def floatWord (x : Float) : Int64 :=
  if Double.isNaN x then 0x7FF8000000000001 else x.toBits.toInt64

/-- The machine word behind a scalar; values without one have zero. -/
def word : Value → Int64
  | .bool b => if b then 1 else 0
  | .int n => n
  | .float x => floatWord x
  | _ => 0

/-- Whether the machine word of a value is not zero. -/
def truth (v : Value) : Bool := v.word != 0

/-- The value as a double: a float is itself, anything else the double of its word. -/
def toFloat : Value → Float
  | .float x => x
  | v => Double.ofInt v.word.toInt

/-- The contents of a string, nothing for other values. -/
def bytes : Value → Bytes
  | .str s => s
  | _ => []

/-- The handle of an array; the null handle for other values. -/
def handle : Value → Handle
  | .array h => h
  | _ => .null

end Value

end JumpScript
