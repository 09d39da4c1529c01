import JumpScript.Text.Bytes

/-!
# Kinds of values

The six kinds a runtime value can have and the words that messages use for them.
-/

namespace JumpScript

inductive Kind where
  | void
  | bool
  | int
  | float
  | string
  | array
  deriving DecidableEq, Repr

/-- All kinds, in the order of their codes. -/
def Kind.all : List Kind := [.void, .bool, .int, .float, .string, .array]

def Kind.name : Kind → Bytes
  | .void => text "void"
  | .bool => text "bool"
  | .int => text "int"
  | .float => text "float"
  | .string => text "string"
  | .array => text "array"

/-- The kind with a given code; unknown codes mean void. -/
def Kind.ofCode (n : Nat) : Kind := (Kind.all[n]?).getD .void

/-- The operations on two values that can meet kinds they do not support. -/
inductive Verb where
  | add
  | subtract
  | multiply
  | divide
  | modulo
  | compare
  | order
  deriving DecidableEq, Repr

def Verb.name : Verb → Bytes
  | .add => text "add"
  | .subtract => text "subtract"
  | .multiply => text "multiply"
  | .divide => text "divide"
  | .modulo => text "modulo"
  | .compare => text "compare"
  | .order => text "order"

end JumpScript
