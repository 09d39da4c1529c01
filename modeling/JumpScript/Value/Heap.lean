import JumpScript.Sorting
import JumpScript.Value.Arithmetic

/-!
# The heap of arrays

A heap holds the contents of arrays under their handles.  Handles are given out once and never
reused.  Arrays can contain themselves.  Showing an array stops after a fixed number of levels, but
comparing and quoting go down to the last level, and on arrays inside themselves they never end.
They count their levels here, and have no answer where no number of levels is enough.
-/

namespace JumpScript

/-- Array contents; handle `n + 1` names the cell at index `n`. -/
structure Heap where
  cells : Array (Array Value)
  deriving DecidableEq, Repr

namespace Heap

def empty : Heap := ⟨#[]⟩

/-- The contents of an array, if the handle names one. -/
def get? (σ : Heap) (h : Handle) : Option (Array Value) :=
  match h.number with
  | 0 => none
  | n + 1 => σ.cells[n]?

/-- The contents of an array; a handle that names none has no elements. -/
def items (σ : Heap) (h : Handle) : Array Value := (σ.get? h).getD #[]

def length (σ : Heap) (h : Handle) : Nat := (σ.items h).size

def alloc (σ : Heap) (items : Array Value) : Heap × Handle :=
  let h : Handle := ⟨σ.cells.size + 1⟩
  (⟨σ.cells.push items⟩, h)

def modify (σ : Heap) (h : Handle) (f : Array Value → Array Value) : Heap :=
  match h.number with
  | 0 => σ
  | n + 1 => ⟨σ.cells.modify n f⟩

/-- The place of an index in an array, if it has one. -/
def place (σ : Heap) (h : Handle) (i : Int64) : Except Fault Nat :=
  if 0 ≤ i.toInt && i.toInt < σ.length h then .ok i.toInt.toNat
  else .error (.indexOutOfBounds i.toInt (σ.length h))

def getAt (σ : Heap) (h : Handle) (i : Int64) : Except Fault Value := do
  let n ← σ.place h i
  return ((σ.items h)[n]?).getD .void

def setAt (σ : Heap) (h : Handle) (i : Int64) (v : Value) : Heap × Except Fault Unit :=
  match σ.place h i with
  | .ok n => (σ.modify h (·.setIfInBounds n v), .ok ())
  | .error e => (σ, .error e)

def push (σ : Heap) (h : Handle) (v : Value) : Heap := σ.modify h (·.push v)

def pop (σ : Heap) (h : Handle) : Heap × Except Fault Value :=
  match (σ.items h).back? with
  | none => (σ, .error .emptyArray)
  | some v => (σ.modify h (·.pop), .ok v)

def remove (σ : Heap) (h : Handle) (i : Int64) : Heap × Except Fault Value :=
  match σ.place h i, σ.getAt h i with
  | .ok n, .ok v => (σ.modify h (·.eraseIdxIfInBounds n), .ok v)
  | .error e, _ | _, .error e => (σ, .error e)

def reverse (σ : Heap) (h : Handle) : Heap := σ.modify h (·.reverse)

/-- Adds a fresh array with the elements of another one. -/
def clone (σ : Heap) (h : Handle) : Heap × Handle := σ.alloc (σ.items h)

/-- Compares two lists element by element, up to the first elements that differ. -/
def allAgree (eq : Value → Value → Option Bool) : List Value → List Value → Option Bool
  | [], [] => some true
  | a :: as, b :: bs => do if ← eq a b then allAgree eq as bs else return false
  | _, _ => some false

/-- Deep equality, if `fuel` levels of arrays are enough to tell: numbers numerically, arrays
element by element.  A comparison that no fuel is enough for never ends. -/
def equalWithin (σ : Heap) : (fuel : Nat) → Value → Value → Option Bool
  | 0, _, _ => none
  | fuel + 1, a, b =>
    if a.isNumber && b.isNumber then some (Value.equalNumbers a b)
    else
      match a, b with
      | .void, .void => some true
      | .str s, .str t => some (s == t)
      | .bool p, .bool q => some (p == q)
      | .array x, .array y =>
        if x == y then some true
        else if (σ.items x).size != (σ.items y).size then some false
        else allAgree (equalWithin σ fuel) (σ.items x).toList (σ.items y).toList
      | _, _ => some false

/-- The answer of a comparison, if it ends.  One that ends comes to no pair of arrays again inside
that pair, so the number of pairs bounds its depth. -/
def equal? (σ : Heap) (a b : Value) : Option Bool :=
  σ.equalWithin ((σ.cells.size + 1) * (σ.cells.size + 1) + 1) a b

def equal (σ : Heap) (a b : Value) : Bool := σ.equal? a b == some true

/-- The position of the first element that equals a value. -/
def index? (σ : Heap) (h : Handle) (v : Value) : Option Nat :=
  (σ.items h).toList.findIdx? (σ.equal · v)

/-- Whether looking for the position of a value ends.  Elements are compared in order, up to the
first that is equal. -/
def searchEnds (σ : Heap) (h : Handle) (v : Value) : Bool :=
  ((σ.items h).toList.find? fun w => σ.equal? w v != some false).all fun w => σ.equal w v

def precedes (v w : Value) : Bool := Value.order v w matches .ok .lt

/-- The values in ascending order; values that compare equal keep their order. -/
def sorted (vs : List Value) : List Value := Sorting.sorted precedes vs

/-- Whether the first of some values can be ordered with each of the others. -/
def orderable : List Value → Except Fault Unit
  | [] => .ok ()
  | v :: vs => vs.forM fun w => (Value.order v w).map fun _ => ()

/-- Sorts an array whose elements can be ordered, and leaves any other as it is. -/
def sort (σ : Heap) (h : Handle) : Heap × Except Fault Unit :=
  match orderable (σ.items h).toList with
  | .ok () => (σ.modify h fun items => (sorted items.toList).toArray, .ok ())
  | .error e => (σ, .error e)

/-- Texts in brackets, with commas between them. -/
def bracketed (parts : List Bytes) : Bytes :=
  [0x5B] ++ Bytes.join (JumpScript.text ", ") parts ++ [0x5D]

def scalarText : Value → Bytes
  | .void => JumpScript.text "void"
  | .bool b => if b then JumpScript.text "true" else JumpScript.text "false"
  | .int n => Bytes.ofInt n.toInt
  | .float x => Double.plain x
  | .str s => s
  | .array _ => []

/-- The text of a value, with arrays shown down to a number of levels. -/
def textWithin (σ : Heap) : (levels : Nat) → Value → Bytes
  | 0, .array _ => JumpScript.text "[...]"
  | levels + 1, .array h => bracketed ((σ.items h).toList.map (textWithin σ levels))
  | _, v => scalarText v

/-- The text of a value as a program prints it: strings bare, arrays down to eleven levels. -/
def text (σ : Heap) (v : Value) : Bytes := σ.textWithin 11 v

/-- The text of a value with strings quoted, if `fuel` levels of arrays are enough. -/
def quotedWithin (σ : Heap) : (fuel : Nat) → Value → Option Bytes
  | _, .str s => some s.quoted
  | 0, .array _ => none
  | fuel + 1, .array h => ((σ.items h).toList.mapM (quotedWithin σ fuel)).map bracketed
  | _, v => some (scalarText v)

/-- The text of a value with strings quoted, if writing it down ends.  Without cycles no chain of
nested arrays is longer than the heap. -/
def quoted? (σ : Heap) (v : Value) : Option Bytes := σ.quotedWithin (σ.cells.size + 1) v

def quotingEnds (σ : Heap) (v : Value) : Bool := (σ.quoted? v).isSome

/-- The text of a value with strings quoted, where there is one. -/
def quoted (σ : Heap) (v : Value) : Bytes := (σ.quoted? v).getD []

end Heap

end JumpScript
