import JumpScript.Value.Basic

/-!
# Arithmetic and order

Two ints give an int and wrap around at 64 bits; as soon as a float takes part the other operand is
turned into a float.  Anything else is a kind mismatch.  Order and equality of mixed numbers go
through floats as well.
-/

namespace JumpScript.Value

/-- Applies an operation on ints or one on floats, whichever the operands call for. -/
def arithmetic (verb : Verb) (ints : Int64 → Int64 → Except Fault Int64)
    (floats : Float → Float → Except Fault Float) (a b : Value) : Except Fault Value :=
  if a.isNumber && b.isNumber then
    match a, b with
    | .int x, .int y => (ints x y).map .int
    | _, _ => (floats a.toFloat b.toFloat).map .float
  else .error (.kindMismatch verb a.kind b.kind)

def add (a b : Value) : Except Fault Value :=
  arithmetic .add (fun x y => .ok (x + y)) (fun x y => .ok (x + y)) a b

def sub (a b : Value) : Except Fault Value :=
  arithmetic .subtract (fun x y => .ok (x - y)) (fun x y => .ok (x - y)) a b

def mul (a b : Value) : Except Fault Value :=
  arithmetic .multiply (fun x y => .ok (x * y)) (fun x y => .ok (x * y)) a b

/-- Division; ints are divided toward zero. -/
def div (a b : Value) : Except Fault Value :=
  arithmetic .divide
    (fun x y => if y = 0 then .error .divisionByZero else .ok (x / y))
    (fun x y => if y == 0 then .error .divisionByZero else .ok (x / y)) a b

/-- Remainder; it has the sign of the dividend. -/
def mod (a b : Value) : Except Fault Value :=
  arithmetic .modulo
    (fun x y => if y = 0 then .error .divisionByZero else .ok (x % y))
    (fun x y => if y == 0 then .error .divisionByZero else .ok (Double.remainder x y)) a b

/-- Equality of two numbers. -/
def equalNumbers (a b : Value) : Bool :=
  match a, b with
  | .int x, .int y => x == y
  | _, _ => a.toFloat == b.toFloat

/-- Equality as a conditional jump tests it: of two numbers, two strings or two bools. -/
def equals (a b : Value) : Except Fault Bool :=
  if a.isNumber && b.isNumber then .ok (equalNumbers a b)
  else
    match a, b with
    | .str s, .str t => .ok (s == t)
    | .bool p, .bool q => .ok (p == q)
    | _, _ => .error (.kindMismatch .compare a.kind b.kind)

/-- Three-way comparison from two one-way tests; neither means equal. -/
def threeWay (less greater : Bool) : Ordering :=
  if less then .lt else if greater then .gt else .eq

/-- Order of two numbers, two strings or two bools: numbers by size, strings bytewise, false before
true. -/
def order (a b : Value) : Except Fault Ordering :=
  if a.isNumber && b.isNumber then
    match a, b with
    | .int x, .int y => .ok (threeWay (x < y) (y < x))
    | _, _ => .ok (threeWay (a.toFloat < b.toFloat) (b.toFloat < a.toFloat))
  else
    match a, b with
    | .str s, .str t => .ok (threeWay (Bytes.lt s t) (Bytes.lt t s))
    | .bool p, .bool q => .ok (threeWay (!p && q) (p && !q))
    | _, _ => .error (.kindMismatch .order a.kind b.kind)

/-- Order as a conditional jump tests it: bools have none. -/
def compare (a b : Value) : Except Fault Ordering :=
  match a, b with
  | .bool _, .bool _ => .error (.kindMismatch .order a.kind b.kind)
  | _, _ => order a b

end JumpScript.Value
