import JumpScript.Library.Arguments
import JumpScript.Number.Integer
import JumpScript.Number.Power
import JumpScript.Value.Heap

/-!
# Mathematical functions

They read the heap at most, and their result depends on their arguments alone.
-/

namespace JumpScript

inductive MathFunction where
  | sum
  | abs
  | min
  | max
  | pow
  | sqrt
  | floor
  | ceil
  deriving DecidableEq, Repr

namespace MathFunction

def all : List (Bytes × MathFunction) :=
  [(text "sum", sum), (text "abs", abs), (text "min", min), (text "max", max),
    (text "pow", pow), (text "sqrt", sqrt), (text "floor", floor), (text "ceil", ceil)]

/-- Adds numbers up from the left; the sum is an int until a float is met. -/
def total (acc : Value) : List Value → Except Fault Value
  | [] => .ok acc
  | v :: vs =>
    if v.isNumber then do total (← acc.add v) vs
    else .error (.elementKind .number v.kind)

/-- The first of two values if they stand in a given order or are equal, else the second. -/
def pick (wanted : Ordering) (a b : Value) : Except Fault Value := do
  let o ← a.compare b
  return if o == wanted || o == .eq then a else b

/-- An integer as an int; what does not fit becomes the least one. -/
def toInt (finite : Bool) (n : Int) : Int64 :=
  if finite && Integer.least ≤ n && n ≤ Integer.greatest then Int64.ofInt n
  else Int64.ofInt Integer.least

/-- Rounds a float to an int and leaves an int as it is. -/
def rounded (round : Float → Int) (args : List Value) : Except Fault Value := do
  let v ← (← Arguments.one args).asNumber
  match v with
  | .float x => return .int (toInt (Double.isFinite x) (round x))
  | v => return v

def run (f : MathFunction) (σ : Heap) (args : List Value) : Except Fault Value :=
  match f with
  | .sum => do
    let h ← (← Arguments.one args).asArray
    total (.int 0) (σ.items h).toList
  | .abs => do
    let v ← (← Arguments.one args).asNumber
    match v with
    | .int n => return .int (if n < 0 then -n else n)
    | v => return .float v.toFloat.abs
  | .min => do
    let (a, b) ← Arguments.two args
    pick .lt a b
  | .max => do
    let (a, b) ← Arguments.two args
    pick .gt a b
  | .pow => do
    let (a, b) ← Arguments.two args
    let base ← a.asNumber
    let exponent ← b.asNumber
    match base, exponent with
    | .int x, .int n =>
      if 0 ≤ n then return .int (Integer.power x n.toInt.toNat)
      else return .float (Double.power base.toFloat exponent.toFloat)
    | _, _ => return .float (Double.power base.toFloat exponent.toFloat)
  | .sqrt => do
    let v ← (← Arguments.one args).asNumber
    return .float v.toFloat.sqrt
  | .floor => rounded Double.floor args
  | .ceil => rounded Double.ceil args

end MathFunction

end JumpScript
