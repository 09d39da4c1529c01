import JumpScript.Number.Positional

/-!
# Integer numerals

A numeral is an optional sign and decimal digits.  It denotes a 64-bit integer when its value lies
in the signed range.
-/

namespace JumpScript

inductive NumeralError where
  | malformed
  | outOfRange
  deriving DecidableEq, Repr

namespace Integer

def least : Int := -0x8000000000000000

def greatest : Int := 0x7FFFFFFFFFFFFFFF

/-- The word of an integer in range. -/
def narrow (n : Int) : Except NumeralError Int64 :=
  if least ≤ n && n ≤ greatest then .ok (Int64.ofInt n) else .error .outOfRange

/-- Whether a text is one or more ASCII digits. -/
def isDigits (s : Bytes) : Bool := !s.isEmpty && s.all Bytes.isDigit

/-- Reads digits under a given sign. -/
def readDigits (negative : Bool) (ds : Bytes) : Except NumeralError Int64 :=
  if isDigits ds then
    narrow (if negative then -(Bytes.numeral ds : Int) else Bytes.numeral ds)
  else .error .malformed

/-- Reads a numeral with an optional sign. -/
def read : Bytes → Except NumeralError Int64
  | 0x2D :: ds => readDigits true ds
  | 0x2B :: ds => readDigits false ds
  | ds => readDigits false ds

end Integer

end JumpScript
