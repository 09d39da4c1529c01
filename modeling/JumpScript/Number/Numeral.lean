import JumpScript.Number.Decimal
import JumpScript.Number.Integer

/-!
# Floating-point numerals

A numeral is an optional sign with either a name of infinity, or digits in base ten or sixteen with
an optional point and exponent.  Underscores may stand between digits.  The value is the nearest
double; a value too large for one is refused, a value too small becomes zero.
-/

namespace JumpScript.Numeral

/-- The digits of a numeral, and how many of them follow the point. -/
structure Mantissa where
  /-- The digits, the last one first. -/
  reversed : List Nat := []
  fraction : Nat := 0
  pointSeen : Bool := false

def Mantissa.push (m : Mantissa) (d : Nat) : Mantissa :=
  { m with
    reversed := d :: m.reversed
    fraction := if m.pointSeen then m.fraction + 1 else m.fraction }

def Mantissa.size (m : Mantissa) : Nat := m.reversed.length

/-- The number that the digits spell without their point. -/
def Mantissa.value (m : Mantissa) (base : Nat) : Nat := positional base m.reversed.reverse

/-- Whether a byte is a digit of the base. -/
def digit? (base : Nat) (b : UInt8) : Option Nat :=
  (Bytes.hexValue? b).filter (· < base)

/-- Reads digits, underscores and at most one point; gives the mantissa and the rest. -/
def readMantissa (base : Nat) (m : Mantissa) : Bytes → Mantissa × Bytes
  | [] => (m, [])
  | c :: r =>
    if c == 0x5F then readMantissa base m r
    else if c == 0x2E then
      if m.pointSeen then (m, c :: r) else readMantissa base { m with pointSeen := true } r
    else
      match digit? base c with
      | some d => readMantissa base (m.push d) r
      | none => (m, c :: r)

/-- The value of the digits of an exponent.  Once it has reached ten thousand, further digits are
read but do not count. -/
def exponentValue (ds : Bytes) : Nat :=
  ds.foldl (fun e d => if e < 10000 then 10 * e + Bytes.digitValue d else e) 0

/-- Reads the digits of an exponent; the first byte must be a digit. -/
def readExponent : Bytes → Option Int
  | 0x2D :: r => digits r |>.map fun n => -(n : Int)
  | 0x2B :: r => digits r |>.map fun n => (n : Int)
  | r => digits r |>.map fun n => (n : Int)
where
  /-- The value of digits with underscores among them. -/
  digits (s : Bytes) : Option Nat :=
    if s.head?.any Bytes.isDigit && s.all (fun b => Bytes.isDigit b || b == 0x5F) then
      some (exponentValue (s.filter Bytes.isDigit))
    else none

/-- Whether every underscore stands between digits, a base mark counting as a digit.  `after` tells
what the byte before was. -/
def underscoresOk (isDigit : UInt8 → Bool) (afterDigit afterUnderscore : Bool) : Bytes → Bool
  | [] => !afterUnderscore
  | c :: r =>
    if isDigit c then underscoresOk isDigit true false r
    else if c == 0x5F then afterDigit && underscoresOk isDigit false true r
    else !afterUnderscore && underscoresOk isDigit false false r

/-- Reads a numeral without its sign: the magnitude of the nearest double. -/
def readMagnitude (s : Bytes) : Except NumeralError Nat :=
  let lower := s.map Bytes.lowerAscii
  let hexadecimal := 2 < s.length && (text "0x").isPrefixOf lower
  let body := if hexadecimal then s.drop 2 else s
  let base := if hexadecimal then 16 else 10
  let mark : UInt8 := if hexadecimal then 0x70 else 0x65
  let (m, rest) := readMantissa base {} body
  let isDigit := fun b => (digit? base b).isSome
  if m.size = 0 || !underscoresOk isDigit hexadecimal false body then .error .malformed
  else
    let exponent? : Option Int :=
      match rest with
      | [] => if hexadecimal then none else some 0
      | c :: r => if Bytes.lowerAscii c == mark then readExponent r else none
    match exponent? with
    | none => .error .malformed
    | some e =>
      let value := m.value base
      let b :=
        if hexadecimal then
          let e := e - 4 * m.fraction
          if value = 0 then 0
          else if 2000 < e then Double.infinite
          else if e + 4 * m.size < -2000 then 0
          else if 0 ≤ e then Double.nearest (value * Nat.pow 2 e.toNat) 1
          else Double.nearest value (Nat.pow 2 (-e).toNat)
        else Decimal.nearest value m.size (e - m.fraction)
      if b < Double.infinite then .ok b else .error .outOfRange

def read (s : Bytes) : Except NumeralError Float :=
  let (negative, body) : Bool × Bytes :=
    match s with
    | 0x2D :: r => (true, r)
    | 0x2B :: r => (false, r)
    | r => (false, r)
  let lower := body.map Bytes.lowerAscii
  if lower == text "inf" || lower == text "infinity" then
    .ok (Double.ofMagnitude negative Double.infinite)
  else if s.map Bytes.lowerAscii == text "nan" then .ok (Float.ofBits 0x7FF8000000000000)
  else (readMagnitude body).map (Double.ofMagnitude negative)

end JumpScript.Numeral
