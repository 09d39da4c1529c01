import JumpScript.Number.Radix
import JumpScript.Yaml.Basic

/-!
# What scalars mean

The text of a scalar is a number, a truth value, nothing, or else a string; its tag can ask for one
of these.  A string may be tagged as the base-64 form of some bytes.
-/

namespace JumpScript.Yaml

/-- What a scalar means. -/
inductive Meaning where
  | nothing
  | bool (b : Bool)
  | int (n : Int64)
  /-- An integer beyond the signed range, within 64 bits. -/
  | large (n : Nat)
  | float (x : Float)
  | moment
  | string (s : Bytes)

def Meaning.tag : Meaning → Bytes
  | .nothing => text "!!null"
  | .bool _ => text "!!bool"
  | .int _ => text "!!int"
  | .large _ => text "!!int"
  | .float _ => text "!!float"
  | .moment => text "!!timestamp"
  | .string _ => text "!!str"

/-- Reads a number of one or two digits, within bounds. -/
def readSmall (low high : Nat) (s : Bytes) : Option Bytes :=
  let ds := (s.takeWhile Bytes.isDigit).take 2
  if ds.isEmpty then none
  else if low ≤ Bytes.numeral ds ∧ Bytes.numeral ds ≤ high then some (s.drop ds.length)
  else none

def readByte (b : UInt8) : Bytes → Option Bytes
  | c :: r => if c == b then some r else none
  | [] => none

def daysOf (year month : Nat) : Nat :=
  if month = 2 then
    if year % 4 = 0 ∧ (year % 100 ≠ 0 ∨ year % 400 = 0) then 29 else 28
  else if [4, 6, 9, 11].contains month then 30
  else 31

/-- Reads a date: a year of four digits, a month and a day. -/
def readDate (s : Bytes) : Option Bytes := do
  let year := s.takeWhile Bytes.isDigit
  if year.length ≠ 4 then none
  else
    let s ← readByte 0x2D (s.drop 4)
    let month := Bytes.numeral ((s.takeWhile Bytes.isDigit).take 2)
    let s ← readByte 0x2D (← readSmall 1 12 s)
    readSmall 1 (daysOf (Bytes.numeral year) month) s

/-- Reads the time of a day, with an optional fraction of its seconds. -/
def readClock (s : Bytes) : Option Bytes := do
  let s ← readByte 0x3A (← readSmall 0 23 s)
  let s ← readByte 0x3A (← readSmall 0 59 s)
  let s ← readSmall 0 59 s
  match s with
  | c :: d :: r =>
    if (c == 0x2E || c == 0x2C) && Bytes.isDigit d then return r.dropWhile Bytes.isDigit
    else return s
  | _ => return s

/-- Whether a text is the distance of a time zone from universal time. -/
def isZone : Bytes → Bool
  | [0x5A] => true
  | [sign, a, b, colon, c, d] =>
    (sign == 0x2B || sign == 0x2D) && colon == 0x3A && [a, b, c, d].all Bytes.isDigit
      && Bytes.numeral [a, b] ≤ 24 && Bytes.numeral [c, d] ≤ 60
  | _ => false

/-- Whether a text is a date, alone or with a time after it: with a zone after a `T`, and without
one after a space. -/
def isMoment (s : Bytes) : Bool :=
  match readDate s with
  | none => false
  | some [] => true
  | some (0x20 :: r) => (readClock (r.dropWhile (· == 0x20))).any (·.isEmpty)
  | some (c :: r) => (c == 0x54 || c == 0x74) && (readClock r).any isZone

def isOneOf (words : List String) (b : Bytes) : Bool := words.any fun w => text w == b

/-- Whether a text is the exponent of a decimal numeral, or nothing. -/
def isExponent : Bytes → Bool
  | [] => true
  | e :: r => Bytes.lowerAscii e == 0x65 && Integer.isDigits (Radix.sign r).2.2

/-- Whether a text is a decimal numeral, with an optional sign, point and exponent. -/
def isDecimal (b : Bytes) : Bool :=
  let (whole, r) := (Radix.sign b).2.2.span Bytes.isDigit
  match r with
  | 0x2E :: t =>
    let (fraction, t) := t.span Bytes.isDigit
    !(whole.isEmpty && fraction.isEmpty) && isExponent t
  | _ => !whole.isEmpty && isExponent r

/-- Reads digits of a base with an optional sign. -/
def readBase (base : Nat) (s : Bytes) : Option Meaning :=
  let (negative, signed, ds) := Radix.sign s
  if ds.isEmpty || ds.contains 0x5F then none
  else
    match Radix.readDigits base 0 ds with
    | .error _ => none
    | .ok n =>
      match Integer.narrow (if negative then -(n : Int) else n) with
      | .ok i => some (.int i)
      | .error _ => if signed then none else some (.large n)

/-- Reads what follows the mark of base two or eight, as far as the sign may stand after the mark
too. -/
def readMarked (s : Bytes) : Option Meaning :=
  match s with
  | 0x30 :: 0x62 :: r => readBase 2 r
  | 0x2D :: 0x30 :: 0x62 :: r => readBase 2 (0x2D :: r)
  | 0x30 :: 0x6F :: r => readBase 8 r
  | 0x2D :: 0x30 :: 0x6F :: r => readBase 8 (0x2D :: r)
  | _ => none

/-- The number that a text without underscores is: an integer literal, or else a decimal
numeral. -/
def number? (s : Bytes) : Option Meaning :=
  match Radix.read s with
  | .ok n => some (.int n)
  | .error _ =>
    let decimal := if isDecimal s then (Numeral.read s).toOption.map Meaning.float else none
    match Radix.magnitude s with
    | .ok n => some (.large n)
    | .error _ => decimal.or (readMarked s)

/-- What a text means by itself.  A moment is looked for only if `moments` says so. -/
def meaningOf (moments : Bool) (s : Bytes) : Meaning :=
  if s.isEmpty || isOneOf ["~", "null", "Null", "NULL"] s then .nothing
  else if isOneOf ["true", "True", "TRUE"] s then .bool true
  else if isOneOf ["false", "False", "FALSE"] s then .bool false
  else if isOneOf [".nan", ".NaN", ".NAN"] s then .float (Float.ofBits 0x7FF8000000000001)
  else if isOneOf [".inf", ".Inf", ".INF", "+.inf", "+.Inf", "+.INF"] s then
    .float (Double.ofMagnitude false Double.infinite)
  else if isOneOf ["-.inf", "-.Inf", "-.INF"] s then
    .float (Double.ofMagnitude true Double.infinite)
  else
    let c := s.headD 0
    if c == 0x2E then ((Numeral.read s).toOption.map Meaning.float).getD (.string s)
    else if Bytes.isDigit c || c == 0x2B || c == 0x2D then
      if moments && isMoment s then .moment
      else (number? (s.filter (· != 0x5F))).getD (.string s)
    else .string s

def sextet? (b : UInt8) : Option Nat :=
  if 0x41 ≤ b && b ≤ 0x5A then some (b.toNat - 0x41)
  else if 0x61 ≤ b && b ≤ 0x7A then some (b.toNat - 0x61 + 26)
  else if Bytes.isDigit b then some (Bytes.digitValue b + 52)
  else if b == 0x2B then some 62
  else if b == 0x2F then some 63
  else none

/-- The bytes of a base-64 text in groups of four digits, the last one filled up with equals
signs. -/
def readGroups : Bytes → Option Bytes
  | [] => some []
  | [a, b, 0x3D, 0x3D] => do
    let x ← sextet? a
    let y ← sextet? b
    return [UInt8.ofNat (4 * x + y / 16)]
  | [a, b, c, 0x3D] => do
    let x ← sextet? a
    let y ← sextet? b
    let z ← sextet? c
    return [UInt8.ofNat (4 * x + y / 16), UInt8.ofNat (y % 16 * 16 + z / 4)]
  | a :: b :: c :: d :: r => do
    let x ← sextet? a
    let y ← sextet? b
    let z ← sextet? c
    let w ← sextet? d
    let more ← readGroups r
    return UInt8.ofNat (4 * x + y / 16) :: UInt8.ofNat (y % 16 * 16 + z / 4)
      :: UInt8.ofNat (z % 4 * 64 + w) :: more
  | _ => none

/-- The bytes of a base-64 text; line ends do not count. -/
def readBase64 (s : Bytes) : Option Bytes :=
  readGroups (s.filter fun b => b != 0x0A && b != 0x0D)

namespace Scalar

/-- Whether a tag names one of the kinds that texts can be of. -/
def isResolved (tag : Bytes) : Bool :=
  isOneOf ["!!bool", "!!int", "!!float", "!!null", "!!timestamp"] tag

/-- What a scalar means; absent if its text does not fit its tag.  An integer can be tagged as a
floating-point number, and a tag of some other kind makes a string. -/
def meaning? (s : Scalar) : Option Meaning :=
  match s.tag with
  | .implicit => some (meaningOf true s.body)
  | .string | .merge => some (.string s.body)
  | .named tag =>
    if tag == text "!!binary" then (readBase64 s.body).map .string
    else if !isResolved tag then some (.string s.body)
    else
      let m := meaningOf (tag == text "!!timestamp") s.body
      if m.tag == tag then some m
      else
        match m with
        | .int n => if tag == text "!!float" then some (.float (Float.ofInt n.toInt)) else none
        | _ => none

/-- Whether a scalar stands for mappings to be merged in. -/
def isMerge (s : Scalar) : Bool :=
  s.body == text "<<" && (s.tag == .merge || s.tag == .named (text "!!merge"))

end Scalar

namespace Meaning

/-- The text of a scalar of some meaning: a string as it was decoded, and anything else as it was
written. -/
def textOr (m : Meaning) (body : Bytes) : Bytes :=
  match m with
  | .string s => s
  | _ => body

/-- The truth value that is meant; some strings count as one. -/
def bool? : Meaning → Option Bool
  | .bool b => some b
  | .string s =>
    if isOneOf ["y", "Y", "yes", "Yes", "YES", "on", "On", "ON"] s then some true
    else if isOneOf ["n", "N", "no", "No", "NO", "off", "Off", "OFF"] s then some false
    else none
  | _ => none

/-- The 64-bit integer that a number is taken for: cut off at its point, and the least integer for a
number that is below the range or just above it. -/
def ofFloat (x : Float) : Option Int64 :=
  if Double.isNaN x then none
  else if !Double.isFinite x then
    if Double.isNegative x then some (Int64.ofInt Integer.least) else none
  else
    let n : Int := if Double.isNegative x then -(Double.truncated x : Int) else Double.truncated x
    if Integer.greatest + 1 < n then none
    else if Integer.least ≤ n ∧ n ≤ Integer.greatest then some (Int64.ofInt n)
    else some (Int64.ofInt Integer.least)

/-- The integer that is meant; a floating-point number is cut off. -/
def int? : Meaning → Option Int64
  | .int n => some n
  | .float x => ofFloat x
  | _ => none

end Meaning

end JumpScript.Yaml
