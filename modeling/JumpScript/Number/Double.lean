import JumpScript.Text.Bytes

/-!
# Doubles as exact numbers

A finite double is `± m · 2^(k - 1074)` with natural `m` and `k`.  Dropping the sign, its bit
pattern is the number `k · 2^52 + m`, the *magnitude*: magnitudes order doubles by absolute value,
and the magnitude after the largest finite one is infinity.  Rounding a quotient of natural numbers
to the nearest magnitude is then plain arithmetic.
-/

namespace JumpScript.Double

/-- The weight of the sign in a bit pattern. -/
abbrev signBit : Nat := 0x8000000000000000

/-- The weight of the exponent in a bit pattern, and the least significand of a double that is not
subnormal. -/
abbrev leadingBit : Nat := 0x10000000000000

/-- The number of smallest doubles that make up one, `2^1074`. -/
def unitsPerOne : Nat := Nat.pow 2 1074

def infinite : Nat := 0x7FF0000000000000

/-- The bit pattern without its sign. -/
def magnitude (x : Float) : Nat := x.toBits.toNat % signBit

def isNegative (x : Float) : Bool := signBit ≤ x.toBits.toNat

/-- Whether a double is a number, and not an infinity. -/
def isFinite (x : Float) : Bool := magnitude x < infinite

def isNaN (x : Float) : Bool := infinite < magnitude x

def ofMagnitude (negative : Bool) (b : Nat) : Float :=
  Float.ofBits (UInt64.ofNat (if negative then signBit + b else b))

/-- The significand `m` of a finite magnitude. -/
def significand (b : Nat) : Nat := if b < leadingBit then b else b % leadingBit + leadingBit

/-- The exponent `k` of a finite magnitude, counted from `2^-1074`. -/
def exponent (b : Nat) : Nat := if b < leadingBit then 0 else b / leadingBit - 1

/-- A magnitude is made up of its exponent and its significand. -/
theorem exponent_significand (b : Nat) : exponent b * leadingBit + significand b = b := by
  unfold exponent significand leadingBit
  split <;> omega

/-- The value of a finite magnitude in units of `2^-1074`. -/
def units (b : Nat) : Nat := significand b * Nat.pow 2 (exponent b)

/-- The natural number nearest to a quotient; a half goes to the even neighbour. -/
def roundDiv (num den : Nat) : Nat :=
  let q := num / den
  let r := num % den
  if 2 * r < den then q
  else if den < 2 * r then q + 1
  else q + q % 2

/-- The magnitude nearest to a quotient, a half going to the even one.  Quotients too large for a
finite double give infinity. -/
def nearest (num den : Nat) : Nat :=
  let scaled := num * unitsPerOne
  let whole := scaled / den
  let k := if whole < 2 * leadingBit then 0 else whole.log2 - 52
  min infinite (k * leadingBit + roundDiv scaled (den * Nat.pow 2 k))

/-- The double nearest to an integer; a half goes to the even neighbour. -/
def ofInt (n : Int) : Float := ofMagnitude (n < 0) (nearest n.natAbs 1)

/-- The integer that a finite double is, cut off at its point, without its sign. -/
def truncated (x : Float) : Nat := units (magnitude x) / unitsPerOne

def isWhole (x : Float) : Bool := units (magnitude x) % unitsPerOne == 0

/-- The greatest integer that is at most a finite double. -/
def floor (x : Float) : Int :=
  if isNegative x then
    if isWhole x then -(truncated x : Int) else -(truncated x : Int) - 1
  else truncated x

def ceil (x : Float) : Int :=
  if isNegative x || isWhole x then
    if isNegative x then -(truncated x : Int) else truncated x
  else truncated x + 1

/-- The remainder of a division cut off at the point; it has the sign of the dividend. -/
def remainder (x y : Float) : Float :=
  if isNaN x || isNaN y || !isFinite x || magnitude y == 0 then Float.ofBits 0x7FF8000000000000
  else if !isFinite y then x
  else
    let r := units (magnitude x) % units (magnitude y)
    ofMagnitude (isNegative x) (nearest r unitsPerOne)

end JumpScript.Double
