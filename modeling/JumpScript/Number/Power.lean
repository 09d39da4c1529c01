import JumpScript.Number.Exponential

/-!
# Powers

Powers of integers wrap around at 64 bits.  Powers of doubles are products of repeated squares with
the powers of two kept apart, so that nothing overflows before the result does; what a fractional
exponent adds is the exponential of a multiple of the logarithm.
-/

namespace JumpScript

namespace Integer

/-- `result * base ^ n` by squaring, modulo `2^64`. -/
def powerFrom (result base : Int64) (n : Nat) : Int64 :=
  if n = 0 then result
  else powerFrom (if n % 2 = 1 then result * base else result) (base * base) (n / 2)
termination_by n

/-- `base ^ n` modulo `2^64`. -/
def power (base : Int64) (n : Nat) : Int64 := powerFrom 1 base n

end Integer

namespace Double

/-- A finite double other than zero as a factor of size between one half and one, and a shift. -/
def split (x : Float) : Scaled :=
  let m := significand (magnitude x)
  let size := m.log2 + 1
  let shift : Int := (exponent (magnitude x) : Int) - 1074 + size
  ⟨ofMagnitude (isNegative x) (nearest m (Nat.pow 2 size)), shift⟩

/-- Multiplies `acc` by the `n`-th power of `base`, whose factor is kept at one half or more. -/
def powerFrom (acc base : Scaled) (n : Nat) : Scaled :=
  if n = 0 then acc
  else if base.shift < -4096 || 4096 < base.shift then
    { acc with shift := acc.shift + base.shift }
  else
    let acc := if n % 2 = 1 then ⟨acc.factor * base.factor, acc.shift + base.shift⟩ else acc
    let square := base.factor * base.factor
    let base : Scaled :=
      if square < 0.5 then ⟨square + square, 2 * base.shift - 1⟩ else ⟨square, 2 * base.shift⟩
    powerFrom acc base (n / 2)
termination_by n

def isOdd (x : Float) : Bool := isFinite x && isWhole x && truncated x % 2 == 1

/-- The fraction of a finite double, without its sign. -/
def fraction (x : Float) : Float :=
  ofMagnitude false (nearest (units (magnitude x) % unitsPerOne) unitsPerOne)

def infinity : Float := ofMagnitude false infinite

def notNumber : Float := Float.ofBits 0x7FF8000000000000

/-- A power whose exponent is too large for the size of the base to matter. -/
def extremePower (x : Float) (growing : Bool) : Float :=
  if x == -1 then 1 else if (x.abs < 1) == growing then 0 else infinity

/-- `x ^ y` for finite `x` other than zero and finite `y` other than zero. -/
def finitePower (x y : Float) : Float :=
  let whole := truncated y
  let part := fraction y
  if part != 0 && x < 0 then notNumber
  else if signBit ≤ whole then extremePower x (0 < y)
  else
    let up := 0.5 < part
    let part := if up then part - 1 else part
    let whole := if up then whole + 1 else whole
    let start := if part != 0 then exponential (part * logarithm x) else 1
    let p := powerFrom ⟨start, 0⟩ (split x) whole
    let p : Scaled := if y < 0 then ⟨1 / p.factor, -p.shift⟩ else p
    p.value

/-- `x ^ y` with the usual conventions for zeros, infinities and NaN. -/
def power (x y : Float) : Float :=
  if y == 0 || x == 1 then 1
  else if y == 1 then x
  else if isNaN x || isNaN y then notNumber
  else if x == 0 then
    let odd := isNegative x && isOdd y
    if y < 0 then if odd then -infinity else infinity
    else if odd then x else 0
  else if !isFinite y then extremePower x (0 < y)
  else if !isFinite x then
    if isNegative x then
      if y < 0 then if isOdd y then -0.0 else 0
      else if isOdd y then -infinity else infinity
    else if y < 0 then 0 else infinity
  else if y == 0.5 then x.sqrt
  else if y == -0.5 then 1 / x.sqrt
  else finitePower x y

end Double

end JumpScript
