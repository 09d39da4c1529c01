import JumpScript.Number.Double

/-!
# Logarithm and exponential

Both functions are sums of a few terms on a reduced argument, rounded step by step in a fixed order,
so each double has one answer, down to its last bit.  The logarithm splits a double into a power of
two and a factor near one; a subnormal double counts as the normal one with the same fraction and
the least exponent.  The exponential takes multiples of `log 2` away, halves what is left four
times, and squares the result four times.
-/

namespace JumpScript.Double

/-- A product `factor · 2^shift`. -/
structure Scaled where
  factor : Float
  shift : Int

/-- The value of a scaled double, rounded once. -/
def Scaled.value (s : Scaled) : Float :=
  if !isFinite s.factor || magnitude s.factor == 0 then s.factor
  else
    let u := units (magnitude s.factor)
    let e := s.shift - 1074
    let b :=
      if 2200 < e then infinite
      else if e < -4400 then 0
      else if 0 ≤ e then nearest (u * Nat.pow 2 e.toNat) 1
      else nearest u (Nat.pow 2 (-e).toNat)
    ofMagnitude (isNegative s.factor) b

/-- The value of a finite double in units of `2^-1074`, with its sign. -/
def signedUnits (x : Float) : Int :=
  let u : Int := units (magnitude x)
  if isNegative x then -u else u

/-- `x * y + z` for finite doubles, rounded once. -/
def fusedMulAdd (x y z : Float) : Float :=
  let sum := signedUnits x * signedUnits y + signedUnits z * (unitsPerOne : Int)
  ofMagnitude (sum < 0) (nearest sum.natAbs (unitsPerOne * unitsPerOne))

/-- The larger part of `log 2`; its products with small integers are exact. -/
def log2High : Float := Float.ofBits 0x3FE62E42FEE00000

/-- What `log2High` lacks of `log 2`. -/
def log2Low : Float := Float.ofBits 0x3DEA39EF35793C76

/-- Half the square root of two. -/
def halfRoot2 : Float := Float.ofBits 0x3FE6A09E667F3BCD

/-- The value of a polynomial at `x`, its coefficients given from the highest power down to the
constant. -/
def polynomial (x : Float) : List Float → Float
  | [] => 0
  | c :: cs => cs.foldl (fun acc c => c + x * acc) c

/-- The coefficients of the terms of odd place in the series of the logarithm. -/
def logOdd : List Float :=
  [Float.ofBits 0x3FC2F112DF3E5244, Float.ofBits 0x3FC7466496CB03DE,
    Float.ofBits 0x3FD2492494229359, Float.ofBits 0x3FE5555555555593]

/-- The coefficients of the terms of even place. -/
def logEven : List Float :=
  [Float.ofBits 0x3FC39A09D078C69F, Float.ofBits 0x3FCC71C51D8E78AF,
    Float.ofBits 0x3FD999999997FA04]

def logarithm (x : Float) : Float :=
  let b := magnitude x
  let near := ofMagnitude false (0x3FE0000000000000 + b % leadingBit)
  let shift := Float.ofInt ((b / leadingBit : Nat) - 1022)
  let low := !(halfRoot2 < near)
  let k := if low then shift - 1 else shift
  let f := (if low then near * 2 else near) - 1
  let s := f / (2 + f)
  let s2 := s * s
  let s4 := s2 * s2
  let r := s2 * polynomial s4 logOdd + s4 * polynomial s4 logEven
  let h := 0.5 * f * f
  k * log2High - ((h - (s * (h + r) + k * log2Low)) - f)

/-- The larger part of `log 2`, cut where its products with exponents are exact. -/
def exponentHigh : Float := Float.ofBits 0x3FE62E42FEFA3000

/-- What `exponentHigh` lacks of `log 2`. -/
def exponentLow : Float := Float.ofBits 0x3D53DE6AF278ECE6

/-- The quotient `1 / log 2`. -/
def perLog2 : Float := Float.ofBits 0x3FF71547652B82FE

/-- The coefficients `1/8!, 1/7!, …, 1/1!` of the series of the exponential without its first
term. -/
def expSeries : List Float :=
  [2.4801587301587301587e-5, 1.9841269841269841270e-4, 1.3888888888888888889e-3,
    8.3333333333333333333e-3, 4.1666666666666666667e-2, 1.6666666666666666667e-1, 0.5, 1.0]

/-- The integer nearest to a finite double, a half going to the even one. -/
def nearestInteger (x : Float) : Int :=
  let n : Int := roundDiv (units (magnitude x)) unitsPerOne
  if isNegative x then -n else n

def exponential (x : Float) : Float :=
  let n := nearestInteger (x * perLog2)
  let k := Float.ofInt (-n)
  let rest := fusedMulAdd exponentLow k (fusedMulAdd exponentHigh k x) * 0.0625
  let series :=
    match expSeries with
    | [] => 0
    | c :: cs => cs.foldl (fun acc c => fusedMulAdd acc rest c) c
  let square := fun (d : Float) => d * (d + 2)
  let d := square (square (square (rest * series)))
  (Scaled.mk (fusedMulAdd d (d + 2) 1) n).value

end JumpScript.Double
