import JumpScript.Number.Double
import JumpScript.Number.Positional

/-!
# Decimal numerals of doubles

A decimal is a digit sequence with the place of its point.  Every finite double has a shortest
decimal: the fewest digits that still read back as the same double and, among those, the nearest to
it.  The search below tries one digit, two digits, and so on, and tests a candidate by reading it
back, so a decimal it returns reads back by construction.
-/

namespace JumpScript

/-- The number `0.d₁d₂d₃… · 10^point`, digits as ASCII. -/
structure Decimal where
  digits : Bytes
  point : Int
  deriving DecidableEq, Repr

namespace Decimal

/-- The magnitude nearest to `n · 10^e`, where `n` has at most `size` digits. -/
def nearest (n size : Nat) (e : Int) : Nat :=
  if n = 0 then 0
  else if 400 < e then Double.infinite
  else if e + size < -400 then 0
  else if 0 ≤ e then Double.nearest (n * Nat.pow 10 e.toNat) 1
  else Double.nearest n (Nat.pow 10 (-e).toNat)

/-- The decimal of `n · 10^e` without zeros at its end. -/
def ofScaled (n : Nat) (e : Int) : Decimal :=
  let all := Bytes.ofNat n
  ⟨all.reverse.dropWhile (· == 0x30) |>.reverse, all.length + e⟩

/-- The candidate with `n` digits for a magnitude whose whole part has `places` digits: the
neighbour on the grid `10^(places - n)` that reads back, the nearer one if both do, the even one on
a tie. -/
def candidate? (b : Nat) (places : Int) (n : Nat) : Option Decimal :=
  let e := places - n
  let num := Double.units b
  let den := Double.unitsPerOne
  let num := if e < 0 then num * Nat.pow 10 (-e).toNat else num
  let den := if e < 0 then den else den * Nat.pow 10 e.toNat
  let low := num / den
  let below := nearest low (n + 1) e == b
  let above := nearest (low + 1) (n + 1) e == b
  if below && above then
    some (ofScaled (Double.roundDiv num den) e)
  else if below then some (ofScaled low e)
  else if above then some (ofScaled (low + 1) e)
  else none

/-- The number of digits before the point of a positive finite magnitude, negative when zeros follow
the point. -/
def places (b : Nat) : Int :=
  ((Bytes.ofNat (Double.units b * Nat.pow 10 400 / Double.unitsPerOne)).length : Int) - 400

/-- Tries `fuel` digit counts from `n` on and falls back on the exact expansion. -/
def search (b : Nat) (p : Int) : (fuel : Nat) → (n : Nat) → Decimal
  | 0, _ => ofScaled (Double.units b * Nat.pow 5 1074) (-1074)
  | fuel + 1, n => (candidate? b p n).getD (search b p fuel (n + 1))

/-- The shortest decimal of a finite magnitude; zero has no digits. -/
def shortest (b : Nat) : Decimal :=
  if b = 0 then ⟨[], 0⟩ else search b (places b) 17 1

/-- The decimal written with a point where it stands, and no exponent. -/
def positional (d : Decimal) : Bytes :=
  if d.digits.isEmpty then text "0"
  else if d.point ≤ 0 then text "0." ++ Bytes.fill (-d.point).toNat 0x30 ++ d.digits
  else if d.digits.length ≤ d.point then
    d.digits ++ Bytes.fill (d.point.toNat - d.digits.length) 0x30
  else d.digits.take d.point.toNat ++ [0x2E] ++ d.digits.drop d.point.toNat

/-- The decimal written as one digit, a fraction and an exponent of at least `width` digits. -/
def scientific (width : Nat) (d : Decimal) : Bytes :=
  let lead := d.digits.take 1
  let fraction := d.digits.drop 1
  let e := d.point - 1
  let size := Bytes.ofNat e.natAbs
  lead ++ (if fraction.isEmpty then [] else 0x2E :: fraction) ++ [0x65]
    ++ [if e < 0 then 0x2D else 0x2B] ++ Bytes.fill (width - size.length) 0x30 ++ size

end Decimal

namespace Double

/-- A sign, and the decimal laid out by `layout`; infinities and NaN have names. -/
def write (layout : Decimal → Bytes) (x : Float) : Bytes :=
  if isNaN x then text "NaN"
  else if !isFinite x then if isNegative x then text "-Inf" else text "+Inf"
  else (if isNegative x then [0x2D] else []) ++ layout (Decimal.shortest (magnitude x))

/-- The shortest numeral without an exponent. -/
def plain (x : Float) : Bytes := write Decimal.positional x

/-- The shortest numeral; an exponent is used below `10^-4` and from `10^6` on. -/
def compact (x : Float) : Bytes :=
  write (fun d =>
    if !d.digits.isEmpty && (d.point - 1 < -4 || 6 ≤ d.point - 1) then d.scientific 2
    else d.positional) x

/-- The shortest numeral; an exponent is used below `10^-6` and from `10^21` on. -/
def interchange (x : Float) : Bytes :=
  write (fun d =>
    if !d.digits.isEmpty && (d.point - 1 < -6 || 21 ≤ d.point - 1) then d.scientific 1
    else d.positional) x

end Double

end JumpScript
