import JumpScript.Locale.Signs
import JumpScript.Number.Double

/-!
# Numbers by locale

A locale says how a number is written: its signs, its digits, how large the groups of digits are,
and how many digits a fraction has at most.  A fraction is rounded from the exact value with halves
to even, and has no zeros at its end.
-/

namespace JumpScript

/-- How a locale writes numbers. -/
structure Locale where
  signs : NumberSigns
  /-- The size of the groups after the last one, which has three digits; zero for no groups. -/
  group : Nat := 3
  /-- The code point of the digit zero. -/
  zero : Nat := 0x30
  /-- The most digits of a fraction. -/
  places : Nat := 3
  deriving DecidableEq, Repr

namespace Locale

/-- The digits of the locale for ASCII digits. -/
def digits (l : Locale) (ds : Bytes) : Bytes :=
  ds.flatMap fun d => Utf8.encode (l.zero + Bytes.digitValue d)

/-- Cuts a reversed digit sequence into groups, the first of `size` digits and the others as the
locale has them. -/
def groups (l : Locale) (size : Nat) (ds : Bytes) : List Bytes :=
  if _h : ds.length ≤ size ∨ size = 0 ∨ l.group = 0 then [ds]
  else ds.take size :: groups l l.group (ds.drop size)
termination_by ds.length
decreasing_by simp; omega

/-- A natural number with marks between its groups. -/
def whole (l : Locale) (n : Nat) : Bytes :=
  let gs := l.groups 3 (Bytes.ofNat n).reverse
  Bytes.join l.signs.mark ((gs.map fun g => l.digits g.reverse).reverse)

/-- A number counted in units of its last place, without zeros at the end of its fraction. -/
def fixed (l : Locale) (n : Nat) : Bytes :=
  let one := Nat.pow 10 l.places
  let fraction := Bytes.dropWhileEnd (· == 0x30) ((Bytes.ofNat (one + n % one)).drop 1)
  l.whole (n / one) ++ (if fraction.isEmpty then [] else l.signs.point ++ l.digits fraction)

def writeInt (l : Locale) (n : Int) : Bytes :=
  (if n < 0 then l.signs.minus else []) ++ l.whole n.natAbs

/-- A double.  The sign stays when a small number is rounded to zero, but zero itself has none. -/
def writeFloat (l : Locale) (x : Float) : Bytes :=
  if Double.isNaN x then l.signs.notNumber
  else
    let sign := if Double.isNegative x && Double.magnitude x != 0 then l.signs.minus else []
    if !Double.isFinite x then sign ++ l.signs.infinity
    else
      let units := Double.units (Double.magnitude x)
      sign ++ l.fixed (Double.roundDiv (units * Nat.pow 10 l.places) Double.unitsPerOne)

end Locale

end JumpScript
