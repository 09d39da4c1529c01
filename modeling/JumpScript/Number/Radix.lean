import JumpScript.Number.Numeral

/-!
# Integer literals in several bases

A literal is an optional sign, a mark of the base and digits.  `0x`, `0o` and `0b` mark bases
sixteen, eight and two, a leading zero alone marks base eight, and without a mark the base is ten.
Underscores may stand between digits, and between a mark and the first digit.
-/

namespace JumpScript.Radix

/-- The first number that 64 bits do not hold. -/
def bound : Nat := 0x10000000000000000

/-- Takes digits into a number.  A number beyond 64 bits is refused as soon as it is reached,
whatever follows. -/
def readDigits (base : Nat) : (n : Nat) → Bytes → Except NumeralError Nat
  | n, [] => .ok n
  | n, c :: r =>
    if c == 0x5F then readDigits base n r
    else
      match Numeral.digit? base c with
      | none => .error .malformed
      | some d =>
        if bound ≤ n * base + d then .error .outOfRange else readDigits base (n * base + d) r

/-- The base of a literal without sign, its digits, and whether a mark with a letter came before
them. -/
def mark : Bytes → Nat × Bytes × Bool
  | 0x30 :: c :: d :: r =>
    let letter := Bytes.lowerAscii c
    if letter == 0x78 then (16, d :: r, true)
    else if letter == 0x6F then (8, d :: r, true)
    else if letter == 0x62 then (2, d :: r, true)
    else (8, c :: d :: r, false)
  | 0x30 :: r => (8, r, false)
  | s => (10, s, false)

/-- Reads a literal without sign. -/
def magnitude (s : Bytes) : Except NumeralError Nat :=
  if s.isEmpty then .error .malformed
  else do
    let (base, digits, marked) := mark s
    let n ← readDigits base 0 digits
    let isDigit := fun b => (Numeral.digit? (max base 10) b).isSome
    if Numeral.underscoresOk isDigit marked false (if marked then digits else s) then .ok n
    else .error .malformed

/-- Cuts the sign off a literal: whether it is negative, whether there is one at all, and the rest.
-/
def sign : Bytes → Bool × Bool × Bytes
  | 0x2D :: r => (true, true, r)
  | 0x2B :: r => (false, true, r)
  | r => (false, false, r)

def read (s : Bytes) : Except NumeralError Int64 := do
  let (negative, _, r) := sign s
  let n ← magnitude r
  Integer.narrow (if negative then -(n : Int) else n)

end JumpScript.Radix
