import JumpScript.Text.Bytes

/-!
# UTF-8

A text is read as a sequence of symbols: spelled code points, and stray bytes where no code point is
spelled (surrogates and overlong spellings included).  Cutting a text into symbols loses nothing:
`Utf8.spell_symbols`.
-/

namespace JumpScript.Utf8

/-- The code point that stands in for a stray byte. -/
def replacement : Nat := 0xFFFD

/-- Whether a byte can continue a spelling. -/
def isTail (b : UInt8) : Bool := 0x80 ≤ b && b ≤ 0xBF

/-- The lowest and highest byte that may follow a given first byte of a three- or four-byte
spelling; the narrow ranges keep out overlong spellings, surrogates and values above `10FFFF`. -/
def secondRange (a : UInt8) : UInt8 × UInt8 :=
  if a == 0xE0 then (0xA0, 0xBF)
  else if a == 0xED then (0x80, 0x9F)
  else if a == 0xF0 then (0x90, 0xBF)
  else if a == 0xF4 then (0x80, 0x8F)
  else (0x80, 0xBF)

/-- Whether `b` may follow the first byte `a`. -/
def isSecond (a b : UInt8) : Bool := (secondRange a).1 ≤ b && b ≤ (secondRange a).2

/-- The code point that a text begins with and the number of bytes that its spelling has after the
first. -/
def leading? : Bytes → Option (Nat × Nat)
  | [] => none
  | a :: r =>
    if a < 0x80 then some (a.toNat, 0)
    else if a < 0xC2 then none
    else if a < 0xE0 then
      match r with
      | b :: _ => if isTail b then some ((a.toNat % 32) * 64 + b.toNat % 64, 1) else none
      | _ => none
    else if a < 0xF0 then
      match r with
      | b :: c :: _ =>
        if isSecond a b && isTail c then
          some ((a.toNat % 16) * 4096 + (b.toNat % 64) * 64 + c.toNat % 64, 2)
        else none
      | _ => none
    else if a < 0xF5 then
      match r with
      | b :: c :: d :: _ =>
        if isSecond a b && isTail c && isTail d then
          some ((a.toNat % 8) * 262144 + (b.toNat % 64) * 4096 + (c.toNat % 64) * 64
            + d.toNat % 64, 3)
        else none
      | _ => none
    else none

/-- A part of a text: a code point with its spelling, or a stray byte. -/
inductive Symbol where
  | spelled (point : Nat) (spelling : Bytes)
  | stray (byte : UInt8)
  deriving DecidableEq, Repr

def Symbol.bytes : Symbol → Bytes
  | .spelled _ s => s
  | .stray b => [b]

/-- The code point of a symbol, if it spells one. -/
def Symbol.point : Symbol → Option Nat
  | .spelled c _ => some c
  | .stray _ => none

/-- The symbols of a text, in order. -/
def symbols : Bytes → List Symbol
  | [] => []
  | a :: r =>
    match leading? (a :: r) with
    | some (c, n) => .spelled c (a :: r.take n) :: symbols (r.drop n)
    | none => .stray a :: symbols r
termination_by s => s.length
decreasing_by all_goals simp; try omega

/-- The symbols of a text spell it. -/
theorem spell_symbols (s : Bytes) : (symbols s).flatMap Symbol.bytes = s := by
  fun_induction symbols s with
  | case1 => rfl
  | case2 a r c n _ ih => simp [Symbol.bytes, ih]
  | case3 a r _ ih => simp [Symbol.bytes, ih]

/-- Whether a text spells code points only. -/
def isValid (s : Bytes) : Bool := (symbols s).all (·.point.isSome)

/-- The spelling of a code point; what is not one is spelled as the replacement. -/
def encode (c : Nat) : Bytes :=
  if c < 0x80 then [UInt8.ofNat c]
  else if c < 0x800 then [UInt8.ofNat (0xC0 + c / 64), UInt8.ofNat (0x80 + c % 64)]
  else if (0xD800 ≤ c && c < 0xE000) || 0x10FFFF < c then [0xEF, 0xBF, 0xBD]
  else if c < 0x10000 then
    [UInt8.ofNat (0xE0 + c / 4096), UInt8.ofNat (0x80 + c / 64 % 64), UInt8.ofNat (0x80 + c % 64)]
  else
    [UInt8.ofNat (0xF0 + c / 262144), UInt8.ofNat (0x80 + c / 4096 % 64),
      UInt8.ofNat (0x80 + c / 64 % 64), UInt8.ofNat (0x80 + c % 64)]

end JumpScript.Utf8
