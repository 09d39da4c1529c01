/-!
# Text as bytes

Scripts, names and strings are sequences of bytes: nothing requires them to be valid UTF-8.  This
module holds the operations every other part builds on: literals, decimal and hexadecimal numerals,
searching, cutting, splitting and joining.

The law behind searching is `Bytes.eq_of_cut?`: a cut text is what stood before the separator, the
separator, and what stood after it.
-/

namespace JumpScript

/-- A text of the language: bytes, UTF-8 or not. -/
abbrev Bytes := List UInt8

def text (s : String) : Bytes := s.toUTF8.data.toList

namespace Bytes

/-- The byte of a decimal digit; values above nine do not occur. -/
def digit (n : Nat) : UInt8 := UInt8.ofNat (48 + n)

/-- The decimal numeral of a natural number, without leading zeros. -/
def ofNat (n : Nat) : Bytes :=
  if n < 10 then [digit n] else ofNat (n / 10) ++ [digit (n % 10)]
termination_by n

/-- The decimal numeral of an integer, a minus sign in front of a negative one. -/
def ofInt (n : Int) : Bytes :=
  if n < 0 then 0x2D :: ofNat n.natAbs else ofNat n.natAbs

/-- The lower-case hexadecimal digit of a value below sixteen. -/
def hexDigit (n : Nat) : UInt8 :=
  if n < 10 then UInt8.ofNat (48 + n) else UInt8.ofNat (87 + n)

/-- The last `width` hexadecimal digits of a number. -/
def hex : (width : Nat) → Nat → Bytes
  | 0, _ => []
  | w + 1, n => hex w (n / 16) ++ [hexDigit (n % 16)]

def isDigit (b : UInt8) : Bool := 0x30 ≤ b && b ≤ 0x39

def digitValue (b : UInt8) : Nat := b.toNat - 48

/-- The value of a hexadecimal digit of either case. -/
def hexValue? (b : UInt8) : Option Nat :=
  if 0x30 ≤ b && b ≤ 0x39 then some (b.toNat - 0x30)
  else if 0x61 ≤ b && b ≤ 0x66 then some (b.toNat - 0x57)
  else if 0x41 ≤ b && b ≤ 0x46 then some (b.toNat - 0x37)
  else none

/-- An ASCII letter in lower case; any other byte unchanged. -/
def lowerAscii (b : UInt8) : UInt8 := if 0x41 ≤ b && b ≤ 0x5A then b + 32 else b

def fill (n : Nat) (b : UInt8) : Bytes := List.replicate n b

/-- The text before the first occurrence of `sep` and the text after it. -/
def cut? (sep : Bytes) : Bytes → Option (Bytes × Bytes)
  | [] => if sep.isEmpty then some ([], []) else none
  | c :: r =>
    if sep.isPrefixOf (c :: r) then some ([], (c :: r).drop sep.length)
    else (cut? sep r).map fun p => (c :: p.1, p.2)

def includes (s sub : Bytes) : Bool := (cut? sub s).isSome

/-- A found separator and its two sides make up the text. -/
theorem eq_of_cut? {sep s a b : Bytes} (h : cut? sep s = some (a, b)) : s = a ++ sep ++ b := by
  induction s generalizing a b with
  | nil =>
    simp only [cut?] at h
    split at h
    · obtain ⟨rfl, rfl⟩ := by simpa using h
      simp_all
    · simp at h
  | cons c r ih =>
    simp only [cut?] at h
    split at h
    · rename_i hp
      obtain ⟨rfl, rfl⟩ := by simpa using h
      obtain ⟨t, ht⟩ := List.isPrefixOf_iff_prefix.1 hp
      rw [← ht]
      simp
    · obtain ⟨⟨a', b'⟩, hc, he⟩ := Option.map_eq_some_iff.1 h
      obtain ⟨rfl, rfl⟩ := by simpa using he
      simp [ih hc]

/-- What follows a non-empty separator is shorter than the text it was found in. -/
theorem length_lt_of_cut? {sep s a b : Bytes} (hs : sep ≠ [])
    (h : cut? sep s = some (a, b)) : b.length < s.length := by
  have := List.length_pos_iff.2 hs
  rw [eq_of_cut? h]
  simp
  omega

/-- The pieces between the occurrences of a separator; the whole text when the separator is
empty. -/
def splitOn (sep s : Bytes) : List Bytes :=
  if hs : sep = [] then [s]
  else
    match h : cut? sep s with
    | none => [s]
    | some (a, b) =>
      have := length_lt_of_cut? hs h
      a :: splitOn sep b
termination_by s.length

/-- The pieces written one after another with `sep` between them. -/
def join (sep : Bytes) : List Bytes → Bytes
  | [] => []
  | [p] => p
  | p :: q :: r => p ++ sep ++ join sep (q :: r)

/-- The text without one given ending. -/
def dropSuffix (suffix s : Bytes) : Bytes :=
  if suffix.isSuffixOf s then s.take (s.length - suffix.length) else s

/-- The text without the bytes at its end that satisfy `p`. -/
def dropWhileEnd (p : UInt8 → Bool) (s : Bytes) : Bytes :=
  (s.reverse.dropWhile p).reverse

/-- The first line of a text with its newline, and the rest. -/
def takeLine : Bytes → Bytes × Bytes
  | [] => ([], [])
  | c :: r =>
    if c == 0x0A then ([c], r)
    else
      let (line, rest) := takeLine r
      (c :: line, rest)

/-- Bytewise lexicographic order. -/
def lt : Bytes → Bytes → Bool
  | _, [] => false
  | [], _ :: _ => true
  | a :: s, b :: t => a < b || (a == b && lt s t)

end Bytes

end JumpScript
