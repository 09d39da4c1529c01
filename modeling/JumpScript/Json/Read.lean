import JumpScript.Json.Basic

/-!
# Reading JSON

A text is read as code points, a stray byte counting as the replacement.  The first document of a
text is read and what follows it is not looked at.  Of members with the same key the last one
counts.  Documents nest down to a fixed number of levels, which also bounds the recursion.
-/

namespace JumpScript.Json

/-- Code points still to be read. -/
abbrev Points := List Nat

def points (s : Bytes) : Points := (Utf8.symbols s).map fun u => u.point.getD Utf8.replacement

def word (s : String) : Points := s.toList.map Char.toNat

def skip (s : Points) : Points :=
  s.dropWhile fun c => c == 0x20 || c == 0x09 || c == 0x0A || c == 0x0D

/-- What follows a word. -/
def after? (w s : Points) : Option Points :=
  if w.isPrefixOf s then some (s.drop w.length) else none

def hexDigit? (c : Nat) : Option Nat := if c < 0x80 then Bytes.hexValue? (UInt8.ofNat c) else none

/-- The code point that a letter after a backslash stands for. -/
def escaped? (c : Nat) : Option Nat :=
  if c == 0x22 || c == 0x5C || c == 0x2F then some c
  else if c == 0x62 then some 0x08
  else if c == 0x66 then some 0x0C
  else if c == 0x6E then some 0x0A
  else if c == 0x72 then some 0x0D
  else if c == 0x74 then some 0x09
  else none

/-- Reads the rest of a string up to its closing quote.  Escapes by number give the halves of a code
point one by one. -/
def readString : Points → Option (Points × Points)
  | [] => none
  | 0x5C :: 0x75 :: a :: b :: c :: d :: r => do
    let n := 4096 * (← hexDigit? a) + 256 * (← hexDigit? b) + 16 * (← hexDigit? c) + (← hexDigit? d)
    let (cs, rest) ← readString r
    return (n :: cs, rest)
  | 0x5C :: e :: r => do
    let n ← escaped? e
    let (cs, rest) ← readString r
    return (n :: cs, rest)
  | c :: r =>
    if c == 0x22 then some ([], r)
    else if c < 0x20 || c == 0x5C then none
    else do
      let (cs, rest) ← readString r
      return (c :: cs, rest)

/-- Whether a number is the first half of a code point above `FFFF`. -/
def isHigh (c : Nat) : Bool := 0xD800 ≤ c && c < 0xDC00

/-- Whether a number is the second half of a code point above `FFFF`. -/
def isLow (c : Nat) : Bool := 0xDC00 ≤ c && c < 0xE000

/-- Joins halves of code points; a half without its partner is written as the replacement. -/
def spell : Points → Bytes
  | [] => []
  | h :: l :: r =>
    if isHigh h && isLow l then
      Utf8.encode (0x10000 + (h - 0xD800) * 1024 + (l - 0xDC00)) ++ spell r
    else Utf8.encode h ++ spell (l :: r)
  | [c] => Utf8.encode c

def isDigit (c : Nat) : Bool := 0x30 ≤ c && c ≤ 0x39

def readDigits (s : Points) : Option (Points × Points) :=
  match s.span isDigit with
  | ([], _) => none
  | p => some p

/-- Reads a whole number, which starts with no zero unless it is zero. -/
def readWhole (s : Points) : Option (Points × Points) :=
  match s with
  | 0x30 :: r => some ([0x30], r)
  | _ => readDigits s

def readFraction (s : Points) : Option (Points × Points) :=
  match s with
  | 0x2E :: r => do
    let (ds, rest) ← readDigits r
    return (0x2E :: ds, rest)
  | _ => some ([], s)

def readExponent (s : Points) : Option (Points × Points) :=
  match s with
  | e :: r =>
    if e == 0x65 || e == 0x45 then
      match r with
      | sign :: t =>
        if sign == 0x2B || sign == 0x2D then do
          let (ds, rest) ← readDigits t
          return (e :: sign :: ds, rest)
        else do
          let (ds, rest) ← readDigits r
          return (e :: ds, rest)
      | [] => none
    else some ([], s)
  | [] => some ([], s)

/-- Reads a number and keeps its spelling. -/
def readNumber (s : Points) : Option (Bytes × Points) := do
  let (sign, s) : Points × Points :=
    match s with
    | 0x2D :: r => ([0x2D], r)
    | _ => ([], s)
  let (whole, s) ← readWhole s
  let (fraction, s) ← readFraction s
  let (exponent, s) ← readExponent s
  return ((sign ++ whole ++ fraction ++ exponent).map UInt8.ofNat, s)

abbrev Reader := Points → Option (Json × Points)

/-- Reads the items of an array after its first bracket, at most `fuel` of them. -/
def readItems (value : Reader) : (fuel : Nat) → Points → Option (List Json × Points)
  | 0, _ => none
  | fuel + 1, s => do
    let (j, s) ← value (skip s)
    match skip s with
    | 0x2C :: r =>
      let (js, rest) ← readItems value fuel r
      return (j :: js, rest)
    | 0x5D :: r => return ([j], r)
    | _ => none

/-- Reads the members of an object after its first brace, at most `fuel` of them. -/
def readMembers (value : Reader) : (fuel : Nat) → Points → Option (List (Bytes × Json) × Points)
  | 0, _ => none
  | fuel + 1, s =>
    match skip s with
    | 0x22 :: r => do
      let (cs, s) ← readString r
      match skip s with
      | 0x3A :: r => do
        let (j, s) ← value (skip r)
        match skip s with
        | 0x2C :: r =>
          let (ms, rest) ← readMembers value fuel r
          return ((spell cs, j) :: ms, rest)
        | 0x7D :: r => return ([(spell cs, j)], r)
        | _ => none
      | _ => none
    | _ => none

def readScalar (s : Points) : Option (Json × Points) :=
  (after? (word "null") s).map (.null, ·)
    <|> (after? (word "true") s).map (.bool true, ·)
    <|> (after? (word "false") s).map (.bool false, ·)
    <|> (readNumber s).map fun (n, rest) => (.number n, rest)

/-- Reads a document that starts here, nests `levels` deep at most and has no array or object with
more than `fuel` parts. -/
def readValue (fuel : Nat) : (levels : Nat) → Reader
  | _, 0x22 :: r => (readString r).map fun (cs, rest) => (.string (spell cs), rest)
  | levels + 1, 0x5B :: r =>
    match skip r with
    | 0x5D :: rest => some (.array [], rest)
    | s => (readItems (readValue fuel levels) fuel s).map fun (js, rest) => (.array js, rest)
  | levels + 1, 0x7B :: r =>
    match skip r with
    | 0x7D :: rest => some (.object [], rest)
    | s =>
      (readMembers (readValue fuel levels) fuel s).map fun (ms, rest) =>
        (.object (Table.merge [] ms), rest)
  | _, s => readScalar s

/-- The deepest nesting that is read. -/
def nestingLimit : Nat := 10000

/-- Reads the first document of a text.  No array or object has more parts than the text has
characters. -/
def read? (s : Bytes) : Option Json :=
  let ps := points s
  (readValue ps.length nestingLimit (skip ps)).map (·.1)

/-- The members of the object that a text begins with; `null` stands for an object without any. -/
def readObject? (s : Bytes) : Option (List (Bytes × Json)) :=
  match read? s with
  | some (.object ms) => some ms
  | some .null => some []
  | _ => none

end JumpScript.Json
