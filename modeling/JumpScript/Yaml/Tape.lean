import JumpScript.Text.Utf8

/-!
# The characters of a document

A document is written in UTF-8, or in UTF-16 if it begins with a byte order mark of that encoding.
It is taken in window by window, and a window that holds a bad character cannot be used at all:
what comes before it can still be read, as if the document were torn there.

A tape holds the characters that have not been read yet and knows where the next one stands.
-/

namespace JumpScript.Yaml

/-- Whether a document may hold a character. -/
def isAllowed (c : Nat) : Bool :=
  c == 0x09 || c == 0x0A || c == 0x0D || (0x20 ≤ c && c ≤ 0x7E) || c == 0x85
    || (0xA0 ≤ c && c ≤ 0xD7FF) || (0xE000 ≤ c && c ≤ 0xFFFD) || (0x10000 ≤ c && c ≤ 0x10FFFF)

def isSpace (c : Nat) : Bool := c == 0x20 || c == 0x09

def isBreak (c : Nat) : Bool :=
  c == 0x0A || c == 0x0D || c == 0x85 || c == 0x2028 || c == 0x2029

/-- Whether a line ends with a character; zero stands for the end of the document. -/
def endsLine (c : Nat) : Bool := c == 0 || isBreak c

/-- Whether a word ends before a character. -/
def endsWord (c : Nat) : Bool := isSpace c || endsLine c

/-- Whether a character can be part of an anchor or of a tag handle. -/
def isNameLetter (c : Nat) : Bool :=
  (0x30 ≤ c && c ≤ 0x39) || (0x41 ≤ c && c ≤ 0x5A) || (0x61 ≤ c && c ≤ 0x7A) || c == 0x5F
    || c == 0x2D

def hexOf? (c : Nat) : Option Nat := if c < 0x80 then Bytes.hexValue? (UInt8.ofNat c) else none

def spell (cs : List Nat) : Bytes := cs.flatMap Utf8.encode

/-- What some bytes spell: a character if they are well-formed, and how many bytes they are. -/
structure Sign where
  point : Option Nat
  size : Nat
  deriving DecidableEq, Repr

/-- The signs of a text in UTF-8. -/
def narrowSigns (s : Bytes) : List Sign :=
  (Utf8.symbols s).map fun u => ⟨u.point, u.bytes.length⟩

/-- The signs of a text in UTF-16.  A unit that belongs to no pair ends them. -/
def wideSigns (unit : UInt8 → UInt8 → Nat) : Bytes → List Sign
  | [] => []
  | [_] => [⟨none, 1⟩]
  | a :: b :: r =>
    let high := unit a b
    if high < 0xD800 ∨ 0xE000 ≤ high then ⟨some high, 2⟩ :: wideSigns unit r
    else
      match r with
      | c :: d :: r =>
        let low := unit c d
        if high < 0xDC00 ∧ 0xDC00 ≤ low ∧ low < 0xE000 then
          ⟨some (0x10000 + (high - 0xD800) * 0x400 + (low - 0xDC00)), 4⟩ :: wideSigns unit r
        else [⟨none, 2⟩]
      | _ => [⟨none, 2⟩]

/-- The number of bytes that are taken in at once. -/
def windowSize : Nat := 512

/-- The characters up to the first window with a bad one, and whether there is such a window.
`used` bytes of the current window are read; `window` holds its characters, and `before` those of
the windows before it, both backwards. -/
def readable (used : Nat) (window before : List Nat) : List Sign → List Nat × Bool
  | [] => ((window ++ before).reverse, false)
  | u :: us =>
    match u.point.filter isAllowed, decide (used + u.size ≤ windowSize) with
    | some c, true => readable (used + u.size) (c :: window) before us
    | some c, false => readable u.size [c] (window ++ before) us
    | none, true => (before.reverse, true)
    | none, false => ((window ++ before).reverse, true)

/-- The readable characters of a document, and whether it is torn after them. -/
def characters (s : Bytes) : List Nat × Bool :=
  match s with
  | 0xFF :: 0xFE :: r => readable 2 [] [] (wideSigns (fun a b => a.toNat + 256 * b.toNat) r)
  | 0xFE :: 0xFF :: r => readable 2 [] [] (wideSigns (fun a b => 256 * a.toNat + b.toNat) r)
  | 0xEF :: 0xBB :: 0xBF :: r => readable 3 [] [] (narrowSigns r)
  | _ => readable 0 [] [] (narrowSigns s)

/-- The unread characters of a document and the place of the first of them. -/
structure Tape where
  rest : List Nat
  /-- A number of steps that is enough to read all of `rest`. -/
  fuel : Nat
  /-- Whether the document is torn after `rest`. -/
  torn : Bool := false
  index : Nat := 0
  line : Nat := 0
  column : Nat := 0
  /-- Whether only spaces have been read since the last line break. -/
  lineBegins : Bool := false
  deriving DecidableEq, Repr

namespace Tape

def ofBytes (s : Bytes) : Tape :=
  let (cs, torn) := characters s
  { rest := cs, fuel := cs.length + 1, torn }

/-- The character `k` places ahead; zero at the end of the document. -/
def ahead (t : Tape) (k : Nat) : Nat := (t.rest.drop k).headD 0

def next (t : Tape) : Nat := t.rest.headD 0

/-- Goes past characters of a line, which are followed by `rest`. -/
def advance (t : Tape) (passed rest : List Nat) : Tape :=
  { t with
    rest
    index := t.index + passed.length
    column := t.column + passed.length
    lineBegins := t.lineBegins && passed.all isSpace }

def skip (t : Tape) (n : Nat := 1) : Tape := t.advance (t.rest.take n) (t.rest.drop n)

/-- Reads characters of a line as long as they satisfy `p`. -/
def readWhile (p : Nat → Bool) (t : Tape) : List Nat × Tape :=
  let (w, r) := t.rest.span p
  (w, t.advance w r)

/-- Goes past characters of a line as long as they satisfy `p`. -/
def skipWhile (p : Nat → Bool) (t : Tape) : Tape := (t.readWhile p).2

/-- Goes past a line break of `size` characters. -/
def newLine (t : Tape) (size : Nat) (rest : List Nat) : Tape :=
  { t with rest, index := t.index + size, line := t.line + 1, column := 0, lineBegins := true }

/-- Reads a line break, if there is one.  Line and paragraph separators are kept as they are, and
any other break is a line feed. -/
def readBreak (t : Tape) : List Nat × Tape :=
  match t.rest with
  | 0x0D :: 0x0A :: r => ([0x0A], t.newLine 2 r)
  | c :: r =>
    if c == 0x2028 || c == 0x2029 then ([c], t.newLine 1 r)
    else if isBreak c then ([0x0A], t.newLine 1 r)
    else ([], t)
  | [] => ([], t)

/-- Goes past a line break, if there is one. -/
def skipBreak (t : Tape) : Tape := t.readBreak.2

def skipLine (t : Tape) : Tape := t.skipWhile (!endsLine ·)

/-- Whether a line begins here with three times the character `c`, as a word of its own. -/
def atMarker (t : Tape) (c : Nat) : Bool :=
  t.column == 0 && [c, c, c].isPrefixOf t.rest && endsWord (t.ahead 3)

/-- Whether the mark that starts or ends a document stands here. -/
def atAnyMarker (t : Tape) : Bool := t.atMarker 0x2D || t.atMarker 0x2E

end Tape

end JumpScript.Yaml
