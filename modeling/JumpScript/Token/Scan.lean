import JumpScript.Number.Numeral
import JumpScript.Token.Basic

/-!
# Scanning

`lexemeAt` decides which lexeme a text begins with and how many bytes it takes; a `Cursor` carries
the place of what is still unread.  The cursor moves byte by byte through `Cursor.step` alone, so
line, column and line text depend on the bytes passed and on nothing else.
-/

namespace JumpScript

/-- Why a text begins with no lexeme. -/
inductive ScanFault where
  | unexpected (b : UInt8)
  | unexpectedInNumber (b : UInt8)
  | unexpectedInName (b : UInt8)
  | secondPoint
  | badFloat (numeral : Bytes)
  | intOutOfRange (numeral : Bytes)
  | unterminatedString
  | badEscape (b : UInt8)
  deriving DecidableEq, Repr

def ScanFault.message : ScanFault → Bytes
  | .unexpected b => text "unexpected character " ++ Bytes.quotedPoint b
  | .unexpectedInNumber b =>
    text "unexpected character " ++ Bytes.quotedPoint b ++ text " in numeric literal"
  | .unexpectedInName b =>
    text "unexpected character " ++ Bytes.quotedPoint b ++ text " in identifier"
  | .secondPoint => text "illegal second decimal point in float literal"
  | .badFloat s => text "invalid float literal " ++ s
  | .intOutOfRange s => text "integer literal " ++ s ++ text " out of range"
  | .unterminatedString => text "unterminated string literal"
  | .badEscape b => text "invalid escape sequence \\" ++ Utf8.encode b.toNat

/-- A scanning fault with its distance from where the scan began and the width of the fault. -/
structure ScanError where
  distance : Nat
  width : Nat
  fault : ScanFault
  deriving DecidableEq, Repr

namespace Scan

def isNameStart (b : UInt8) : Bool :=
  (0x61 ≤ b && b ≤ 0x7A) || (0x41 ≤ b && b ≤ 0x5A) || b == 0x5F

def isNamePart (b : UInt8) : Bool := isNameStart b || Bytes.isDigit b

/-- Whether a byte separates tokens without being one. -/
def isSpace (b : UInt8) : Bool := b == 0x20 || b == 0x09 || b == 0x0D

/-- Whether a byte may follow a number or a name. -/
def isBoundary (b : UInt8) : Bool :=
  isSpace b || (text "\n;#=+-*/%!<>:~@").contains b

/-- Spaces and a comment at the head of a text; a comment ends before its newline. -/
def gap (s : Bytes) : Bytes :=
  let blank := s.takeWhile isSpace
  match s.dropWhile isSpace with
  | 0x23 :: r => blank ++ 0x23 :: r.takeWhile (· != 0x0A)
  | _ => blank

/-- How far a number reaches: digits with at most one point.  Two points in a row end it; a later
single point is a fault. -/
structure NumberSpan where
  length : Nat
  hasPoint : Bool
  secondPoint : Bool
  deriving DecidableEq, Repr

/-- The number at the head of a text; `pointSeen` tells whether its point has been passed. -/
def numberSpan (pointSeen : Bool) : Bytes → NumberSpan
  | [] => ⟨0, pointSeen, false⟩
  | c :: r =>
    if Bytes.isDigit c then
      let n := numberSpan pointSeen r
      { n with length := n.length + 1 }
    else if c != 0x2E || r.head? == some 0x2E then ⟨0, pointSeen, false⟩
    else if pointSeen then ⟨0, pointSeen, true⟩
    else
      let n := numberSpan true r
      { n with length := n.length + 1 }

/-- The number whose first byte, a digit or a minus sign, is `b`.  The count leaves out `b`. -/
def number (b : UInt8) (r : Bytes) : Except ScanError (Lexeme × Nat) :=
  let n := numberSpan false r
  if n.secondPoint then .error ⟨n.length + 1, 1, .secondPoint⟩
  else
    let numeral := b :: r.take n.length
    match (r.drop n.length).head?.filter (!isBoundary ·) with
    | some c => .error ⟨n.length + 1, 1, .unexpectedInNumber c⟩
    | none =>
      if n.hasPoint then
        match Numeral.read numeral with
        | .ok x => .ok (.float x, n.length)
        | .error _ => .error ⟨0, numeral.length, .badFloat numeral⟩
      else
        match Integer.read numeral with
        | .ok k => .ok (.int k, n.length)
        | .error _ => .error ⟨0, numeral.length, .intOutOfRange numeral⟩

/-- The lexeme that a complete word stands for. -/
def word (w : Bytes) : Lexeme :=
  if w == text "if" then .mark .ifWord
  else if w == text "goto" then .mark .gotoWord
  else if w == text "call" then .mark .callWord
  else if w == text "ret" then .mark .retWord
  else if w == text "true" then .bool true
  else if w == text "false" then .bool false
  else .identifier w

/-- The word whose first byte is `b`.  The count leaves out `b`. -/
def name (b : UInt8) (r : Bytes) : Except ScanError (Lexeme × Nat) :=
  let tail := r.takeWhile isNamePart
  match (r.dropWhile isNamePart).head?.filter (!isBoundary ·) with
  | some c => .error ⟨tail.length + 1, 1, .unexpectedInName c⟩
  | none => .ok (word (b :: tail), tail.length)

/-- The byte that an escape letter stands for. -/
def unescape? (b : UInt8) : Option UInt8 :=
  if b == 0x6E then some 0x0A
  else if b == 0x72 then some 0x0D
  else if b == 0x74 then some 0x09
  else if b == 0x30 then some 0x00
  else if b == 0x27 then some 0x27
  else if b == 0x22 then some 0x22
  else if b == 0x5C then some 0x5C
  else none

/-- The rest of a string after its opening quote: what it says and the bytes it takes, the closing
quote included.  A bad escape is reported by its distance and letter. -/
def stringBody : Bytes → Except (Option (Nat × UInt8)) (Bytes × Nat)
  | [] => .error none
  | 0x22 :: _ => .ok ([], 1)
  | [0x5C] => .error none
  | 0x5C :: e :: r =>
    match unescape? e with
    | none => .error (some (0, e))
    | some b => shift b 2 (stringBody r)
  | c :: r => shift c 1 (stringBody r)
where
  /-- Puts a decoded byte that took `n` bytes in front of a result. -/
  shift (b : UInt8) (n : Nat) :
      Except (Option (Nat × UInt8)) (Bytes × Nat) → Except (Option (Nat × UInt8)) (Bytes × Nat)
    | .ok (s, k) => .ok (b :: s, k + n)
    | .error (some (d, e)) => .error (some (d + n, e))
    | .error none => .error none

/-- The string after an opening quote.  The count leaves out that quote. -/
def string (r : Bytes) : Except ScanError (Lexeme × Nat) :=
  match stringBody r with
  | .ok (s, n) => .ok (.string s, n)
  | .error none => .error ⟨0, 1, .unterminatedString⟩
  | .error (some (d, e)) => .error ⟨d + 1, 2, .badEscape e⟩

/-- The two-byte operator made of `b` and an equals sign. -/
def doubleMark? (b : UInt8) : Option Mark :=
  if b == 0x3D then some .equalsEquals
  else if b == 0x21 then some .bangEquals
  else if b == 0x3C then some .lessEquals
  else if b == 0x3E then some .greaterEquals
  else none

def singleMark? (b : UInt8) : Option Mark :=
  if b == 0x3A then some .colon
  else if b == 0x3D then some .equals
  else if b == 0x40 then some .atSign
  else if b == 0x7E then some .tilde
  else if b == 0x2B then some .plus
  else if b == 0x2D then some .minus
  else if b == 0x2A then some .star
  else if b == 0x2F then some .slash
  else if b == 0x25 then some .percent
  else if b == 0x3C then some .less
  else if b == 0x3E then some .greater
  else none

/-- The mark whose first byte is `b`.  The count leaves out `b`. -/
def mark (b : UInt8) (r : Bytes) : Except ScanError (Lexeme × Nat) :=
  match doubleMark? b, r.head? == some 0x3D with
  | some m, true => .ok (.mark m, 1)
  | _, _ =>
    match singleMark? b with
    | some m => .ok (.mark m, 0)
    | none => .error ⟨0, 1, .unexpected b⟩

/-- The lexeme at the head of the non-empty text `b :: r`, and how many bytes of `r` it takes.
Spaces and comments are not lexemes. -/
def lexemeAt (b : UInt8) (r : Bytes) : Except ScanError (Lexeme × Nat) :=
  if b == 0x0A || b == 0x3B then .ok (.endOfStatement, 0)
  else if Bytes.isDigit b || (b == 0x2D && r.head?.any Bytes.isDigit) then number b r
  else if isNameStart b then name b r
  else if b == 0x22 then string r
  else mark b r

end Scan

/-- The text of the line that a text begins in: up to the newline, without carriage returns at its
end. -/
def lineText (s : Bytes) : Bytes :=
  Bytes.dropWhileEnd (· == 0x0D) (s.takeWhile (· != 0x0A))

/-- A place in a source: the bytes still unread, their offset, line and column, and the text of the
line. -/
structure Cursor where
  rest : Bytes
  offset : Nat
  line : Nat
  column : Nat
  context : Bytes
  deriving DecidableEq, Repr

namespace Cursor

def start (source : Bytes) : Cursor := ⟨source, 0, 1, 1, lineText source⟩

/-- The place after the next byte. -/
def step (c : Cursor) : Cursor :=
  match c.rest with
  | [] => c
  | b :: r =>
    if b == 0x0A then ⟨r, c.offset + 1, c.line + 1, 1, lineText r⟩
    else ⟨r, c.offset + 1, c.line, c.column + 1, c.context⟩

/-- The place after the next `n` bytes. -/
def pass : Nat → Cursor → Cursor
  | 0, c => c
  | n + 1, c => pass n c.step

@[simp] theorem rest_step (c : Cursor) : c.step.rest = c.rest.drop 1 := by
  unfold step
  split
  · simp_all
  · split <;> simp_all

@[simp] theorem rest_pass (n : Nat) (c : Cursor) : (c.pass n).rest = c.rest.drop n := by
  induction n generalizing c with
  | zero => simp [pass]
  | succ n ih => simp [pass, ih]

/-- The place after spaces and a comment. -/
def skip (c : Cursor) : Cursor := c.pass (Scan.gap c.rest).length

theorem length_rest_skip_le (c : Cursor) : c.skip.rest.length ≤ c.rest.length := by
  simp [skip]

/-- Passing a byte that is there leaves fewer bytes. -/
theorem length_rest_pass_skip_lt (c : Cursor) {b : UInt8} {r : Bytes} (h : c.skip.rest = b :: r)
    (n : Nat) : (c.skip.pass (n + 1)).rest.length < c.rest.length := by
  have hle := c.length_rest_skip_le
  rw [rest_pass, h]
  rw [h] at hle
  simp at hle ⊢
  omega

def token (c : Cursor) (file : Bytes) (l : Lexeme) (width : Nat) : Token :=
  ⟨l, c.line, c.column, c.offset, width, file, c.context⟩

def diagnostic (c : Cursor) (file : Bytes) (e : ScanError) : Diagnostic where
  stage := .lexing
  file := file
  line := c.line
  column := (c.column + e.distance : Nat)
  offset := (c.offset + e.distance : Nat)
  width := e.width
  message := e.fault.message
  context := c.context

/-- The next token and the place after it.  At the end of the source, and at a fault, the place
stays where it is. -/
def next (file : Bytes) (c : Cursor) : Cursor × Except Diagnostic Token :=
  let c := c.skip
  match c.rest with
  | [] => (c, .ok (c.token file .endOfFile 0))
  | b :: r =>
    match Scan.lexemeAt b r with
    | .ok (l, n) => (c.pass (n + 1), .ok (c.token file l (n + 1)))
    | .error e => (c, .error (c.diagnostic file e))

/-- All tokens from a place on, and then the end-of-file token or the first fault. -/
def tokens (file : Bytes) (c : Cursor) : List Token × Except Diagnostic Token :=
  match h : c.skip.rest with
  | [] => ([], .ok (c.skip.token file .endOfFile 0))
  | b :: r =>
    match Scan.lexemeAt b r with
    | .error e => ([], .error (c.skip.diagnostic file e))
    | .ok (l, n) =>
      have := c.length_rest_pass_skip_lt h n
      let (ts, stop) := tokens file (c.skip.pass (n + 1))
      (c.skip.token file l (n + 1) :: ts, stop)
termination_by c.rest.length
decreasing_by assumption

end Cursor

/-- All tokens of a source, and then the end-of-file token or the first fault. -/
def scan (file source : Bytes) : List Token × Except Diagnostic Token :=
  (Cursor.start source).tokens file

end JumpScript
