import JumpScript.Number.Positional
import JumpScript.Yaml.Basic
import JumpScript.Yaml.Tape

/-!
# The tokens of a document

The words and marks that a document consists of, and how those are read that have a text: scalars in
their five styles, anchors, tags and directives.

Lines of a scalar are folded: one line break between words is read as a space, and of several breaks
all but the first stand for themselves.
-/

namespace JumpScript.Yaml

/-- A word or mark of a document.  Layout is told by tokens of its own: where a block begins and
where it ends. -/
inductive Token where
  | streamStart
  | streamEnd
  | version (major minor : Nat)
  | tagRule (handle expansion : Bytes)
  | documentStart
  | documentEnd
  | blockSequence
  | blockMapping
  | blockEnd
  | flowSequence
  | flowSequenceEnd
  | flowMapping
  | flowMappingEnd
  | blockEntry
  | flowEntry
  | key
  | value
  | alias (name : Bytes)
  | anchor (name : Bytes)
  | tag (handle suffix : Bytes)
  | scalar (body : Bytes) (plain : Bool)
  deriving DecidableEq, Repr

/-- What stands between two words. -/
inductive Gap where
  /-- Spaces, backwards. -/
  | spaces (cs : List Nat)
  /-- Line breaks: the first one, unless it was escaped, and the others backwards. -/
  | breaks (first others : List Nat)
  deriving DecidableEq, Repr

namespace Gap

def none : Gap := .spaces []

/-- Whether a gap goes over the end of a line. -/
def isBreaks : Gap → Bool
  | .spaces _ => false
  | .breaks .. => true

/-- Puts what a gap is read as after a text, which is held backwards. -/
def fold (g : Gap) (body : List Nat) : List Nat :=
  match g with
  | .spaces cs => cs ++ body
  | .breaks [0x0A] [] => 0x20 :: body
  | .breaks [0x0A] others => others ++ body
  | .breaks first others => others ++ first ++ body

/-- Reads a gap.  After a line break, tabs may stand only from the column `indent` on. -/
def read (indent : Nat) : (fuel : Nat) → Gap → Tape → Except Problem (Gap × Tape)
  | 0, g, t => .ok (g, t)
  | fuel + 1, g, t =>
    if isSpace t.next then
      match g with
      | .spaces cs => read indent fuel (.spaces (t.next :: cs)) t.skip
      | .breaks .. =>
        if t.column < indent && t.next == 0x09 then .error .badLayout
        else read indent fuel g t.skip
    else if isBreak t.next then
      let (b, t) := t.readBreak
      match g with
      | .spaces _ => read indent fuel (.breaks b []) t
      | .breaks first others => read indent fuel (.breaks first (b ++ others)) t
    else .ok (g, t)

end Gap

namespace Token

/-- Whether a plain scalar ends before the character `c`, which `r` follows. -/
def endsPlain (flow : Bool) (c : Nat) (r : List Nat) : Bool :=
  endsWord c || (c == 0x3A && endsWord (r.headD 0))
    || (flow && [0x2C, 0x3F, 0x5B, 0x5D, 0x7B, 0x7D].contains c)

/-- Reads a word of a plain scalar, given what has been read of it backwards. -/
def plainWord (flow : Bool) (word : List Nat) : List Nat → List Nat × List Nat
  | [] => (word, [])
  | c :: r => if endsPlain flow c r then (word, c :: r) else plainWord flow (c :: word) r

/-- Reads a plain scalar from its next word on.  `body` is what came before the gap `g`, backwards.
Gives the whole text backwards, and the gap that the scalar ends with. -/
def plainFrom (flow : Bool) (indent : Nat) :
    (fuel : Nat) → (body : List Nat) → Gap → Tape → Except Problem (List Nat × Gap × Tape)
  | 0, body, g, t => .ok (body, g, t)
  | fuel + 1, body, g, t =>
    if t.atAnyMarker || t.next == 0x23 then .ok (body, g, t)
    else
      let (word, rest) := plainWord flow [] t.rest
      let t := t.advance word rest
      let (body, g) := if word.isEmpty then (body, g) else (word ++ g.fold body, Gap.none)
      if !isSpace t.next && !isBreak t.next then .ok (body, g, t)
      else do
        let (g, t) ← g.read indent t.fuel t
        if !flow && t.column < indent then .ok (body, g, t)
        else plainFrom flow indent fuel body g t

/-- Reads a plain scalar.  Tells also whether line breaks follow it. -/
def readPlain (flow : Bool) (indent : Nat) (t : Tape) : Except Problem (Token × Bool × Tape) := do
  let (body, g, t) ← plainFrom flow indent t.fuel [] .none t
  return (.scalar (spell body.reverse) true, g.isBreaks, t)

/-- The characters that have an escape of one letter, by that letter. -/
def escapes : List (Char × Nat) :=
  [('0', 0), ('a', 7), ('b', 8), ('t', 9), ('\t', 9), ('n', 10), ('v', 11), ('f', 12), ('r', 13),
    ('e', 27), (' ', 0x20), ('"', 0x22), ('\'', 0x27), ('\\', 0x5C), ('N', 0x85), ('_', 0xA0),
    ('L', 0x2028), ('P', 0x2029)]

/-- The number of hexadecimal digits that follow an escape letter. -/
def escapeDigits : List (Char × Nat) := [('x', 2), ('u', 4), ('U', 8)]

def readEscape (t : Tape) : Except Problem (Nat × Tape) :=
  match escapes.find? (·.1.toNat == t.next) with
  | some (_, c) => .ok (c, t.skip)
  | none =>
    match escapeDigits.find? (·.1.toNat == t.next) with
    | none => .error .badLayout
    | some (_, n) =>
      let digits := ((t.skip).rest.take n).filterMap hexOf?
      let c := digits.foldl (fun v d => 16 * v + d) 0
      if digits.length < n ∨ (0xD800 ≤ c ∧ c ≤ 0xDFFF) ∨ 0x10FFFF < c then .error .badLayout
      else .ok (c, t.skip (n + 1))

/-- Reads the characters of a quoted scalar up to a gap or the closing quote.  Tells also whether
the gap begins with an escaped line break. -/
def quotedWord (single : Bool) :
    (fuel : Nat) → (body : List Nat) → Tape → Except Problem (List Nat × Bool × Tape)
  | 0, body, t => .ok (body, false, t)
  | fuel + 1, body, t =>
    if endsWord t.next then .ok (body, false, t)
    else if single then
      if t.next != 0x27 then quotedWord single fuel (t.next :: body) t.skip
      else if t.ahead 1 == 0x27 then quotedWord single fuel (0x27 :: body) (t.skip 2)
      else .ok (body, false, t)
    else if t.next == 0x22 then .ok (body, false, t)
    else if t.next != 0x5C then quotedWord single fuel (t.next :: body) t.skip
    else if isBreak (t.ahead 1) then .ok (body, true, t.skip.skipBreak)
    else do
      let (c, t) ← readEscape t.skip
      quotedWord single fuel (c :: body) t

/-- Reads a quoted scalar after its opening quote, given what has been read of it backwards. -/
def quotedFrom (single : Bool) :
    (fuel : Nat) → (body : List Nat) → Tape → Except Problem (List Nat × Tape)
  | 0, _, _ => .error .badLayout
  | fuel + 1, body, t =>
    if t.atAnyMarker || t.rest.isEmpty then .error .badLayout
    else do
      let (body, escaped, t) ← quotedWord single t.fuel body t
      if t.next == (if single then 0x27 else 0x22) then return (body, t.skip)
      else
        let (g, t) ← Gap.read 0 t.fuel (if escaped then .breaks [] [] else .none) t
        quotedFrom single fuel (g.fold body) t

/-- Reads a quoted scalar. -/
def readQuoted (single : Bool) (t : Tape) : Except Problem (Token × Tape) := do
  let (body, t) ← quotedFrom single t.fuel [] t.skip
  return (.scalar (spell body.reverse) false, t)

/-- What happens to the line breaks at the end of a scalar of lines. -/
inductive Chomping where
  | strip
  | clip
  | keep
  deriving DecidableEq, Repr

/-- Reads a mark for chomping, if there is one. -/
def readChomping (t : Tape) : Option Chomping × Tape :=
  if t.next == 0x2B then (some .keep, t.skip)
  else if t.next == 0x2D then (some .strip, t.skip)
  else (none, t)

/-- Reads a digit for the indentation, if there is one; it is not zero. -/
def readIndentation (t : Tape) : Except Problem (Nat × Tape) :=
  if t.next == 0x30 then .error .badLayout
  else if 0x31 ≤ t.next && t.next ≤ 0x39 then .ok (t.next - 0x30, t.skip)
  else .ok (0, t)

/-- Reads the marks for chomping and indentation, in either order. -/
def readHeader (t : Tape) : Except Problem (Chomping × Nat × Tape) :=
  match readChomping t with
  | (some c, t) => do
    let (n, t) ← readIndentation t
    return (c, n, t)
  | (none, t) => do
    let (n, t) ← readIndentation t
    if n = 0 then return (.clip, 0, t)
    else
      let (c, t) := readChomping t
      return (c.getD .clip, n, t)

/-- Reads empty lines and the indentation of the line after them.  An indentation of zero is not
known yet: the deepest of these lines settles it, with `least` as lower bound.  Gives the
indentation, and the breaks of the empty lines after those in `breaks`, backwards. -/
def blockBreaks (least : Nat) :
    (fuel indent deepest : Nat) → (breaks : List Nat) → Tape →
      Except Problem (Nat × List Nat × Tape)
  | 0, indent, _, breaks, t => .ok (indent, breaks, t)
  | fuel + 1, indent, deepest, breaks, t =>
    let spaces := (t.rest.takeWhile (· == 0x20)).length
    let t := t.skip (if indent = 0 then spaces else min spaces (indent - t.column))
    let deepest := max deepest t.column
    if (indent = 0 || t.column < indent) && t.next == 0x09 then .error .badLayout
    else if isBreak t.next then
      let (b, t) := t.readBreak
      blockBreaks least fuel indent deepest (b ++ breaks) t
    else .ok (if indent = 0 then max deepest least else indent, breaks, t)

/-- The lines of a scalar that have been read. -/
structure BlockLines where
  /-- The text, backwards. -/
  body : List Nat := []
  /-- The break after the last line. -/
  last : List Nat := []
  /-- The breaks of empty lines after it, backwards. -/
  empty : List Nat := []
  /-- Whether the last line begins with a space. -/
  spaced : Bool := false

namespace BlockLines

/-- The text with the breaks before a further line.  Lines are folded unless they begin with a
space. -/
def joined (ls : BlockLines) (literal spaced : Bool) : List Nat :=
  if !literal && !ls.spaced && !spaced && ls.last == [0x0A] then
    if ls.empty.isEmpty then 0x20 :: ls.body else ls.empty ++ ls.body
  else ls.empty ++ ls.last ++ ls.body

/-- The whole text, backwards. -/
def chomped (ls : BlockLines) : Chomping → List Nat
  | .strip => ls.body
  | .clip => ls.last ++ ls.body
  | .keep => ls.empty ++ ls.last ++ ls.body

/-- Reads the lines that stand at an indentation. -/
def read (literal : Bool) (indent : Nat) :
    (fuel : Nat) → BlockLines → Tape → Except Problem (BlockLines × Tape)
  | 0, ls, t => .ok (ls, t)
  | fuel + 1, ls, t =>
    if t.column ≠ indent ∨ t.rest.isEmpty then .ok (ls, t)
    else do
      let spaced := isSpace t.next
      let (line, t) := t.readWhile (!endsLine ·)
      let (last, t) := t.readBreak
      let (_, empty, t) ← blockBreaks 1 t.fuel indent 0 [] t
      read literal indent fuel ⟨line.reverse ++ ls.joined literal spaced, last, empty, spaced⟩ t

end BlockLines

/-- Reads a scalar of lines inside a block of indentation `parent`. -/
def readBlock (literal : Bool) (parent : Int) (t : Tape) : Except Problem (Token × Tape) := do
  let (chomping, increment, t) ← readHeader t.skip
  let t := t.skipWhile isSpace
  let t := if t.next == 0x23 then t.skipLine else t
  if !endsLine t.next then .error .badLayout
  else
    let t := t.skipBreak
    let indent := if increment = 0 then 0 else parent.toNat + increment
    let least := max 1 (parent + 1).toNat
    let (indent, empty, t) ← blockBreaks least t.fuel indent 0 [] t
    let (ls, t) ← BlockLines.read literal indent t.fuel { empty } t
    return (.scalar (spell (ls.chomped chomping).reverse) false, t)

/-- Reads the name of an anchor or alias after its mark. -/
def readName (t : Tape) : Except Problem (Bytes × Tape) :=
  let (name, t) := t.skip.readWhile isNameLetter
  let ends := endsWord t.next
    || [0x3F, 0x3A, 0x2C, 0x5D, 0x7D, 0x25, 0x40, 0x60].contains t.next
  if name.isEmpty || !ends then .error .badLayout else .ok (spell name, t)

def isTagLetter (c : Nat) : Bool :=
  isNameLetter c || (c < 0x80 && (text ";/?:@&=+$,.!~*'()[]%").contains (UInt8.ofNat c))

/-- The number of bytes in the spelling of a code point, by the first of them. -/
def spellingSize (b : Nat) : Nat :=
  if b < 0x80 then 1
  else if b < 0xC0 then 0
  else if b < 0xE0 then 2
  else if b < 0xF0 then 3
  else if b < 0xF8 then 4
  else 0

/-- Reads a byte that is written as a percent sign and two hexadecimal digits. -/
def readOctet (t : Tape) : Except Problem (Nat × Tape) :=
  match t.next == 0x25, hexOf? (t.ahead 1), hexOf? (t.ahead 2) with
  | true, some x, some y => .ok (16 * x + y, t.skip 3)
  | _, _, _ => .error .badLayout

/-- Reads `n` bytes that continue the spelling of a code point. -/
def readTail : (n : Nat) → Tape → Except Problem (Bytes × Tape)
  | 0, t => .ok ([], t)
  | n + 1, t => do
    let (b, t) ← readOctet t
    if b < 0x80 ∨ 0xC0 ≤ b then .error .badLayout
    else
      let (bs, t) ← readTail n t
      return (UInt8.ofNat b :: bs, t)

/-- Reads the letters of a tag, with bytes in percent form among them. -/
def tagLetters : (fuel : Nat) → Bytes → Tape → Except Problem (Bytes × Tape)
  | 0, s, t => .ok (s, t)
  | fuel + 1, s, t =>
    if t.next == 0x25 then do
      let (b, t) ← readOctet t
      if spellingSize b = 0 then .error .badLayout
      else
        let (bs, t) ← readTail (spellingSize b - 1) t
        tagLetters fuel (s ++ UInt8.ofNat b :: bs) t
    else
      let (w, t) := t.readWhile fun c => isTagLetter c && c != 0x25
      if w.isEmpty then .ok (s, t) else tagLetters fuel (s ++ spell w) t

/-- Reads the letters of a tag. -/
def readTagLetters (t : Tape) : Except Problem (Bytes × Tape) :=
  tagLetters t.fuel [] t

/-- Reads a tag handle: a name between exclamation marks, the second of which may be missing. -/
def readHandle (t : Tape) : Except Problem (Bytes × Tape) :=
  if t.next != 0x21 then .error .badLayout
  else
    let (name, t) := t.skip.readWhile isNameLetter
    if t.next == 0x21 then .ok (0x21 :: spell name ++ [0x21], t.skip)
    else .ok (0x21 :: spell name, t)

/-- Whether a handle is closed by a second exclamation mark. -/
def isClosed (handle : Bytes) : Bool := 1 < handle.length && handle.getLast? == some 0x21

/-- Reads a tag: verbatim between angle brackets, or a handle with a suffix.  A tag without a handle
has the handle of a single exclamation mark, and that mark alone is a suffix. -/
def readTag (t : Tape) : Except Problem (Token × Tape) := do
  let (token, t) ←
    if t.ahead 1 == 0x3C then do
      let (s, t) ← readTagLetters (t.skip 2)
      if s.isEmpty || t.next != 0x3E then .error Problem.badLayout
      else pure (Token.tag [] s, t.skip)
    else do
      let (handle, t) ← readHandle t
      let (s, t) ← readTagLetters t
      if isClosed handle then
        if s.isEmpty then .error .badLayout else pure (.tag handle s, t)
      else
        let suffix := handle.drop 1 ++ s
        pure (if suffix.isEmpty then .tag [] handle else .tag [0x21] suffix, t)
  if endsWord t.next then return (token, t) else .error .badLayout

def readVersionNumber (t : Tape) : Except Problem (Nat × Tape) :=
  let (ds, t) := t.readWhile fun c => 0x30 ≤ c && c ≤ 0x39
  if ds.isEmpty ∨ 2 < ds.length then .error .badLayout
  else .ok (Bytes.numeral (spell ds), t)

def readVersion (t : Tape) : Except Problem (Token × Tape) := do
  let (major, t) ← readVersionNumber t
  if t.next != 0x2E then .error .badLayout
  else
    let (minor, t) ← readVersionNumber t.skip
    return (.version major minor, t)

/-- Reads a rule for tags: a handle and what it stands for. -/
def readTagRule (t : Tape) : Except Problem (Token × Tape) := do
  let (handle, t) ← readHandle t
  if (!isClosed handle && handle != [0x21]) || !isSpace t.next then .error .badLayout
  else
    let (expansion, t) ← readTagLetters (t.skipWhile isSpace)
    if expansion.isEmpty || !endsWord t.next then .error .badLayout
    else return (.tagRule handle expansion, t)

/-- Reads a directive with the rest of its line. -/
def readDirective (t : Tape) : Except Problem (Token × Tape) := do
  let (name, t) := t.skip.readWhile isNameLetter
  let spaced := endsWord t.next
  let t := t.skipWhile isSpace
  let (token, t) ←
    if !spaced then .error .badLayout
    else if spell name == text "YAML" then readVersion t
    else if spell name == text "TAG" then readTagRule t
    else .error .badLayout
  let t := t.skipWhile isSpace
  let t := if t.next == 0x23 then t.skipLine else t
  if endsLine t.next then return (token, t.skipBreak) else .error .badLayout

end Token

end JumpScript.Yaml
