import JumpScript.Yaml.Token

/-!
# The layout of a document

Tokens are found one by one, and the columns where they stand tell where blocks begin and end.  A
mapping shows only at the colon after its first key, so a token that may turn out to be such a key
waits in a queue until it is settled whether it is one.  A key has to stand on one line with its
colon, not more than 1024 characters before it.

The queue runs a little ahead of its reader, so a document is refused for what comes shortly after
its end, but not for what comes later.
-/

namespace JumpScript.Yaml

/-- A token that may be a key. -/
structure KeyMark where
  /-- Whether it still may. -/
  possible : Bool
  /-- Whether it must be one, because only a key can stand in its column. -/
  required : Bool
  /-- The number of the token. -/
  token : Nat
  index : Nat
  line : Nat
  column : Nat
  deriving DecidableEq, Repr

/-- The state of a search for tokens. -/
structure Layout where
  tape : Tape
  started : Bool := false
  /-- Tokens that have been found and not been taken. -/
  queue : List Token := []
  /-- How many tokens have been taken. -/
  taken : Nat := 0
  /-- The column of the innermost block; `-1` outside of all blocks. -/
  indent : Int := -1
  /-- The columns of the blocks around it. -/
  outer : List Int := []
  /-- How many brackets are open. -/
  flow : Nat := 0
  /-- Whether a key can begin here. -/
  keyAllowed : Bool := true
  /-- The possible key of each bracket level, that outside of brackets first. -/
  marks : Array KeyMark := #[⟨false, false, 0, 0, 0, 0⟩]
  /-- The levels of tokens that were possible keys when they were found, the last token first. -/
  levels : List (Nat × Nat) := []
  deriving Repr

namespace Layout

/-- The layout of a document of which nothing has been read. -/
def ofBytes (s : Bytes) : Layout := { tape := .ofBytes s }

def nextNumber (l : Layout) : Nat := l.taken + l.queue.length

def add (l : Layout) (t : Token) : Layout := { l with queue := l.queue ++ [t] }

/-- Puts a token before the one of a number, or at the end if that one has been taken. -/
def insert (l : Layout) (number : Nat) (t : Token) : Layout :=
  if number < l.taken then l.add t
  else { l with queue := l.queue.insertIdx (number - l.taken) t }

/-- Forgets the level of a token. -/
def forget (l : Layout) (token : Nat) : Layout :=
  { l with levels := l.levels.filter (·.1 != token) }

/-- Gives the possible key of the innermost level up; a key that is required cannot be. -/
def dropKey (l : Layout) : Except Problem Layout :=
  match l.marks.back? with
  | some k =>
    if !k.possible then .ok l
    else if k.required then .error .badLayout
    else .ok ({ l with marks := l.marks.pop.push { k with possible := false } }.forget k.token)
  | none => .ok l

/-- Notes that the next token may be a key, if one can begin here. -/
def saveKey (l : Layout) : Except Problem Layout :=
  if !l.keyAllowed then .ok l
  else do
    let required := l.flow == 0 && l.indent == l.tape.column
    let k : KeyMark :=
      ⟨true, required, l.nextNumber, l.tape.index, l.tape.line, l.tape.column⟩
    let l ← l.dropKey
    return { l with
      marks := l.marks.pop.push k
      levels := (k.token, l.marks.size - 1) :: l.levels.filter (·.1 != k.token) }

/-- Whether a possible key still can be one here. -/
def reaches (k : KeyMark) (t : Tape) : Bool := k.line == t.line && t.index ≤ k.index + 1024

/-- Whether the possible key of a level still can be one; if not, it is given up. -/
def checkKey (l : Layout) (level : Nat) : Except Problem (Bool × Layout) :=
  match l.marks[level]? with
  | none => .ok (false, l)
  | some k =>
    if !k.possible then .ok (false, l)
    else if reaches k l.tape then .ok (true, l)
    else if k.required then .error .badLayout
    else .ok (false, { l with marks := l.marks.setIfInBounds level { k with possible := false } })

/-- Begins a block in a column, if that is deeper than the innermost block.  Its token goes before
the token of a number, or to the end. -/
def openBlock (l : Layout) (column : Nat) (number : Option Nat) (t : Token) : Layout :=
  if 0 < l.flow || column ≤ l.indent then l
  else
    let l := { l with outer := l.indent :: l.outer, indent := column }
    match number with
    | some n => l.insert n t
    | none => l.add t

/-- Ends the blocks that are deeper than a column. -/
def closeBlocks (l : Layout) (column : Int) : Layout :=
  if 0 < l.flow then l
  else
    let closed := (l.indent :: l.outer).takeWhile (column < ·)
    match (l.indent :: l.outer).drop closed.length with
    | [] => l
    | indent :: outer =>
      { l with
        indent, outer
        queue := l.queue ++ List.replicate closed.length .blockEnd }

def openFlow (l : Layout) : Layout :=
  { l with
    flow := l.flow + 1
    marks := l.marks.push
      ⟨false, false, l.nextNumber, l.tape.index, l.tape.line, l.tape.column⟩ }

def closeFlow (l : Layout) : Layout :=
  if l.flow = 0 then l
  else
    let l := (l.marks.back?.map fun k => l.forget k.token).getD l
    { l with flow := l.flow - 1, marks := l.marks.pop }

/-- Goes past further comment lines.  The tape stands at the end of a comment, and the next one
begins at most 511 characters later, with nothing but spaces and line ends before it. -/
def moreComments : (fuel : Nat) → Tape → Tape
  | 0, t => t
  | fuel + 1, t =>
    let isBlank := fun c => isSpace c || c == 0x0A || c == 0x0D
    let blank := t.rest.takeWhile isBlank
    let next := (t.rest.drop blank.length).headD 0
    if (t.next == 0x0A || t.next == 0x0D) && next == 0x23 && blank.length < 512 then
      moreComments fuel (pass blank.length t).skipLine
    else t
where
  /-- Goes past spaces and line ends, `n` steps at most. -/
  pass : (n : Nat) → Tape → Tape
    | 0, t => t
    | n + 1, t =>
      if isSpace t.next then pass n t.skip
      else if isBreak t.next then pass n t.skipBreak
      else t

/-- Goes past a comment and the comment lines after it. -/
def skipComments (t : Tape) : Tape := moreComments t.fuel t.skipLine

/-- Goes to the next token.  Outside of brackets, tabs are no space where a key can begin, and a key
can begin on a new line. -/
def approach (l : Layout) : (fuel : Nat) → Layout
  | 0 => l
  | fuel + 1 =>
    let t := if l.tape.index == 0 && l.tape.next == 0xFEFF then l.tape.skip else l.tape
    let tabs := 0 < l.flow || !l.keyAllowed
    let t := t.skipWhile fun c => c == 0x20 || (tabs && c == 0x09)
    let t := if t.next == 0x23 then skipComments t else t
    if isBreak t.next then
      approach { l with tape := t.skipBreak, keyAllowed := l.keyAllowed || l.flow == 0 } fuel
    else { l with tape := t }

/-- Goes past a comment on the line of the token that has just been read. -/
def skipRemark (l : Layout) : Layout :=
  let (spaces, r) := l.tape.rest.span isSpace
  if !l.tape.lineBegins && spaces.length < 512 && r.headD 0 == 0x23 then
    { l with tape := (l.tape.advance spaces r).skipLine }
  else l

/-- Adds the token of a mark of `size` characters. -/
def addMark (l : Layout) (size : Nat) (t : Token) : Layout :=
  { l with tape := l.tape.skip size }.add t

/-- Ends all blocks and takes no key any more. -/
def reset (l : Layout) : Except Problem Layout := do
  let l ← (l.closeBlocks (-1)).dropKey
  return { l with keyAllowed := false }

/-- The end of the document; it counts as the end of a line. -/
def addStreamEnd (l : Layout) : Except Problem Layout := do
  let t := l.tape
  let t := if t.column = 0 then t else { t with column := 0, line := t.line + 1 }
  return (← { l with tape := t }.reset).add .streamEnd

def addDirective (l : Layout) : Except Problem Layout := do
  let l ← l.reset
  let (token, t) ← Token.readDirective l.tape
  return { l with tape := t }.add token

/-- A mark that starts or ends a document. -/
def addMarker (l : Layout) (token : Token) : Except Problem Layout := do
  return (← l.reset).addMark 3 token

/-- An opening bracket, which may begin a key. -/
def addOpening (l : Layout) (token : Token) : Except Problem Layout := do
  let l := (← l.saveKey).openFlow
  return { l with keyAllowed := true }.addMark 1 token

def addClosing (l : Layout) (token : Token) : Except Problem Layout := do
  let l := (← l.dropKey).closeFlow
  return { l with keyAllowed := false }.addMark 1 token

/-- A comma between values in brackets. -/
def addFlowEntry (l : Layout) : Except Problem Layout := do
  return { (← l.dropKey) with keyAllowed := true }.addMark 1 .flowEntry

/-- Checks that a block may begin here, and begins it. -/
def beginBlock (l : Layout) (token : Token) : Except Problem Layout :=
  if 0 < l.flow then .ok l
  else if !l.keyAllowed then .error .badLayout
  else .ok (l.openBlock l.tape.column none token)

/-- A dash before an item. -/
def addBlockEntry (l : Layout) : Except Problem Layout := do
  let l ← (← l.beginBlock .blockSequence).dropKey
  return { l with keyAllowed := true }.addMark 1 .blockEntry

/-- A question mark before a key. -/
def addKey (l : Layout) : Except Problem Layout := do
  let l ← (← l.beginBlock .blockMapping).dropKey
  return { l with keyAllowed := l.flow == 0 }.addMark 1 .key

/-- A colon before a value.  If the possible key before it still can be one, it is one. -/
def addValue (l : Layout) : Except Problem Layout := do
  let (isKey, l) ← l.checkKey (l.marks.size - 1)
  match isKey, l.marks.back? with
  | true, some k =>
    let l := (l.insert k.token .key).openBlock k.column (some k.token) .blockMapping
    let l := { l with marks := l.marks.pop.push { k with possible := false } }.forget k.token
    return { l with keyAllowed := false }.addMark 1 .value
  | _, _ =>
    let l ← l.beginBlock .blockMapping
    return { l with keyAllowed := l.flow == 0 }.addMark 1 .value

/-- A token with a text that may be a key. -/
def addText (l : Layout) (read : Tape → Except Problem (Token × Tape)) :
    Except Problem Layout := do
  let l ← l.saveKey
  let (token, t) ← read l.tape
  return { l with keyAllowed := false, tape := t }.add token

/-- A plain scalar; if line breaks follow it, a key can begin there. -/
def addPlain (l : Layout) : Except Problem Layout := do
  let l ← l.saveKey
  let (token, breaks, t) ← Token.readPlain (0 < l.flow) (l.indent + 1).toNat l.tape
  return { l with keyAllowed := breaks, tape := t }.add token

/-- A scalar of lines. -/
def addBlock (l : Layout) (literal : Bool) : Except Problem Layout := do
  let l ← l.dropKey
  let (token, t) ← Token.readBlock literal l.indent l.tape
  return { l with keyAllowed := true, tape := t }.add token

/-- Whether a plain scalar can begin with the next character. -/
def beginsPlain (l : Layout) : Bool :=
  let c := l.tape.next
  let d := l.tape.ahead 1
  let marks := text "-?:,[]\x7b\x7d#&*!|>'\"%@`"
  let reserved := endsWord c || (c < 0x80 && marks.contains (UInt8.ofNat c))
  !reserved || (c == 0x2D && !isSpace d)
    || (l.flow == 0 && (c == 0x3F || c == 0x3A) && !endsWord d)

/-- The token that begins with the next character, apart from directives and marks of documents. -/
def addContent (l : Layout) : Except Problem Layout :=
  let c := l.tape.next
  let alone := endsWord (l.tape.ahead 1)
  let inFlow := 0 < l.flow
  if c == 0x5B then l.addOpening .flowSequence
  else if c == 0x7B then l.addOpening .flowMapping
  else if c == 0x5D then l.addClosing .flowSequenceEnd
  else if c == 0x7D then l.addClosing .flowMappingEnd
  else if c == 0x2C then l.addFlowEntry
  else if c == 0x2D && alone then l.addBlockEntry
  else if c == 0x3F && (inFlow || alone) then l.addKey
  else if c == 0x3A && (inFlow || alone) then l.addValue
  else if c == 0x2A then
    l.addText fun t => (Token.readName t).map fun p => (.alias p.1, p.2)
  else if c == 0x26 then
    l.addText fun t => (Token.readName t).map fun p => (.anchor p.1, p.2)
  else if c == 0x21 then l.addText Token.readTag
  else if c == 0x7C && !inFlow then l.addBlock true
  else if c == 0x3E && !inFlow then l.addBlock false
  else if c == 0x27 then l.addText (Token.readQuoted true)
  else if c == 0x22 then l.addText (Token.readQuoted false)
  else if l.beginsPlain then l.addPlain
  else .error .badLayout

/-- Refuses to go on where the document is torn. -/
def checkTorn (l : Layout) : Except Problem Layout :=
  if l.tape.torn && (l.tape.rest.drop 3).isEmpty then .error .badCharacter else .ok l

/-- Finds one more token; the end of the document is found again and again. -/
def fetch (l : Layout) : Except Problem Layout := do
  let l ← l.checkTorn
  if !l.started then return { l with started := true }.add .streamStart
  else
    let l := l.approach l.tape.fuel
    let l := l.closeBlocks l.tape.column
    let l ← l.checkTorn
    if l.tape.rest.isEmpty then l.addStreamEnd
    else if l.tape.column == 0 && l.tape.next == 0x25 then (← l.addDirective).checkTorn
    else if l.tape.atMarker 0x2D then l.addMarker .documentStart
    else if l.tape.atMarker 0x2E then l.addMarker .documentEnd
    else
      let l ← (← l.addContent).checkTorn
      match l.queue.getLast? with
      | some .blockEntry => return l
      | _ => return l.skipRemark

/-- Finds tokens until the queue holds three and its first one is settled. -/
def settle : (fuel : Nat) → Layout → Except Problem Layout
  | 0, _ => .error .badLayout
  | fuel + 1, l =>
    if l.queue.length ≤ 2 then do settle fuel (← l.fetch)
    else
      match l.levels.lookup l.taken with
      | none => .ok l
      | some level => do
        let (waits, l) ← l.checkKey level
        if waits then settle fuel (← l.fetch) else return l

/-- The next token, which stays in the queue. -/
def peek (l : Layout) : Except Problem (Token × Layout) := do
  let l ← settle (l.tape.fuel + 8) l
  return (l.queue.headD .streamEnd, l)

/-- Takes the next token away, and forgets the levels of all tokens that have been taken. -/
def take (l : Layout) : Layout :=
  { l with
    queue := l.queue.drop 1
    taken := l.taken + 1
    levels := l.levels.takeWhile (l.taken < ·.1) }

end Layout

end JumpScript.Yaml
