import JumpScript.Log.Moment
import JumpScript.Log.Record
import JumpScript.Number.Integer
import JumpScript.Table
import JumpScript.Text.LetterCase
import JumpScript.Text.Quoted

/-!
# Log lines

A record is written on one line, as a JSON object or in words.  The object holds the level, the
fields in their order, the moment and the message.  The line in words shows what such an object
says: of members with the same name only the last one counts, the error comes before the other
fields, and those are in the order of their names.
-/

namespace JumpScript

/-- The two ways to write a record. -/
inductive LogFormat where
  | console
  | json
  deriving DecidableEq, Repr

namespace Level

/-- The three letters for a level in words. -/
def labels : List (Level × Bytes) :=
  [(trace, text "TRC"), (debug, text "DBG"), (info, text "INF"), (warn, text "WRN"),
    (error, text "ERR"), (fatal, text "FTL"), (abort, text "PNC")]

/-- A code point without its case: ASCII letters in lower case, and the long s and the Kelvin sign
as the letters they are forms of. -/
def foldPoint (c : Nat) : Nat :=
  if 0x41 ≤ c ∧ c ≤ 0x5A then c + 32
  else if c = 0x17F then 0x73
  else if c = 0x212A then 0x6B
  else c

/-- The level with a name, in whatever case it is written. -/
def ofName? (s : Bytes) : Option Level :=
  (names.find? fun n => n.1 == s.mapPoints foldPoint).map (·.2)

/-- The level of a rank, which has eight bits. -/
def ofRank? (n : Int) : Option Level := if -128 ≤ n ∧ n ≤ 127 then some ⟨n⟩ else none

def ofText? (s : Bytes) : Option Level :=
  match ofName? s, Integer.read s with
  | some l, _ => some l
  | none, .ok n => ofRank? n.toInt
  | none, .error _ => none

end Level

namespace Record

def levelName : Bytes := text "level"

def timeName : Bytes := text "time"

def messageName : Bytes := text "message"

/-- The name under which the place of a call is shown apart from the fields. -/
def callerName : Bytes := text "caller"

/-- The name of the field that is shown first. -/
def errorName : Bytes := text "error"

/-- The fields of a record and what is shown with them, in the order of the JSON object.  An empty
message is left out. -/
def members (now : Moment) (r : Record) : List Field :=
  [⟨levelName, .text r.level.name⟩] ++ r.fields ++ [⟨timeName, .text now.full⟩]
    ++ (if r.message.isEmpty then [] else [⟨messageName, .text r.message⟩])

def escapePoint (c : Nat) : Bytes :=
  if c == 0x22 || c == 0x5C then [0x5C, UInt8.ofNat c]
  else if c == 0x08 then text "\\b"
  else if c == 0x0C then text "\\f"
  else if c == 0x0A then text "\\n"
  else if c == 0x0D then text "\\r"
  else if c == 0x09 then text "\\t"
  else if c < 0x20 || c == 0x7F then text "\\u" ++ Bytes.hex 4 c
  else Utf8.encode c

/-- A text as a JSON string; what spells no code point is written as the replacement, by number. -/
def jsonText (s : Bytes) : Bytes :=
  [0x22] ++ (Utf8.symbols s).flatMap (fun u => u.point.elim (text "\\ufffd") escapePoint) ++ [0x22]

def jsonValue : FieldValue → Bytes
  | .number n => Bytes.ofInt n
  | .text s => jsonText s

def json (now : Moment) (r : Record) : Bytes :=
  text "\x7b" ++ Bytes.join (text ",")
    ((r.members now).map fun f => jsonText f.name ++ [0x3A] ++ jsonValue f.value) ++ text "\x7d"

/-- A text with the replacement in place of what spells no code point. -/
def sanitized (s : Bytes) : Bytes := s.mapPoints id

/-- The members of a record by name; the last one of a name counts. -/
def shown (now : Moment) (r : Record) : Table FieldValue :=
  (r.members now).foldl (fun t f => t.insert (sanitized f.name) f.value) []

/-- A value without quotes. -/
def plainValue : FieldValue → Bytes
  | .number n => Bytes.ofInt n
  | .text s => sanitized s

def needsQuotes (s : Bytes) : Bool :=
  s.any fun b => b ≤ 0x20 || 0x7E < b || b == 0x5C || b == 0x22

def fieldText : FieldValue → Bytes
  | .number n => Bytes.ofInt n
  | .text s => if needsQuotes (sanitized s) then (sanitized s).quoted else sanitized s

/-- The label of a level given by name or rank; what gives none with a label is cut to three
bytes. -/
def levelLabel (s : Bytes) : Bytes :=
  match (Level.ofText? s).bind fun l => Level.labels.lookup l with
  | some l => l
  | none => if s.isEmpty then text "???" else Bytes.toUpper (s.take 3)

/-- The fields of a record in words, each with its name: first the error, then by name. -/
def fieldTexts (t : Table FieldValue) : List Bytes :=
  let isField := fun n => !List.contains [levelName, timeName, messageName, callerName] n
  let (errors, others) := (t.sortedNames.filter isField).partition (· == errorName)
  (errors ++ others).map fun n => n ++ [0x3D] ++ (t.get? n).elim [] fieldText

def words (now : Moment) (r : Record) : Bytes :=
  let t := r.shown now
  let part := fun n => (t.get? n).elim [] plainValue
  let caller := part callerName
  let parts := [now.short, levelLabel (part levelName),
    if caller.isEmpty then [] else caller ++ text " >", part messageName]
  Bytes.join [0x20] (parts.filter (!·.isEmpty) ++ fieldTexts t)

end Record

def LogFormat.line (f : LogFormat) (now : Moment) (r : Record) : Bytes :=
  match f with
  | .console => r.words now ++ [0x0A]
  | .json => r.json now ++ [0x0A]

/-- Where records go: how they are written, and from which level on. -/
structure Logger where
  threshold : Level
  format : LogFormat
  deriving DecidableEq, Repr

namespace Logger

/-- The line for a record, if it reaches the threshold. -/
def write (l : Logger) (now : Moment) (r : Record) : Bytes :=
  if r.level.reaches l.threshold then l.format.line now r else []

end Logger

end JumpScript
