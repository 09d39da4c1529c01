import JumpScript.Text.Bytes

/-!
# Log records

A record is a message with a level and named fields.  A record is kept when its level reaches the
threshold of whoever keeps it, so a threshold above every level keeps nothing.
-/

namespace JumpScript

/-- How important a record is; higher ranks matter more. -/
structure Level where
  rank : Int
  deriving DecidableEq, Repr

namespace Level

def trace : Level := ⟨-1⟩

def debug : Level := ⟨0⟩

def info : Level := ⟨1⟩

def warn : Level := ⟨2⟩

def error : Level := ⟨3⟩

def fatal : Level := ⟨4⟩

def abort : Level := ⟨5⟩

/-- The threshold that no record of a program reaches. -/
def disabled : Level := ⟨7⟩

def names : List (Bytes × Level) :=
  [(text "trace", trace), (text "debug", debug), (text "info", info), (text "warn", warn),
    (text "error", error), (text "fatal", fatal), (text "panic", abort),
    (text "disabled", disabled)]

/-- The name of a level; a level without one is written as its rank. -/
def name (l : Level) : Bytes :=
  match names.find? (·.2 == l) with
  | some (n, _) => n
  | none => Bytes.ofInt l.rank

/-- Whether a record of level `l` reaches a threshold. -/
def reaches (l threshold : Level) : Bool := threshold.rank ≤ l.rank

def max (a b : Level) : Level := if a.rank ≤ b.rank then b else a

end Level

inductive FieldValue where
  | number (n : Int)
  | text (s : Bytes)
  deriving DecidableEq, Repr

structure Field where
  name : Bytes
  value : FieldValue
  deriving DecidableEq, Repr

/-- A message with its level and fields, in the order they are shown. -/
structure Record where
  level : Level
  fields : List Field
  message : Bytes
  deriving DecidableEq, Repr

end JumpScript
