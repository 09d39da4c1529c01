import JumpScript.Text.Bytes

/-!
# Paths

A path is cleaned lexically: empty and `.` parts go, and `..` takes the part before it away.  What
is left of a rooted path has no `..`, and of any other path only leading ones.
-/

namespace JumpScript.Path

def separator : UInt8 := 0x2F

def isRooted (p : Bytes) : Bool := p.head? == some separator

/-- The parts of a path, empty ones included. -/
def parts (p : Bytes) : List Bytes := Bytes.splitOn [separator] p

/-- The part that names the directory it stands in. -/
def here : Bytes := text "."

/-- The part that names the directory above. -/
def up : Bytes := text ".."

/-- Takes one more part into a cleaned path, whose parts are held in reverse. -/
def push (rooted : Bool) (names : List Bytes) (part : Bytes) : List Bytes :=
  if part = [] ∨ part = here then names
  else if part = up then
    match names with
    | [] => if rooted then [] else [up]
    | n :: rest => if n = up then up :: names else rest
  else part :: names

/-- The parts of a path after cleaning. -/
def names (rooted : Bool) (ps : List Bytes) : List Bytes :=
  (ps.foldl (push rooted) []).reverse

def render (rooted : Bool) (ns : List Bytes) : Bytes :=
  if rooted then separator :: Bytes.join [separator] ns
  else if ns.isEmpty then here
  else Bytes.join [separator] ns

/-- The shortest path that names the same place, judged by the text alone. -/
def clean (p : Bytes) : Bytes := render (isRooted p) (names (isRooted p) (parts p))

/-- Two paths one after the other, cleaned; an empty one is left out. -/
def join (p q : Bytes) : Bytes :=
  if p.isEmpty ∧ q.isEmpty then []
  else if p.isEmpty then clean q
  else if q.isEmpty then clean p
  else clean (p ++ [separator] ++ q)

/-- A path seen from the root, where `cwd` is the working directory. -/
def absolute (cwd p : Bytes) : Bytes := if isRooted p then clean p else join cwd p

/-- The path of the directory that holds what a rooted cleaned path names. -/
def parent (p : Bytes) : Bytes := render (isRooted p) (names (isRooted p) (parts p)).dropLast

end JumpScript.Path
