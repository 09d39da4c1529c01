import JumpScript.Fault
import JumpScript.World.Path

/-!
# Files

A file tree is a list of named nodes: files with their contents, and directories.  Names are lists
of parts seen from the root, which is a directory without an entry of its own.  Looking a path up
walks its parts one by one, and the first part that cannot be walked decides the reason of a
failure.
-/

namespace JumpScript

/-- What a path can name. -/
inductive Node where
  | file (contents : Bytes)
  | directory
  deriving DecidableEq, Repr

/-- The place of a node: the parts of its path from the root. -/
abbrev Place := List Bytes

/-- Files and directories by place, and the working directory. -/
structure Files where
  nodes : List (Place × Node)
  cwd : Place
  deriving DecidableEq, Repr

namespace Files

def empty : Files := ⟨[], []⟩

/-- The node at a place. -/
def node? (fs : Files) (p : Place) : Option Node :=
  if p.isEmpty then some .directory else fs.nodes.lookup p

/-- The longest name a directory can hold. -/
def longestName : Nat := 255

/-- The length from which on a path is refused. -/
def pathLimit : Nat := 4096

/-- Takes one step from a directory. -/
def enter (fs : Files) (dir : Place) (part : Bytes) : Except FileReason (Place × Option Node) :=
  if part = [] ∨ part = Path.here then .ok (dir, some .directory)
  else if part = Path.up then .ok (dir.dropLast, some .directory)
  else if longestName < part.length then .error .nameTooLong
  else .ok (dir ++ [part], fs.node? (dir ++ [part]))

/-- Walks parts from a directory on.  The last part may name nothing; whatever comes before must be
a directory. -/
def walkParts (fs : Files) (dir : Place) : List Bytes → Except FileReason (Place × Option Node)
  | [] => .ok (dir, some .directory)
  | [part] => fs.enter dir part
  | part :: rest => do
    match ← fs.enter dir part with
    | (place, some .directory) => fs.walkParts place rest
    | (_, some (.file _)) => .error .notDirectory
    | (place, none) =>
      if rest.all fun q => q = [] then .ok (place, none) else .error .notFound

/-- The place that a path names and the node there, if there is one. -/
def walk (fs : Files) (path : Bytes) : Except FileReason (Place × Option Node) :=
  if path.contains 0 then .error .invalidName
  else if path.isEmpty then .error .notFound
  else if pathLimit ≤ path.length then .error .nameTooLong
  else fs.walkParts (if Path.isRooted path then [] else fs.cwd) (Path.parts path)

def status (fs : Files) (path : Bytes) : Except FileReason Node := do
  match ← fs.walk path with
  | (_, some n) => .ok n
  | (_, none) => .error .notFound

/-- Puts a node at a place. -/
def put (fs : Files) (p : Place) (n : Node) : Files :=
  if fs.nodes.any (·.1 = p) then
    { fs with nodes := fs.nodes.map fun e => if e.1 = p then (p, n) else e }
  else { fs with nodes := fs.nodes ++ [(p, n)] }

def read (fs : Files) (path : Bytes) : Except FileError Bytes :=
  match fs.status path with
  | .ok (.file contents) => .ok contents
  | .ok .directory => .error ⟨.reading, path, .isDirectory⟩
  | .error reason => .error ⟨.opening, path, reason⟩

/-- Creates or replaces a file in a directory that exists. -/
def write (fs : Files) (path contents : Bytes) : Except FileError Files :=
  match fs.walk path with
  | .ok (_, some .directory) => .error ⟨.opening, path, .isDirectory⟩
  | .ok (place, _) => .ok (fs.put place (.file contents))
  | .error reason => .error ⟨.opening, path, reason⟩

/-- Creates one directory in a directory that exists, unless it is there already. -/
def makeDirectory (fs : Files) (path : Bytes) : Except FileError Files :=
  match fs.walk path with
  | .ok (_, some .directory) => .ok fs
  | .ok (_, some (.file _)) => .error ⟨.makingDirectory, path, .notDirectory⟩
  | .ok (place, none) => .ok (fs.put place .directory)
  | .error reason => .error ⟨.makingDirectory, path, reason⟩

/-- The rooted paths of the directories on the way to a place, the outermost first. -/
def ancestors (ns : List Bytes) : List Bytes :=
  (List.range ns.length).map fun j => Path.render true (ns.take (j + 1))

/-- Creates the directories that a rooted cleaned path is made of, as far as they are missing.  The
tree is returned with a failure too: directories made before it stay. -/
def makeDirectories (fs : Files) (path : Bytes) : Files × Except FileError Unit :=
  (ancestors (Path.names true (Path.parts path))).foldl
    (fun (fs, done) p =>
      match done with
      | .error e => (fs, .error e)
      | .ok () =>
        match fs.makeDirectory p with
        | .ok fs => (fs, .ok ())
        | .error e => (fs, .error e))
    (fs, .ok ())

/-- Everything below a place in walking order, a directory before what it holds, with the paths seen
from that place. -/
def listing (fs : Files) (p : Place) : List (Place × Node) :=
  ((fs.nodes.filter fun e => p.isPrefixOf e.1 && e.1 != p).map
    fun e => (e.1.drop p.length, e.2)).mergeSort fun a b => !before b.1 a.1
where
  /-- The walking order of two places. -/
  before : Place → Place → Bool
    | _, [] => false
    | [], _ :: _ => true
    | a :: s, b :: t => Bytes.lt a b || (a == b && before s t)

end Files

end JumpScript
