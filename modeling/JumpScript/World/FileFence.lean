import JumpScript.World.Files

/-!
# A fence around files

Scripts name files relative to a root directory.  A name is joined to the root and cleaned as text,
and what does not stay below the root is refused before any file is touched.  Sizes are limited for
reading and for writing.
-/

namespace JumpScript

/-- The directory that scripts are confined to, and the largest file they may handle. -/
structure FileFence where
  root : Bytes
  /-- The size limit; zero or less stands for none. -/
  limit : Int
  deriving DecidableEq, Repr

namespace FileFence

/-- A fence around a directory given from the working directory. -/
def around (fs : Files) (root : Bytes) (limit : Int) : FileFence :=
  ⟨Path.absolute (Path.render true fs.cwd) root, limit⟩

/-- The path that a name stands for, if it is the root or lies below it. -/
def resolve (f : FileFence) (name : Bytes) : Except Fault Bytes :=
  let path := Path.join f.root (Path.clean name)
  if path ≠ f.root ∧ ¬ (f.root ++ [Path.separator]).isPrefixOf path then .error .pathEscape
  else .ok path

/-- Whether a size is beyond the limit. -/
def exceeds (f : FileFence) (size : Nat) : Bool := 0 < f.limit && f.limit < size

/-- The size that a directory is taken to have. -/
def directorySize : Nat := 4096

def nodeSize : Node → Nat
  | .file contents => contents.length
  | .directory => directorySize

def read (f : FileFence) (fs : Files) (name : Bytes) : Except Fault Bytes := do
  let path ← f.resolve name
  match fs.status path with
  | .error reason => .error (.file ⟨.stating, path, reason⟩)
  | .ok node =>
    if f.exceeds (nodeSize node) then .error .fileTooLarge
    else (fs.read path).mapError .file

/-- Creates or replaces a file inside the fence, and the directories above it.  Directories made
before a failure stay. -/
def write (f : FileFence) (fs : Files) (name contents : Bytes) : Files × Except Fault Unit :=
  match f.resolve name with
  | .error e => (fs, .error e)
  | .ok path =>
    if f.exceeds contents.length then (fs, .error .fileTooLarge)
    else
      match fs.makeDirectories (Path.parent path) with
      | (fs, .error e) => (fs, .error (.file e))
      | (fs, .ok ()) =>
        match fs.write path contents with
        | .ok fs => (fs, .ok ())
        | .error e => (fs, .error (.file e))

/-- Whether a name inside the fence stands for a file or a directory. -/
def exists? (f : FileFence) (fs : Files) (name : Bytes) : Except Fault Bool := do
  let path ← f.resolve name
  match fs.status path with
  | .ok _ => .ok true
  | .error .notFound => .ok false
  | .error reason => .error (.file ⟨.stating, path, reason⟩)

end FileFence

end JumpScript
