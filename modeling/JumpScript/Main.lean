import JumpScript.CommandLine.Session
import Std.Time.DateTime.Timestamp

/-!
# The command on a real machine

What the command does is decided elsewhere; here its world is filled with real files as they are
needed, its machine takes turns, and what it prints, logs and writes is passed on.
-/

namespace JumpScript.Main

def now : IO Moment := do
  let t ← Std.Time.Timestamp.now
  return ⟨t.toSecondsSinceUnixEpoch.val.toNat⟩

def packed (b : Bytes) : ByteArray := ⟨b.toArray⟩

/-- What a real path names. -/
def inspect (path : Bytes) : IO (Option Node) := do
  match String.fromUTF8? (packed path) with
  | none => return none
  | some name =>
    let place := (← IO.currentDir) / name
    if ← place.isDir then return some .directory
    else if ← place.pathExists then
      try return some (.file (← IO.FS.readBinFile place).toList)
      catch _ => return none
    else return none

/-- Takes a real file or directory into a tree, and the directories above it. -/
def take (fs : Files) (path : Bytes) : IO Files := do
  let names := Path.names true (Path.parts (Path.absolute (Path.render true fs.cwd) path))
  let mut fs := fs
  for p in Files.ancestors names do
    if let some n ← inspect p then fs := fs.put (Path.names true (Path.parts p)) n
  return fs

/-- The variables of the environment, where the system lists them. -/
def environment : IO (Table Bytes) := do
  try
    let listed := (← IO.FS.readBinFile "/proc/self/environ").toList
    return (Bytes.splitOn [0] listed).filterMap (Bytes.cut? [0x3D])
  catch _ => return []

/-- The world as a command finds it: its working directory and the environment. -/
def surroundings : IO World := do
  let cwd := text (← IO.currentDir).toString
  let fs : Files := { Files.empty with cwd := Path.names true (Path.parts cwd) }
  return ⟨← take fs cwd, ← environment, []⟩

/-- Takes in the files that a script imports, one after another, until none is missing any more. -/
partial def takeImports (fs : Files) (script : Bytes) (tried : List Bytes) : IO Files := do
  match (Session.compile fs script).2 with
  | .error (.anchored _ ⟨_, _, _, _, _, _, _, _, some (.file e)⟩) =>
    if tried.contains e.path then return fs
    else takeImports (← take fs e.path) script (e.path :: tried)
  | _ => return fs

/-- Takes in the settings file, the script and its imports. -/
def takeScript (fs : Files) (argv : List Bytes) : IO Files := do
  match Invocation.read argv with
  | .ok ⟨flags, script :: _⟩ =>
    let fs ← take fs (if flags.config.isEmpty then Settings.usualPath else flags.config)
    let fs ← take fs script
    takeImports fs script []
  | _ => return fs

/-- The function that a statement calls. -/
def callee? (s : Statement) : Option CallTarget :=
  match s.action with
  | .call t _ => some t
  | .assignCall _ t _ => some t
  | _ => none

/-- Whether a statement may call a function that `p` holds for, directly or for the items of an
array. -/
def mayCall (p : CallTarget → Bool) (s : Statement) : Bool :=
  (callee? s).any fun t => p t || t.module == Module.std.name

/-- The strings that the operands of a statement hold, themselves or in an array. -/
def strings (m : Machine Native) (s : Statement) : List Bytes :=
  let own : Value → List Bytes
    | .str b => [b]
    | _ => []
  let held : Value → List Bytes
    | .array h => (m.heap.items h).toList.flatMap own
    | v => own v
  s.action.operands.flatMap fun o => ((m.resolve o).toOption.map held).getD []

/-- Takes in the files that a statement may name. -/
def supply (s : Session) (m : Machine Native) (statement : Statement) : IO (Machine Native) := do
  if mayCall (·.module == Module.file.name) statement then
    let some fence := (s.settings.library m.world.files).files | return m
    let mut fs := m.world.files
    for name in strings m statement do
      if let .ok path := fence.resolve name then fs ← take fs path
    return { m with world := { m.world with files := fs } }
  else return m

/-- Writes out what a turn has changed in a tree. -/
def persist (old new : Files) : IO Unit := do
  for (place, node) in new.nodes do
    if old.node? place != some node then
      if let some name := String.fromUTF8? (packed (Path.render true place)) then
        match node with
        | .directory => IO.FS.createDirAll name
        | .file contents => IO.FS.writeBinFile name (packed contents)

/-- Passes on what a machine has printed and logged. -/
def passOn (s : Session) (m : Machine Native) : IO (Machine Native) := do
  let out ← IO.getStdout
  out.write (packed m.printed)
  out.flush
  let t ← now
  (← IO.getStderr).write (packed (m.journal.records.flatMap (s.logger.write t)))
  return { m with output := [], journal := .keeping m.journal.threshold }

/-- The functions that read the input, or let the console read it. -/
def inputReaders : List Bytes := [text "io:read", text "io:readln", text "runtime:breakpoint"]

def readsInput (program : Array Statement) : Bool :=
  program.any (mayCall fun t => inputReaders.contains t.key)

/-- Everything that a stream holds. -/
partial def readAll (stream : IO.FS.Stream) (held : ByteArray) : IO ByteArray := do
  let piece ← stream.read 4096
  if piece.isEmpty then return held else readAll stream (held ++ piece)

/-- Takes turns until the program is over. -/
partial def drive (s : Session) (m : Machine Native) : IO (Machine Native × Outcome) := do
  let m ← passOn s m
  match m.current? with
  | none => return (m, .finished)
  | some statement =>
    let m ← supply s m statement
    match m.turn Native.host s.hook s.settings.run.gas statement () with
    | ((m', _), .ok ()) =>
      persist m.world.files m'.world.files
      drive s m'
    | ((m', _), .error e) =>
      persist m.world.files m'.world.files
      return (m', .failed e)

def run (s : Session) : IO Int := do
  (← IO.getStderr).write (packed s.logged)
  let input ←
    if readsInput s.machine.program then pure (← readAll (← IO.getStdin) .empty).toList
    else pure []
  let (m, outcome) ← drive s ({ s.machine with input := ⟨[], input⟩ }.start Native.host)
  let _ ← passOn s (m.halt outcome)
  let (status, said) := s.conclude outcome
  (← IO.getStderr).write (packed said)
  return status.getD 1

end JumpScript.Main

open JumpScript in
def main (args : List String) : IO UInt32 := do
  let argv := args.map text
  let world ← Main.surroundings
  let world := { world with files := ← Main.takeScript world.files argv }
  let terminal ← (← IO.getStderr).isTty
  match Session.prepare ⟨← Main.now, world, [], argv, terminal⟩ with
  | .ended r =>
    (← IO.getStdout).write (Main.packed r.stdout)
    (← IO.getStderr).write (Main.packed r.stderr)
    return (r.status.getD 1 % 256).toNat.toUInt32
  | .ready s => return ((← Main.run s) % 256).toNat.toUInt32
