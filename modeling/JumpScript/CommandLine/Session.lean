import JumpScript.CommandLine.Flags
import JumpScript.Console
import JumpScript.Settings.Load
import JumpScript.Statement.Parse
import JumpScript.Token.Import

/-!
# The command

The command reads its flags and settings, takes in a script with its imports, and either prints the
program or runs it.  Everything up to the first statement is a preparation, which either ends the
command or gives a machine that is ready to run; what follows the last statement is a report.  In
between a machine takes its turns, so whoever drives them can show output as it comes.
-/

namespace JumpScript

/-- What the command leaves behind besides files. -/
structure Report where
  /-- The exit status; absent when the turns of a run were not enough to end it. -/
  status : Option Int
  stdout : Bytes := []
  stderr : Bytes := []
  deriving DecidableEq, Repr

/-- A machine that is ready to run, with what is needed to report on it. -/
structure Session where
  settings : Settings
  /-- Whether diagnostics are coloured. -/
  color : Bool
  logger : Logger
  machine : Machine Native
  /-- What has been logged before the run. -/
  logged : Bytes

/-- Where a preparation leads. -/
inductive Preparation where
  | ended (r : Report)
  | ready (s : Session)

/-- What the command is started with: the time, the world, the input and the words after its name.
-/
structure Launch where
  now : Moment
  world : World
  input : Bytes
  argv : List Bytes
  /-- Whether complaints go to a terminal. -/
  terminal : Bool := false

namespace Settings

/-- Settings as flags change them. -/
def override (s : Settings) (f : Flags) : Settings :=
  { s with
    log :=
      { s.log with
        level := f.logLevel.getD s.log.level
        format := f.logFormat.getD s.log.format }
    run :=
      { s.run with
        gas := f.gas.getD s.run.gas
        color := if f.noColor then text "never" else s.run.color
        debugger := f.noDebugger.elim s.run.debugger (!·) } }

/-- The settings of a command: those of the file, changed by flags, if both make sense. -/
def ofFlags (fs : Files) (f : Flags) : Except SettingsError Settings := do
  let s := (← load fs f.config).override f
  s.validate
  return s

end Settings

namespace Report

/-- The end of a command that was not used as it should be. -/
def misuse (message : Bytes) : Report := { status := some 2, stderr := message ++ Flag.usage }

/-- The end of a command with one line of complaint. -/
def complaint (line : Bytes) : Report := { status := some 1, stderr := line ++ [0x0A] }

/-- How a failure is reported, and the status it gives: a request to leave is no fault, a diagnostic
is shown with its place, and anything else under the name of the command. -/
def failure (color : Bool) : Failure → Int × Bytes
  | .exit code => (code, [])
  | .anchored _ d => (1, d.render color ++ [0x0A])
  | .fault f => (1, text "tilde: " ++ f.message ++ [0x0A])

end Report

namespace Session

def importRecord (n : ImportNote) : Record :=
  ⟨.debug, [⟨text "path", .text n.path⟩, ⟨text "depth", .number n.depth⟩], text "import"⟩

def parsedRecord (path : Bytes) (statements : Nat) : Record :=
  ⟨.debug, [⟨text "file", .text path⟩, ⟨text "statements", .number statements⟩], text "parsed"⟩

/-- The statements of a script and of its imports, with the files taken in. -/
def compile (fs : Files) (path : Bytes) : List ImportNote × Except Failure (List Statement) :=
  match fs.read path with
  | .error e => ([], .error (.fault (.file e)))
  | .ok source =>
    let (notes, tokens) := tokenize fs.read defaultImportDepth path source
    (notes, (tokens.bind parse).mapError (.anchored []))

/-- A script taken in and made ready to run, or printed if that was asked for. -/
def prepareScript (l : Launch) (s : Settings) (logger : Logger) (dump : Bool) (path : Bytes)
    (args : List Bytes) : Preparation :=
  let (notes, program) := compile l.world.files path
  let logged := notes.flatMap fun n => logger.write l.now (importRecord n)
  let color := s.color l.terminal
  match program with
  | .error e =>
    let (code, shown) := Report.failure color e
    .ended { status := some code, stderr := logged ++ shown }
  | .ok program =>
    let logged := logged ++ logger.write l.now (parsedRecord path program.length)
    if dump then
      .ended { status := some 0, stdout := program.flatMap (·.text ++ [0x0A]), stderr := logged }
    else
      let machine : Machine Native :=
        { program := program.toArray, arguments := args, input := ⟨[], l.input⟩, world := l.world
          journal := .keeping logger.threshold }
      match (s.library l.world.files).registry.bind machine.register with
      | .error e => .ended { status := some 1, stderr := logged ++ e.message ++ [0x0A] }
      | .ok machine => .ready ⟨s, color, logger, machine, logged⟩

def prepare (l : Launch) : Preparation :=
  match Invocation.read l.argv with
  | .error e => .ended (.misuse e.message)
  | .ok ⟨_, []⟩ => .ended (.misuse [])
  | .ok ⟨flags, path :: args⟩ =>
    match Settings.ofFlags l.world.files flags with
    | .error e => .ended (.complaint e.message)
    | .ok s =>
      match (s.log.logger .debug).2 with
      | .error e => .ended (.complaint e.message)
      | .ok logger => prepareScript l s logger flags.dump path args

def hook (s : Session) : Option (Hook Unit Native) :=
  if s.settings.run.debugger then some Console.hook else none

/-- The exit status that an outcome gives, and what is said about it. -/
def conclude (s : Session) : Outcome → Option Int × Bytes
  | .finished => (some 0, [])
  | .endless => (none, [])
  | .failed e =>
    let (code, said) := Report.failure s.color e
    (some code, said)
  | .outOfFuel => (none, [])

/-- Runs the machine of a session for at most `fuel` turns. -/
def run (s : Session) (now : Moment) (fuel : Nat) : Report × Files :=
  let ((m, _), outcome) := s.machine.run Native.host s.hook s.settings.run.gas fuel ()
  let (status, said) := s.conclude outcome
  (⟨status, m.printed, s.logged ++ m.journal.records.flatMap (s.logger.write now) ++ said⟩,
    m.world.files)

end Session

/-- Executes the command, with at most `fuel` turns of its machine: what it says, and the files as
it leaves them. -/
def Launch.execute (l : Launch) (fuel : Nat) : Report × Files :=
  match Session.prepare l with
  | .ended r => (r, l.world.files)
  | .ready s => s.run l.now fuel

end JumpScript
