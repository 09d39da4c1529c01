import JumpScript.Library.Registry
import JumpScript.Log.Line
import JumpScript.Yaml.Basic

/-!
# Settings

Settings are kept as they were written; `Settings.validate` tells whether they make sense, and the
readers of the single settings say what they mean.
-/

namespace JumpScript

inductive SettingsError where
  | badFormat (s : Bytes)
  | unknownLevel (s : Bytes)
  | levelOutOfRange (n : Int)
  | badColor (s : Bytes)
  | negativeFileSize
  | unknownModule (name : Bytes)
  | file (e : FileError)
  | malformed (path : Bytes) (p : Yaml.Problem)
  deriving DecidableEq, Repr

def SettingsError.message : SettingsError → Bytes
  | .badFormat s => text "config: log format must be console or json, got " ++ s.quoted
  | .unknownLevel s =>
    text "config: log level: Unknown Level String: '" ++ s ++ text "', defaulting to NoLevel"
  | .levelOutOfRange n =>
    text "config: log level: Out-Of-Bounds Level: '" ++ Bytes.ofInt n
      ++ text "', defaulting to NoLevel"
  | .badColor s => text "config: color must be auto, always or never, got " ++ s.quoted
  | .negativeFileSize => text "config: max_file_size must not be negative"
  | .unknownModule name =>
    text "config: unknown module " ++ name.quoted ++ text " in modules.disabled"
  | .file e => text "config: " ++ e.message
  | .malformed path p => text "config: parse " ++ path ++ text ": " ++ p.message

structure LogSettings where
  level : Bytes := text "warn"
  format : Bytes := text "console"
  deriving DecidableEq, Repr

structure RunSettings where
  /-- The number of statements a program may execute; zero or less stands for no limit. -/
  gas : Int := 0
  color : Bytes := text "auto"
  debugger : Bool := true
  deriving DecidableEq, Repr

/-- What a program may reach. -/
structure SandboxSettings where
  root : Bytes := text "."
  maxFileSize : Int := 5 * 1024 * 1024
  allowedHosts : List Bytes := []
  allowLocalhost : Bool := false
  deriving DecidableEq, Repr

/-- All settings; those given here hold unless others are made. -/
structure Settings where
  log : LogSettings := {}
  run : RunSettings := {}
  sandbox : SandboxSettings := {}
  disabledModules : List Bytes := []
  deriving DecidableEq, Repr

/-- Whether diagnostics are coloured. -/
inductive ColorChoice where
  | auto
  | always
  | never
  deriving DecidableEq, Repr

def ColorChoice.ofName? (s : Bytes) : Option ColorChoice :=
  if s = text "auto" then some .auto
  else if s = text "always" then some .always
  else if s = text "never" then some .never
  else none

def LogFormat.ofName? (s : Bytes) : Option LogFormat :=
  if s = text "console" then some .console
  else if s = text "json" then some .json
  else none

namespace Level

/-- Reads a level: a name in any case, or a rank of eight bits; nothing stands for warnings. -/
def read (s : Bytes) : Except SettingsError Level :=
  if s.isEmpty then .ok .warn
  else
    match ofName? s with
    | some l => .ok l
    | none =>
      match Integer.read s with
      | .error _ => .error (.unknownLevel s)
      | .ok n => (ofRank? n.toInt).elim (.error (.levelOutOfRange n.toInt)) .ok

def min (a b : Level) : Level := if a.rank < b.rank then a else b

end Level

namespace LogSettings

/-- The logger that settings ask for.  Loggers share a threshold below which none of them writes; it
is lowered to the one of the new logger where it stands above it, even if the format is refused
then.  No format stands for words. -/
def logger (s : LogSettings) (shared : Level) : Level × Except SettingsError Logger :=
  match Level.read s.level with
  | .error e => (shared, .error e)
  | .ok level =>
    (Level.min level shared,
      if s.format.isEmpty then .ok ⟨level, .console⟩
      else
        match LogFormat.ofName? s.format with
        | some format => .ok ⟨level, format⟩
        | none => .error (.badFormat s.format))

end LogSettings

namespace Settings

/-- Whether the settings make sense; the first that does not is reported. -/
def validate (s : Settings) : Except SettingsError Unit := do
  if (LogFormat.ofName? s.log.format).isNone then .error (.badFormat s.log.format)
  let _ ← Level.read s.log.level
  if (ColorChoice.ofName? s.run.color).isNone then .error (.badColor s.run.color)
  if s.sandbox.maxFileSize < 0 then .error .negativeFileSize
  match s.disabledModules.find? (!Module.isKnown ·) with
  | some name => .error (.unknownModule name)
  | none => .ok ()

/-- Whether diagnostics are coloured, when they go to a terminal or elsewhere. -/
def color (s : Settings) (terminal : Bool) : Bool :=
  match ColorChoice.ofName? s.run.color with
  | some .always => true
  | some .never => false
  | _ => terminal

/-- The largest file that a program may handle; zero stands for the usual limit. -/
def fileLimit (s : Settings) : Int :=
  if s.sandbox.maxFileSize = 0 then ({} : SandboxSettings).maxFileSize else s.sandbox.maxFileSize

/-- The library that the settings ask for.  The web can be reached only when some host is allowed.
-/
def library (s : Settings) (fs : Files) : LibraryOptions where
  files := some (FileFence.around fs s.sandbox.root s.fileLimit)
  web :=
    if s.sandbox.allowedHosts.isEmpty then none
    else
      some { WebFence.ofHosts s.sandbox.allowedHosts with allowLocal := s.sandbox.allowLocalhost }
  disabled := s.disabledModules

end Settings

end JumpScript
