import JumpScript.Settings.Basic
import JumpScript.Yaml.Decode
import JumpScript.Yaml.Document

/-!
# Settings from a file

A settings file is a document whose sections change the usual settings.  The usual file may be
missing; a file that was asked for must exist.
-/

namespace JumpScript.Settings

open Yaml (Decoder)

/-- The file that is looked for unless another one is asked for. -/
def usualPath : Bytes := text "tilde.yaml"

def logFields : Table (Decoder LogSettings) :=
  [(text "level", .bytes fun v s => { s with level := v }),
    (text "format", .bytes fun v s => { s with format := v })]

def runFields : Table (Decoder RunSettings) :=
  [(text "gas", .int fun v s => { s with gas := v }),
    (text "color", .bytes fun v s => { s with color := v }),
    (text "debugger", .bool fun v s => { s with debugger := v })]

def sandboxFields : Table (Decoder SandboxSettings) :=
  [(text "root", .bytes fun v s => { s with root := v }),
    (text "max_file_size", .int fun v s => { s with maxFileSize := v }),
    (text "allowed_hosts", .list fun v s => { s with allowedHosts := v }),
    (text "allow_localhost", .bool fun v s => { s with allowLocalhost := v })]

def moduleFields : Table (Decoder (List Bytes)) := [(text "disabled", .list fun v _ => v)]

def sections : Table (Decoder Settings) :=
  [(text "log", .part (·.log) (fun v s => { s with log := v }) (.record logFields)),
    (text "run", .part (·.run) (fun v s => { s with run := v }) (.record runFields)),
    (text "sandbox",
      .part (·.sandbox) (fun v s => { s with sandbox := v }) (.record sandboxFields)),
    (text "modules",
      .part (·.disabledModules) (fun v s => { s with disabledModules := v })
        (.record moduleFields))]

/-- The usual settings as a document changes them. -/
def ofDocument (s : Bytes) : Except Yaml.Problem Settings := do
  match ← Yaml.read s with
  | none => return {}
  | some node => Decoder.record sections node {}

/-- The settings in a file, or in the usual file if no path is given. -/
def read (fs : Files) (path : Bytes) : Except SettingsError Settings :=
  let chosen := if path.isEmpty then usualPath else path
  match fs.read chosen with
  | .ok contents => (ofDocument contents).mapError (.malformed chosen)
  | .error e =>
    if path.isEmpty ∧ e.reason = .notFound then .ok {}
    else if e.reason = .isDirectory then .error (.malformed chosen .unreadable)
    else .error (.file e)

/-- The settings in a file, if they make sense. -/
def load (fs : Files) (path : Bytes) : Except SettingsError Settings := do
  let s ← read fs path
  s.validate
  return s

end JumpScript.Settings
