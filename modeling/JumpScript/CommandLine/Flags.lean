import JumpScript.Number.Radix
import JumpScript.Text.Quoted

/-!
# Flags

A command line is a list of flags followed by operands.  A flag is a name after one or two dashes;
its value comes after an equals sign or, unless the flag is a switch, as the next word.  Two dashes
alone end the flags, and so does the first word that is no flag.
-/

namespace JumpScript

inductive Flag where
  | config
  | dump
  | gas
  | logFormat
  | logLevel
  | noColor
  | noDebugger
  deriving DecidableEq, Repr

/-- What kind of value a flag has. -/
inductive FlagShape where
  | text
  | number
  | switch
  deriving DecidableEq, Repr

namespace Flag

def all : List Flag := [.config, .dump, .gas, .logFormat, .logLevel, .noColor, .noDebugger]

def name : Flag → Bytes
  | .config => text "config"
  | .dump => text "dump"
  | .gas => text "gas"
  | .logFormat => text "log-format"
  | .logLevel => text "log-level"
  | .noColor => text "no-color"
  | .noDebugger => text "no-debugger"

def shape : Flag → FlagShape
  | .config => .text
  | .dump => .switch
  | .gas => .number
  | .logFormat => .text
  | .logLevel => .text
  | .noColor => .switch
  | .noDebugger => .switch

def purpose : Flag → Bytes
  | .config => text "path to a tilde.yaml (default ./tilde.yaml if present)"
  | .dump => text "print the parsed program and exit"
  | .gas => text "maximum number of executed statements (0: unlimited)"
  | .logFormat => text "console or json"
  | .logLevel => text "trace, debug, info, warn or error"
  | .noColor => text "disable coloured diagnostics"
  | .noDebugger => text "ignore @runtime:breakpoint"

def ofName? (n : Bytes) : Option Flag := all.find? (·.name == n)

/-- The words for a kind of value, with a space before them. -/
def valueHint : FlagShape → Bytes
  | .text => text " string"
  | .number => text " int"
  | .switch => []

def usageLines (f : Flag) : Bytes :=
  text "  -" ++ f.name ++ valueHint f.shape ++ text "\n    \t" ++ f.purpose ++ [0x0A]

def usage : Bytes :=
  text "Usage: tilde [flags] <file.tl> [args...]\n\nFlags:\n" ++ all.flatMap usageLines

end Flag

inductive FlagError where
  | badForm (word : Bytes)
  | unknown (name : Bytes)
  | valueMissing (f : Flag)
  | badNumber (f : Flag) (value : Bytes) (e : NumeralError)
  | badSwitch (f : Flag) (value : Bytes)
  | helpWanted
  deriving DecidableEq, Repr

namespace FlagError

def reason : NumeralError → Bytes
  | .malformed => text "parse error"
  | .outOfRange => text "value out of range"

/-- The line for a refusal; a wish for help is no fault. -/
def message : FlagError → Bytes
  | .badForm word => text "bad flag syntax: " ++ word ++ [0x0A]
  | .unknown name => text "flag provided but not defined: -" ++ name ++ [0x0A]
  | .valueMissing f => text "flag needs an argument: -" ++ f.name ++ [0x0A]
  | .badNumber f value e =>
    text "invalid value " ++ value.quoted ++ text " for flag -" ++ f.name ++ text ": " ++ reason e
      ++ [0x0A]
  | .badSwitch f value =>
    text "invalid boolean value " ++ value.quoted ++ text " for -" ++ f.name ++ text ": "
      ++ reason .malformed ++ [0x0A]
  | .helpWanted => []

end FlagError

/-- The flags that were given; the last value of a flag counts. -/
structure Flags where
  config : Bytes := []
  dump : Bool := false
  gas : Option Int := none
  logFormat : Option Bytes := none
  logLevel : Option Bytes := none
  noColor : Bool := false
  noDebugger : Option Bool := none
  deriving DecidableEq, Repr

structure Invocation where
  flags : Flags := {}
  operands : List Bytes := []
  deriving DecidableEq, Repr

namespace Flags

def switchWords : List (Bytes × Bool) :=
  [(text "1", true), (text "t", true), (text "T", true), (text "true", true), (text "TRUE", true),
    (text "True", true), (text "0", false), (text "f", false), (text "F", false),
    (text "false", false), (text "FALSE", false), (text "False", false)]

def setText (fs : Flags) (f : Flag) (v : Bytes) : Flags :=
  match f with
  | .config => { fs with config := v }
  | .logFormat => { fs with logFormat := some v }
  | .logLevel => { fs with logLevel := some v }
  | _ => fs

def setSwitch (fs : Flags) (f : Flag) (v : Bool) : Flags :=
  match f with
  | .dump => { fs with dump := v }
  | .noColor => { fs with noColor := v }
  | .noDebugger => { fs with noDebugger := some v }
  | _ => fs

def set (fs : Flags) (f : Flag) (value : Bytes) : Except FlagError Flags :=
  match f.shape with
  | .text => .ok (fs.setText f value)
  | .number =>
    match Radix.read value with
    | .ok n => .ok { fs with gas := some n.toInt }
    | .error e => .error (.badNumber f value e)
  | .switch =>
    match switchWords.lookup value with
    | some b => .ok (fs.setSwitch f b)
    | none => .error (.badSwitch f value)

end Flags

/-- What a word of the command line is. -/
inductive FlagWord where
  | operand
  | stop
  | bad
  | flag (name : Bytes) (value : Option Bytes)
  deriving DecidableEq, Repr

namespace FlagWord

/-- The name of a flag and the value after an equals sign; the sign cannot come first. -/
def cutValue : Bytes → Bytes × Option Bytes
  | [] => ([], none)
  | c :: r =>
    match Bytes.cut? [0x3D] r with
    | some (n, v) => (c :: n, some v)
    | none => (c :: r, none)

def ofWord (w : Bytes) : FlagWord :=
  let named := fun (n : Bytes) =>
    if n.head?.all fun c => c == 0x2D || c == 0x3D then FlagWord.bad
    else .flag (cutValue n).1 (cutValue n).2
  match w with
  | [0x2D, 0x2D] => .stop
  | 0x2D :: 0x2D :: r => named r
  | 0x2D :: c :: r => named (c :: r)
  | _ => .operand

end FlagWord

namespace Invocation

def asksForHelp (name : Bytes) : Bool := name == text "help" || name == text "h"

/-- Reads a command line, given the flags read before. -/
def readFrom (fs : Flags) : List Bytes → Except FlagError Invocation
  | [] => .ok ⟨fs, []⟩
  | w :: ws =>
    match FlagWord.ofWord w with
    | .operand => .ok ⟨fs, w :: ws⟩
    | .stop => .ok ⟨fs, ws⟩
    | .bad => .error (.badForm w)
    | .flag name value =>
      match Flag.ofName? name with
      | none => .error (if asksForHelp name then .helpWanted else .unknown name)
      | some f =>
        match value with
        | some v => do readFrom (← fs.set f v) ws
        | none =>
          if f.shape = .switch then readFrom (fs.setSwitch f true) ws
          else
            match ws with
            | [] => .error (.valueMissing f)
            | v :: ws => do readFrom (← fs.set f v) ws

def read (argv : List Bytes) : Except FlagError Invocation := readFrom {} argv

end Invocation

end JumpScript
