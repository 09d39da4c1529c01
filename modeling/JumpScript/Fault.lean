import JumpScript.Number.Decimal
import JumpScript.Text.Quoted
import JumpScript.Value.Kind
import JumpScript.World.Address

/-!
# Faults

Everything that can go wrong while a program runs, one constructor per cause.  Causes are data; the
words shown to a user are chosen in one place, `Fault.message`.
-/

namespace JumpScript

inductive FileAction where
  | opening
  | reading
  | stating
  | makingDirectory
  deriving DecidableEq, Repr

def FileAction.name : FileAction → Bytes
  | .opening => text "open"
  | .reading => text "read"
  | .stating => text "stat"
  | .makingDirectory => text "mkdir"

inductive FileReason where
  | notFound
  | isDirectory
  | notDirectory
  | invalidName
  | nameTooLong
  deriving DecidableEq, Repr

def FileReason.message : FileReason → Bytes
  | .notFound => text "no such file or directory"
  | .isDirectory => text "is a directory"
  | .notDirectory => text "not a directory"
  | .invalidName => text "invalid argument"
  | .nameTooLong => text "file name too long"

structure FileError where
  action : FileAction
  path : Bytes
  reason : FileReason
  deriving DecidableEq, Repr

def FileError.message (e : FileError) : Bytes :=
  e.action.name ++ [0x20] ++ e.path ++ text ": " ++ e.reason.message

inductive Arity where
  | exactly (n : Nat)
  | atLeast (n : Nat)
  | oneOrTwo
  | atMostOne
  deriving DecidableEq, Repr

def Arity.message : Arity → Bytes
  | .exactly 1 => text "1 argument"
  | .exactly n => Bytes.ofNat n ++ text " arguments"
  | .atLeast n => text "at least " ++ Bytes.ofNat n ++ text " arguments"
  | .oneOrTwo => text "1 or 2 arguments"
  | .atMostOne => text "at most 1 argument"

/-- The kinds that a native function can insist on. -/
inductive Wanted where
  | array
  | string
  | int
  | float
  | number
  deriving DecidableEq, Repr

def Wanted.name : Wanted → Bytes
  | .array => text "array"
  | .string => text "string"
  | .int => text "int"
  | .float => text "float"
  | .number => text "number"

inductive RequestFlaw where
  | noHost
  | noAnswer
  | manyRedirections
  | badRedirection
  deriving DecidableEq, Repr

def RequestFlaw.words : RequestFlaw → Bytes
  | .noHost => text "http: no Host in request URL"
  | .noAnswer => text "no such host"
  | .manyRedirections => text "stopped after 10 redirects"
  | .badRedirection => text "failed to parse Location header"

/-- A request without an answer. -/
structure RequestError where
  address : Bytes
  flaw : RequestFlaw
  deriving DecidableEq, Repr

def RequestError.message (e : RequestError) : Bytes :=
  text "Get " ++ e.address.quoted ++ text ": " ++ e.flaw.words

inductive Fault where
  | gasExhausted
  | registryFrozen
  | emptyCallStack
  | stackUnderflow
  | alreadyRun
  | variableNotFound (name : Bytes)
  | labelNotFound (label : Bytes)
  | functionNotFound (key : Bytes)
  | noReturnValue (key : Bytes)
  | nestedCall (key : Bytes)
  | kindMismatch (verb : Verb) (left right : Kind)
  | divisionByZero
  | indexOutOfBounds (index : Int) (length : Nat)
  | emptyArray
  | argumentCount (want : Arity) (got : Nat)
  | argumentKind (want : Wanted) (got : Kind)
  | elementKind (want : Wanted) (got : Kind)
  | notInteger (s : Bytes)
  | notFloat (s : Bytes)
  | unusedArguments (count : Nat)
  | unknownLocale (tag : Bytes)
  | emptyRange
  | noLoopVariable (name : Bytes)
  | noLoopEnd (name : Bytes)
  | noResult (key : Bytes)
  | unequal (left right : Bytes)
  | jsonMalformed
  | jsonKeyNotFound (key : Bytes)
  | jsonNumberRange (numeral : Bytes)
  | jsonNotFinite (x : Float)
  | jsonTooDeep
  | pathEscape
  | fileTooLarge
  | file (e : FileError)
  | whileReading (f : Fault)
  | whileWriting (f : Fault)
  | badAddress (e : Address.Error)
  | requestFailed (e : RequestError)
  | unsupportedScheme (scheme : Bytes)
  | domainNotAllowed
  | localhostBlocked
  | badStatus (host status : Bytes)
  | responseTooLarge
  | unknownModule (name : Bytes)
  | aborted
  | varUsage
  | gotoUsage
  | unknownCommand (command : Bytes)
  | custom (message : Bytes)
  /-- What was begun never ends, so nothing is ever reported. -/
  | endless
  deriving DecidableEq, Repr

def Fault.message : Fault → Bytes
  | .gasExhausted => text "vm: gas exhausted"
  | .registryFrozen => text "vm: registry is frozen once the machine runs"
  | .emptyCallStack => text "vm: ret without matching call"
  | .stackUnderflow => text "vm: operand stack underflow"
  | .alreadyRun => text "vm: machine has already run"
  | .variableNotFound name => text "variable not found: " ++ name
  | .labelNotFound label => text "label not found: " ++ label
  | .functionNotFound key => text "function not found: " ++ key
  | .noReturnValue key => text "function did not return a value: @" ++ key
  | .nestedCall key => text "calls nested too deeply: " ++ key
  | .kindMismatch verb left right =>
    text "cannot " ++ verb.name ++ [0x20] ++ left.name ++ text " and " ++ right.name
  | .divisionByZero => text "division by zero"
  | .indexOutOfBounds i n =>
    text "index out of bounds: index " ++ Bytes.ofInt i ++ text ", length " ++ Bytes.ofNat n
  | .emptyArray => text "array is empty"
  | .argumentCount want got =>
    text "expected " ++ want.message ++ text ", got " ++ Bytes.ofNat got
  | .argumentKind want got => text "expected " ++ want.name ++ text ", got " ++ got.name
  | .elementKind want got => text "expected " ++ want.name ++ text " in array, got " ++ got.name
  | .notInteger s => text "failed to parse int: " ++ s.quoted
  | .notFloat s => text "failed to parse float: " ++ s.quoted
  | .unusedArguments n => text "format has " ++ Bytes.ofNat n ++ text " unused arguments"
  | .unknownLocale tag => text "invalid locale " ++ tag.quoted
  | .emptyRange => text "start must be less than end"
  | .noLoopVariable name => text "invalid iter for current: " ++ name
  | .noLoopEnd name => text "invalid iter for end: " ++ name
  | .noResult key => text "@" ++ key ++ text " did not return a value"
  | .unequal left right => text "expected " ++ left ++ text " to be " ++ right
  | .jsonMalformed => text "json unmarshal failed: malformed document"
  | .jsonKeyNotFound key => text "json: key " ++ key.quoted ++ text " not found"
  | .jsonNumberRange n =>
    text "strconv.ParseFloat: parsing " ++ n.quoted ++ text ": value out of range"
  | .jsonNotFinite x => text "json: cannot encode " ++ Double.plain x
  | .jsonTooDeep => text "json: array nesting too deep"
  | .pathEscape => text "stdlib/file: path escape violation"
  | .fileTooLarge => text "stdlib/file: file size limit exceeded"
  | .file e => e.message
  | .whileReading f => text "failed to read file: " ++ f.message
  | .whileWriting f => text "failed to write file: " ++ f.message
  | .badAddress e => e.message
  | .requestFailed e => e.message
  | .unsupportedScheme s => text "stdlib/http: unsupported scheme " ++ s.quoted
  | .domainNotAllowed => text "stdlib/http: domain not allowed"
  | .localhostBlocked => text "stdlib/http: localhost/internal access blocked"
  | .badStatus host status => text "stdlib/http: " ++ host ++ text " returned " ++ status
  | .responseTooLarge => text "stdlib/http: response size limit exceeded"
  | .unknownModule name => text "stdlib: unknown module " ++ name.quoted
  | .aborted => text "debugger: aborted"
  | .varUsage => text "usage: var NAME"
  | .gotoUsage => text "usage: goto LABEL"
  | .unknownCommand c => text "unknown command " ++ c.quoted ++ text " (try help)"
  | .custom m => m
  | .endless => []

end JumpScript
