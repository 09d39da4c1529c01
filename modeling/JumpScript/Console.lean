import JumpScript.Machine.Run
import JumpScript.Text.Blank

/-!
# The debugger console

At a pause a console shows the machine and takes commands until one of them resumes the program.
Commands only look, with one exception: going to a label moves the program counter.  Variables that
the library keeps for itself are not listed.
-/

namespace JumpScript

inductive Command where
  | resume
  | showVariable (name : Bytes)
  | listVariables (query : Bytes)
  | listLabels (query : Bytes)
  | goto (label : Bytes)
  | showStacks
  | showPlace
  | help
  deriving DecidableEq, Repr

namespace Command

def only (usage : Fault) : List Bytes → Except Fault Bytes
  | [a] => .ok a
  | _ => .error usage

/-- Reads a command line; a blank line is no command. -/
def read (line : Bytes) : Except Fault (Option Command) :=
  match line.words with
  | [] => .ok none
  | word :: args =>
    let isOne (names : List String) : Bool := names.any fun n => text n == word
    if isOne ["continue", "c"] then .ok (some .resume)
    else if isOne ["var", "v"] then (only .varUsage args).map fun n => some (.showVariable n)
    else if isOne ["vars"] then .ok (some (.listVariables (args.headD [])))
    else if isOne ["labels"] then .ok (some (.listLabels (args.headD [])))
    else if isOne ["goto", "g"] then
      (only .gotoUsage args).map fun l =>
        some (.goto (if l.head? == some 0x7E then l.drop 1 else l))
    else if isOne ["stack"] then .ok (some .showStacks)
    else if isOne ["where", "w"] then .ok (some .showPlace)
    else if isOne ["help", "h", "?"] then .ok (some .help)
    else .error (.unknownCommand word)

def helpText : Bytes :=
  text "var NAME        print one variable
vars [QUERY]    list variables
labels [QUERY]  list labels
goto LABEL      resume at LABEL
stack           show call and operand stacks
where           show the next statement
continue        resume execution
"

end Command

/-- What a command does: the machine after it, what it shows, and whether the program goes on. -/
structure CommandResult (ν : Type) where
  machine : Machine ν
  shown : Bytes
  resumes : Except Fault Bool

namespace Console

variable {ν : Type}

/-- Names that belong to the library start so. -/
def hiddenStart : Bytes := text "@internal:"

/-- Whether a name is listed: it belongs to the program and holds the query. -/
def isListed (query name : Bytes) : Bool := !hiddenStart.isPrefixOf name && name.includes query

def variableLine (m : Machine ν) (name : Bytes) (v : Value) : Bytes :=
  name ++ text " = " ++ m.heap.quoted v ++ [0x0A]

/-- The variables whose names hold the query, by name. -/
def listedVariables (m : Machine ν) (query : Bytes) : List (Bytes × Value) :=
  (m.bindings.sortedNames.filter (isListed query)).map fun name =>
    (name, (m.lookup name).getD .void)

def variableLines (m : Machine ν) (query : Bytes) : Bytes :=
  (listedVariables m query).flatMap fun (name, v) => variableLine m name v

/-- The labels that hold the query, by place. -/
def labelLines (m : Machine ν) (query : Bytes) : Bytes :=
  ((m.labels.filter fun l => isListed query l.1).mergeSort fun a b => a.2 ≤ b.2).flatMap fun l =>
    [0x7E] ++ l.1 ++ text " at " ++ Bytes.ofNat l.2 ++ [0x0A]

/-- The pending calls and the operands, the oldest first. -/
def stackLines (m : Machine ν) : Bytes :=
  text "calls: [" ++ Bytes.join [0x20] (m.calls.reverse.map Bytes.ofNat) ++ text "]\n"
    ++ text "operands: " ++ Heap.bracketed (m.operands.reverse.map m.heap.quoted) ++ [0x0A]

def placeLine (m : Machine ν) : Bytes :=
  Bytes.ofInt m.pc ++ text ": "
    ++ (m.current?.elim (text "<end of program>") Statement.text) ++ [0x0A]

def showQuoted (m : Machine ν) (vs : List Value) (s : Bytes) : CommandResult ν :=
  if vs.all m.heap.quotingEnds then ⟨m, s, .ok false⟩ else ⟨m, [], .error .endless⟩

def perform (m : Machine ν) : Command → CommandResult ν
  | .resume => ⟨m, [], .ok true⟩
  | .showVariable name =>
    match m.lookup name with
    | some v => showQuoted m [v] (variableLine m name v)
    | none => ⟨m, [], .error (.variableNotFound name)⟩
  | .listVariables query =>
    showQuoted m ((listedVariables m query).map Prod.snd) (variableLines m query)
  | .listLabels query => ⟨m, labelLines m query, .ok false⟩
  | .goto label =>
    match m.jump label with
    | .ok m => ⟨m, [], .ok true⟩
    | .error e => ⟨m, [], .error e⟩
  | .showStacks => showQuoted m m.operands (stackLines m)
  | .showPlace => ⟨m, placeLine m, .ok false⟩
  | .help => ⟨m, Command.helpText, .ok false⟩

def exec (m : Machine ν) (line : Bytes) : CommandResult ν :=
  match Command.read line with
  | .error e => ⟨m, [], .error e⟩
  | .ok none => ⟨m, [], .ok false⟩
  | .ok (some c) => perform m c

/-- Executes command lines until one resumes the program; gives the lines that are left and what
each executed line did. -/
def converse (m : Machine ν) : List Bytes → Machine ν × List Bytes × List (Bytes × CommandResult ν)
  | [] => (m, [], [])
  | line :: lines =>
    let r := exec m line
    match r.resumes with
    | .ok true => (r.machine, lines, [(line, r)])
    | _ =>
      let (m, rest, results) := converse r.machine lines
      (m, rest, (line, r) :: results)

/-- Reads commands from a second reader of the program's input, at most `fuel` lines.  What commands
show goes to the output, and so do failures. -/
def dialogue : (fuel : Nat) → Input → Machine ν → (Machine ν × Input) × Except Failure Unit
  | 0, reader, m => ((m, reader), .ok ())
  | fuel + 1, reader, m =>
    match reader.readCommand? with
    | none => ((m.print [0x0A], reader), .ok ())
    | some (line, reader) =>
      let r := exec m line
      match r.resumes with
      | .ok true => ((r.machine, reader), .ok ())
      | .ok false => dialogue fuel reader (r.machine.print r.shown)
      | .error .endless => ((r.machine, reader), .error (.fault .endless))
      | .error e =>
        dialogue fuel reader (r.machine.print (text "error: " ++ e.message ++ [0x0A]))

def hook : Hook Unit ν := fun m _ =>
  let m := m.print (text "breakpoint at " ++ Bytes.ofInt m.pc ++ [0x0A])
  let ((m, reader), r) := dialogue (m.input.unread.length + 1) m.input.reopen m
  (({ m with input := m.input.close reader }, ()), r)

end Console

end JumpScript
