import JumpScript.Diagnostic
import JumpScript.Machine.Input
import JumpScript.Machine.Journal
import JumpScript.Value.Heap
import JumpScript.World.Basic

/-!
# Machines

A machine holds a program with everything it works on: labels, variables, arrays, the program
counter, the stack of pending calls, the operand stack that native functions share, and its ways to
the outside.  Native functions are known to a machine by name only; what they do is given by a host,
so the type of a machine is indexed by the type of its native functions.
-/

namespace JumpScript

/-- The life of a machine. -/
inductive RunState where
  | ready
  | running
  | halted
  deriving DecidableEq, Repr

def RunState.name : RunState → Bytes
  | .ready => text "ready"
  | .running => text "running"
  | .halted => text "halted"

/-- The state with a given code; unknown codes mean halted. -/
def RunState.ofCode : Nat → RunState
  | 0 => .ready
  | 1 => .running
  | _ => .halted

/-- A program with all that it works on. -/
structure Machine (ν : Type) where
  program : Array Statement
  labels : Table Nat := []
  /-- The variables with their values. -/
  bindings : Table Value := []
  heap : Heap := .empty
  /-- The index of the next statement; outside the program it means that the program is over. -/
  pc : Int := 0
  /-- The indices of the calls that have not returned, the newest first. -/
  calls : List Nat := []
  /-- The operand stack, the top first. -/
  operands : List Value := []
  natives : Table ν := []
  arguments : List Bytes := []
  input : Input := ⟨[], []⟩
  /-- What has been printed, the newest piece first. -/
  output : List Bytes := []
  world : World := .empty
  state : RunState := .ready
  /-- The number of statements executed. -/
  steps : Nat := 0
  /-- Whether a native function has asked for a pause. -/
  pauseRequested : Bool := false
  journal : Journal := .keeping .disabled

namespace Machine

variable {ν : Type}

def printed (m : Machine ν) : Bytes := m.output.reverse.flatten

def print (m : Machine ν) (s : Bytes) : Machine ν := { m with output := s :: m.output }

def note (m : Machine ν) (e : Event) : Machine ν := { m with journal := m.journal.note e }

def lookup (m : Machine ν) (name : Bytes) : Option Value := m.bindings.get? name

def assign (m : Machine ν) (name : Bytes) (v : Value) : Machine ν :=
  { m with bindings := m.bindings.insert name v }

/-- Removes a variable. -/
def unassign (m : Machine ν) (name : Bytes) : Machine ν :=
  { m with bindings := m.bindings.erase name }

def target (m : Machine ν) (label : Bytes) : Except Fault Nat :=
  match m.labels.get? label with
  | some i => .ok i
  | none => .error (.labelNotFound label)

def jump (m : Machine ν) (label : Bytes) : Except Fault (Machine ν) :=
  (m.target label).map fun i => { m with pc := i }

def push (m : Machine ν) (v : Value) : Machine ν := { m with operands := v :: m.operands }

def pop (m : Machine ν) : Except Fault (Machine ν × Value) :=
  match m.operands with
  | [] => .error .stackUnderflow
  | v :: vs => .ok ({ m with operands := vs }, v)

/-- The statement that the program counter points to. -/
def current? (m : Machine ν) : Option Statement :=
  if 0 ≤ m.pc then m.program[m.pc.toNat]? else none

/-- Makes native functions known under their names; only a machine that has not run takes them. -/
def register (m : Machine ν) (natives : Table ν) : Except Fault (Machine ν) :=
  if m.state = .ready then .ok { m with natives := m.natives.merge natives }
  else .error .registryFrozen

end Machine

end JumpScript
