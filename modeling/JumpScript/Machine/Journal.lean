import JumpScript.Log.Record
import JumpScript.Statement.Basic

/-!
# The journal of a machine

A machine notes what it does.  Notes are data; how they read is decided by `Event.record`.  A
journal keeps only the notes that reach its threshold.
-/

namespace JumpScript

/-- What a machine takes note of.  Calls and returns come with the calls that are pending then. -/
inductive Event where
  | labelsBuilt (labels statements : Nat)
  | step (pc : Int) (statement : Statement)
  | call (pending : List Nat) (label : Bytes)
  | ret (pending : List Nat) (next : Int)
  | nativeFailed (message key : Bytes)
  | breakpoint (pc : Int)
  | halted (steps : Nat)
  deriving DecidableEq, Repr

namespace Event

/-- How important a note is. -/
def level : Event → Level
  | .labelsBuilt .. => .debug
  | .step .. => .trace
  | .call .. => .trace
  | .ret .. => .trace
  | .nativeFailed .. => .debug
  | .breakpoint _ => .info
  | .halted _ => .debug

def fields : Event → List Field
  | .labelsBuilt labels statements =>
    [⟨text "labels", .number labels⟩, ⟨text "statements", .number statements⟩]
  | .step pc s => [⟨text "pc", .number pc⟩, ⟨text "stmt", .text s.text⟩]
  | .call pending label =>
    [⟨text "depth", .number pending.length⟩, ⟨text "label", .text label⟩]
  | .ret pending next =>
    [⟨text "depth", .number pending.length⟩, ⟨text "return", .number next⟩]
  | .nativeFailed message key => [⟨text "error", .text message⟩, ⟨text "function", .text key⟩]
  | .breakpoint pc => [⟨text "pc", .number pc⟩]
  | .halted steps => [⟨text "steps", .number steps⟩]

def message : Event → Bytes
  | .labelsBuilt .. => text "label table built"
  | .step .. => text "step"
  | .call .. => text "call"
  | .ret .. => text "ret"
  | .nativeFailed .. => text "native call failed"
  | .breakpoint _ => text "breakpoint"
  | .halted _ => text "program halted"

def record (e : Event) : Record := ⟨e.level, e.fields, e.message⟩

end Event

/-- Notes, the newest first, and the level from which on they are kept. -/
structure Journal where
  threshold : Level
  events : List Event
  deriving DecidableEq, Repr

namespace Journal

/-- A journal that keeps what reaches a threshold. -/
def keeping (threshold : Level) : Journal := ⟨threshold, []⟩

def note (j : Journal) (e : Event) : Journal :=
  if e.level.reaches j.threshold then { j with events := e :: j.events } else j

/-- The notes as log records, in the order they were taken. -/
def records (j : Journal) : List Record := j.events.reverse.map Event.record

end Journal

end JumpScript
