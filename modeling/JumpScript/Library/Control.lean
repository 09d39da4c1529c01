import JumpScript.Library.Arguments
import JumpScript.Machine.Basic

/-!
# Control functions

Counted loops, computed jumps, pauses, the operand stack, leaving the program, the surroundings of a
program and its tests.

A counted loop keeps two variables besides its own: where its body starts and the last value of the
loop variable.  Their names hold characters that no name in a source can hold.
-/

namespace JumpScript

inductive LoopFunction where
  | iterate
  | next
  deriving DecidableEq, Repr

namespace LoopFunction

def all : List (Bytes × LoopFunction) := [(text "iterate", iterate), (text "end", next)]

/-- The variable that holds the index of the statement before the body. -/
def bodyName (name : Bytes) : Bytes := text "@internal:iter:" ++ name

/-- The variable that holds the last value of the loop variable. -/
def lastName (name : Bytes) : Bytes := text "@internal:iter:end:" ++ name

/-- Begins a loop at the statement being executed. -/
def begin {ν : Type} (m : Machine ν) (args : List Value) : Except Fault (Machine ν × Value) := do
  let (a, b, c) ← Arguments.three args
  let name ← a.asString
  let first ← b.asInt
  let limit ← c.asInt
  if limit ≤ first then .error .emptyRange
  else
    let m := m.assign name (.int first)
    let m := m.assign (lastName name) (.int (limit - 1))
    let m := m.assign (bodyName name) (.int (Int64.ofInt m.pc))
    return (m, .void)

/-- Goes back to the body of a loop for its next value, or removes its variables after the last. -/
def advance {ν : Type} (m : Machine ν) (args : List Value) : Except Fault (Machine ν × Value) := do
  let name ← (← Arguments.one args).asString
  match m.lookup name with
  | some (.int current) =>
    match m.lookup (lastName name) with
    | none => .error (.noLoopEnd name)
    | some last =>
      let body := (m.lookup (bodyName name)).getD .void
      if last.word ≤ current then
        let m := m.unassign name
        let m := m.unassign (lastName name)
        let m := m.unassign (bodyName name)
        return (m, .void)
      else
        let m := m.assign name (.int (current + 1))
        return ({ m with pc := body.word.toInt }, .void)
  | _ => .error (.noLoopVariable name)

def run {ν : Type} (f : LoopFunction) (m : Machine ν) (args : List Value) :
    Except Fault (Machine ν × Value) :=
  match f with
  | .iterate => begin m args
  | .next => advance m args

end LoopFunction

/-- The functions that steer a run. -/
inductive RuntimeFunction where
  | gotoLabel
  | breakpoint
  deriving DecidableEq, Repr

namespace RuntimeFunction

def all : List (Bytes × RuntimeFunction) :=
  [(text "gotolabel", gotoLabel), (text "breakpoint", breakpoint)]

def run {ν : Type} (f : RuntimeFunction) (m : Machine ν) (args : List Value) :
    Except Fault (Machine ν × Value) :=
  match f with
  | .gotoLabel => do
    let label ← (← Arguments.one args).asString
    return (← m.jump label, .void)
  | .breakpoint => do
    Arguments.none args
    return ({ m with pauseRequested := true }, .void)

end RuntimeFunction

inductive StackFunction where
  | push
  | pop
  | length
  deriving DecidableEq, Repr

namespace StackFunction

def all : List (Bytes × StackFunction) :=
  [(text "push", push), (text "pop", pop), (text "len", length)]

def run {ν : Type} (f : StackFunction) (m : Machine ν) (args : List Value) :
    Except Fault (Machine ν × Value) :=
  match f with
  | .push => do return (m.push (← Arguments.one args), .void)
  | .pop => do
    Arguments.none args
    m.pop
  | .length => do
    Arguments.none args
    return (m, .int (Int64.ofNat m.operands.length))

end StackFunction

/-- The functions on the surroundings of a program. -/
inductive EnvironmentFunction where
  | get
  | arguments
  deriving DecidableEq, Repr

namespace EnvironmentFunction

def all : List (Bytes × EnvironmentFunction) := [(text "get", get), (text "args", arguments)]

/-- What a function does to a machine, and its result.  A variable that is not set is empty. -/
def run {ν : Type} (f : EnvironmentFunction) (m : Machine ν) (args : List Value) :
    Except Fault (Machine ν × Value) :=
  match f with
  | .get => do
    let name ← (← Arguments.one args).asString
    return (m, .str ((m.world.environment.get? name).getD []))
  | .arguments => do
    Arguments.none args
    let (heap, h) := m.heap.alloc (m.arguments.map Value.str).toArray
    return ({ m with heap }, .array h)

end EnvironmentFunction

/-- The exit status that leaving the program is asked for with. -/
def exitStatus : List Value → Except Fault Int
  | [] => .ok 0
  | [v] => do return (← v.asInt).toInt
  | args => .error (.argumentCount .atMostOne args.length)

/-- Fails unless two values are equal, with both of them in the message. -/
def assertEqual (σ : Heap) (args : List Value) : Except Fault Value := do
  let (a, b) ← Arguments.two args
  match σ.equal? a b with
  | none => .error .endless
  | some true => return .void
  | some false =>
    if σ.quotingEnds a && σ.quotingEnds b then .error (.unequal (σ.quoted a) (σ.quoted b))
    else .error .endless

end JumpScript
