import JumpScript.Machine.Basic

/-!
# Steps

A step executes the statement at the program counter and then moves the counter on by one, so a jump
lands on its target and the next statement is the one after it.  A failure is anchored at the
statement that was being executed.

Everything a statement needs is looked up before it changes anything: operands before an assignment,
all arguments before a call, the label before a call is put on the stack.
-/

namespace JumpScript

/-- How native functions are called: by name, with the names of the variables that the arguments
come from (empty for other arguments) and the arguments. -/
abbrev Caller (ν : Type) :=
  CallTarget → List Bytes → List Value → Machine ν → Machine ν × Except Failure Value

/-- What native functions do.  A native function can call others through the caller it is given, and
returns void when it has no result. -/
structure Host (ν : Type) where
  run : Caller ν → ν → List Bytes → List Value → Machine ν → Machine ν × Except Failure Value
  /-- The function that shows values, which every machine has. -/
  debug : ν

namespace Machine

variable {ν : Type}

/-- Takes note of a failed native function, unless it asked to leave the program or never ends. -/
def noteFailure (m : Machine ν) (key : Bytes) : Failure → Machine ν
  | .exit _ | .fault .endless => m
  | e => m.note (.nativeFailed e.message key)

/-- Calls the native function of a name, which may call others through `inner`. -/
def dispatch (host : Host ν) (inner : Caller ν) : Caller ν := fun target names args m =>
  match m.natives.get? target.key with
  | none => (m, .error (.fault (.functionNotFound target.key)))
  | some f =>
    match host.run inner f names args m with
    | (m, .ok v) => (m, .ok v)
    | (m, .error e) => (m.noteFailure target.key e, .error e)

/-- Calls a native function, which may call others down to a depth. -/
def callWithin (host : Host ν) : (depth : Nat) → Caller ν
  | 0 => dispatch host fun target _ _ m => (m, .error (.fault (.nestedCall target.key)))
  | depth + 1 => dispatch host (callWithin host depth)

/-- Calls a native function.  Functions that a native function calls get one argument, and with one
argument none of the library calls further, so one level is enough. -/
def call (host : Host ν) : Caller ν := callWithin host 1

def resolve (m : Machine ν) : Operand → Except Fault Value
  | .bool b => .ok (.bool b)
  | .int n => .ok (.int n)
  | .float x => .ok (.float x)
  | .str s => .ok (.str s)
  | .variable name =>
    match m.lookup name with
    | some v => .ok v
    | none => .error (.variableNotFound name)

/-- The variable that an argument comes from, empty for a literal. -/
def argumentName : Operand → Bytes
  | .variable name => name
  | _ => []

def compute : Operator → Value → Value → Except Fault Value
  | .add => Value.add
  | .sub => Value.sub
  | .mul => Value.mul
  | .div => Value.div
  | .mod => Value.mod

def holds (op : Comparator) (a b : Value) : Except Fault Bool :=
  match op with
  | .eq => a.equals b
  | .ne => (a.equals b).map (!·)
  | .lt => (a.compare b).map (· == .lt)
  | .gt => (a.compare b).map (· == .gt)
  | .le => (a.compare b).map (· != .gt)
  | .ge => (a.compare b).map (· != .lt)

def callSite (host : Host ν) (m : Machine ν) (target : CallTarget) (args : List Operand) :
    Machine ν × Except Failure Value :=
  match args.mapM m.resolve with
  | .error e => (m, .error (.fault e))
  | .ok vs => call host target (args.map argumentName) vs m

/-- A change that may fail with a fault, as the outcome of a statement. -/
def changed (m : Machine ν) (r : Except Fault (Machine ν)) : Machine ν × Except Failure Unit :=
  match r with
  | .ok m' => (m', .ok ())
  | .error e => (m, .error (.fault e))

/-- Executes an action.  The program counter stays at the statement or is put on the target of a
jump. -/
def exec (host : Host ν) (m : Machine ν) : Action → Machine ν × Except Failure Unit
  | .assign name v => m.changed do return m.assign name (← m.resolve v)
  | .compute name op l r =>
    m.changed do
      let a ← m.resolve l
      let b ← m.resolve r
      return m.assign name (← compute op a b)
  | .assignCall name target args =>
    match m.callSite host target args with
    | (m, .error e) => (m, .error e)
    | (m, .ok v) =>
      if v.isVoid then (m, .error (.fault (.noReturnValue target.key)))
      else (m.assign name v, .ok ())
  | .call target args =>
    match m.callSite host target args with
    | (m, .error e) => (m, .error e)
    | (m, .ok _) => (m, .ok ())
  | .label _ => (m, .ok ())
  | .goto label => m.changed (m.jump label)
  | .gotoIf label op l r =>
    m.changed do
      let a ← m.resolve l
      let b ← m.resolve r
      if ← holds op a b then m.jump label else return m
  | .callLabel label =>
    m.changed do
      let i ← m.target label
      let calls := m.pc.toNat :: m.calls
      return ({ m with calls, pc := (i : Int) }).note (.call calls label)
  | .ret =>
    match m.calls with
    | [] => (m, .error (.fault .emptyCallStack))
    | i :: calls => (({ m with calls, pc := (i : Int) }).note (.ret calls (i + 1)), .ok ())

/-- A fault at a statement as a diagnostic. -/
def anchorFault (s : Statement) (f : Fault) : Diagnostic :=
  { stage := .runtime, file := s.head.file, line := s.head.line, column := s.head.column,
    offset := s.head.offset, width := s.width, message := f.message, context := s.head.context,
    cause := some f }

/-- Anchors a failure at a statement.  A request to leave is not an error, what never ends is not
reported, and a diagnostic keeps the place it has. -/
def anchor (s : Statement) : Failure → Failure
  | .fault .endless => .fault .endless
  | .fault f => .anchored [] (anchorFault s f)
  | .exit code => .exit code
  | .anchored _ d => .anchored [] d

/-- The program counter moved on by one; it is a 64-bit word. -/
def following (pc : Int) : Int := (pc + 1).bmod 0x10000000000000000

def step (host : Host ν) (m : Machine ν) (s : Statement) : Machine ν × Except Failure Unit :=
  match ({ m with steps := m.steps + 1 }.note (.step m.pc s)).exec host s.action with
  | (m, .ok ()) => ({ m with pc := following m.pc }, .ok ())
  | (m, .error e) => (m, .error (anchor s e))

end Machine

end JumpScript
