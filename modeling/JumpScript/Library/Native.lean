import JumpScript.Library.Arrays
import JumpScript.Library.Control
import JumpScript.Library.Conversion
import JumpScript.Library.Documents
import JumpScript.Library.Mathematics
import JumpScript.Library.Streams
import JumpScript.Library.Strings
import JumpScript.Machine.Step
import JumpScript.World.FileFence

/-!
# The native library

Every native function belongs to a module.  What a function can touch shows in the type of its
module: functions on numbers get the heap to read, functions on arrays and strings may change or add
to the heap, functions on files may change files, and only the functions that print, read, loop,
jump or use the operand stack get the machine.  Mapping is the one function that calls others.
-/

namespace JumpScript

inductive FileFunction where
  | read
  | write
  | present
  deriving DecidableEq, Repr

namespace FileFunction

def all : List (Bytes × FileFunction) :=
  [(text "read", read), (text "write", write), (text "exists", present)]

/-- What a function does to the files inside a fence, and its result. -/
def run (f : FileFunction) (fence : FileFence) (fs : Files) (args : List Value) :
    Files × Except Fault Value :=
  match f with
  | .read =>
    (fs, do
      let name ← (← Arguments.one args).asString
      return .str (← (fence.read fs name).mapError .whileReading))
  | .write =>
    let named : Except Fault (Bytes × Bytes) := do
      let (a, b) ← Arguments.two args
      return (← a.asString, ← b.asString)
    match named with
    | .error e => (fs, .error e)
    | .ok (name, contents) =>
      match fence.write fs name contents with
      | (fs, .ok ()) => (fs, .ok .void)
      | (fs, .error e) => (fs, .error (.whileWriting e))
  | .present =>
    (fs, do
      let name ← (← Arguments.one args).asString
      return .bool (← fence.exists? fs name))

end FileFunction

inductive Native where
  | array (f : ArrayFunction)
  | conversion (f : ConversionFunction)
  | environment (f : EnvironmentFunction)
  | file (fence : FileFence) (f : FileFunction)
  | fetch (fence : WebFence)
  | stream (f : StreamFunction)
  | loop (f : LoopFunction)
  | document (f : DocumentFunction)
  | math (f : MathFunction)
  | exit
  | runtime (f : RuntimeFunction)
  | stack (f : StackFunction)
  | map (collect : Bool)
  | string (f : StringFunction)
  | assertEqual
  | debug
  deriving DecidableEq, Repr

namespace Native

variable {ν : Type}

/-- A result that changes nothing. -/
def computed (m : Machine ν) (r : Except Fault Value) : Machine ν × Except Failure Value :=
  (m, r.mapError .fault)

/-- A function of the heap.  The machine lends its heap to the function meanwhile. -/
def onHeap (m : Machine ν) (f : Heap → Heap × Except Fault Value) :
    Machine ν × Except Failure Value :=
  let lent := m.heap
  let m := { m with heap := .empty }
  let (heap, r) := f lent
  ({ m with heap }, r.mapError .fault)

def onMachine (m : Machine ν) (r : Except Fault (Machine ν × Value)) :
    Machine ν × Except Failure Value :=
  match r with
  | .ok (m, v) => (m, .ok v)
  | .error e => (m, .error (.fault e))

/-- A result with new files, which a failure may have changed too. -/
def onFiles (m : Machine ν) (r : Files × Except Fault Value) : Machine ν × Except Failure Value :=
  ({ m with world := { m.world with files := r.1 } }, r.2.mapError .fault)

/-- Stores a value back under the name of the variable it came from. -/
def storeBack (m : Machine ν) (names : List Bytes) (args : List Value) : Machine ν :=
  match names, args with
  | name :: _, v :: _ => if name.isEmpty then m else m.assign name v
  | _, _ => m

/-- An array function; one that works in place also stores its array back. -/
def runArray (f : ArrayFunction) (names : List Bytes) (args : List Value) (m : Machine ν) :
    Machine ν × Except Failure Value :=
  match onHeap m (f.run args) with
  | (m, .ok v) => (if f.inPlace then storeBack m names args else m, .ok v)
  | (m, .error e) => (m, .error e)

/-- Calls a function on values one after another and collects the results. -/
def callEach (caller : Caller ν) (target : CallTarget) (collect : Bool) :
    List Value → Machine ν → Machine ν × Except Failure (List Value)
  | [], m => (m, .ok [])
  | v :: vs, m =>
    match caller target [[]] [v] m with
    | (m, .error e) => (m, .error e)
    | (m, .ok r) =>
      if collect && r.isVoid then (m, .error (.fault (.noResult target.key)))
      else
        match callEach caller target collect vs m with
        | (m, .error e) => (m, .error e)
        | (m, .ok rs) => (m, .ok (r :: rs))

/-- The function to map and the elements to map it over, as they are at the time of the call. -/
def mapping (σ : Heap) (args : List Value) : Except Fault (CallTarget × List Value) := do
  let (a, b, c) ← Arguments.three args
  let module ← a.asString
  let function ← b.asString
  let h ← c.asArray
  return (⟨module, function⟩, (σ.items h).toList)

/-- Maps a function over an array.  When results are collected each must exist, and they make up a
fresh array. -/
def runMap (caller : Caller ν) (collect : Bool) (args : List Value) (m : Machine ν) :
    Machine ν × Except Failure Value :=
  match mapping m.heap args with
  | .error e => (m, .error (.fault e))
  | .ok (target, items) =>
    match callEach caller target collect items m with
    | (m, .error e) => (m, .error e)
    | (m, .ok results) =>
      if collect then
        let (heap, h) := m.heap.alloc results.toArray
        ({ m with heap }, .ok (.array h))
      else (m, .ok .void)

/-- Asks to leave the program. -/
def runExit (args : List Value) (m : Machine ν) : Machine ν × Except Failure Value :=
  match exitStatus args with
  | .ok code => (m, .error (.exit code))
  | .error e => (m, .error (.fault e))

def runDebug (args : List Value) (m : Machine ν) : Machine ν × Except Failure Value :=
  if args.all m.heap.quotingEnds then
    (m.print (Heap.bracketed (args.map m.heap.quoted) ++ [0x0A]), .ok .void)
  else (m, .error (.fault .endless))

def run (caller : Caller ν) (f : Native) (names : List Bytes) (args : List Value) (m : Machine ν) :
    Machine ν × Except Failure Value :=
  match f with
  | .array f => runArray f names args m
  | .conversion f => computed m (f.run args)
  | .environment f => onMachine m (f.run m args)
  | .file fence f => onFiles m (f.run fence m.world.files args)
  | .fetch fence =>
    computed m do
      let address ← (← Arguments.one args).asString
      return .str (← (fence.fetch m.world.web address).2)
  | .stream f => onMachine m (f.run m args)
  | .loop f => onMachine m (f.run m args)
  | .document f => onHeap m (f.run args)
  | .math f => computed m (f.run m.heap args)
  | .exit => runExit args m
  | .runtime f => onMachine m (f.run m args)
  | .stack f => onMachine m (f.run m args)
  | .map collect => runMap caller collect args m
  | .string f => onHeap m (f.run args)
  | .assertEqual => computed m (JumpScript.assertEqual m.heap args)
  | .debug => runDebug args m

/-- The host of machines whose native functions are those of the library. -/
def host : Host Native := ⟨run, .debug⟩

end Native

end JumpScript
