import JumpScript.Library.Native

/-!
# Modules

The library is made up of modules, and a program sees those that are not disabled.  The file module
needs a fence around files and the http module a fence with hosts on its list; without one it has no
functions.
-/

namespace JumpScript

inductive Module where
  | array
  | convert
  | env
  | file
  | http
  | io
  | iter
  | json
  | math
  | process
  | runtime
  | stack
  | std
  | string
  | test
  deriving DecidableEq, Repr

/-- What the modules that reach outside are given, and which modules are left out. -/
structure LibraryOptions where
  files : Option FileFence := none
  web : Option WebFence := none
  disabled : List Bytes := []
  deriving DecidableEq, Repr

namespace Module

def all : List Module :=
  [.array, .convert, .env, .file, .http, .io, .iter, .json, .math, .process, .runtime, .stack, .std,
    .string, .test]

def name : Module → Bytes
  | .array => text "array"
  | .convert => text "convert"
  | .env => text "env"
  | .file => text "file"
  | .http => text "http"
  | .io => text "io"
  | .iter => text "iter"
  | .json => text "json"
  | .math => text "math"
  | .process => text "process"
  | .runtime => text "runtime"
  | .stack => text "stack"
  | .std => text "std"
  | .string => text "string"
  | .test => text "test"

def isKnown (n : Bytes) : Bool := all.any (·.name == n)

/-- Functions of one type as native functions. -/
def lift {α : Type} (f : α → Native) (functions : List (Bytes × α)) : Table Native :=
  functions.map fun (n, g) => (n, f g)

def functions (o : LibraryOptions) : Module → Table Native
  | .array => lift .array ArrayFunction.all
  | .convert => lift .conversion ConversionFunction.all
  | .env => lift .environment EnvironmentFunction.all
  | .file => o.files.elim [] fun fence => lift (.file fence) FileFunction.all
  | .http =>
    o.web.elim [] fun fence =>
      if fence.allowed.isEmpty then [] else [(text "get", .fetch fence)]
  | .io => lift .stream StreamFunction.all
  | .iter => lift .loop LoopFunction.all
  | .json => lift .document DocumentFunction.all
  | .math => lift .math MathFunction.all
  | .process => [(text "exit", .exit)]
  | .runtime => lift .runtime RuntimeFunction.all
  | .stack => lift .stack StackFunction.all
  | .std => [(text "map", .map true), (text "mapdrop", .map false)]
  | .string => lift .string StringFunction.all
  | .test => [(text "is", .assertEqual)]

/-- The functions of a module as calls name them. -/
def registry (o : LibraryOptions) (m : Module) : Table Native :=
  (m.functions o).map fun (n, f) => ((CallTarget.mk m.name n).key, f)

end Module

/-- The library as a table of native functions. -/
def LibraryOptions.registry (o : LibraryOptions) : Except Fault (Table Native) :=
  match o.disabled.find? (!Module.isKnown ·) with
  | some name => .error (.unknownModule name)
  | none =>
    .ok ((Module.all.filter fun m => !o.disabled.contains m.name).flatMap (·.registry o))

end JumpScript
