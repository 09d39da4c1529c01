import JumpScript.Machine.Step

/-!
# Runs

A run builds the label table and takes turns until the program counter leaves the program.  A turn
first looks at the gas that is left, then takes a step, and then pauses if the step asked for it.
Turns are counted down from a fuel that the caller gives; running out of it is an outcome of its
own, apart from success and failure.
-/

namespace JumpScript

/-- What a run comes to. -/
inductive Outcome where
  | finished
  | failed (f : Failure)
  | outOfFuel
  deriving DecidableEq, Repr

/-- A run never comes out of a statement. -/
@[match_pattern]
abbrev Outcome.endless : Outcome := .failed (.fault .endless)

/-- What happens at a pause.  The hook sees and may change the machine and a state of its own; when
it fails, so does the run. -/
abbrev Hook (σ ν : Type) := Machine ν → σ → (Machine ν × σ) × Except Failure Unit

namespace Machine

variable {ν σ : Type}

/-- The labels that a program defines, with the index of the last definition of each. -/
def labelTable (program : Array Statement) : Table Nat :=
  program.toList.zipIdx.foldl
    (fun t (s, i) =>
      match s.action with
      | .label name => t.insert name i
      | _ => t)
    []

/-- A machine as it begins to run. -/
def start (host : Host ν) (m : Machine ν) : Machine ν :=
  let debug := text "vm:debug"
  let natives := if m.natives.has debug then m.natives else m.natives.insert debug host.debug
  let labels := m.labels.merge (labelTable m.program)
  ({ m with state := .running, natives, labels }).note
    (.labelsBuilt labels.length m.program.size)

/-- Whether the gas is used up; a limit of zero or less is none. -/
def exhausted (gas : Int) (m : Machine ν) : Bool := 0 < gas && gas ≤ m.steps

/-- Pauses if the last step asked for it. -/
def pause (hook : Option (Hook σ ν)) (m : Machine ν) (s : σ) :
    (Machine ν × σ) × Except Failure Unit :=
  if m.pauseRequested then
    let m := { m with pauseRequested := false }
    match hook with
    | none => ((m, s), .ok ())
    | some h => h (m.note (.breakpoint m.pc)) s
  else ((m, s), .ok ())

def turn (host : Host ν) (hook : Option (Hook σ ν)) (gas : Int) (statement : Statement)
    (m : Machine ν) (s : σ) : (Machine ν × σ) × Except Failure Unit :=
  if m.exhausted gas then ((m, s), .error (anchor statement (.fault .gasExhausted)))
  else
    match m.step host statement with
    | (m, .error e) => ((m, s), .error e)
    | (m, .ok ()) => m.pause hook s

def turns (host : Host ν) (hook : Option (Hook σ ν)) (gas : Int) :
    (fuel : Nat) → Machine ν → σ → (Machine ν × σ) × Outcome
  | fuel, m, s =>
    match m.current? with
    | none => ((m, s), .finished)
    | some statement =>
      match fuel with
      | 0 => ((m, s), .outOfFuel)
      | fuel + 1 =>
        match m.turn host hook gas statement s with
        | ((m, s), .ok ()) => turns host hook gas fuel m s
        | ((m, s), .error e) => ((m, s), .failed e)

def halt (m : Machine ν) (o : Outcome) : Machine ν :=
  let m := if o = .finished then m.note (.halted m.steps) else m
  { m with state := .halted }

def run (host : Host ν) (hook : Option (Hook σ ν)) (gas : Int) (fuel : Nat) (m : Machine ν)
    (s : σ) : (Machine ν × σ) × Outcome :=
  if m.state = .ready then
    match (m.start host).turns host hook gas fuel s with
    | ((m, s), o) => ((m.halt o, s), o)
  else ((m, s), .failed (.fault .alreadyRun))

/-- The states that turns pass through, each as it was before a statement was executed. -/
def history (host : Host ν) (hook : Option (Hook σ ν)) (gas : Int) :
    (fuel : Nat) → Machine ν → σ → List (Machine ν)
  | 0, _, _ => []
  | fuel + 1, m, s =>
    match m.current? with
    | none => []
    | some statement =>
      if m.exhausted gas then []
      else
        m :: match m.turn host hook gas statement s with
          | ((m, s), .ok ()) => history host hook gas fuel m s
          | _ => []

end Machine

end JumpScript
