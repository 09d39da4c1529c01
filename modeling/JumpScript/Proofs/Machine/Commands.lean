import JumpScript.Console
import JumpScript.Proofs.Machine.Frame

/-!
# Console commands

A command changes at most the program counter of a machine.  Between commands a console shows texts
and reads lines, and that is all it does, whatever it is told.
-/

namespace JumpScript

namespace Console

variable {ν σ : Type} {m m' : Machine ν}

theorem machine_showQuoted (m : Machine ν) (vs : List Value) (s : Bytes) :
    (showQuoted m vs s).machine = m := by
  rw [showQuoted]
  split
  · rfl
  · rfl

/-- Only going to a label changes anything. -/
theorem machine_perform {c : Command} (hc : ∀ label, c ≠ .goto label) :
    (perform m c).machine = m := by
  cases c with
  | goto label => exact absurd rfl (hc label)
  | showVariable name =>
      rw [perform]
      split
      · exact machine_showQuoted m _ _
      · rfl
  | listVariables | showStacks => exact machine_showQuoted m _ _
  | _ => rfl

/-- A command line changes at most the program counter. -/
theorem machine_exec (m : Machine ν) (line : Bytes) :
    (exec m line).machine = { m with pc := (exec m line).machine.pc } := by
  rw [exec]
  split
  · rfl
  · rfl
  · rename_i c hread
    by_cases hgoto : ∃ label, c = .goto label
    · obtain ⟨label, rfl⟩ := hgoto
      rw [perform, Machine.jump]
      cases m.target label with
      | ok i => rfl
      | error e => rfl
    · rw [machine_perform (not_exists.mp hgoto)]

/-- What a console can make of a machine: it executes command lines, shows texts and moves on in the
input. -/
inductive Reaches (m : Machine ν) : Machine ν → Prop where
  | start : Reaches m m
  | command {m' : Machine ν} (h : Reaches m m') (line : Bytes) : Reaches m (exec m' line).machine
  | output {m' : Machine ν} (h : Reaches m m') (s : Bytes) : Reaches m (m'.print s)
  | input {m' : Machine ν} (h : Reaches m m') (i : Input) : Reaches m { m' with input := i }

/-- Whatever a console is told, it changes nothing but the program counter, the input and the
output. -/
theorem Reaches.eq (h : Reaches m m') :
    m' = { m with pc := m'.pc, input := m'.input, output := m'.output } := by
  induction h with
  | start => rfl
  | @command m'' h line ih =>
      rw [machine_exec]
      exact congrArg (fun k : Machine ν => { k with pc := (exec m'' line).machine.pc }) ih
  | output h s ih => exact congrArg (Machine.print · s) ih
  | input h i ih => exact congrArg (fun k : Machine ν => { k with input := i }) ih

theorem Reaches.frame_eq (h : Reaches m m') : m'.frame = m.frame := by
  induction h with
  | start => rfl
  | command h line ih =>
      rw [machine_exec]
      exact ih
  | output h s ih => exact ih
  | input h i ih => exact ih

theorem Reaches.pauseRequested_eq (h : Reaches m m') : m'.pauseRequested = m.pauseRequested := by
  induction h with
  | start => rfl
  | command h line ih =>
      rw [machine_exec]
      exact ih
  | output h s ih => exact ih
  | input h i ih => exact ih

/-- A hook that is a console: whatever it is told, it can reach what it makes of a machine. -/
def IsConsole (hook : Hook σ ν) : Prop := ∀ m s, Reaches m (hook m s).1.1

theorem reaches_dialogue (fuel : Nat) (reader : Input) (h : Reaches m m') :
    Reaches m (dialogue fuel reader m').1.1 := by
  induction fuel generalizing reader m' with
  | zero => exact h
  | succ fuel ih =>
      rw [dialogue]
      split
      · exact h.output [0x0A]
      · rename_i line reader' hread
        have hexec := h.command line
        dsimp only
        split
        · exact hexec
        · exact ih reader' (hexec.output _)
        · exact hexec
        · exact ih reader' (hexec.output _)

/-- The console on the program's own input is one. -/
theorem isConsole_hook : IsConsole (hook : Hook Unit ν) := by
  intro m s
  have htold := reaches_dialogue (m.input.unread.length + 1) m.input.reopen
    ((Reaches.start (m := m)).output (text "breakpoint at " ++ Bytes.ofInt m.pc ++ [0x0A]))
  exact htold.input _

/-- A console that is told the same lines one after another, at every pause those that are left. -/
def told : Hook (List Bytes) ν := fun m lines =>
  let (m, rest, _) := converse m lines
  ((m, rest), .ok ())

theorem reaches_converse (lines : List Bytes) (h : Reaches m m') :
    Reaches m (converse m' lines).1 := by
  induction lines generalizing m' with
  | nil => exact h
  | cons line lines ih =>
      have hexec := h.command line
      rw [converse]
      dsimp only
      split
      · exact hexec
      · exact ih hexec

theorem isConsole_told : IsConsole (told : Hook (List Bytes) ν) := by
  intro m lines
  exact reaches_converse lines Reaches.start

end Console

end JumpScript
