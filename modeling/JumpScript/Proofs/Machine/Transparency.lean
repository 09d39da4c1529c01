import JumpScript.Proofs.Machine.Alike
import JumpScript.Proofs.Machine.Commands
import JumpScript.Proofs.Machine.Continuation

/-!
# What a console leaves alone

A command line that goes to a label moves the program counter there, and no other command line
changes anything.  So a program that is stopped at its breakpoints, looked at and resumed runs like
one that is never stopped: up to the notes on the breakpoints the two machines are the same at every
step, whatever the commands are, as long as none of them goes to a label.
-/

namespace JumpScript

/-- The label that a word names, with or without the mark of labels before it. -/
def Command.labelNamed : Bytes → Bytes
  | 0x7E :: label => label
  | label => label

theorem Command.labelNamed_eq (arg : Bytes) :
    (if arg.head? = some 0x7E then arg.drop 1 else arg) = labelNamed arg := by
  cases arg with
  | nil => rfl
  | cons c rest =>
      by_cases hc : c = 0x7E
      · simp [hc, labelNamed]
      · simp [hc, labelNamed]

theorem Command.only_eq_ok_iff {usage : Fault} {args : List Bytes} {a : Bytes} :
    only usage args = .ok a ↔ args = [a] := by
  match args with
  | [] | _ :: _ :: _ => simp [only]
  | [b] => simp [only]

theorem Command.read_eq_goto_iff {line label : Bytes} :
    Command.read line = .ok (some (.goto label)) ↔
      ∃ word arg, line.words = [word, arg] ∧ (word = text "goto" ∨ word = text "g") ∧
        labelNamed arg = label := by
  rw [read]
  rcases line.words with _ | ⟨word, args⟩
  · simp
  · simp only [List.any_cons, List.any_nil, Bool.or_false, beq_iff_eq, Bool.or_eq_true]
    by_cases hword : word = text "goto" ∨ word = text "g"
    · have hothers : ¬ (text "continue" = word ∨ text "c" = word) ∧
          ¬ (text "var" = word ∨ text "v" = word) ∧ text "vars" ≠ word ∧ text "labels" ≠ word := by
        rcases hword with rfl | rfl
        · decide
        · decide
      have hgoto : text "goto" = word ∨ text "g" = word := by simpa [eq_comm] using hword
      simp only [hothers, hgoto, if_true, if_false, map_eq_ok_iff, only_eq_ok_iff, labelNamed_eq]
      constructor
      · rintro ⟨arg, rfl, hlabel⟩
        exact ⟨word, arg, rfl, hword, Command.goto.inj (Option.some.inj hlabel)⟩
      · rintro ⟨_, arg, hwords, -, rfl⟩
        exact ⟨arg, (List.cons.inj hwords).2, rfl⟩
    · have hgoto : ¬ (text "goto" = word ∨ text "g" = word) := by simpa [eq_comm] using hword
      simp only [hgoto, if_false]
      constructor
      · intro h
        repeat' split at h
        all_goals simp [map_eq_ok_iff] at h
      · rintro ⟨_, arg, hwords, hgo, -⟩
        obtain ⟨rfl, -⟩ := List.cons.inj hwords
        exact absurd hgo hword

namespace Console

variable {ν σ : Type} {m m' : Machine ν}

/-- Where a command line makes the program go on: at an existing label, if the line is the word for
going there, that label, and nothing else. -/
def destination? (m : Machine ν) (line : Bytes) : Option Nat :=
  match line.words with
  | [word, arg] =>
    if word = text "goto" ∨ word = text "g" then m.labels.get? (Command.labelNamed arg) else none
  | _ => none

theorem destination?_of_read {line label : Bytes}
    (h : Command.read line = .ok (some (.goto label))) :
    destination? m line = m.labels.get? label := by
  obtain ⟨word, arg, hwords, hgoto, rfl⟩ := Command.read_eq_goto_iff.mp h
  simp only [destination?, hwords, hgoto, if_true]

theorem read_of_destination? {line : Bytes} {i : Nat} (h : destination? m line = some i) :
    ∃ label, Command.read line = .ok (some (.goto label)) ∧ m.labels.get? label = some i := by
  rw [destination?] at h
  split at h
  · rename_i word arg hwords
    split at h
    · rename_i hgoto
      exact ⟨_, Command.read_eq_goto_iff.mpr ⟨word, arg, hwords, hgoto, rfl⟩, h⟩
    · cases h
  · cases h

theorem exec_of_read_goto {line label : Bytes} (h : Command.read line = .ok (some (.goto label))) :
    (exec m line).machine =
      match m.labels.get? label with
      | some i => { m with pc := (i : Int) }
      | none => m := by
  simp only [exec, h, perform, Machine.jump, Machine.target]
  cases m.labels.get? label with
  | some i => rfl
  | none => rfl

theorem machine_exec_of_read {line : Bytes}
    (h : ∀ label, Command.read line ≠ .ok (some (.goto label))) : (exec m line).machine = m := by
  rw [exec]
  split
  · rfl
  · rfl
  · rename_i c hread
    apply machine_perform
    rintro label rfl
    exact h label hread

/-- A command line moves the program counter to its destination, if it has one, and changes nothing
else. -/
theorem machine_exec_eq (m : Machine ν) (line : Bytes) :
    (exec m line).machine =
      match destination? m line with
      | some i => { m with pc := (i : Int) }
      | none => m := by
  by_cases h : ∃ label, Command.read line = .ok (some (.goto label))
  · obtain ⟨label, hread⟩ := h
    rw [destination?_of_read hread, exec_of_read_goto hread]
  · rw [machine_exec_of_read (not_exists.mp h)]
    cases hd : destination? m line with
    | none => rfl
    | some i =>
        obtain ⟨label, hread, -⟩ := read_of_destination? hd
        exact absurd ⟨label, hread⟩ h

/-- A console at work on given command lines: at a breakpoint it executes those that are meant for
it, counted from the first breakpoint hit, until one resumes the program.  It keeps what each of
them did. -/
def scripted (script : Nat → List Bytes) : Hook (List (List (Bytes × CommandResult ν))) ν :=
  fun m record =>
    let (m, _, results) := converse m (script record.length)
    ((m, record ++ [results]), .ok ())

/-- Executed command lines that had no destination. -/
def Looks (results : List (Bytes × CommandResult ν)) : Prop :=
  ∀ x ∈ results, destination? x.2.machine x.1 = none

theorem machine_exec_of_looks {line : Bytes} (h : destination? (exec m line).machine line = none) :
    (exec m line).machine = m := by
  have hlabels : (exec m line).machine.labels = m.labels := by rw [machine_exec]
  rw [destination?, hlabels] at h
  rw [machine_exec_eq, destination?, h]

theorem machine_converse_of_looks {lines : List Bytes} (h : Looks (converse m lines).2.2) :
    (converse m lines).1 = m := by
  induction lines with
  | nil => rfl
  | cons line lines ih =>
      rw [converse] at h ⊢
      dsimp only at h ⊢
      split at h
      · exact machine_exec_of_looks (h _ List.mem_cons_self)
      · have hexec := machine_exec_of_looks (h _ List.mem_cons_self)
        rw [hexec] at h ⊢
        exact ih fun x hx => h x (List.mem_cons_of_mem _ hx)

end Console

namespace Machine

open Console (scripted Looks)

variable {m m' : Machine Native} {gas : Int} {script : Nat → List Bytes}
  {record : List (List (Bytes × CommandResult Native))}

/-- Machines that differ at most in what they have noted. -/
def SameButNotes (m m' : Machine Native) : Prop := m = { m' with journal := m.journal }

theorem likeness_sameButNotes : Likeness SameButNotes where
  bare_eq h := by rw [h]; rfl
  backed h k := by rw [h]; rfl
  noted h e := by rw [h]; rfl

theorem accord_sameButNotes (target : CallTarget) : Accord SameButNotes Native.host target := by
  intro m m' h
  refine ⟨?_, fun _ _ _ => rfl⟩
  rw [h]

/-- A pause at which nobody goes anywhere passes unnoticed. -/
theorem pause_scripted (h : SameButNotes m m') :
    let paused := m.pause (some (scripted script)) record
    let passed := m'.pause (none : Option (Hook Unit Native)) ()
    paused.2 = passed.2 ∧ record <+: paused.1.2 ∧
      ((∀ results ∈ paused.1.2, Looks results) → SameButNotes paused.1.1 passed.1.1) := by
  have hflag : m.pauseRequested = m'.pauseRequested :=
    likeness_sameButNotes.read (fun _ => rfl) h
  simp only [pause, ← hflag]
  split
  · refine ⟨rfl, List.prefix_append _ _, fun hlooks => ?_⟩
    have hquiet := Console.machine_converse_of_looks (hlooks _ (List.mem_append_right _
      List.mem_cons_self))
    simp only [scripted, hquiet]
    rw [h]
    rfl
  · exact ⟨rfl, List.prefix_rfl, fun _ => h⟩

theorem turn_scripted (gas : Int) (script : Nat → List Bytes)
    (record : List (List (Bytes × CommandResult Native))) (h : SameButNotes m m')
    (st : Statement) :
    let paused := m.turn Native.host (some (scripted script)) gas st record
    let passed := m'.turn Native.host (none : Option (Hook Unit Native)) gas st ()
    paused.2 = passed.2 ∧ record <+: paused.1.2 ∧
      ((∀ results ∈ paused.1.2, Looks results) → SameButNotes paused.1.1 passed.1.1) := by
  have hgas : m.exhausted gas = m'.exhausted gas :=
    likeness_sameButNotes.read (g := (·.exhausted gas)) (fun _ => rfl) h
  have hstep := same_step likeness_sameButNotes st (fun target _ => accord_sameButNotes target) h
  obtain ⟨k, k', r, hk, hk', hrel⟩ := hstep.exists
  simp only [turn, ← hgas, hk, hk']
  split
  · exact ⟨rfl, List.prefix_rfl, fun _ => h⟩
  · cases r with
    | error e => exact ⟨rfl, List.prefix_rfl, fun _ => hrel⟩
    | ok u => exact pause_scripted hrel

theorem prefix_turns_scripted (n : Nat) :
    record <+: (m.turns Native.host (some (scripted script)) gas n record).1.2 := by
  induction n generalizing m record with
  | zero =>
      cases hcurrent : m.current? with
      | none => simp [turns_of_current?_none hcurrent]
      | some st => simp [turns_zero hcurrent]
  | succ n ih =>
      cases hcurrent : m.current? with
      | none => simp [turns_of_current?_none hcurrent]
      | some st =>
          have hsame : SameButNotes m m := rfl
          have hturn := (turn_scripted gas script record hsame st).2.1
          rw [turns_succ hcurrent]
          split
          · rename_i heq
            rw [heq] at hturn
            exact hturn.trans ih
          · rename_i heq
            rw [heq] at hturn
            exact hturn

/-- Turns with a console at the breakpoints and without, as long as nobody goes anywhere. -/
theorem turns_scripted (h : SameButNotes m m') (n : Nat)
    (hlooks : ∀ results ∈ (m.turns Native.host (some (scripted script)) gas n record).1.2,
      Looks results) :
    let paused := m.turns Native.host (some (scripted script)) gas n record
    let passed := m'.turns Native.host (none : Option (Hook Unit Native)) gas n ()
    paused.2 = passed.2 ∧ SameButNotes paused.1.1 passed.1.1 := by
  induction n generalizing m m' record with
  | zero =>
      have hsame : m.current? = m'.current? := likeness_sameButNotes.read (fun _ => rfl) h
      cases hcurrent : m.current? with
      | none =>
          rw [turns_of_current?_none hcurrent, turns_of_current?_none (hsame ▸ hcurrent)]
          exact ⟨rfl, h⟩
      | some st =>
          rw [turns_zero hcurrent, turns_zero (hsame ▸ hcurrent)]
          exact ⟨rfl, h⟩
  | succ n ih =>
      have hsame : m.current? = m'.current? := likeness_sameButNotes.read (fun _ => rfl) h
      cases hcurrent : m.current? with
      | none =>
          rw [turns_of_current?_none hcurrent, turns_of_current?_none (hsame ▸ hcurrent)]
          exact ⟨rfl, h⟩
      | some st =>
          obtain ⟨hresult, -, halike⟩ := turn_scripted gas script record h st
          rw [turns_succ hcurrent] at hlooks ⊢
          rw [turns_succ (hsame ▸ hcurrent)]
          rcases hpaused : m.turn Native.host (some (scripted script)) gas st record
            with ⟨⟨k, record'⟩, r⟩
          rcases hpassed : m'.turn Native.host (none : Option (Hook Unit Native)) gas st ()
            with ⟨⟨k', ⟨⟩⟩, r'⟩
          rw [hpaused, hpassed] at hresult halike
          rw [hpaused] at hlooks
          obtain rfl : r = r' := hresult
          cases r with
          | error e => exact ⟨rfl, halike hlooks⟩
          | ok u =>
              have hrecord : ∀ results ∈ record', Looks results := fun results hmem =>
                hlooks results ((prefix_turns_scripted n).subset hmem)
              exact ih (halike hrecord) hlooks

theorem sameButNotes_halted {σ τ : Type} {x : (Machine Native × σ) × Outcome}
    {y : (Machine Native × τ) × Outcome} (ho : x.2 = y.2) (h : SameButNotes x.1.1 y.1.1) :
    SameButNotes (halted x).1.1 (halted y).1.1 := by
  obtain ⟨⟨m, s⟩, o⟩ := x
  obtain ⟨⟨m', s'⟩, o'⟩ := y
  obtain rfl : o = o' := ho
  have hsteps : m.steps = m'.steps := likeness_sameButNotes.read (fun _ => rfl) h
  apply likeness_sameButNotes.update (g := fun k : Machine Native => { k with state := .halted })
    (fun _ => rfl)
  rw [← hsteps]
  split
  · exact likeness_sameButNotes.noted h _
  · exact h

/-- A console is transparent except for going to labels.  A command line moves the program counter
to the label that it goes to, and changes nothing otherwise.  Whatever command lines are executed at
the breakpoints that a run comes to, as long as none of them goes to a label, the run has the
outcome that it has without them, and ends in the same machine but for its notes. -/
theorem console_transparent_except_goto (m : Machine Native) :
    (∀ line, (Console.exec m line).machine =
      match Console.destination? m line with
      | some i => { m with pc := (i : Int) }
      | none => m) ∧
    ∀ (script : Nat → List Bytes) (gas : Int) (n : Nat),
      let paused := m.run Native.host (some (Console.scripted script)) gas n []
      let passed := m.run Native.host (none : Option (Hook Unit Native)) gas n ()
      (∀ results ∈ paused.1.2, ∀ x ∈ results, Console.destination? x.2.machine x.1 = none) →
      paused.2 = passed.2 ∧ paused.1.1 = { passed.1.1 with journal := paused.1.1.journal } := by
  refine ⟨Console.machine_exec_eq m, fun script gas n => ?_⟩
  by_cases hready : m.state = .ready
  · have hstart : SameButNotes (m.start Native.host) (m.start Native.host) := rfl
    rw [run_of_ready hready, run_of_ready hready]
    intro paused passed hlooks
    obtain ⟨hresult, hsame⟩ := turns_scripted hstart n hlooks
    exact ⟨hresult, sameButNotes_halted hresult hsame⟩
  · simp [run, hready]

/-- A breakpoint before an assignment, and a label to go to. -/
def pausedBefore : Machine Native where
  program :=
    #[atLine 1 (.call ⟨text "runtime", text "breakpoint"⟩ []),
      atLine 2 (.assign (text "x") (.int 1)), atLine 3 (.label (text "end"))]
  natives := [(text "runtime:breakpoint", .runtime .breakpoint)]

/-- A label that does not exist, looking around, and a line that is not executed any more. -/
theorem console_transparent_except_goto_lookingAround :
    let script := fun _ => [text "goto nowhere", text "where", text "c", text "goto ~end"]
    let paused := pausedBefore.run Native.host (some (Console.scripted script)) 0 3 []
    let passed := pausedBefore.run Native.host (none : Option (Hook Unit Native)) 0 3 ()
    paused.1.2.length = 1 ∧
    (∀ results ∈ paused.1.2, ∀ x ∈ results, Console.destination? x.2.machine x.1 = none) ∧
    paused.2 = passed.2 ∧ paused.1.1 = { passed.1.1 with journal := paused.1.1.journal } := by
  intro script paused passed
  have hlooks : ∀ results ∈ paused.1.2, ∀ x ∈ results,
      Console.destination? x.2.machine x.1 = none := by
    decide +kernel
  exact ⟨by decide +kernel, hlooks,
    (console_transparent_except_goto pausedBefore).2 script 0 3 hlooks⟩

end Machine

end JumpScript
