import JumpScript.Machine.Run
import JumpScript.Proofs.Machine.Frame

/-!
# Steps and turns

What a step does to the frame of a machine is decided by its action and by whether it fails: one
more step is counted, a call that succeeds is pending, a return that succeeds has its call taken
away.  Turns compose: taking some and then others is taking all of them, and a run that is over
stays over.
-/

namespace JumpScript

/-- The calls that are pending after an action at an index, the newest first. -/
def Action.callsAfter (a : Action) (index : Nat) (calls : List Nat) : List Nat :=
  match a with
  | .callLabel _ => index :: calls
  | .ret => calls.tail
  | _ => calls

namespace Machine

variable {ν σ : Type} {host : Host ν} {hook : Option (Hook σ ν)} {gas : Int}

/-- A machine as it executes a statement: the step is counted and noted. -/
def counted (m : Machine ν) (st : Statement) : Machine ν :=
  { m with steps := m.steps + 1 }.note (.step m.pc st)

theorem step_of_exec_ok {m m' : Machine ν} {st : Statement}
    (h : (m.counted st).exec host st.action = (m', .ok ())) :
    m.step host st = ({ m' with pc := following m'.pc }, .ok ()) := by
  rw [counted] at h
  rw [step, h]

theorem step_of_exec_error {m m' : Machine ν} {st : Statement} {e : Failure}
    (h : (m.counted st).exec host st.action = (m', .error e)) :
    m.step host st = (m', .error (anchor st e)) := by
  rw [counted] at h
  rw [step, h]

/-- A step succeeds if and only if its action does. -/
theorem step_eq_ok_iff {m m' : Machine ν} {st : Statement} :
    m.step host st = (m', .ok ()) ↔ ∃ m'', (m.counted st).exec host st.action = (m'', .ok ()) ∧
      m' = { m'' with pc := following m''.pc } := by
  rcases hexec : (m.counted st).exec host st.action with ⟨m'', e | u⟩
  · rw [step_of_exec_error hexec]
    simp
  · rw [step_of_exec_ok hexec]
    constructor
    · intro h
      exact ⟨m'', rfl, (Prod.mk.inj h).1.symm⟩
    · rintro ⟨_, h, rfl⟩
      obtain rfl := (Prod.mk.inj h).1
      rfl

theorem step_eq_error_iff {m m' : Machine ν} {st : Statement} {e : Failure} :
    m.step host st = (m', .error e) ↔
      ∃ e', (m.counted st).exec host st.action = (m', .error e') ∧ e = anchor st e' := by
  rcases hexec : (m.counted st).exec host st.action with ⟨m'', e' | u⟩
  · rw [step_of_exec_error hexec]
    constructor
    · intro h
      obtain ⟨rfl, he⟩ := Prod.mk.inj h
      exact ⟨e', rfl, (Except.error.inj he).symm⟩
    · rintro ⟨_, h, rfl⟩
      obtain ⟨rfl, he⟩ := Prod.mk.inj h
      rw [Except.error.inj he]
  · rw [step_of_exec_ok hexec]
    simp

theorem frame_changed {m : Machine ν} {r : Except Fault (Machine ν)}
    (h : Ensures r fun m' => m'.frame = m.frame) : (m.changed r).1.frame = m.frame := by
  cases r with
  | ok m' => exact h m' rfl
  | error e => rfl

/-- The calls that are pending after an action, which changes nothing about them if it fails. -/
def callsOf (m : Machine ν) (a : Action) : Except Failure Unit → List Nat
  | .ok () => a.callsAfter m.pc.toNat m.calls
  | .error _ => m.calls

theorem callsOf_of_frame {m : Machine ν} {a : Action} {x : Machine ν × Except Failure Unit}
    (hframe : x.1.frame = m.frame) (ha : ∀ i calls, a.callsAfter i calls = calls) :
    x.1.frame = { m.frame with calls := m.callsOf a x.2 } := by
  have hcalls : m.callsOf a x.2 = m.calls := by
    cases hx : x.2 with
    | ok u => exact ha m.pc.toNat m.calls
    | error e => rfl
  rw [hcalls, hframe]
  rfl

/-- An action changes the frame by the calls that are pending after it, and not otherwise. -/
theorem frame_exec (hhost : host.Framed) (m : Machine ν) (a : Action) :
    (m.exec host a).1.frame = { m.frame with calls := m.callsOf a (m.exec host a).2 } := by
  cases a with
  | assign name v =>
      apply callsOf_of_frame _ fun _ _ => rfl
      apply frame_changed
      apply Ensures.bind
      intro x
      exact Ensures.ok rfl
  | compute name op l r =>
      apply callsOf_of_frame _ fun _ _ => rfl
      apply frame_changed
      apply Ensures.bind
      intro x
      apply Ensures.bind
      intro y
      apply Ensures.bind
      intro z
      exact Ensures.ok rfl
  | assignCall name target args =>
      apply callsOf_of_frame _ fun _ _ => rfl
      have hsite := frame_callSite hhost m target args
      rw [exec]
      split
      · rename_i heq
        rw [heq] at hsite
        exact hsite
      · rename_i m' v heq
        rw [heq] at hsite
        split
        · exact hsite
        · exact hsite
  | call target args =>
      apply callsOf_of_frame _ fun _ _ => rfl
      have hsite := frame_callSite hhost m target args
      rw [exec]
      split
      · rename_i heq
        rw [heq] at hsite
        exact hsite
      · rename_i heq
        rw [heq] at hsite
        exact hsite
  | label name => rfl
  | goto label => exact callsOf_of_frame (frame_changed (m.frame_jump label)) fun _ _ => rfl
  | gotoIf label op l r =>
      apply callsOf_of_frame _ fun _ _ => rfl
      apply frame_changed
      apply Ensures.bind
      intro x
      apply Ensures.bind
      intro y
      apply Ensures.bind
      intro taken
      cases taken with
      | true => exact m.frame_jump label
      | false => exact Ensures.ok rfl
  | callLabel label =>
      rw [exec]
      cases m.target label with
      | ok i => rfl
      | error e => rfl
  | ret =>
      rw [exec]
      split
      · rfl
      · rename_i i calls hcalls
        change ({ m.frame with calls := calls } : Frame ν) = { m.frame with calls := m.calls.tail }
        rw [hcalls, List.tail_cons]

/-- A step counts and does to the pending calls what its action does. -/
theorem frame_step (hhost : host.Framed) (m : Machine ν) (st : Statement) :
    (m.step host st).1.frame
      = { m.frame with steps := m.steps + 1, calls := m.callsOf st.action (m.step host st).2 } := by
  have hexec := frame_exec hhost ({ m with steps := m.steps + 1 }.note (.step m.pc st)) st.action
  rw [step]
  split
  · rename_i heq
    rw [heq] at hexec
    exact hexec
  · rename_i heq
    rw [heq] at hexec
    exact hexec

theorem turns_of_current?_none {m : Machine ν} (h : m.current? = none) (n : Nat) (s : σ) :
    m.turns host hook gas n s = ((m, s), .finished) := by
  cases n <;> simp only [turns, h]

theorem turns_zero {m : Machine ν} {st : Statement} (h : m.current? = some st) (s : σ) :
    m.turns host hook gas 0 s = ((m, s), .outOfFuel) := by
  simp only [turns, h]

theorem turns_succ {m : Machine ν} {st : Statement} (h : m.current? = some st) (n : Nat) (s : σ) :
    m.turns host hook gas (n + 1) s =
      match m.turn host hook gas st s with
      | ((m', s'), .ok ()) => m'.turns host hook gas n s'
      | ((m', s'), .error e) => ((m', s'), .failed e) := by
  have hunfold := turns.eq_def host hook gas (n + 1) m s
  simp only [h] at hunfold
  exact hunfold

/-- Turns go on from where earlier turns have stopped for want of fuel. -/
theorem turns_add {m m' : Machine ν} {s s' : σ} {a : Nat}
    (h : m.turns host hook gas a s = ((m', s'), .outOfFuel)) (b : Nat) :
    m.turns host hook gas (a + b) s = m'.turns host hook gas b s' := by
  induction a generalizing m s with
  | zero =>
      cases hcurrent : m.current? with
      | none =>
          rw [turns_of_current?_none hcurrent] at h
          cases h
      | some st =>
          rw [turns_zero hcurrent] at h
          cases h
          rw [Nat.zero_add]
  | succ a ih =>
      cases hcurrent : m.current? with
      | none =>
          rw [turns_of_current?_none hcurrent] at h
          cases h
      | some st =>
          rw [turns_succ hcurrent] at h
          rw [Nat.add_right_comm, turns_succ hcurrent]
          split at h
          · exact ih h
          · cases h

/-- A run that is over stays as it is. -/
theorem turns_of_over {m : Machine ν} {s : σ} {a : Nat}
    (h : (m.turns host hook gas a s).2 ≠ .outOfFuel) {b : Nat} (hle : a ≤ b) :
    m.turns host hook gas b s = m.turns host hook gas a s := by
  induction a generalizing m s b with
  | zero =>
      cases hcurrent : m.current? with
      | none => rw [turns_of_current?_none hcurrent, turns_of_current?_none hcurrent]
      | some st =>
          rw [turns_zero hcurrent] at h
          exact absurd rfl h
  | succ a ih =>
      obtain ⟨b, rfl⟩ : ∃ c, b = c + 1 := ⟨b - 1, by omega⟩
      cases hcurrent : m.current? with
      | none => rw [turns_of_current?_none hcurrent, turns_of_current?_none hcurrent]
      | some st =>
          rw [turns_succ hcurrent] at h
          rw [turns_succ hcurrent, turns_succ hcurrent]
          split at h
          · exact ih h (Nat.le_of_succ_le_succ hle)
          · rfl

/-- A step after which no pause is asked for is all of its turn. -/
theorem turn_of_step {m m' : Machine ν} {st : Statement} (hgas : m.exhausted gas = false)
    (hstep : m.step host st = (m', .ok ())) (hpause : m'.pauseRequested = false) (s : σ) :
    m.turn host hook gas st s = ((m', s), .ok ()) := by
  rw [turn, hgas, if_neg Bool.false_ne_true, hstep]
  simp only [pause, hpause]
  rfl

/-- A turn that succeeds takes a step and pauses after it. -/
theorem step_of_turn {m m' : Machine ν} {st : Statement} {s s' : σ}
    (h : m.turn host hook gas st s = ((m', s'), .ok ())) :
    m.exhausted gas = false ∧
      ∃ m'', m.step host st = (m'', .ok ()) ∧ m''.pause hook s = ((m', s'), .ok ()) := by
  rw [turn] at h
  split at h
  · cases h
  · rename_i hgas
    refine ⟨Bool.eq_false_iff.mpr hgas, ?_⟩
    split at h
    · cases h
    · rename_i m'' hstep
      exact ⟨m'', hstep, h⟩

/-- What turns preserve holds as long as a run goes on. -/
theorem turns_preserve {P : Machine ν → Prop}
    (hturn : ∀ m m' st s s', P m → m.turn host hook gas st s = ((m', s'), .ok ()) → P m')
    {m m' : Machine ν} {s s' : σ} {n : Nat} (hm : P m)
    (h : m.turns host hook gas n s = ((m', s'), .outOfFuel)) : P m' := by
  induction n generalizing m s with
  | zero =>
      cases hcurrent : m.current? with
      | none =>
          rw [turns_of_current?_none hcurrent] at h
          cases h
      | some st =>
          rw [turns_zero hcurrent] at h
          cases h
          exact hm
  | succ n ih =>
      cases hcurrent : m.current? with
      | none =>
          rw [turns_of_current?_none hcurrent] at h
          cases h
      | some st =>
          rw [turns_succ hcurrent] at h
          split at h
          · rename_i m₁ s₁ heq
            exact ih (hturn m m₁ st s s₁ hm heq) h
          · cases h

/-- What every turn preserves, whether it succeeds or fails, holds however a run ends. -/
theorem turns_keep {P : Machine ν → Prop}
    (hturn : ∀ m st s, P m → P (m.turn host hook gas st s).1.1) {m : Machine ν} (hm : P m) (n : Nat)
    (s : σ) : P (m.turns host hook gas n s).1.1 := by
  induction n generalizing m s with
  | zero =>
      cases hcurrent : m.current? with
      | none =>
          rw [turns_of_current?_none hcurrent]
          exact hm
      | some st =>
          rw [turns_zero hcurrent]
          exact hm
  | succ n ih =>
      cases hcurrent : m.current? with
      | none =>
          rw [turns_of_current?_none hcurrent]
          exact hm
      | some st =>
          have hnext := hturn m st s hm
          rw [turns_succ hcurrent]
          split
          · rename_i heq
            rw [heq] at hnext
            exact ih hnext _
          · rename_i heq
            rw [heq] at hnext
            exact hnext

/-- Turns that stop for want of fuel stop at a statement. -/
theorem exists_current_of_outOfFuel {m m' : Machine ν} {s s' : σ} {n : Nat}
    (h : m.turns host hook gas n s = ((m', s'), .outOfFuel)) :
    ∃ st, m'.current? = some st := by
  cases hcurrent : m'.current? with
  | none =>
      have hmore := turns_add h 0
      rw [Nat.add_zero, h, turns_of_current?_none hcurrent] at hmore
      cases hmore
  | some st => exact ⟨st, rfl⟩

/-- Turns that fail do so in a turn at a statement, after others that have succeeded. -/
theorem exists_turn_of_failed {m m' : Machine ν} {s s' : σ} {n : Nat} {e : Failure}
    (h : m.turns host hook gas n s = ((m', s'), .failed e)) :
    ∃ k now r st, k < n ∧ m.turns host hook gas k s = ((now, r), .outOfFuel) ∧
      now.current? = some st ∧ now.turn host hook gas st r = ((m', s'), .error e) := by
  induction n generalizing m s with
  | zero =>
      cases hcurrent : m.current? with
      | none =>
          rw [turns_of_current?_none hcurrent] at h
          cases h
      | some st =>
          rw [turns_zero hcurrent] at h
          cases h
  | succ n ih =>
      cases hcurrent : m.current? with
      | none =>
          rw [turns_of_current?_none hcurrent] at h
          cases h
      | some st =>
          rw [turns_succ hcurrent] at h
          split at h
          · rename_i m₁ s₁ hturn
            obtain ⟨k, now, r, st', hlt, hturns, hnow, hfail⟩ := ih h
            refine ⟨k + 1, now, r, st', Nat.succ_lt_succ hlt, ?_, hnow, hfail⟩
            rw [turns_succ hcurrent, hturn]
            exact hturns
          · rename_i m₁ s₁ e' hturn
            cases h
            exact ⟨0, m, s, st, Nat.succ_pos n, turns_zero hcurrent s, hcurrent, hturn⟩

/-- The result of turns as the result of a run. -/
def halted (r : (Machine ν × σ) × Outcome) : (Machine ν × σ) × Outcome :=
  ((r.1.1.halt r.2, r.1.2), r.2)

theorem run_of_ready {m : Machine ν} (hready : m.state = .ready) (n : Nat) (s : σ) :
    m.run host hook gas n s = halted ((m.start host).turns host hook gas n s) := by
  rw [run, if_pos hready]
  rfl

theorem run_of_over {m : Machine ν} (hready : m.state = .ready) {s : σ} {a b : Nat}
    (h : (m.run host hook gas a s).2 ≠ .outOfFuel) (hle : a ≤ b) :
    m.run host hook gas b s = m.run host hook gas a s := by
  rw [run_of_ready hready] at h ⊢
  rw [run_of_ready hready, turns_of_over h hle]

theorem frame_halt (m : Machine ν) (o : Outcome) :
    (m.halt o).frame = { m.frame with state := .halted } := by
  rw [halt]
  split
  · rfl
  · rfl

theorem steps_halted (r : (Machine ν × σ) × Outcome) : (halted r).1.1.steps = r.1.1.steps :=
  congrArg Frame.steps (frame_halt r.1.1 r.2)

theorem state_halted (r : (Machine ν × σ) × Outcome) : (halted r).1.1.state = .halted :=
  congrArg Frame.state (frame_halt r.1.1 r.2)

theorem pc_halt (m : Machine ν) (o : Outcome) : (m.halt o).pc = m.pc := by
  rw [halt]
  split
  · rfl
  · rfl

theorem current?_halt (m : Machine ν) (o : Outcome) : (m.halt o).current? = m.current? := by
  have hprogram : (m.halt o).program = m.program := congrArg Frame.program (m.frame_halt o)
  rw [current?, pc_halt, hprogram, current?]

end Machine

end JumpScript
