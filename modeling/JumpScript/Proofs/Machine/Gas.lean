import JumpScript.Proofs.Machine.Commands
import JumpScript.Proofs.Machine.Continuation
import JumpScript.Proofs.Machine.Turns

/-!
# Gas

A run with gas takes the same turns as the run without a limit, as long as there is gas.  Every
statement that is executed counts one step, so the gas is used up after exactly as many statements
as it allows; a program that ends with the last of them ends as it would without a limit.

A hook may change the machine, but the number of steps is not within its reach.
-/

namespace JumpScript

namespace Machine

variable {ν σ : Type} {host : Host ν} {hook : Option (Hook σ ν)} {gas : Int} {m : Machine ν}
  {s : σ}

/-- A hook that does not touch the number of steps. -/
def KeepsSteps (hook : Option (Hook σ ν)) : Prop :=
  ∀ h ∈ hook, ∀ m s, (h m s).1.1.steps = m.steps

/-- Consoles leave it alone. -/
theorem keepsSteps_of_isConsole (hhook : ∀ h ∈ hook, Console.IsConsole h) : KeepsSteps hook := by
  intro h hh m s
  exact congrArg Frame.steps (hhook h hh m s).frame_eq

theorem steps_step (hhost : host.Framed) (m : Machine ν) (st : Statement) :
    (m.step host st).1.steps = m.steps + 1 :=
  congrArg Frame.steps (frame_step hhost m st)

theorem steps_pause (hhook : KeepsSteps hook) (m : Machine ν) (s : σ) :
    (m.pause hook s).1.1.steps = m.steps := by
  rw [pause]
  split
  · cases hook with
    | none => rfl
    | some h => exact hhook h rfl _ s
  · rfl

/-- A turn that is taken counts one step, however it ends. -/
theorem steps_turn (hhost : host.Framed) (hhook : KeepsSteps hook)
    (hgas : m.exhausted gas = false) (st : Statement) (s : σ) :
    (m.turn host hook gas st s).1.1.steps = m.steps + 1 := by
  have hstep := steps_step hhost m st
  rw [turn, hgas, if_neg Bool.false_ne_true]
  split
  · rename_i heq
    rw [heq] at hstep
    exact hstep
  · rename_i m' heq
    rw [heq] at hstep
    rw [steps_pause hhook, hstep]

theorem exhausted_zero (m : Machine ν) : m.exhausted 0 = false := rfl

theorem turn_of_exhausted (hgas : m.exhausted gas = true) (st : Statement) (s : σ) :
    m.turn host hook gas st s = ((m, s), .error (anchor st (.fault .gasExhausted))) := by
  rw [turn, if_pos hgas]

/-- Turns count the steps that they take; there is one for each while the run goes on. -/
theorem steps_turns (hhost : host.Framed) (hhook : KeepsSteps hook) (gas : Int) (n : Nat)
    (m : Machine ν) (s : σ) :
    m.steps ≤ (m.turns host hook gas n s).1.1.steps ∧
      (m.turns host hook gas n s).1.1.steps ≤ m.steps + n ∧
      ((m.turns host hook gas n s).2 = .outOfFuel →
        (m.turns host hook gas n s).1.1.steps = m.steps + n) := by
  induction n generalizing m s with
  | zero =>
      cases hcurrent : m.current? with
      | none => simp [turns_of_current?_none hcurrent]
      | some st => simp [turns_zero hcurrent]
  | succ n ih =>
      cases hcurrent : m.current? with
      | none =>
          rw [turns_of_current?_none hcurrent]
          exact ⟨Nat.le_refl _, Nat.le_add_right _ _, by simp⟩
      | some st =>
          rw [turns_succ hcurrent]
          by_cases hgas : m.exhausted gas = true
          · rw [turn_of_exhausted hgas]
            exact ⟨Nat.le_refl _, Nat.le_add_right _ _, by simp⟩
          · rw [Bool.not_eq_true] at hgas
            have hturn := steps_turn hhost hhook hgas st s
            split
            · rename_i m' s' heq
              rw [heq] at hturn
              obtain ⟨hge, hle, heqn⟩ := ih m' s'
              simp only at hturn
              refine ⟨by omega, by omega, ?_⟩
              intro hfuel
              rw [heqn hfuel]
              omega
            · rename_i m' s' e heq
              rw [heq] at hturn
              simp only at hturn
              exact ⟨by simp only; omega, by simp only; omega, by simp⟩

/-- Without a limit, a machine at a statement takes at least one more step. -/
theorem steps_lt_turns (hhost : host.Framed) (hhook : KeepsSteps hook) {st : Statement}
    (hcurrent : m.current? = some st) (n : Nat) (s : σ) :
    m.steps < (m.turns host hook 0 (n + 1) s).1.1.steps := by
  have hturn := steps_turn hhost hhook m.exhausted_zero st s
  rw [turns_succ hcurrent]
  split
  · rename_i m' s' heq
    rw [heq] at hturn
    have hge := (steps_turns hhost hhook 0 n m' s').1
    simp only at hturn
    omega
  · rename_i m' s' e heq
    rw [heq] at hturn
    simp only at hturn ⊢
    omega

/-- While there is gas for all of them, turns are those of the run without a limit. -/
theorem turns_eq_of_gas (hhost : host.Framed) (hhook : KeepsSteps hook) {g n : Nat}
    (hle : m.steps + n ≤ g) :
    m.turns host hook g n s = m.turns host hook 0 n s := by
  induction n generalizing m s with
  | zero =>
      cases hcurrent : m.current? with
      | none => rw [turns_of_current?_none hcurrent, turns_of_current?_none hcurrent]
      | some st => rw [turns_zero hcurrent, turns_zero hcurrent]
  | succ n ih =>
      cases hcurrent : m.current? with
      | none => rw [turns_of_current?_none hcurrent, turns_of_current?_none hcurrent]
      | some st =>
          have hgas : m.exhausted g = false := by
            simp only [exhausted, Bool.and_eq_false_iff, decide_eq_false_iff_not]
            omega
          have hsame : m.turn host hook g st s = m.turn host hook 0 st s := by
            rw [turn, turn, hgas]
            rfl
          have hturn := steps_turn hhost hhook m.exhausted_zero st s
          rw [turns_succ hcurrent, turns_succ hcurrent, hsame]
          split
          · rename_i m' s' heq
            rw [heq] at hturn
            exact ih (by simp only at hturn; omega)
          · rfl

/-- With the gas used up, a machine at a statement stops before it. -/
theorem turns_of_exhausted (hgas : m.exhausted gas = true) {st : Statement}
    (hcurrent : m.current? = some st) (n : Nat) :
    m.turns host hook gas (n + 1) s
      = ((m, s), .failed (.anchored [] (anchorFault st .gasExhausted))) := by
  rw [turns_succ hcurrent, turn_of_exhausted hgas]
  rfl

theorem steps_run_le (hhost : host.Framed) (hhook : KeepsSteps hook) (hready : m.state = .ready)
    (hsteps : m.steps = 0) (n : Nat) : (m.run host hook gas n s).1.1.steps ≤ n := by
  have hle := (steps_turns hhost hhook gas n (m.start host) s).2.1
  have hstart : (m.start host).steps = 0 := hsteps
  rw [hstart, Nat.zero_add] at hle
  rw [run_of_ready hready, steps_halted]
  exact hle

/-- A run that has not ended counts more steps later. -/
theorem steps_lt_run (hhost : host.Framed) (hhook : KeepsSteps hook) (hready : m.state = .ready)
    {a b : Nat} (hfuel : (m.run host hook 0 a s).2 = .outOfFuel) (hlt : a < b) :
    (m.run host hook 0 a s).1.1.steps < (m.run host hook 0 b s).1.1.steps := by
  obtain ⟨k, rfl⟩ : ∃ k, b = a + (k + 1) := ⟨b - a - 1, by omega⟩
  rw [run_of_ready hready] at hfuel ⊢
  rw [run_of_ready hready, steps_halted, steps_halted]
  rcases hturns : (m.start host).turns host hook 0 a s with ⟨⟨m', s'⟩, o⟩
  rw [hturns] at hfuel
  obtain rfl : o = .outOfFuel := hfuel
  obtain ⟨st, hcurrent⟩ := exists_current_of_outOfFuel hturns
  rw [turns_add hturns]
  exact steps_lt_turns hhost hhook hcurrent k s'

/-- While there is gas for as many steps, the run is the one without a limit. -/
theorem run_eq_of_gas (hhost : host.Framed) (hhook : KeepsSteps hook) (hready : m.state = .ready)
    (hsteps : m.steps = 0) (g : Nat) :
    m.run host hook g g s = m.run host hook 0 g s := by
  have hstart : (m.start host).steps = 0 := hsteps
  rw [run_of_ready hready, run_of_ready hready, turns_eq_of_gas hhost hhook (by omega)]

/-- Where the run without a limit has not ended by then, the gas is used up at a statement. -/
theorem run_of_exhausted (hhost : host.Framed) (hhook : KeepsSteps hook)
    (hready : m.state = .ready) (hsteps : m.steps = 0) {g : Nat} (hpos : 0 < g)
    (hfuel : (m.run host hook 0 g s).2 = .outOfFuel) :
    (m.run host hook 0 g s).1.1.steps = g ∧
      ∃ st, (m.run host hook 0 g s).1.1.current? = some st ∧ ∀ n, g < n →
        m.run host hook g n s
          = ((m.run host hook 0 g s).1, .failed (.anchored [] (anchorFault st .gasExhausted))) := by
  have hstart : (m.start host).steps = 0 := hsteps
  have hsame : (m.start host).turns host hook g g s = (m.start host).turns host hook 0 g s :=
    turns_eq_of_gas hhost hhook (by omega)
  have hcount := (steps_turns hhost hhook 0 g (m.start host) s).2.2
  rw [run_of_ready hready] at hfuel ⊢
  rcases hturns : (m.start host).turns host hook 0 g s with ⟨⟨m', s'⟩, o⟩
  rw [hturns] at hfuel hsame hcount
  obtain rfl : o = .outOfFuel := hfuel
  obtain ⟨st, hcurrent⟩ := exists_current_of_outOfFuel hturns
  have hused : m'.steps = g := by
    rw [hcount rfl, hstart, Nat.zero_add]
  have hgas : m'.exhausted g = true := by
    simp only [exhausted, Bool.and_eq_true, decide_eq_true_eq]
    omega
  refine ⟨hused, st, (current?_halt m' _).trans hcurrent, ?_⟩
  intro n hn
  obtain ⟨k, rfl⟩ : ∃ k, n = g + (k + 1) := ⟨n - g - 1, by omega⟩
  rw [run_of_ready hready, turns_add hsame, turns_of_exhausted hgas hcurrent]
  rfl

/-- With gas, more turns than there is gas for are enough to come to an end. -/
theorem run_ends_of_gas (hhost : host.Framed) (hhook : KeepsSteps hook) (hready : m.state = .ready)
    (hsteps : m.steps = 0) {g n : Nat} (hpos : 0 < g) (hlt : g < n) :
    (m.run host hook g n s).2 ≠ .outOfFuel := by
  by_cases hfuel : (m.run host hook 0 g s).2 = .outOfFuel
  · obtain ⟨-, st, -, hgas⟩ := run_of_exhausted hhost hhook hready hsteps hpos hfuel
    rw [hgas n hlt]
    exact Outcome.noConfusion
  · rw [← run_eq_of_gas hhost hhook hready hsteps g] at hfuel
    rw [run_of_over hready hfuel (Nat.le_of_lt hlt)]
    exact hfuel

/-- A run with gas is an exact part of the run without a limit, from its start on.  It always comes
to an end and executes no more statements than it has gas for.  Where the run without a limit ends
within them, it ends alike; otherwise it stops in the state of that run after as many statements,
with a diagnostic at the statement that would have been the next. -/
theorem run_with_gas_follows_unlimited (hook : Option (Hook σ Native)) (hhook : KeepsSteps hook)
    (m : Machine Native) (s : σ) (hready : m.state = .ready) (hsteps : m.steps = 0) (g : Nat)
    (hpos : 0 < g) :
    let limited := m.run Native.host hook g (g + 1) s
    let unlimited := fun n => m.run Native.host hook 0 n s
    (∀ n, g < n → m.run Native.host hook g n s = limited) ∧
    limited.2 ≠ .outOfFuel ∧ limited.1.1.steps ≤ g ∧
    (∀ n, (unlimited n).2 ≠ .outOfFuel → (unlimited n).1.1.steps ≤ g → limited = unlimited n) ∧
    ((¬ ∃ n, (unlimited n).2 ≠ .outOfFuel ∧ (unlimited n).1.1.steps ≤ g) →
      (unlimited g).2 = .outOfFuel ∧ limited.1 = (unlimited g).1 ∧ limited.1.1.steps = g ∧
      ∃ st, limited.1.1.current? = some st ∧
        limited.2 = .failed (.anchored [] (anchorFault st .gasExhausted))) := by
  intro limited unlimited
  have hhost := Native.framed_host
  have hsame : m.run Native.host hook g g s = unlimited g :=
    run_eq_of_gas hhost hhook hready hsteps g
  by_cases hfuel : (unlimited g).2 = .outOfFuel
  · obtain ⟨hcount, st, hcurrent, hgas⟩ :=
      run_of_exhausted hhost hhook hready hsteps hpos hfuel
    have hlimited : limited
        = ((unlimited g).1, .failed (.anchored [] (anchorFault st .gasExhausted))) :=
      hgas (g + 1) (Nat.lt_succ_self g)
    rw [hlimited]
    refine ⟨hgas, Outcome.noConfusion, Nat.le_of_eq hcount, ?_, ?_⟩
    · intro n hended hle
      rcases Nat.lt_or_ge g n with hlt | hge
      · have hmore := steps_lt_run hhost hhook hready hfuel hlt
        rw [hcount] at hmore
        exact absurd hmore (Nat.not_lt.mpr hle)
      · have hover : unlimited g = unlimited n := run_of_over hready hended hge
        rw [← hover, hfuel] at hended
        exact absurd rfl hended
    · intro _
      exact ⟨hfuel, rfl, hcount, st, hcurrent, rfl⟩
  · have hended : ∀ n, g ≤ n → m.run Native.host hook g n s = unlimited g := by
      intro n hn
      rw [← hsame] at hfuel ⊢
      exact run_of_over hready hfuel hn
    have hlimited : limited = unlimited g := hended (g + 1) (Nat.le_succ g)
    have hcount : (unlimited g).1.1.steps ≤ g := steps_run_le hhost hhook hready hsteps g
    rw [hlimited]
    refine ⟨fun n hn => hended n (Nat.le_of_lt hn), hfuel, hcount, ?_, ?_⟩
    · intro n hn _
      rcases Nat.le_total g n with hle | hle
      · exact (run_of_over hready hfuel hle).symm
      · exact run_of_over hready hn hle
    · intro hnone
      exact absurd ⟨g, hfuel, hcount⟩ hnone

/-- A breakpoint, a statement that a console goes past, and a last one. -/
def pausedOnce : Machine Native where
  program :=
    #[atLine 1 (.call ⟨text "runtime", text "breakpoint"⟩ []), atLine 2 .ret,
      atLine 3 (.label (text "end"))]
  natives := [(text "runtime:breakpoint", .runtime .breakpoint)]

/-- A program that ends with its last unit of gas ends as it would without a limit. -/
theorem run_with_gas_follows_unlimited_lastUnit :
    let limited := pausedOnce.run Native.host (some Console.told) 2 3 [text "goto end"]
    limited = pausedOnce.run Native.host (some Console.told) 0 2 [text "goto end"] ∧
      limited.2 = .finished ∧ limited.1.1.steps = 2 := by
  intro limited
  have hkeeps : KeepsSteps (some Console.told : Option (Hook (List Bytes) Native)) :=
    keepsSteps_of_isConsole (by simpa using Console.isConsole_told)
  have heq : limited = pausedOnce.run Native.host (some Console.told) 0 2 [text "goto end"] :=
    (run_with_gas_follows_unlimited (some Console.told) hkeeps pausedOnce [text "goto end"] rfl rfl
      2 (by decide)).2.2.2.1 2 (by decide +kernel) (by decide +kernel)
  rw [heq]
  exact ⟨rfl, by decide +kernel, by decide +kernel⟩

end Machine

end JumpScript
