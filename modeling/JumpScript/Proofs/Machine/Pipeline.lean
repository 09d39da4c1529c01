import JumpScript.Proofs.Machine.Calls
import JumpScript.Proofs.Machine.Endless
import JumpScript.Proofs.Machine.Gas
import JumpScript.Proofs.Statement.Grammar
import JumpScript.Proofs.Token.ImportTree

/-!
# Failures of a pipeline

A source is tokenized, parsed and run.  Whatever goes wrong on the way ends in one diagnostic of the
stage that failed, placed at a token; only a run can also end because the program has asked to be
left.

Native functions know nothing of places: they fail with a fault or with a request to leave, also
where mapping calls them.  A step puts a fault at its statement, so it does not matter where the
function has moved the program counter.
-/

namespace JumpScript

namespace Native

variable {ν : Type} {caller : Caller ν} {names : List Bytes} {args : List Value} {m m' : Machine ν}
  {e : Failure}

theorem fault_of_mapError {r : Except Fault Value} (h : r.mapError Failure.fault = .error e) :
    ∃ f, e = .fault f := by
  cases r with
  | ok v => cases h
  | error f => exact ⟨f, (Except.error.inj h).symm⟩

theorem fault_of_onMachine {r : Except Fault (Machine ν × Value)}
    (h : onMachine m r = (m', .error e)) : ∃ f, e = .fault f := by
  cases r with
  | ok v => cases (Prod.mk.inj h).2
  | error f => exact ⟨f, (Except.error.inj (Prod.mk.inj h).2).symm⟩

theorem fault_of_runArray {g : ArrayFunction} (h : runArray g names args m = (m', .error e)) :
    ∃ f, e = .fault f := by
  rw [runArray] at h
  split at h
  · cases (Prod.mk.inj h).2
  · rename_i hrun
    cases h
    exact fault_of_mapError (Prod.mk.inj hrun).2

theorem runExit_error_cases (h : runExit args m = (m', .error e)) :
    (∃ f, e = .fault f) ∨ ∃ code, exitStatus args = .ok code ∧ e = .exit code := by
  rw [runExit] at h
  split at h
  · rename_i code hcode
    exact Or.inr ⟨code, hcode, (Except.error.inj (Prod.mk.inj h).2).symm⟩
  · rename_i f hf
    exact Or.inl ⟨f, (Except.error.inj (Prod.mk.inj h).2).symm⟩

theorem runMap_error_cases {collect : Bool} (h : runMap caller collect args m = (m', .error e)) :
    (∃ f, e = .fault f) ∨ ∃ target items, mapping m.heap args = .ok (target, items) ∧
      (callEach caller target collect items m).2 = .error e := by
  rw [runMap] at h
  split at h
  · rename_i f hf
    exact Or.inl ⟨f, (Except.error.inj (Prod.mk.inj h).2).symm⟩
  · rename_i target items hmapping
    split at h
    · rename_i m₁ e' heach
      cases h
      exact Or.inr ⟨target, items, hmapping, congrArg Prod.snd heach⟩
    · split at h
      · cases (Prod.mk.inj h).2
      · cases (Prod.mk.inj h).2

/-- A function fails with a fault, unless it leaves the program or maps a function that fails. -/
theorem run_error_cases {f : Native} (h : run caller f names args m = (m', .error e)) :
    (∃ fault, e = .fault fault) ∨
    (f = .exit ∧ ∃ code, exitStatus args = .ok code ∧ e = .exit code) ∨
    ∃ collect target items, f = .map collect ∧ mapping m.heap args = .ok (target, items) ∧
      (callEach caller target collect items m).2 = .error e := by
  cases f with
  | array g => exact Or.inl (fault_of_runArray h)
  | conversion g | file fence g | fetch fence | document g | math g | string g | assertEqual =>
      exact Or.inl (fault_of_mapError (Prod.mk.inj h).2)
  | environment g | stream g | loop g | runtime g | stack g =>
      exact Or.inl (fault_of_onMachine h)
  | exit =>
      obtain hfault | hexit := runExit_error_cases h
      · exact Or.inl hfault
      · exact Or.inr (Or.inl ⟨rfl, hexit⟩)
  | map collect =>
      obtain hfault | ⟨target, items, hmapping, heach⟩ := runMap_error_cases h
      · exact Or.inl hfault
      · exact Or.inr (Or.inr ⟨collect, target, items, rfl, hmapping, heach⟩)
  | debug => exact Or.inl ⟨_, (runDebug_eq_error h).2⟩

end Native

namespace Machine

open Native (callEach mapping)

/-- An action asks to leave the program with a status: it calls the function that does so, or maps
that function over an array with an element that it accepts. -/
inductive RequestsExit (m : Machine Native) (a : Action) (code : Int) : Prop where
  | direct {target : CallTarget} {args : List Operand} {vs : List Value}
      (ha : a.nativeCall? = some (target, args)) (hvs : args.mapM m.resolve = .ok vs)
      (hexit : m.natives.get? target.key = some .exit) (hcode : exitStatus vs = .ok code)
  | mapped {target inner : CallTarget} {args : List Operand} {vs items : List Value} {v : Value}
      {collect : Bool} (ha : a.nativeCall? = some (target, args))
      (hvs : args.mapM m.resolve = .ok vs)
      (hmap : m.natives.get? target.key = some (.map collect))
      (hmapping : mapping m.heap vs = .ok (inner, items))
      (hexit : m.natives.get? inner.key = some .exit) (hv : v ∈ items)
      (hcode : exitStatus [v] = .ok code)

section Calls

variable {m m' : Machine Native} {target : CallTarget} {e : Failure}

/-- A function that is called for one element fails with a fault, unless it leaves the program. -/
theorem call_singleton_error_cases {v : Value}
    (h : callWithin Native.host 0 target [[]] [v] m = (m', .error e)) :
    (∃ f, e = .fault f) ∨
    m.natives.get? target.key = some .exit ∧
      ∃ code, exitStatus [v] = .ok code ∧ e = .exit code := by
  cases hf : m.natives.get? target.key with
  | none =>
      rw [callWithin, dispatch_of_missing _ hf] at h
      exact Or.inl ⟨_, (Except.error.inj (Prod.mk.inj h).2).symm⟩
  | some f =>
      obtain ⟨m'', hrun, -⟩ := run_of_dispatch hf h
      obtain hfault | ⟨rfl, hexit⟩ | ⟨collect, inner, items, -, hmapping, -⟩ :=
        Native.run_error_cases hrun
      · exact Or.inl hfault
      · exact Or.inr ⟨rfl, hexit⟩
      · -- mapping takes three arguments
        rw [Native.mapping_singleton] at hmapping
        cases hmapping

theorem callEach_error_cases {collect : Bool} {items : List Value}
    (h : (callEach (callWithin Native.host 0) target collect items m).2 = .error e) :
    (∃ f, e = .fault f) ∨
    m.natives.get? target.key = some .exit ∧
      ∃ v ∈ items, ∃ code, exitStatus [v] = .ok code ∧ e = .exit code := by
  induction items generalizing m with
  | nil => cases h
  | cons v vs ih =>
      rw [callEach] at h
      split at h
      · rename_i m₁ e' hcall
        cases h
        obtain hfault | ⟨hexit, hcode⟩ := call_singleton_error_cases hcall
        · exact Or.inl hfault
        · exact Or.inr ⟨hexit, v, List.mem_cons_self, hcode⟩
      · rename_i m₁ r hcall
        split at h
        · exact Or.inl ⟨_, (Except.error.inj h).symm⟩
        · split at h
          · rename_i m₂ e' heach
            cases h
            have hframe := framed_callWithin Native.framed_host 0 target [[]] [v] m
            rw [hcall] at hframe
            have hnatives : m₁.natives = m.natives := congrArg Frame.natives hframe
            obtain hfault | ⟨hexit, w, hw, hcode⟩ := ih (congrArg Prod.snd heach)
            · exact Or.inl hfault
            · exact Or.inr ⟨hnatives ▸ hexit, w, List.mem_cons_of_mem v hw, hcode⟩
          · cases h

end Calls

section Steps

variable {m m' : Machine Native} {st : Statement} {e : Failure} {gas : Int}

/-- An action fails with a fault, unless it asks to leave the program. -/
theorem exec_error_cases {a : Action} (h : m.exec Native.host a = (m', .error e)) :
    (∃ f, e = .fault f) ∨ ∃ code, e = .exit code ∧ m.RequestsExit a code := by
  cases hreached : m.reached? a with
  | none =>
      obtain ⟨f, -, rfl⟩ := refused_of_exec h hreached
      exact Or.inl ⟨f, rfl⟩
  | some f =>
      obtain ⟨target, args, vs, ha, hvs, hf⟩ := exists_call_of_reached? hreached
      obtain hcall | ⟨name, rfl, hcall⟩ := call_of_exec_error ha hvs h
      · obtain ⟨m'', hrun, -⟩ := run_of_dispatch hf hcall
        obtain hfault | ⟨rfl, code, hcode, rfl⟩ | ⟨collect, inner, items, rfl, hmapping, heach⟩ :=
          Native.run_error_cases hrun
        · exact Or.inl hfault
        · exact Or.inr ⟨code, rfl, .direct ha hvs hf hcode⟩
        · obtain hfault | ⟨hexit, v, hv, code, hcode, rfl⟩ := callEach_error_cases heach
          · exact Or.inl hfault
          · exact Or.inr ⟨code, rfl, .mapped ha hvs hf hmapping hexit hv hcode⟩
      · rw [exec, callSite, hvs] at h
        simp only [hcall] at h
        exact Or.inl ⟨_, (Except.error.inj (Prod.mk.inj h).2).symm⟩

theorem RequestsExit.of_counted {a : Action} {code : Int}
    (h : (m.counted st).RequestsExit a code) : m.RequestsExit a code := by
  have hresolve : (m.counted st).resolve = m.resolve := funext (resolve_congr rfl)
  cases h with
  | direct ha hvs hexit hcode => exact .direct ha (hresolve ▸ hvs) hexit hcode
  | mapped ha hvs hmap hmapping hexit hv hcode =>
      exact .mapped ha (hresolve ▸ hvs) hmap hmapping hexit hv hcode

/-- A step puts the fault of its action at its statement. -/
theorem step_error_cases (h : m.step Native.host st = (m', .error e)) (he : e ≠ .fault .endless) :
    (∃ f, e = .anchored [] (anchorFault st f)) ∨
      ∃ code, e = .exit code ∧ m.RequestsExit st.action code := by
  obtain ⟨e', hexec, rfl⟩ := step_eq_error_iff.mp h
  rw [Ne, anchor_eq_endless_iff] at he
  obtain ⟨f, rfl⟩ | ⟨code, rfl, hexit⟩ := exec_error_cases hexec
  · exact Or.inl ⟨f, anchor_fault fun hf => he (congrArg Failure.fault hf)⟩
  · exact Or.inr ⟨code, rfl, hexit.of_counted⟩

end Steps

section Turns

variable {σ : Type} {m m' : Machine Native} {s s' : σ} {st : Statement} {e : Failure} {gas : Int}

/-- A statement fails: for want of gas before it is executed, or in its step. -/
def Fails (gas : Int) (m : Machine Native) (st : Statement) (e : Failure) : Prop :=
  if m.exhausted gas then e = .anchored [] (anchorFault st .gasExhausted)
  else (m.step Native.host st).2 = .error e

theorem fails_iff_turn : m.Fails gas st e ↔ (m.turn Native.host none gas st s).2 = .error e := by
  rw [Fails, turn]
  split
  · exact ⟨fun h => h ▸ rfl, fun h => (Except.error.inj h).symm⟩
  · rcases m.step Native.host st with ⟨m', e' | u⟩
    · exact Iff.rfl
    · change _ ↔ (m'.pause none s).2 = _
      rw [pause]
      split
      · exact Iff.rfl
      · exact Iff.rfl

theorem Fails.cases (h : m.Fails gas st e) (he : e ≠ .fault .endless) :
    (∃ f, e = .anchored [] (anchorFault st f)) ∨
      ∃ code, e = .exit code ∧ m.RequestsExit st.action code := by
  rw [Fails] at h
  split at h
  · exact Or.inl ⟨_, h⟩
  · exact step_error_cases (Prod.ext rfl h) he

/-- With gas left, a statement that goes on for ever is the one thing that never ends. -/
theorem fails_endless_iff :
    m.Fails gas st (.fault .endless) ↔ m.exhausted gas = false ∧ m.GoesOnForever st.action := by
  rw [Fails, ← step_eq_endless_iff]
  cases m.exhausted gas <;> simp

end Turns

end Machine

/-- A runtime diagnostic of a fault at a token, as wide as the statement that begins there. -/
structure Diagnostic.AnchoredAt (t : Token) (width : Nat) (f : Fault) (d : Diagnostic) : Prop where
  stage_eq : d.stage = .runtime
  file_eq : d.file = t.file
  line_eq : d.line = t.line
  column_eq : d.column = t.column
  offset_eq : d.offset = t.offset
  context_eq : d.context = t.context
  width_eq : d.width = width
  cause_eq : d.cause = some f
  message_eq : d.message = f.message

/-- What a pipeline is given: a source, the files that it can import, and all that a machine starts
with beside its program. -/
structure Job where
  read : FileReader
  maxDepth : Int
  file : Bytes
  source : Bytes
  natives : Table Native
  bindings : Table Value
  heap : Heap
  arguments : List Bytes
  input : Input
  world : World
  journal : Journal
  gas : Int

namespace Job

def tokens (j : Job) : Except Diagnostic (List Token) :=
  (tokenize j.read (importLimit j.maxDepth) j.file j.source).2

def machine (j : Job) (program : List Statement) : Machine Native where
  program := program.toArray
  natives := j.natives
  bindings := j.bindings
  heap := j.heap
  arguments := j.arguments
  input := j.input
  world := j.world
  journal := j.journal

/-- Tokenizes and parses the source and runs the program without a hook for at most so many
turns. -/
def run (j : Job) (fuel : Nat) : Except Diagnostic (Machine Native × Outcome) := do
  let ts ← j.tokens
  let program ← parse ts
  let ((m, ()), o) := (j.machine program).run Native.host none j.gas fuel ()
  return (m, o)

/-- The run of a program has come to a statement within a number of turns. -/
def ComesTo (j : Job) (program : List Statement) (fuel : Nat) (now : Machine Native)
    (st : Statement) : Prop :=
  (∃ n < fuel, ((j.machine program).start Native.host).turns Native.host none j.gas n ()
    = ((now, ()), .outOfFuel)) ∧ now.current? = some st

variable {j : Job} {ts : List Token} {program : List Statement} {fuel : Nat}

theorem run_of_parse (htokens : j.tokens = .ok ts) (hparse : parse ts = .ok program) :
    j.run fuel = .ok (((j.machine program).run Native.host none j.gas fuel ()).1.1,
      ((j.machine program).run Native.host none j.gas fuel ()).2) := by
  rw [run, htokens]
  change (parse ts >>= _) = _
  rw [hparse]
  rfl

theorem ComesTo.mem {now : Machine Native} {st : Statement}
    (h : j.ComesTo program fuel now st) : st ∈ program := by
  obtain ⟨⟨n, -, hreached⟩, hcurrent⟩ := h
  have hprogram : now.program = program.toArray :=
    (Machine.text_turns Native.framed_host (by simp) hreached).1
  have hmem := Array.mem_of_getElem? (Machine.getElem?_of_current? hcurrent)
  rwa [hprogram, List.mem_toArray] at hmem

/-- A run fails just if it has come to a statement that fails. -/
theorem run_eq_failed_iff {e : Failure} :
    ((j.machine program).run Native.host none j.gas fuel ()).2 = .failed e ↔
      ∃ now st, j.ComesTo program fuel now st ∧ now.Fails j.gas st e := by
  rw [Machine.run_of_ready rfl]
  constructor
  · intro h
    obtain ⟨n, now, ⟨⟩, st, hlt, hreached, hcurrent, hturn⟩ :=
      Machine.exists_turn_of_failed (Prod.ext rfl h)
    exact ⟨now, st, ⟨⟨n, hlt, hreached⟩, hcurrent⟩,
      Machine.fails_iff_turn.mpr (congrArg Prod.snd hturn)⟩
  · rintro ⟨now, st, ⟨⟨n, hlt, hreached⟩, hcurrent⟩, hfails⟩
    obtain ⟨k, rfl⟩ := Nat.exists_eq_add_of_lt hlt
    have hturn := Machine.fails_iff_turn (s := ()).mp hfails
    change (((j.machine program).start Native.host).turns Native.host none j.gas (n + k + 1) ()).2
      = _
    rw [Nat.add_assoc, Machine.turns_add hreached, Machine.turns_succ hcurrent]
    rcases hnow : now.turn Native.host none j.gas st () with ⟨⟨m, ⟨⟩⟩, r⟩
    rw [hnow] at hturn
    cases hturn
    rfl

theorem state_run :
    ((j.machine program).run Native.host none j.gas fuel ()).1.1.state = .halted := by
  rw [Machine.run_of_ready rfl]
  exact Machine.state_halted _

/-- A run never ends just if it has come to a statement that goes on for ever, with gas left. -/
theorem run_eq_endless_iff :
    ((j.machine program).run Native.host none j.gas fuel ()).2 = .endless ↔
      ∃ now st, j.ComesTo program fuel now st ∧ now.exhausted j.gas = false ∧
        now.GoesOnForever st.action ∧ ¬ now.heap.Acyclic := by
  simp only [Outcome.endless, run_eq_failed_iff, Machine.fails_endless_iff]
  refine exists_congr fun now => exists_congr fun st => and_congr_right fun _ => ?_
  exact and_congr_right fun _ => ⟨fun h => ⟨h, h.not_acyclic⟩, And.left⟩

/-- With gas, more turns than there is gas for are enough. -/
theorem run_ends (hpos : 0 < j.gas) (hfuel : j.gas < fuel) :
    ((j.machine program).run Native.host none j.gas fuel ()).2 ≠ .outOfFuel := by
  obtain ⟨g, hg⟩ := Int.eq_ofNat_of_zero_le (Int.le_of_lt hpos)
  have hkeeps : Machine.KeepsSteps (none : Option (Hook Unit Native)) := by
    intro h hh
    cases hh
  rw [hg]
  exact Machine.run_ends_of_gas Native.framed_host hkeeps rfl rfl (by omega) (by omega)

end Job

theorem exists_token_of_refuses {ts : List Token} {d : Diagnostic}
    (h : Refuses (TokenRun.cut ts) d) :
    ∃ t ∈ ts, ∃ f : ShapeFault, d = t.diagnostic .parsing f.message none := by
  obtain ⟨before, r, after, hcut, -, -, hrefused⟩ := h
  have hrun : ∀ t ∈ r.tokens, t ∈ ts := by
    intro t ht
    rw [← TokenRun.flatMap_tokens_cut ts, hcut]
    exact List.mem_flatMap_of_mem (List.mem_append_right _ List.mem_cons_self) ht
  rw [TokenRun.RefusedBy] at hrefused
  split at hrefused
  · rename_i close hclose
    obtain ⟨t, ht, f, hd⟩ := hrefused
    refine ⟨t, hrun t ?_, f, hd⟩
    rw [TokenRun.tokens, hclose]
    exact ht
  · obtain ⟨first, hfirst, hd⟩ := hrefused
    exact ⟨first, hrun first (List.mem_append_left _ (List.mem_of_head? hfirst)), .incomplete, hd⟩

/-- A program that jumps to its first statement by a function without a result, and wants the
result.  The failure is put at the second statement, which the program counter has left. -/
def jumpingJob : Job where
  read := fun path => .error ⟨.opening, path, .notFound⟩
  maxDepth := 0
  file := text "main"
  source := text "~top\nx = @runtime:gotolabel \"top\"\n"
  natives := [(text "runtime:gotolabel", .runtime .gotoLabel)]
  bindings := []
  heap := .empty
  arguments := []
  input := ⟨[], []⟩
  world := .empty
  journal := .keeping .disabled
  gas := 0

/-- Telling what an array is that was put into itself goes on for ever. -/
example :
    let job : Job := { jumpingJob with
      source := text "a = @array:new\n@array:push a a\n@test:is a 1\n"
      natives := Module.all.flatMap (·.registry {}) }
    (job.run 3).toOption.map Prod.snd = some .endless := by
  decide +kernel

end JumpScript
