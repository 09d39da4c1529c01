import JumpScript.Proofs.Machine.Commands
import JumpScript.Proofs.Machine.Continuation
import JumpScript.Proofs.Machine.Turns

/-!
# Calls and returns

The statements that a run executes without failure form a sequence in which returns are matched with
calls like brackets.  The pending calls of a machine are at all times the calls of that sequence
that no return matches.  Jumps do not count: neither those of statements, nor those of native
functions, nor those that a console makes at a pause.
-/

namespace JumpScript

/-- A statement that has been executed: its index and its action. -/
structure Visit where
  index : Nat
  action : Action
  deriving DecidableEq, Repr

namespace Visit

def IsCall (v : Visit) : Prop := ∃ label, v.action = .callLabel label

def IsReturn (v : Visit) : Prop := v.action = .ret

end Visit

/-! ### Matching -/

/-- Every call has its return and every return its call. -/
inductive Balanced : List Visit → Prop where
  | nil : Balanced []
  | other {v : Visit} {rest : List Visit} (hcall : ¬ v.IsCall) (hreturn : ¬ v.IsReturn)
      (hrest : Balanced rest) : Balanced (v :: rest)
  | pair {call ret : Visit} {inner rest : List Visit} (hcall : call.IsCall)
      (hinner : Balanced inner) (hreturn : ret.IsReturn) (hrest : Balanced rest) :
      Balanced (call :: inner ++ ret :: rest)

/-- The indices of the calls that no return matches, the oldest first, where every return has its
call. -/
inductive Unmatched : List Visit → List Nat → Prop where
  | none {visits : List Visit} (h : Balanced visits) : Unmatched visits []
  | call {before after : List Visit} {call : Visit} {calls : List Nat} (hbefore : Balanced before)
      (hcall : call.IsCall) (hafter : Unmatched after calls) :
      Unmatched (before ++ call :: after) (call.index :: calls)

section Matching

variable {visits rest : List Visit} {v : Visit} {calls : List Nat}

theorem Balanced.append (h : Balanced visits) (hrest : Balanced rest) :
    Balanced (visits ++ rest) := by
  induction h with
  | nil => exact hrest
  | other hcall hreturn _ ih => exact Balanced.other hcall hreturn ih
  | pair hcall hinner hreturn _ _ ih =>
      rw [List.append_assoc, List.cons_append]
      exact Balanced.pair hcall hinner hreturn ih

theorem Unmatched.other (h : Unmatched visits calls) (hcall : ¬ v.IsCall) (hreturn : ¬ v.IsReturn) :
    Unmatched (visits ++ [v]) calls := by
  induction h with
  | none h => exact Unmatched.none (h.append (Balanced.other hcall hreturn Balanced.nil))
  | call hbefore hc _ ih =>
      rw [List.append_assoc, List.cons_append]
      exact Unmatched.call hbefore hc ih

/-- A call is the newest of those that are not matched. -/
theorem Unmatched.called (h : Unmatched visits calls) (hcall : v.IsCall) :
    Unmatched (visits ++ [v]) (calls ++ [v.index]) := by
  induction h with
  | none h => exact Unmatched.call h hcall (Unmatched.none Balanced.nil)
  | call hbefore hc _ ih =>
      rw [List.append_assoc, List.cons_append]
      exact Unmatched.call hbefore hc ih

/-- A return matches the newest call. -/
theorem Unmatched.returned {p : Nat} (h : Unmatched visits (calls ++ [p])) (hreturn : v.IsReturn) :
    Unmatched (visits ++ [v]) calls := by
  induction calls generalizing visits with
  | nil =>
      cases h with
      | call hbefore hc hafter =>
          cases hafter with
          | none hinner =>
              rw [List.append_assoc]
              exact Unmatched.none
                (hbefore.append (Balanced.pair hc hinner hreturn Balanced.nil))
  | cons c calls ih =>
      cases h with
      | call hbefore hc hafter =>
          rw [List.append_assoc, List.cons_append]
          exact Unmatched.call hbefore hc (ih hafter)

/-! The calls that are not matched are determined by the visits: they are what is left on a stack
of calls. -/

/-- The calls on a stack after some visits, the newest first. -/
def stackAfter (visits : List Visit) (calls : List Nat) : List Nat :=
  visits.foldl (fun calls v => v.action.callsAfter v.index calls) calls

theorem stackAfter_cons (v : Visit) (rest : List Visit) (calls : List Nat) :
    stackAfter (v :: rest) calls = stackAfter rest (v.action.callsAfter v.index calls) := rfl

theorem stackAfter_append (visits rest : List Visit) (calls : List Nat) :
    stackAfter (visits ++ rest) calls = stackAfter rest (stackAfter visits calls) :=
  List.foldl_append

theorem Visit.callsAfter_of_call (h : v.IsCall) (calls : List Nat) :
    v.action.callsAfter v.index calls = v.index :: calls := by
  obtain ⟨label, hlabel⟩ := h
  rw [hlabel]
  rfl

theorem Visit.callsAfter_of_return (h : v.IsReturn) (calls : List Nat) :
    v.action.callsAfter v.index calls = calls.tail := by
  rw [h]
  rfl

theorem Visit.callsAfter_of_other (hcall : ¬ v.IsCall) (hreturn : ¬ v.IsReturn)
    (calls : List Nat) : v.action.callsAfter v.index calls = calls := by
  cases haction : v.action with
  | callLabel label => exact absurd ⟨label, haction⟩ hcall
  | ret => exact absurd haction hreturn
  | _ => rfl

theorem Balanced.stackAfter (h : Balanced visits) (calls : List Nat) :
    stackAfter visits calls = calls := by
  induction h generalizing calls with
  | nil => rfl
  | other hcall hreturn _ ih =>
      rw [stackAfter_cons, Visit.callsAfter_of_other hcall hreturn, ih]
  | pair hcall _ hreturn _ ihinner ihrest =>
      rw [List.cons_append, stackAfter_cons, stackAfter_append, Visit.callsAfter_of_call hcall,
        ihinner, stackAfter_cons, Visit.callsAfter_of_return hreturn, List.tail_cons, ihrest]

theorem Unmatched.stackAfter (h : Unmatched visits calls) (stack : List Nat) :
    stackAfter visits stack = calls.reverse ++ stack := by
  induction h generalizing stack with
  | none h => exact h.stackAfter stack
  | call hbefore hcall _ ih =>
      rw [stackAfter_append, hbefore.stackAfter, stackAfter_cons, Visit.callsAfter_of_call hcall,
        ih, List.reverse_cons, List.append_assoc]
      rfl

theorem Unmatched.unique {others : List Nat} (h : Unmatched visits calls)
    (h' : Unmatched visits others) : calls = others := by
  have hstack := h.stackAfter []
  rw [h'.stackAfter [], List.append_nil, List.append_nil] at hstack
  exact (List.reverse_inj.mp hstack).symm

theorem Unmatched.exists_call (h : Unmatched visits calls) {p : Nat} (hp : p ∈ calls) :
    ∃ v ∈ visits, v.IsCall ∧ v.index = p := by
  induction h with
  | none h => cases hp
  | @call before after call calls hbefore hcall _ ih =>
      rcases List.mem_cons.mp hp with rfl | hp
      · exact ⟨call, by simp, hcall, rfl⟩
      · obtain ⟨v, hv, hvcall⟩ := ih hp
        exact ⟨v, by simp [hv], hvcall⟩

theorem unmatched_nil_iff : Unmatched visits [] ↔ Balanced visits := by
  constructor
  · intro h
    cases h with
    | none h => exact h
  · exact Unmatched.none

end Matching

/-! ### Runs -/

namespace Machine

variable {ν σ : Type} {host : Host ν} {hook : Option (Hook σ ν)} {gas : Int}
  {program : Array Statement} {visits : List Visit} {m : Machine ν} {st : Statement}

/-- The statement that a machine is about to execute, if it succeeds. -/
def visit? (host : Host ν) (m : Machine ν) : Option Visit :=
  match m.current? with
  | none => none
  | some st =>
    match (m.step host st).2 with
    | .ok () => some ⟨m.pc.toNat, st.action⟩
    | .error _ => none

/-- The statements that turns execute without failure. -/
def executed (host : Host ν) (hook : Option (Hook σ ν)) (gas : Int) (fuel : Nat) (m : Machine ν)
    (s : σ) : List Visit :=
  (history host hook gas fuel m s).filterMap (visit? host)

/-- The pending calls of a machine are those that are not matched in what has been executed, and
what has been executed are statements of the program. -/
structure Disciplined (program : Array Statement) (visits : List Visit) (m : Machine ν) : Prop where
  program_eq : m.program = program
  recorded : ∀ v ∈ visits, ∃ st, program[v.index]? = some st ∧ st.action = v.action
  unmatched : Unmatched visits m.calls.reverse

theorem Disciplined.of_frame {m' : Machine ν} (h : Disciplined program visits m)
    (hframe : m'.frame = m.frame) : Disciplined program visits m' where
  program_eq := (congrArg Frame.program hframe).trans h.program_eq
  recorded := h.recorded
  unmatched := by
    have hcalls : m'.calls = m.calls := congrArg Frame.calls hframe
    rw [hcalls]
    exact h.unmatched

theorem Disciplined.exists_callLabel (h : Disciplined program visits m) {p : Nat}
    (hp : p ∈ m.calls) : ∃ st label, program[p]? = some st ∧ st.action = .callLabel label := by
  obtain ⟨v, hv, ⟨label, hlabel⟩, rfl⟩ := h.unmatched.exists_call (List.mem_reverse.mpr hp)
  obtain ⟨st, hst, haction⟩ := h.recorded v hv
  exact ⟨st, label, hst, haction.trans hlabel⟩

theorem getElem?_of_current? (h : m.current? = some st) : m.program[m.pc.toNat]? = some st := by
  rw [current?] at h
  split at h
  · exact h
  · cases h

theorem exec_ret_of_nil (host : Host ν) (hcalls : m.calls = []) :
    m.exec host .ret = (m, .error (.fault .emptyCallStack)) := by
  rw [exec, hcalls]

theorem exec_ret_of_cons (host : Host ν) {p : Nat} {calls : List Nat}
    (hcalls : m.calls = p :: calls) :
    ∃ m', m.exec host .ret = (m', .ok ()) ∧ m'.pc = p ∧
      m'.pauseRequested = m.pauseRequested := by
  rw [exec, hcalls]
  exact ⟨_, rfl, rfl, rfl⟩

theorem step_ret_of_nil (host : Host ν) (hret : st.action = .ret) (hcalls : m.calls = []) :
    (m.step host st).2 = .error (.anchored [] (anchorFault st .emptyCallStack)) := by
  have hcounted : ({ m with steps := m.steps + 1 }.note (.step m.pc st)).calls = [] := hcalls
  rw [step, hret, exec_ret_of_nil host hcounted]
  rfl

/-- A return goes to what follows the newest call. -/
theorem step_ret_of_cons (host : Host ν) {p : Nat} {calls : List Nat}
    (hret : st.action = .ret) (hcalls : m.calls = p :: calls) :
    ∃ m', m.step host st = (m', .ok ()) ∧ m'.pc = following p ∧
      m'.pauseRequested = m.pauseRequested := by
  have hcounted : ({ m with steps := m.steps + 1 }.note (.step m.pc st)).calls = p :: calls :=
    hcalls
  obtain ⟨m', hexec, hpc, hpause⟩ := exec_ret_of_cons host hcounted
  rw [step, hret, hexec]
  exact ⟨_, rfl, congrArg following hpc, hpause⟩

/-- One step keeps the discipline: what a successful statement does to the pending calls is what it
does to the calls that are not matched. -/
theorem disciplined_step (hhost : host.Framed) (h : Disciplined program visits m)
    (hcurrent : m.current? = some st) :
    Disciplined program (visits ++ (visit? host m).toList) (m.step host st).1 := by
  have hframe := frame_step hhost m st
  have hprogram : (m.step host st).1.program = m.program := congrArg Frame.program hframe
  have hcalls : (m.step host st).1.calls = m.callsOf st.action (m.step host st).2 :=
    congrArg Frame.calls hframe
  have hvisit : visit? host m = match (m.step host st).2 with
      | .ok () => some ⟨m.pc.toNat, st.action⟩
      | .error _ => none := by
    rw [visit?, hcurrent]
  refine ⟨hprogram.trans h.program_eq, ?_, ?_⟩
  · intro v hv
    rcases List.mem_append.mp hv with hv | hv
    · exact h.recorded v hv
    · rw [hvisit] at hv
      split at hv
      · obtain rfl := List.mem_singleton.mp hv
        exact ⟨st, h.program_eq ▸ getElem?_of_current? hcurrent, rfl⟩
      · cases hv
  · have hunmatched := h.unmatched
    rw [hcalls, hvisit]
    cases hresult : (m.step host st).2 with
    | error e =>
        rw [callsOf, Option.toList_none, List.append_nil]
        exact hunmatched
    | ok u =>
        rw [callsOf, Option.toList_some]
        cases haction : st.action with
        | callLabel label =>
            rw [Action.callsAfter, List.reverse_cons]
            exact hunmatched.called (v := ⟨m.pc.toNat, .callLabel label⟩) ⟨label, rfl⟩
        | ret =>
            cases hstack : m.calls with
            | nil =>
                rw [step_ret_of_nil host haction hstack] at hresult
                cases hresult
            | cons p calls =>
                rw [hstack, List.reverse_cons] at hunmatched
                exact hunmatched.returned rfl
        | _ => exact hunmatched.other (by rintro ⟨label, ⟨⟩⟩) (by rintro ⟨⟩)

/-- A pause with a console changes nothing but the program counter, the input, the output, the
request for the pause and the journal. -/
theorem pause_eq (hhook : ∀ h ∈ hook, Console.IsConsole h) (m : Machine ν) (s : σ) :
    let m' := (m.pause hook s).1.1
    m' = { m with pc := m'.pc, input := m'.input, output := m'.output,
                  pauseRequested := m'.pauseRequested, journal := m'.journal } := by
  rw [pause]
  split
  · cases hook with
    | none => rfl
    | some h =>
        dsimp only
        rw [(hhook h rfl _ s).eq]
        rfl
  · rfl

theorem frame_pause (hhook : ∀ h ∈ hook, Console.IsConsole h) (m : Machine ν) (s : σ) :
    (m.pause hook s).1.1.frame = m.frame := by
  rw [pause]
  split
  · cases hook with
    | none => rfl
    | some h => exact (hhook h rfl _ s).frame_eq
  · rfl

/-- A turn that succeeds does to the frame what its step does. -/
theorem frame_of_turn (hhost : host.Framed) (hhook : ∀ h ∈ hook, Console.IsConsole h)
    {m m' : Machine ν} {st : Statement} {s s' : σ}
    (hturn : m.turn host hook gas st s = ((m', s'), .ok ())) :
    m'.frame = { m.frame with steps := m.steps + 1, calls := m.callsOf st.action (.ok ()) } := by
  obtain ⟨-, m₁, hstep, hpause⟩ := step_of_turn hturn
  have hframe := frame_step hhost m st
  have hpaused := frame_pause hhook m₁ s
  rw [hstep] at hframe
  rw [hpause] at hpaused
  exact hpaused.trans hframe

/-- The program and the known functions stay the same as long as a run goes on. -/
theorem text_of_turn (hhost : host.Framed) (hhook : ∀ h ∈ hook, Console.IsConsole h)
    {m m' : Machine ν} {st : Statement} {s s' : σ}
    (hturn : m.turn host hook gas st s = ((m', s'), .ok ())) :
    m'.program = m.program ∧ m'.natives = m.natives := by
  have hframe := frame_of_turn hhost hhook hturn
  have hprogram : m'.program = m.program := congrArg Frame.program hframe
  have hnatives : m'.natives = m.natives := congrArg Frame.natives hframe
  exact ⟨hprogram, hnatives⟩

theorem text_turns (hhost : host.Framed) (hhook : ∀ h ∈ hook, Console.IsConsole h)
    {m m' : Machine ν} {s s' : σ} {n : Nat}
    (h : m.turns host hook gas n s = ((m', s'), .outOfFuel)) :
    m'.program = m.program ∧ m'.natives = m.natives := by
  refine turns_preserve (P := fun k => k.program = m.program ∧ k.natives = m.natives) ?_
    ⟨rfl, rfl⟩ h
  rintro k k' st s s' ⟨hprogram, hnatives⟩ hturn
  obtain ⟨hprogram', hnatives'⟩ := text_of_turn hhost hhook hturn
  exact ⟨hprogram'.trans hprogram, hnatives'.trans hnatives⟩

theorem pauseRequested_pause (hhook : ∀ h ∈ hook, Console.IsConsole h) (m : Machine ν) (s : σ) :
    (m.pause hook s).1.1.pauseRequested = false := by
  rw [pause]
  split
  · cases hook with
    | none => rfl
    | some h => exact (hhook h rfl _ s).pauseRequested_eq
  · rename_i hpause
    exact Bool.eq_false_iff.mpr hpause

theorem disciplined_turn (hhost : host.Framed) (hhook : ∀ h ∈ hook, Console.IsConsole h)
    (h : Disciplined program visits m) (hcurrent : m.current? = some st)
    (hgas : m.exhausted gas = false) (s : σ) :
    Disciplined program (visits ++ (visit? host m).toList) (m.turn host hook gas st s).1.1 := by
  have hstep := disciplined_step hhost h hcurrent
  rw [turn, hgas, if_neg Bool.false_ne_true]
  split
  · rename_i heq
    rw [heq] at hstep
    exact hstep
  · rename_i m' heq
    rw [heq] at hstep
    exact hstep.of_frame (frame_pause hhook m' s)

theorem pauseRequested_turn (hhook : ∀ h ∈ hook, Console.IsConsole h) {m' : Machine ν} {s s' : σ}
    (h : m.turn host hook gas st s = ((m', s'), .ok ())) : m'.pauseRequested = false := by
  rw [turn] at h
  split at h
  · cases h
  · split at h
    · cases h
    · rename_i m'' _
      have hpause := pauseRequested_pause hhook m'' s
      rw [h] at hpause
      exact hpause

theorem executed_of_none (h : m.current? = none) (n : Nat) (s : σ) :
    executed host hook gas n m s = [] := by
  cases n with
  | zero => rfl
  | succ n =>
      rw [executed, history, h]
      rfl

theorem executed_of_exhausted (h : m.exhausted gas = true) (n : Nat) (s : σ) :
    executed host hook gas n m s = [] := by
  cases n with
  | zero => rfl
  | succ n =>
      rw [executed, history]
      split
      · rfl
      · rw [if_pos h]
        rfl

theorem history_succ (hcurrent : m.current? = some st) (hgas : m.exhausted gas = false) (n : Nat)
    (s : σ) :
    history host hook gas (n + 1) m s =
      m :: match m.turn host hook gas st s with
        | ((m', s'), .ok ()) => history host hook gas n m' s'
        | _ => [] := by
  rw [history, hcurrent]
  simp only [hgas]
  rfl

theorem executed_succ (hcurrent : m.current? = some st) (hgas : m.exhausted gas = false) (n : Nat)
    (s : σ) :
    executed host hook gas (n + 1) m s = (visit? host m).toList ++
      match m.turn host hook gas st s with
      | ((m', s'), .ok ()) => executed host hook gas n m' s'
      | _ => [] := by
  have hcons : ∀ rest, (m :: rest).filterMap (visit? host)
      = (visit? host m).toList ++ rest.filterMap (visit? host) := by
    intro rest
    rw [List.filterMap_cons]
    cases visit? host m with
    | none => rfl
    | some v => rfl
  rw [executed, history_succ hcurrent hgas, hcons]
  split
  · rfl
  · rfl

theorem visit?_of_step {m' : Machine ν} (hcurrent : m.current? = some st)
    (hstep : m.step host st = (m', .ok ())) : visit? host m = some ⟨m.pc.toNat, st.action⟩ := by
  rw [visit?, hcurrent]
  simp only [hstep]

/-- What turns preserve about a machine and what has been executed holds as long as a run goes on.
Each turn may rely on what is known of the machine that takes it. -/
theorem turns_preserve_executed {P : List Visit → Machine ν → Prop} {Q : Machine ν → Prop}
    (hturn : ∀ visits m m' st s s', P visits m → Q m → m.current? = some st →
      m.turn host hook gas st s = ((m', s'), .ok ()) → P (visits ++ [⟨m.pc.toNat, st.action⟩]) m')
    {m' : Machine ν} {s s' : σ} {n : Nat} (hm : P visits m)
    (hQ : ∀ k ∈ history host hook gas n m s, Q k)
    (h : m.turns host hook gas n s = ((m', s'), .outOfFuel)) :
    P (visits ++ executed host hook gas n m s) m' := by
  induction n generalizing m s visits with
  | zero =>
      cases hcurrent : m.current? with
      | none =>
          rw [turns_of_current?_none hcurrent] at h
          cases h
      | some st =>
          rw [turns_zero hcurrent] at h
          cases h
          rw [executed, history, List.filterMap_nil, List.append_nil]
          exact hm
  | succ n ih =>
      cases hcurrent : m.current? with
      | none =>
          rw [turns_of_current?_none hcurrent] at h
          cases h
      | some st =>
          rw [turns_succ hcurrent] at h
          split at h
          · rename_i m₁ s₁ heq
            obtain ⟨hgas, m₂, hstep, -⟩ := step_of_turn heq
            rw [history_succ hcurrent hgas, heq] at hQ
            have hnext := hturn visits m m₁ st s s₁ hm (hQ m List.mem_cons_self) hcurrent heq
            have hrest := ih hnext (fun k hk => hQ k (List.mem_cons_of_mem m hk)) h
            rw [executed_succ hcurrent hgas, heq, visit?_of_step hcurrent hstep]
            rw [List.append_assoc] at hrest
            exact hrest
          · cases h

/-- What turns preserve at machines with a property holds as long as a run goes on through such
machines. -/
theorem turns_preserve_along {P Q : Machine ν → Prop}
    (hturn : ∀ m m' st s s', P m → Q m → m.current? = some st →
      m.turn host hook gas st s = ((m', s'), .ok ()) → P m')
    {m' : Machine ν} {s s' : σ} {n : Nat} (hm : P m) (hQ : ∀ k ∈ history host hook gas n m s, Q k)
    (h : m.turns host hook gas n s = ((m', s'), .outOfFuel)) : P m' :=
  @turns_preserve_executed _ _ _ _ _ [] _ (fun _ => P) Q (fun _ => hturn) _ _ _ _ hm hQ h

/-- Runs keep the discipline. -/
theorem disciplined_turns (hhost : host.Framed) (hhook : ∀ h ∈ hook, Console.IsConsole h)
    (h : Disciplined program visits m) (gas : Int) (n : Nat) (s : σ) :
    Disciplined program (visits ++ executed host hook gas n m s)
      (m.turns host hook gas n s).1.1 := by
  induction n generalizing visits m s with
  | zero =>
      rw [executed, history, List.filterMap_nil, List.append_nil]
      cases hcurrent : m.current? with
      | none =>
          rw [turns_of_current?_none hcurrent]
          exact h
      | some st =>
          rw [turns_zero hcurrent]
          exact h
  | succ n ih =>
      cases hcurrent : m.current? with
      | none =>
          rw [turns_of_current?_none hcurrent, executed_of_none hcurrent, List.append_nil]
          exact h
      | some st =>
          cases hgas : m.exhausted gas with
          | true =>
              rw [turns_succ hcurrent, turn, hgas, if_pos rfl, executed_of_exhausted hgas,
                List.append_nil]
              exact h
          | false =>
              have hturn := disciplined_turn hhost hhook h hcurrent hgas s
              rw [turns_succ hcurrent, executed_succ hcurrent hgas, ← List.append_assoc]
              rcases hresult : m.turn host hook gas st s with ⟨⟨m', s'⟩, e | u⟩
              · rw [hresult] at hturn
                rw [List.append_nil]
                exact hturn
              · rw [hresult] at hturn
                exact ih hturn s'

/-- While a run goes on, no pause is left to make. -/
theorem pauseRequested_turns (hhook : ∀ h ∈ hook, Console.IsConsole h)
    (hpause : m.pauseRequested = false) {m' : Machine ν} {s s' : σ} {n : Nat}
    (h : m.turns host hook gas n s = ((m', s'), .outOfFuel)) : m'.pauseRequested = false := by
  refine turns_preserve (P := fun m => m.pauseRequested = false) ?_ hpause h
  intro m m' st s s' _ hturn
  exact pauseRequested_turn hhook hturn

theorem current?_of_pc {i : Nat} (hpc : m.pc = i) : m.current? = m.program[i]? := by
  rw [current?, hpc, if_pos (Int.natCast_nonneg i), Int.toNat_natCast]

/-- A return with a pending call takes one turn, and the run goes on after the call if there is
anything after it. -/
theorem turns_ret_of_cons (hook : Option (Hook σ ν)) (hhost : host.Framed)
    (hcurrent : m.current? = some st) (hret : st.action = .ret) (hgas : m.exhausted gas = false)
    (hpause : m.pauseRequested = false) (hsize : m.program.size < 0x8000000000000000) {p : Nat}
    {calls : List Nat} (hcalls : m.calls = p :: calls) (hp : p < m.program.size) (s : σ) :
    ∃ m', m.turns host hook gas 1 s
        = ((m', s), if p + 1 < m.program.size then .outOfFuel else .finished) ∧
      m'.pc = p + 1 ∧ m'.calls = calls := by
  obtain ⟨m', hstep, hpc, hunpaused⟩ := step_ret_of_cons host hret hcalls
  have hframe := frame_step hhost m st
  rw [hstep] at hframe
  have hprogram : m'.program = m.program := congrArg Frame.program hframe
  have hrest : m'.calls = calls := by
    have htail : m'.calls = st.action.callsAfter m.pc.toNat m.calls := congrArg Frame.calls hframe
    rw [htail, hret, hcalls]
    rfl
  rw [following_of_lt (by omega)] at hpc
  have hturn : m.turn host hook gas st s = ((m', s), .ok ()) :=
    turn_of_step hgas hstep (hunpaused.trans hpause) s
  refine ⟨m', ?_, hpc, hrest⟩
  have hnext := current?_of_pc hpc
  rw [turns_succ hcurrent, hturn]
  rw [hprogram] at hnext
  by_cases hlt : p + 1 < m.program.size
  · rw [if_pos hlt]
    rw [Array.getElem?_eq_getElem hlt] at hnext
    exact turns_zero hnext s
  · rw [if_neg hlt]
    rw [Array.getElem?_eq_none (Nat.le_of_not_lt hlt)] at hnext
    exact turns_of_current?_none hnext 0 s

/-- A return without one fails. -/
theorem turns_ret_of_nil (hcurrent : m.current? = some st) (hret : st.action = .ret)
    (hgas : m.exhausted gas = false) (hcalls : m.calls = []) (s : σ) :
    (m.turns host hook gas 1 s).2 = .failed (.anchored [] (anchorFault st .emptyCallStack)) := by
  have hstep := step_ret_of_nil host hret hcalls
  rw [turns_succ hcurrent, turn, hgas, if_neg Bool.false_ne_true]
  rcases hresult : m.step host st with ⟨m', e | u⟩
  · rw [hresult] at hstep
    exact congrArg Outcome.failed (Except.error.inj hstep)
  · rw [hresult] at hstep
    cases hstep

/-- Where the discipline is kept, a return takes the newest call that is not matched, and fails if
there is none. -/
theorem Disciplined.turns_ret (hhost : host.Framed) (h : Disciplined m.program visits m)
    (hcurrent : m.current? = some st) (hret : st.action = .ret) (hgas : m.exhausted gas = false)
    (hpause : m.pauseRequested = false) (hsize : m.program.size < 0x8000000000000000) (s : σ) :
    (∀ older (p : Nat), Unmatched visits (older ++ [p]) →
      ∃ m', m.turns host hook gas 1 s
          = ((m', s), if p + 1 < m.program.size then .outOfFuel else .finished) ∧
        m'.pc = p + 1 ∧ m'.calls = older.reverse) ∧
    ((m.turns host hook gas 1 s).2 = .failed (.anchored [] (anchorFault st .emptyCallStack)) ↔
      Balanced visits) := by
  have hlt : ∀ p ∈ m.calls, p < m.program.size := by
    intro p hp
    obtain ⟨called, label, hcalled, _⟩ := h.exists_callLabel hp
    exact (Array.getElem?_eq_some_iff.mp hcalled).1
  constructor
  · intro older p hnewest
    have hreverse := h.unmatched.unique hnewest
    have hcalls : m.calls = p :: older.reverse := by
      rw [← List.reverse_reverse m.calls, hreverse, List.reverse_append]
      rfl
    have hp : p < m.program.size := hlt p (hcalls ▸ List.mem_cons_self)
    exact turns_ret_of_cons hook hhost hcurrent hret hgas hpause hsize hcalls hp s
  · rw [← unmatched_nil_iff]
    constructor
    · intro hfailed
      cases hcalls : m.calls with
      | nil =>
          have hunmatched := h.unmatched
          rw [hcalls] at hunmatched
          exact hunmatched
      | cons p calls =>
          have hp : p < m.program.size := hlt p (hcalls ▸ List.mem_cons_self)
          obtain ⟨m', hturns, _⟩ := turns_ret_of_cons hook hhost hcurrent hret hgas hpause hsize
            hcalls hp s
          rw [hturns] at hfailed
          split at hfailed
          · cases hfailed
          · cases hfailed
    · intro hbalanced
      have hcalls : m.calls = [] := List.reverse_eq_nil_iff.mp (h.unmatched.unique hbalanced)
      exact turns_ret_of_nil hcurrent hret hgas hcalls s

theorem calls_halt (m : Machine ν) (o : Outcome) : (m.halt o).calls = m.calls :=
  congrArg Frame.calls (frame_halt m o)

/-- Calls and returns are disciplined.  After every number of steps, whatever statements, native
functions and a console have done to the program counter, the pending calls are the indices of call
statements, and they are the calls among what has been executed that no return matches, the oldest
first.  So a return goes on after the newest of them, or finishes the program if nothing is there,
and it fails for want of a call if and only if all calls are matched.  The bound on the length says
that it is a signed 64-bit word. -/
theorem run_returns_match_calls (hook : Option (Hook σ Native))
    (hhook : ∀ h ∈ hook, Console.IsConsole h) (m : Machine Native) (s : σ) (hfresh : m.Fresh)
    (hsize : m.program.size < 0x8000000000000000) (gas : Int) (n : Nat) :
    let now := m.run Native.host hook gas n s
    let next := m.run Native.host hook gas (n + 1) s
    let visits := executed Native.host hook gas n (m.start Native.host) s
    (∀ p ∈ now.1.1.calls, ∃ st label, m.program[p]? = some st ∧ st.action = .callLabel label) ∧
    Unmatched visits now.1.1.calls.reverse ∧
    ∀ st, now.2 = .outOfFuel → now.1.1.current? = some st → st.action = .ret →
      now.1.1.exhausted gas = false →
      (∀ older (p : Nat), Unmatched visits (older ++ [p]) →
        next.1.1.pc = p + 1 ∧ next.1.1.calls.reverse = older ∧
        next.2 = if p + 1 < m.program.size then .outOfFuel else .finished) ∧
      (next.2 = .failed (.anchored [] (anchorFault st .emptyCallStack)) ↔ Balanced visits) := by
  intro now next visits
  have hhost := Native.framed_host
  have hstart : Disciplined m.program [] (m.start Native.host) := by
    refine ⟨rfl, by simp, ?_⟩
    have hcalls : (m.start Native.host).calls = [] := hfresh.calls_eq
    rw [hcalls]
    exact Unmatched.none Balanced.nil
  rcases hturns : (m.start Native.host).turns Native.host hook gas n s with ⟨⟨m', s'⟩, o⟩
  have hdisciplined := disciplined_turns hhost hhook hstart gas n s
  rw [hturns, List.nil_append] at hdisciplined
  have hnow : now = ((m'.halt o, s'), o) := by
    change m.run Native.host hook gas n s = _
    rw [run_of_ready hfresh.state_eq, hturns]
    rfl
  rw [hnow, calls_halt]
  refine ⟨fun p hp => hdisciplined.exists_callLabel hp, hdisciplined.unmatched, ?_⟩
  rintro st rfl hcurrent hret hgas
  have hcurrent' : m'.current? = some st := (current?_halt m' _).symm.trans hcurrent
  have hnext : next = halted (m'.turns Native.host hook gas 1 s') := by
    change m.run Native.host hook gas (n + 1) s = _
    rw [run_of_ready hfresh.state_eq, turns_add hturns]
  have hprogram := hdisciplined.program_eq
  rw [← hprogram] at hdisciplined hsize ⊢
  have hunpaused : (m.start Native.host).pauseRequested = false := hfresh.unpaused
  have hpause := pauseRequested_turns hhook hunpaused hturns
  obtain ⟨hreturned, hfailed⟩ := hdisciplined.turns_ret hhost hcurrent' hret hgas hpause hsize s'
  rw [hnext]
  refine ⟨?_, hfailed⟩
  intro older p hnewest
  obtain ⟨m'', hturn, hpc, hcalls⟩ := hreturned older p hnewest
  rw [hturn]
  refine ⟨(pc_halt m'' _).trans hpc, ?_, rfl⟩
  rw [halted, calls_halt, hcalls, List.reverse_reverse]

/-- A call whose label is left by a jump of the console at a breakpoint, and a return after it. -/
def leftByJump : Machine Native where
  program :=
    #[atLine 1 (.callLabel (text "f")), atLine 2 (.goto (text "end")), atLine 3 (.label (text "f")),
      atLine 4 (.call ⟨text "runtime", text "breakpoint"⟩ []), atLine 5 (.label (text "end")),
      atLine 6 .ret]
  natives := [(text "runtime:breakpoint", .runtime .breakpoint)]

/-- The return goes to what follows the call, although the console has gone to another label. -/
theorem run_returns_match_calls_leftByJump :
    let after := leftByJump.run Native.host (some Console.told) 0 4 [text "vars", text "goto end"]
    after.1.1.pc = 1 ∧ after.1.1.calls = [] ∧ after.2 = .outOfFuel := by
  intro after
  have hconsole : ∀ h ∈ (some Console.told : Option (Hook (List Bytes) Native)),
      Console.IsConsole h := by
    simpa using Console.isConsole_told
  have hvisits : executed Native.host (some Console.told) 0 3 (leftByJump.start Native.host)
      [text "vars", text "goto end"]
      = [⟨0, .callLabel (text "f")⟩, ⟨3, .call ⟨text "runtime", text "breakpoint"⟩ []⟩,
          ⟨4, .label (text "end")⟩] := by decide +kernel
  have hnewest : Unmatched [⟨0, .callLabel (text "f")⟩,
      ⟨3, .call ⟨text "runtime", text "breakpoint"⟩ []⟩, ⟨4, .label (text "end")⟩] [0] := by
    refine Unmatched.call Balanced.nil ⟨_, rfl⟩ (Unmatched.none ?_)
    refine Balanced.other ?_ ?_ (Balanced.other ?_ ?_ Balanced.nil)
    all_goals simp [Visit.IsCall, Visit.IsReturn]
  have hreturned := ((run_returns_match_calls (some Console.told) hconsole leftByJump
    [text "vars", text "goto end"] ⟨rfl, rfl, rfl, rfl, rfl⟩ (by decide) 0 3).2.2
    (atLine 6 .ret) (by decide +kernel) (by decide +kernel) rfl (by decide +kernel)).1 [] 0
    (hvisits ▸ hnewest)
  exact ⟨hreturned.1, List.reverse_eq_nil_iff.mp hreturned.2.1, hreturned.2.2⟩

end Machine

end JumpScript
