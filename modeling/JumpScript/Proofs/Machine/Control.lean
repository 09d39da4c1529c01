import JumpScript.Proofs.Library.Arguments
import JumpScript.Proofs.Machine.Frame

/-!
# What native functions do to control

Where a program goes is decided by the program counter and the variables.  `Effect` says once what a
native function can do to them.  Almost all functions leave both alone; those that work in place
store an array back, a loop keeps its variables, and two functions move the program counter: a
computed jump, and a loop that goes back to its body.  Whatever fails has left both alone.

Mapping is not among these functions, since what it does is what the mapped function does, many
times over.  Called with a single argument it fails at once, so a function that is mapped never is
itself mapping.
-/

namespace JumpScript

variable {ν : Type} {m m' : Machine ν} {args : List Value}

/-- Two machines with the same program counter and the same variables. -/
def Machine.SameControl (m m' : Machine ν) : Prop := m'.pc = m.pc ∧ m'.bindings = m.bindings

namespace LoopFunction

/-- The variables once a loop has begun with the statement at an index. -/
def begun (bindings : Table Value) (name : Bytes) (first limit : Int64) (index : Int) :
    Table Value :=
  ((bindings.insert name (.int first)).insert (lastName name) (.int (limit - 1))).insert
    (bodyName name) (.int (Int64.ofInt index))

/-- The variables once a loop is over. -/
def ended (bindings : Table Value) (name : Bytes) : Table Value :=
  ((bindings.erase name).erase (lastName name)).erase (bodyName name)

theorem begin_eq_ok {v : Value} (h : begin m args = .ok (m', v)) :
    ∃ name first limit, args = [.str name, .int first, .int limit] ∧ first < limit ∧
      m'.pc = m.pc ∧ m'.bindings = begun m.bindings name first limit m.pc ∧ v = .void := by
  rw [begin] at h
  obtain ⟨⟨a, b, c⟩, hargs, h⟩ := bind_eq_ok_iff.mp h
  obtain ⟨name, hname, h⟩ := bind_eq_ok_iff.mp h
  obtain ⟨first, hfirst, h⟩ := bind_eq_ok_iff.mp h
  obtain ⟨limit, hlimit, h⟩ := bind_eq_ok_iff.mp h
  rw [Arguments.three_eq_ok_iff] at hargs
  rw [Value.asString_eq_ok_iff] at hname
  rw [Value.asInt_eq_ok_iff] at hfirst hlimit
  rw [hname, hfirst, hlimit] at hargs
  split at h
  · cases h
  · rename_i hlt
    cases h
    exact ⟨name, first, limit, hargs, Int64.not_le.mp hlt, rfl, rfl, rfl⟩

theorem advance_eq_ok {v : Value} (h : advance m args = .ok (m', v)) :
    ∃ name current last, args = [.str name] ∧ m.lookup name = some (.int current) ∧
      m.lookup (lastName name) = some last ∧ v = .void ∧
      if last.word ≤ current then m'.pc = m.pc ∧ m'.bindings = ended m.bindings name
      else m'.pc = ((m.lookup (bodyName name)).getD .void).word.toInt ∧
        m'.bindings = m.bindings.insert name (.int (current + 1)) := by
  rw [advance] at h
  obtain ⟨a, hargs, h⟩ := bind_eq_ok_iff.mp h
  obtain ⟨name, hname, h⟩ := bind_eq_ok_iff.mp h
  rw [Arguments.one_eq_ok_iff] at hargs
  rw [Value.asString_eq_ok_iff] at hname
  rw [hname] at hargs
  split at h
  · rename_i current hcurrent
    split at h
    · cases h
    · rename_i last hlast
      split at h
      · rename_i hover
        cases h
        refine ⟨name, current, last, hargs, hcurrent, hlast, rfl, ?_⟩
        rw [if_pos hover]
        exact ⟨rfl, rfl⟩
      · rename_i hmore
        cases h
        refine ⟨name, current, last, hargs, hcurrent, hlast, rfl, ?_⟩
        rw [if_neg hmore]
        exact ⟨rfl, rfl⟩
  · cases h

end LoopFunction

theorem Machine.jump_eq_ok {label : Bytes} (h : m.jump label = .ok m') :
    ∃ i, m.labels.get? label = some i ∧ m' = { m with pc := (i : Int) } := by
  rw [jump, target] at h
  cases hlabel : m.labels.get? label with
  | none =>
      rw [hlabel] at h
      cases h
  | some i =>
      rw [hlabel] at h
      cases h
      exact ⟨i, rfl, rfl⟩

namespace Native

/-- What a native function has done to the program counter and the variables, with its result. -/
inductive Effect (f : Native) (names : List Bytes) (args : List Value) (m m' : Machine ν) :
    Except Failure Value → Prop where
  | kept {r : Except Failure Value} (hsame : m.SameControl m') : Effect f names args m m' r
  | stored {g : ArrayFunction} {name : Bytes} {others : List Bytes} {x : Value} {rest : List Value}
      {v : Value} (hf : f = .array g) (hnames : names = name :: others) (hname : name ≠ [])
      (hargs : args = x :: rest) (hpc : m'.pc = m.pc)
      (hbindings : m'.bindings = m.bindings.insert name x) : Effect f names args m m' (.ok v)
  | began {name : Bytes} {first limit : Int64} (hf : f = .loop .iterate)
      (hargs : args = [.str name, .int first, .int limit]) (hpc : m'.pc = m.pc)
      (hbindings : m'.bindings = LoopFunction.begun m.bindings name first limit m.pc) :
      Effect f names args m m' (.ok .void)
  | ended {name : Bytes} {last : Value} (hf : f = .loop .next) (hargs : args = [.str name])
      (hlast : m.lookup (LoopFunction.lastName name) = some last) (hpc : m'.pc = m.pc)
      (hbindings : m'.bindings = LoopFunction.ended m.bindings name) :
      Effect f names args m m' (.ok .void)
  | repeated {name : Bytes} {current : Int64} {last : Value} (hf : f = .loop .next)
      (hargs : args = [.str name]) (hcurrent : m.lookup name = some (.int current))
      (hlast : m.lookup (LoopFunction.lastName name) = some last)
      (hpc : m'.pc = ((m.lookup (LoopFunction.bodyName name)).getD .void).word.toInt)
      (hbindings : m'.bindings = m.bindings.insert name (.int (current + 1))) :
      Effect f names args m m' (.ok .void)
  | jumped {label : Bytes} {i : Nat} (hf : f = .runtime .gotoLabel) (hargs : args = [.str label])
      (hlabel : m.labels.get? label = some i) (hpc : m'.pc = i)
      (hbindings : m'.bindings = m.bindings) : Effect f names args m m' (.ok .void)

/-- Whether a native function can move the program counter. -/
def Steers (f : Native) : Prop := f = .runtime .gotoLabel ∨ f = .loop .next

section Effects

variable {f : Native} {names : List Bytes} {r : Except Failure Value}

/-- What fails has left the program counter and the variables alone. -/
theorem Effect.sameControl_of_error {e : Failure} (h : Effect f names args m m' (.error e)) :
    m.SameControl m' := by
  cases h with
  | kept hsame => exact hsame

/-- A function that has moved the program counter is one that can, and has no result. -/
theorem Effect.pc_eq_or_steers (h : Effect f names args m m' r) :
    m'.pc = m.pc ∨ f.Steers ∧ r = .ok .void := by
  cases h with
  | kept hsame => exact Or.inl hsame.1
  | stored hf hnames hname hargs hpc hbindings => exact Or.inl hpc
  | began hf hargs hpc hbindings => exact Or.inl hpc
  | ended hf hargs hlast hpc hbindings => exact Or.inl hpc
  | repeated hf hargs hcurrent hlast hpc hbindings => exact Or.inr ⟨Or.inr hf, rfl⟩
  | jumped hf hargs hlabel hpc hbindings => exact Or.inr ⟨Or.inl hf, rfl⟩

/-- What is noted afterwards makes no difference. -/
theorem Effect.of_sameControl {m'' : Machine ν} (h : Effect f names args m m' r)
    (hsame : m'.SameControl m'') : Effect f names args m m'' r := by
  obtain ⟨hpc', hbindings'⟩ := hsame
  cases h with
  | kept hsame => exact .kept ⟨hpc'.trans hsame.1, hbindings'.trans hsame.2⟩
  | stored hf hnames hname hargs hpc hbindings =>
      exact .stored hf hnames hname hargs (hpc'.trans hpc) (hbindings'.trans hbindings)
  | began hf hargs hpc hbindings =>
      exact .began hf hargs (hpc'.trans hpc) (hbindings'.trans hbindings)
  | ended hf hargs hlast hpc hbindings =>
      exact .ended hf hargs hlast (hpc'.trans hpc) (hbindings'.trans hbindings)
  | repeated hf hargs hcurrent hlast hpc hbindings =>
      exact .repeated hf hargs hcurrent hlast (hpc'.trans hpc) (hbindings'.trans hbindings)
  | jumped hf hargs hlabel hpc hbindings =>
      exact .jumped hf hargs hlabel (hpc'.trans hpc) (hbindings'.trans hbindings)

theorem effect_onMachine {x : Except Fault (Machine ν × Value)}
    (h : Ensures x fun y => Effect f names args m y.1 (.ok y.2)) :
    Effect f names args m (onMachine m x).1 (onMachine m x).2 := by
  cases x with
  | ok y => exact h y rfl
  | error e => exact .kept ⟨rfl, rfl⟩

theorem effect_runArray (g : ArrayFunction) (names : List Bytes) (args : List Value)
    (m : Machine ν) :
    Effect (.array g) names args m (runArray g names args m).1 (runArray g names args m).2 := by
  have hheap : m.SameControl (onHeap m (g.run args)).1 := ⟨rfl, rfl⟩
  rw [runArray]
  split
  · rename_i m' v heq
    rw [heq] at hheap
    split
    · rw [storeBack.eq_def]
      split
      · rename_i name others x rest
        split
        · exact .kept hheap
        · rename_i hname
          refine .stored rfl rfl ?_ rfl hheap.1 ?_
          · simpa using hname
          · exact congrArg (·.insert name x) hheap.2
      · exact .kept hheap
    · exact .kept hheap
  · rename_i m' e heq
    rw [heq] at hheap
    exact .kept hheap

theorem effect_loop (g : LoopFunction) :
    Ensures (g.run m args) fun y => Effect (.loop g) names args m y.1 (.ok y.2) := by
  rintro ⟨m', v⟩ h
  cases g with
  | iterate =>
      obtain ⟨name, first, limit, hargs, -, hpc, hbindings, rfl⟩ := LoopFunction.begin_eq_ok h
      exact .began rfl hargs hpc hbindings
  | next =>
      obtain ⟨name, current, last, hargs, hcurrent, hlast, rfl, hmoved⟩ :=
        LoopFunction.advance_eq_ok h
      split at hmoved
      · exact .ended rfl hargs hlast hmoved.1 hmoved.2
      · exact .repeated rfl hargs hcurrent hlast hmoved.1 hmoved.2

theorem effect_runtime (g : RuntimeFunction) :
    Ensures (g.run m args) fun y => Effect (.runtime g) names args m y.1 (.ok y.2) := by
  rintro ⟨m', v⟩ h
  cases g with
  | gotoLabel =>
      obtain ⟨a, hargs, h⟩ := bind_eq_ok_iff.mp h
      obtain ⟨label, hlabel, h⟩ := bind_eq_ok_iff.mp h
      obtain ⟨m'', hjump, h⟩ := bind_eq_ok_iff.mp h
      rw [Arguments.one_eq_ok_iff] at hargs
      rw [Value.asString_eq_ok_iff] at hlabel
      obtain ⟨i, hi, rfl⟩ := Machine.jump_eq_ok hjump
      cases h
      exact .jumped rfl (hlabel ▸ hargs) hi rfl rfl
  | breakpoint =>
      obtain ⟨a, hargs, h⟩ := bind_eq_ok_iff.mp h
      cases h
      exact .kept ⟨rfl, rfl⟩

theorem effect_stack (g : StackFunction) :
    Ensures (g.run m args) fun y => Effect (.stack g) names args m y.1 (.ok y.2) := by
  cases g with
  | push =>
      apply Ensures.bind
      intro v
      exact Ensures.ok (.kept ⟨rfl, rfl⟩)
  | pop =>
      apply Ensures.bind
      intro a
      rw [Machine.pop]
      split
      · exact Ensures.error _
      · exact Ensures.ok (.kept ⟨rfl, rfl⟩)
  | length =>
      apply Ensures.bind
      intro a
      exact Ensures.ok (.kept ⟨rfl, rfl⟩)

theorem effect_environment (g : EnvironmentFunction) :
    Ensures (g.run m args) fun y => Effect (.environment g) names args m y.1 (.ok y.2) := by
  cases g with
  | get =>
      apply Ensures.bind
      intro a
      apply Ensures.bind
      intro name
      exact Ensures.ok (.kept ⟨rfl, rfl⟩)
  | arguments =>
      apply Ensures.bind
      intro a
      exact Ensures.ok (.kept ⟨rfl, rfl⟩)

theorem effect_stream (g : StreamFunction) :
    Ensures (g.run m args) fun y => Effect (.stream g) names args m y.1 (.ok y.2) := by
  cases g
  all_goals
    apply Ensures.bind
    intro a
    exact Ensures.ok (.kept ⟨rfl, rfl⟩)

theorem sameControl_runExit (args : List Value) (m : Machine ν) :
    m.SameControl (runExit args m).1 := by
  rw [runExit]
  split
  · exact ⟨rfl, rfl⟩
  · exact ⟨rfl, rfl⟩

theorem sameControl_runDebug (args : List Value) (m : Machine ν) :
    m.SameControl (runDebug args m).1 := by
  obtain ⟨s, hrun⟩ | hrun := runDebug_cases args m
  · rw [hrun]
    exact ⟨rfl, rfl⟩
  · rw [hrun]
    exact ⟨rfl, rfl⟩

theorem runMap_of_mapping_error {caller : Caller ν} (collect : Bool) {e : Fault}
    (h : mapping m.heap args = .error e) :
    runMap caller collect args m = (m, .error (.fault e)) := by
  rw [runMap, h]

theorem mapping_singleton (σ : Heap) (v : Value) :
    mapping σ [v] = .error (.argumentCount (.exactly 3) 1) := rfl

/-- Every function has one of the effects, apart from mapping with arguments that it accepts. -/
theorem effect_run (caller : Caller ν) (f : Native) (names : List Bytes) (args : List Value)
    (m : Machine ν)
    (hf : ∀ collect, f = .map collect → ∃ e, mapping m.heap args = .error e) :
    Effect f names args m (run caller f names args m).1 (run caller f names args m).2 := by
  cases f with
  | array g => exact effect_runArray g names args m
  | conversion g => exact .kept ⟨rfl, rfl⟩
  | environment g => exact effect_onMachine (effect_environment g)
  | file fence g => exact .kept ⟨rfl, rfl⟩
  | fetch fence => exact .kept ⟨rfl, rfl⟩
  | stream g => exact effect_onMachine (effect_stream g)
  | loop g => exact effect_onMachine (effect_loop g)
  | document g => exact .kept ⟨rfl, rfl⟩
  | math g => exact .kept ⟨rfl, rfl⟩
  | exit => exact .kept (sameControl_runExit args m)
  | runtime g => exact effect_onMachine (effect_runtime g)
  | stack g => exact effect_onMachine (effect_stack g)
  | map collect =>
      obtain ⟨e, he⟩ := hf collect rfl
      rw [run, runMap_of_mapping_error collect he]
      exact .kept ⟨rfl, rfl⟩
  | string g => exact .kept ⟨rfl, rfl⟩
  | assertEqual => exact .kept ⟨rfl, rfl⟩
  | debug => exact .kept (sameControl_runDebug args m)

end Effects

end Native

namespace Machine

open Native

variable {m : Machine Native} {f : Native} {target : CallTarget} {names : List Bytes}
  {args : List Value}

theorem sameControl_noteFailure (m : Machine ν) (key : Bytes) (e : Failure) :
    m.SameControl (m.noteFailure key e) := by
  rw [noteFailure_eq]
  exact ⟨rfl, rfl⟩

theorem dispatch_of_missing {host : Host ν} {m : Machine ν} (inner : Caller ν)
    (hf : m.natives.get? target.key = none) :
    dispatch host inner target names args m
      = (m, .error (.fault (.functionNotFound target.key))) := by
  rw [dispatch, hf]

/-- A call runs the function that it finds, and may take note of its failure. -/
theorem run_of_dispatch {host : Host ν} {m m' : Machine ν} {f : ν} {caller : Caller ν}
    {r : Except Failure Value} (hf : m.natives.get? target.key = some f)
    (h : dispatch host caller target names args m = (m', r)) :
    ∃ m'', host.run caller f names args m = (m'', r) ∧ m''.SameControl m' := by
  simp only [dispatch, hf] at h
  split at h
  · rename_i heq
    cases h
    exact ⟨_, heq, rfl, rfl⟩
  · rename_i m₁ e heq
    cases h
    exact ⟨m₁, heq, sameControl_noteFailure m₁ target.key e⟩

/-- A call has the effect of the function that it finds. -/
theorem effect_dispatch {caller : Caller Native} {m' : Machine Native} {r : Except Failure Value}
    (hf : m.natives.get? target.key = some f)
    (hmap : ∀ collect, f = .map collect → ∃ e, mapping m.heap args = .error e)
    (h : dispatch Native.host caller target names args m = (m', r)) :
    Effect f names args m m' r := by
  obtain ⟨m'', hrun, hsame⟩ := run_of_dispatch hf h
  have heffect : Effect f names args m (Native.host.run caller f names args m).1
      (Native.host.run caller f names args m).2 := effect_run caller f names args m hmap
  rw [hrun] at heffect
  exact heffect.of_sameControl hsame

theorem exists_callWithin_eq_dispatch (host : Host ν) (depth : Nat) :
    ∃ inner, callWithin host depth = dispatch host inner := by
  cases depth with
  | zero => exact ⟨_, rfl⟩
  | succ depth => exact ⟨_, rfl⟩

/-- A call with a single argument, such as mapping makes, does nothing or has the effect of the
function that it finds. -/
theorem effect_callWithin_singleton {depth : Nat} {v : Value} {m' : Machine Native}
    {r : Except Failure Value} (h : callWithin Native.host depth target [[]] [v] m = (m', r)) :
    (m' = m ∧ ∃ e, r = .error e) ∨
      ∃ f, m.natives.get? target.key = some f ∧ Effect f [[]] [v] m m' r := by
  obtain ⟨inner, hinner⟩ := exists_callWithin_eq_dispatch Native.host depth
  rw [hinner] at h
  cases hf : m.natives.get? target.key with
  | none =>
      rw [dispatch_of_missing inner hf] at h
      cases h
      exact Or.inl ⟨rfl, _, rfl⟩
  | some f => exact Or.inr ⟨f, rfl, effect_dispatch hf (fun _ _ => ⟨_, mapping_singleton _ v⟩) h⟩

/-- What mapping has done with arguments that it accepts, with its result. -/
inductive Mapped (collect : Bool) (args : List Value) (m m' : Machine Native) :
    Except Failure Value → Prop where
  | failed {inner : CallTarget} {items : List Value} {m'' : Machine Native} {e : Failure}
      (hmapping : mapping m.heap args = .ok (inner, items))
      (heach : callEach (callWithin Native.host 0) inner collect items m = (m'', .error e))
      (hsame : m''.SameControl m') : Mapped collect args m m' (.error e)
  | collected {inner : CallTarget} {items results : List Value} {m'' : Machine Native} {h : Handle}
      (hmapping : mapping m.heap args = .ok (inner, items))
      (heach : callEach (callWithin Native.host 0) inner collect items m = (m'', .ok results))
      (hsame : m''.SameControl m') : Mapped collect args m m' (.ok (.array h))
  | dropped {inner : CallTarget} {items results : List Value} {m'' : Machine Native}
      (hcollect : collect = false) (hmapping : mapping m.heap args = .ok (inner, items))
      (heach : callEach (callWithin Native.host 0) inner collect items m = (m'', .ok results))
      (hsame : m''.SameControl m') : Mapped collect args m m' (.ok .void)

theorem mapped_runMap {collect : Bool} {m' : Machine Native} {r : Except Failure Value}
    {site : CallTarget × List Value} (hmapping : mapping m.heap args = .ok site)
    (h : runMap (callWithin Native.host 0) collect args m = (m', r)) :
    Mapped collect args m m' r := by
  simp only [runMap, hmapping] at h
  split at h
  · rename_i heach
    cases h
    exact .failed hmapping heach ⟨rfl, rfl⟩
  · rename_i heach
    cases collect with
    | true =>
        cases h
        exact .collected hmapping heach ⟨rfl, rfl⟩
    | false =>
        cases h
        exact .dropped rfl hmapping heach ⟨rfl, rfl⟩

theorem Mapped.of_sameControl {collect : Bool} {m' m'' : Machine Native}
    {r : Except Failure Value} (h : Mapped collect args m m' r) (hsame : m'.SameControl m'') :
    Mapped collect args m m'' r := by
  have htrans : ∀ {k : Machine Native}, k.SameControl m' → k.SameControl m'' :=
    fun hk => ⟨hsame.1.trans hk.1, hsame.2.trans hk.2⟩
  cases h with
  | failed hmapping heach hk => exact .failed hmapping heach (htrans hk)
  | collected hmapping heach hk => exact .collected hmapping heach (htrans hk)
  | dropped hcollect hmapping heach hk => exact .dropped hcollect hmapping heach (htrans hk)

/-- A call of a statement has the effect of the function that it finds, or maps. -/
theorem effect_or_mapped_of_call {m' : Machine Native} {r : Except Failure Value}
    (hf : m.natives.get? target.key = some f)
    (h : call Native.host target names args m = (m', r)) :
    Effect f names args m m' r ∨ ∃ collect, f = .map collect ∧ Mapped collect args m m' r := by
  by_cases hmap : ∃ collect site, f = .map collect ∧ mapping m.heap args = .ok site
  · obtain ⟨collect, site, rfl, hmapping⟩ := hmap
    obtain ⟨m'', hrun, hsame⟩ := run_of_dispatch hf h
    exact Or.inr ⟨collect, rfl, (mapped_runMap hmapping hrun).of_sameControl hsame⟩
  · refine Or.inl (effect_dispatch hf ?_ h)
    rintro collect rfl
    cases hmapping : mapping m.heap args with
    | ok site => exact absurd ⟨collect, site, rfl, hmapping⟩ hmap
    | error e => exact ⟨e, rfl⟩

end Machine

end JumpScript
