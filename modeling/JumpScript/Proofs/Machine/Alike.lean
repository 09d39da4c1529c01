import JumpScript.Proofs.Machine.Control
import JumpScript.Proofs.Machine.Refusal

/-!
# Machines that are alike

Native functions neither read nor write which functions a machine knows and what it has noted.  So
two machines that differ at most there go the same way: a relation that only looks behind this
curtain is kept by every function of the library, and by every step, as long as both machines know
the same functions under the names that the step attempts to call.

`Likeness` says what is asked of such a relation, `Attempts` which names a statement attempts to
call, and `Accord` that related machines know the same function under a name.  The second of two
machines may have a host of its own, so that what a function does can be compared as well.
-/

namespace JumpScript

variable {ν : Type}

namespace Machine

/-- A machine that knows no native functions and has noted nothing. -/
def bare (m : Machine ν) : Machine ν := { m with natives := [], journal := .keeping .disabled }

/-- A machine with the functions and the notes of another. -/
def backedBy (k m : Machine ν) : Machine ν := { k with natives := m.natives, journal := m.journal }

/-- What is done to a machine does not depend on what it knows and has noted, and leaves both as
they are. -/
def Plain {α : Type} (g : Machine ν → Machine ν × α) : Prop :=
  ∀ m, g m = ((g m.bare).1.backedBy m, (g m.bare).2)

/-- The same for what may fail. -/
def PlainUnlessFailing {ε α : Type} (g : Machine ν → Except ε (Machine ν × α)) : Prop :=
  ∀ m, g m = (g m.bare).map fun r => (r.1.backedBy m, r.2)

/-- A relation of machines that differ at most in what they know and have noted, and that stay
related when the rest of both changes alike and when both take the same note. -/
structure Likeness (R : Machine ν → Machine ν → Prop) : Prop where
  bare_eq {m m' : Machine ν} (h : R m m') : m.bare = m'.bare
  backed {m m' : Machine ν} (h : R m m') (k : Machine ν) : R (k.backedBy m) (k.backedBy m')
  noted {m m' : Machine ν} (h : R m m') (e : Event) : R (m.note e) (m'.note e)

/-- Related machines and the same result. -/
def Same {α : Type} (R : Machine ν → Machine ν → Prop) (x y : Machine ν × α) : Prop :=
  R x.1 y.1 ∧ x.2 = y.2

section Plain

variable {R : Machine ν → Machine ν → Prop} {m m' : Machine ν} {α : Type}

theorem Same.exists {x y : Machine ν × α} (h : Same R x y) :
    ∃ k k' a, x = (k, a) ∧ y = (k', a) ∧ R k k' :=
  ⟨x.1, y.1, x.2, rfl, Prod.ext rfl h.2.symm, h.1⟩

theorem Likeness.plain (hR : Likeness R) {g : Machine ν → Machine ν × α} (hg : Plain g)
    (h : R m m') : Same R (g m) (g m') := by
  rw [hg m, hg m', hR.bare_eq h]
  exact ⟨hR.backed h _, rfl⟩

/-- Parts that are changed to given values. -/
theorem Likeness.update (hR : Likeness R) {g : Machine ν → Machine ν}
    (hg : ∀ k, g k = (g k.bare).backedBy k) (h : R m m') : R (g m) (g m') := by
  rw [hg m, hg m', hR.bare_eq h]
  exact hR.backed h _

/-- What is read from a machine without looking at what it knows and has noted. -/
theorem Likeness.read (hR : Likeness R) {g : Machine ν → α} (hg : ∀ k, g k = g k.bare)
    (h : R m m') : g m = g m' := by
  rw [hg m, hg m', hR.bare_eq h]

end Plain

section PlainUnlessFailing

variable {ε α β : Type}

/-- A computation on what is not hidden, and then one that depends on its result. -/
theorem PlainUnlessFailing.bind {x : Machine ν → Except ε β}
    {g : β → Machine ν → Except ε (Machine ν × α)} (hx : ∀ m, x m = x m.bare)
    (hg : ∀ b, PlainUnlessFailing (g b)) : PlainUnlessFailing fun m => x m >>= (g · m) := by
  intro m
  change (x m >>= _) = (x m.bare >>= _).map _
  rw [hx m]
  cases x m.bare with
  | ok b => exact hg b m
  | error e => rfl

end PlainUnlessFailing

end Machine

open Machine

theorem Machine.jump_plain (label : Bytes) {α : Type} (a : α) :
    PlainUnlessFailing fun m : Machine ν => (m.jump label).map fun m => (m, a) := by
  intro m
  have htarget : m.bare.target label = m.target label := rfl
  simp only [Machine.jump, htarget]
  cases m.target label with
  | ok i => rfl
  | error e => rfl

theorem LoopFunction.plain_run (f : LoopFunction) (args : List Value) :
    PlainUnlessFailing fun m : Machine ν => f.run m args := by
  cases f with
  | iterate =>
      apply PlainUnlessFailing.bind fun _ => rfl
      rintro ⟨a, b, c⟩
      apply PlainUnlessFailing.bind fun _ => rfl
      intro name
      apply PlainUnlessFailing.bind fun _ => rfl
      intro first
      apply PlainUnlessFailing.bind fun _ => rfl
      intro limit m
      dsimp only
      split
      · rfl
      · rfl
  | next =>
      apply PlainUnlessFailing.bind fun _ => rfl
      intro a
      apply PlainUnlessFailing.bind fun _ => rfl
      intro name m
      have hlookup : ∀ other, m.bare.lookup other = m.lookup other := fun _ => rfl
      simp only [hlookup]
      split
      · split
        · rfl
        · split
          · rfl
          · rfl
      · rfl

theorem RuntimeFunction.plain_run (f : RuntimeFunction) (args : List Value) :
    PlainUnlessFailing fun m : Machine ν => f.run m args := by
  cases f with
  | gotoLabel =>
      apply PlainUnlessFailing.bind fun _ => rfl
      intro a
      apply PlainUnlessFailing.bind fun _ => rfl
      intro label
      exact Machine.jump_plain label Value.void
  | breakpoint =>
      apply PlainUnlessFailing.bind fun _ => rfl
      intro a m
      rfl

theorem StackFunction.plain_run (f : StackFunction) (args : List Value) :
    PlainUnlessFailing fun m : Machine ν => f.run m args := by
  cases f with
  | push =>
      apply PlainUnlessFailing.bind fun _ => rfl
      intro v m
      rfl
  | pop =>
      apply PlainUnlessFailing.bind fun _ => rfl
      intro a m
      have hoperands : m.bare.operands = m.operands := rfl
      simp only [Machine.pop, hoperands]
      cases m.operands with
      | nil => rfl
      | cons v vs => rfl
  | length =>
      apply PlainUnlessFailing.bind fun _ => rfl
      intro a m
      rfl

theorem EnvironmentFunction.plain_run (f : EnvironmentFunction) (args : List Value) :
    PlainUnlessFailing fun m : Machine ν => f.run m args := by
  cases f with
  | get =>
      apply PlainUnlessFailing.bind fun _ => rfl
      intro a
      apply PlainUnlessFailing.bind fun _ => rfl
      intro name m
      rfl
  | arguments =>
      apply PlainUnlessFailing.bind fun _ => rfl
      intro a m
      rfl

theorem StreamFunction.plain_run (f : StreamFunction) (args : List Value) :
    PlainUnlessFailing fun m : Machine ν => f.run m args := by
  -- every function on streams takes its arguments apart and then succeeds
  cases f
  all_goals
    apply PlainUnlessFailing.bind fun _ => rfl
    intro a m
    rfl

namespace Native

variable {R : Machine ν → Machine ν → Prop} {m m' : Machine ν} {caller caller' : Caller ν}

theorem plain_onMachine {g : Machine ν → Except Fault (Machine ν × Value)}
    (hg : PlainUnlessFailing g) : Plain fun m => onMachine m (g m) := by
  intro m
  simp only [hg m]
  cases g m.bare with
  | ok r => rfl
  | error e => rfl

theorem storeBack_backedBy (k m : Machine ν) (names : List Bytes) (args : List Value) :
    storeBack (k.backedBy m) names args = (storeBack k names args).backedBy m := by
  rcases names with _ | ⟨name, names⟩
  · rfl
  · rcases args with _ | ⟨v, args⟩
    · rfl
    · simp only [storeBack]
      split
      · rfl
      · rfl

theorem plain_runArray (f : ArrayFunction) (names : List Bytes) (args : List Value) :
    Plain fun m : Machine ν => runArray f names args m := by
  intro m
  have hheap : onHeap m (f.run args)
      = ((onHeap m.bare (f.run args)).1.backedBy m, (onHeap m.bare (f.run args)).2) := rfl
  simp only [runArray, hheap]
  rcases onHeap m.bare (f.run args) with ⟨k, e | v⟩
  · rfl
  · dsimp only
    cases f.inPlace with
    | false => rfl
    | true =>
        simp only [if_true, storeBack_backedBy]

theorem plain_runExit (args : List Value) : Plain fun m : Machine ν => runExit args m := by
  intro m
  simp only [runExit]
  cases exitStatus args with
  | ok code => rfl
  | error e => rfl

theorem plain_runDebug (args : List Value) : Plain fun m : Machine ν => runDebug args m := by
  intro m
  by_cases h : args.all m.heap.quotingEnds = true
  · have hbare : args.all m.bare.heap.quotingEnds = true := h
    simp only [runDebug_of_quotingEnds h, runDebug_of_quotingEnds hbare]
    rfl
  · have hbare : ¬ args.all m.bare.heap.quotingEnds = true := h
    simp only [runDebug_endless h, runDebug_endless hbare]
    rfl

/-- A function that calls no others. -/
theorem plain_run {f : Native} (hf : ∀ collect, f ≠ .map collect) (names : List Bytes)
    (args : List Value) : Plain fun m => run caller f names args m := by
  cases f with
  | array f => exact plain_runArray f names args
  | conversion f => exact fun _ => rfl
  | environment f => exact plain_onMachine (f.plain_run args)
  | file fence f => exact fun _ => rfl
  | fetch fence => exact fun _ => rfl
  | stream f => exact plain_onMachine (f.plain_run args)
  | loop f => exact plain_onMachine (f.plain_run args)
  | document f => exact fun _ => rfl
  | math f => exact fun _ => rfl
  | exit => exact plain_runExit args
  | runtime f => exact plain_onMachine (f.plain_run args)
  | stack f => exact plain_onMachine (f.plain_run args)
  | map collect => exact absurd rfl (hf collect)
  | string f => exact fun _ => rfl
  | assertEqual => exact fun _ => rfl
  | debug => exact plain_runDebug args

theorem same_callEach {target : CallTarget} (collect : Bool) {items : List Value}
    (hcall : ∀ v k k', R k k' → Same R (caller target [[]] [v] k) (caller' target [[]] [v] k'))
    (h : R m m') :
    Same R (callEach caller target collect items m) (callEach caller' target collect items m') := by
  induction items generalizing m m' with
  | nil => exact ⟨h, rfl⟩
  | cons v vs ih =>
      obtain ⟨k, k', r, hv, hv', hk⟩ := (hcall v m m' h).exists
      obtain ⟨l, l', rs, hrest, hrest', hl⟩ := (ih hk).exists
      rw [callEach, callEach, hv, hv']
      cases r with
      | error e => exact ⟨hk, rfl⟩
      | ok r =>
          simp only [hrest, hrest']
          split
          · exact ⟨hk, rfl⟩
          · cases rs with
            | error e => exact ⟨hl, rfl⟩
            | ok rs => exact ⟨hl, rfl⟩

theorem same_runMap (hR : Likeness R) (collect : Bool) (args : List Value)
    (hcall : ∀ target items, mapping m.heap args = .ok (target, items) → items ≠ [] →
      ∀ v k k', R k k' → Same R (caller target [[]] [v] k) (caller' target [[]] [v] k'))
    (h : R m m') : Same R (runMap caller collect args m) (runMap caller' collect args m') := by
  have hheap : m.heap = m'.heap := hR.read (fun _ => rfl) h
  rw [runMap, runMap, ← hheap]
  cases hmapping : mapping m.heap args with
  | error e => exact ⟨h, rfl⟩
  | ok p =>
      obtain ⟨target, items⟩ := p
      have heach : Same R (callEach caller target collect items m)
          (callEach caller' target collect items m') := by
        by_cases hitems : items = []
        · subst hitems
          exact ⟨h, rfl⟩
        · exact same_callEach collect (hcall target items hmapping hitems) h
      obtain ⟨k, k', rs, hk, hk', hrel⟩ := heach.exists
      simp only [hk, hk']
      cases rs with
      | error e => exact ⟨hrel, rfl⟩
      | ok results =>
          apply hR.plain (g := fun k : Machine ν =>
            if collect then
              ({ k with heap := (k.heap.alloc results.toArray).1 },
                (.ok (.array (k.heap.alloc results.toArray).2) : Except Failure Value))
            else (k, .ok .void)) _ hrel
          intro k
          cases collect with
          | true => rfl
          | false => rfl

/-- A function does the same to machines that are alike, if the functions that it calls do. -/
theorem same_run (hR : Likeness R) (f : Native) (names : List Bytes) (args : List Value)
    (hcall : ∀ collect, f = .map collect → ∀ target items,
      mapping m.heap args = .ok (target, items) → items ≠ [] →
        ∀ v k k', R k k' → Same R (caller target [[]] [v] k) (caller' target [[]] [v] k'))
    (h : R m m') : Same R (run caller f names args m) (run caller' f names args m') := by
  by_cases hf : ∃ collect, f = .map collect
  · obtain ⟨collect, rfl⟩ := hf
    exact same_runMap hR collect args (hcall collect rfl) h
  · have hcaller : run caller f names args m' = run caller' f names args m' := by
      cases f with
      | map collect => exact absurd ⟨collect, rfl⟩ hf
      | _ => rfl
    rw [← hcaller]
    exact hR.plain (plain_run (not_exists.mp hf) names args) h

end Native

namespace Machine

/-- The native functions that an action attempts to call: the one that it names, once its arguments
have values, and the one that it maps over an array with elements. -/
inductive Attempts (m : Machine Native) (a : Action) : CallTarget → Prop where
  | direct {target : CallTarget} {args : List Operand} {vs : List Value}
      (ha : a.nativeCall? = some (target, args)) (hvs : args.mapM m.resolve = .ok vs) :
      Attempts m a target
  | mapped {target inner : CallTarget} {args : List Operand} {vs items : List Value}
      {collect : Bool} (ha : a.nativeCall? = some (target, args))
      (hvs : args.mapM m.resolve = .ok vs)
      (hmap : m.natives.get? target.key = some (.map collect))
      (hmapping : Native.mapping m.heap vs = .ok (inner, items)) (hitems : items ≠ []) :
      Attempts m a inner

/-- Related machines know the same function under a name, if any, and a host lets it do what the
library does. -/
def Accord (R : Machine Native → Machine Native → Prop) (host : Host Native) (target : CallTarget) :
    Prop :=
  ∀ m m', R m m' → m.natives.get? target.key = m'.natives.get? target.key ∧
    ∀ f, m.natives.get? target.key = some f → ∀ caller, host.run caller f = Native.run caller f

section Steps

variable {R : Machine Native → Machine Native → Prop} {host : Host Native}
  {m m' : Machine Native}

theorem same_noteFailure (hR : Likeness R) (h : R m m') (key : Bytes) (e : Failure) :
    R (m.noteFailure key e) (m'.noteFailure key e) := by
  unfold noteFailure
  split
  · exact h
  · exact h
  · exact hR.noted h _

theorem same_dispatch (hR : Likeness R) {inner inner' : Caller Native} {target : CallTarget}
    {names : List Bytes} {args : List Value} (haccord : Accord R host target)
    (hrun : ∀ f, m.natives.get? target.key = some f →
      Same R (Native.run inner f names args m) (Native.run inner' f names args m'))
    (h : R m m') :
    Same R (dispatch Native.host inner target names args m)
      (dispatch host inner' target names args m') := by
  obtain ⟨hget, hhost⟩ := haccord m m' h
  rw [dispatch, dispatch, ← hget]
  cases hf : m.natives.get? target.key with
  | none => exact ⟨h, rfl⟩
  | some f =>
      obtain ⟨k, k', r, hk, hk', hrel⟩ := (hrun f hf).exists
      simp only [hhost f hf, hk', show Native.host.run inner f names args m = (k, r) from hk]
      cases r with
      | ok v => exact ⟨hrel, rfl⟩
      | error e => exact ⟨same_noteFailure hR hrel target.key e, rfl⟩

/-- A function that is called for one element calls no others: mapping takes three arguments. -/
theorem same_call_singleton (hR : Likeness R) {target : CallTarget} (haccord : Accord R host target)
    (v : Value) (h : R m m') :
    Same R (callWithin Native.host 0 target [[]] [v] m) (callWithin host 0 target [[]] [v] m') := by
  refine same_dispatch hR haccord (fun f _ => Native.same_run hR f _ _ ?_ h) h
  intro collect _ inner items hmapping
  rw [Native.mapping_singleton] at hmapping
  cases hmapping

theorem same_callSite (hR : Likeness R) {a : Action} {target : CallTarget} {args : List Operand}
    (ha : a.nativeCall? = some (target, args))
    (haccord : ∀ target, Attempts m a target → Accord R host target) (h : R m m') :
    Same R (m.callSite Native.host target args) (m'.callSite host target args) := by
  have hresolve : m.resolve = m'.resolve := hR.read (fun _ => funext (resolve_congr rfl)) h
  rw [callSite, callSite, ← hresolve]
  cases hvs : args.mapM m.resolve with
  | error e => exact ⟨h, rfl⟩
  | ok vs =>
      refine same_dispatch hR (haccord target (.direct ha hvs)) (fun f hf => ?_) h
      refine Native.same_run hR f _ vs ?_ h
      rintro collect rfl inner items hmapping hitems v k k' hk
      exact same_call_singleton hR (haccord inner (.mapped ha hvs hf hmapping hitems)) v hk

/-- An action that calls nothing and leaves the stack of calls alone. -/
theorem plain_changed {g : Machine Native → Except Fault (Machine Native)}
    (hg : ∀ m, g m = (g m.bare).map (·.backedBy m)) : Plain fun m => m.changed (g m) := by
  intro m
  simp only [hg m]
  cases g m.bare with
  | ok k => rfl
  | error e => rfl

theorem plain_exec (a : Action) (hcall : a.nativeCall? = none) (hlabel : ∀ l, a ≠ .callLabel l)
    (hret : a ≠ .ret) : Plain fun m => m.exec Native.host a := by
  have hresolve : ∀ (m : Machine Native) v, m.bare.resolve v = m.resolve v :=
    fun m => resolve_congr rfl
  have htarget : ∀ (m : Machine Native) label, m.bare.target label = m.target label :=
    fun _ _ => rfl
  cases a with
  | assign name v =>
      apply plain_changed
      intro m
      rw [hresolve]
      cases m.resolve v with
      | ok x => rfl
      | error e => rfl
  | compute name op l r =>
      apply plain_changed
      intro m
      rw [hresolve, hresolve]
      cases m.resolve l with
      | error e => rfl
      | ok x =>
          cases m.resolve r with
          | error e => rfl
          | ok y =>
              simp only [ok_bind]
              cases Machine.compute op x y with
              | ok z => rfl
              | error e => rfl
  | assignCall name target args => cases hcall
  | call target args => cases hcall
  | label name => exact fun _ => rfl
  | goto label =>
      apply plain_changed
      intro m
      simp only [jump, htarget]
      cases m.target label with
      | ok i => rfl
      | error e => rfl
  | gotoIf label op l r =>
      apply plain_changed
      intro m
      rw [hresolve, hresolve]
      cases m.resolve l with
      | error e => rfl
      | ok x =>
          cases m.resolve r with
          | error e => rfl
          | ok y =>
              simp only [ok_bind]
              cases holds op x y with
              | error e => rfl
              | ok taken =>
                  simp only [ok_bind, jump, htarget]
                  cases taken with
                  | false => rfl
                  | true =>
                      cases m.target label with
                      | ok i => rfl
                      | error e => rfl
  | callLabel label => exact absurd rfl (hlabel label)
  | ret => exact absurd rfl hret

theorem same_exec (hR : Likeness R) (a : Action)
    (haccord : ∀ target, Attempts m a target → Accord R host target) (h : R m m') :
    Same R (m.exec Native.host a) (m'.exec host a) := by
  cases a with
  | assignCall name target args =>
      obtain ⟨k, k', r, hk, hk', hrel⟩ := (same_callSite hR rfl haccord h).exists
      rw [exec, exec, hk, hk']
      cases r with
      | error e => exact ⟨hrel, rfl⟩
      | ok v =>
          dsimp only
          split
          · exact ⟨hrel, rfl⟩
          · exact ⟨hR.update (g := (·.assign name v)) (fun _ => rfl) hrel, rfl⟩
  | call target args =>
      obtain ⟨k, k', r, hk, hk', hrel⟩ := (same_callSite hR rfl haccord h).exists
      rw [exec, exec, hk, hk']
      cases r with
      | error e => exact ⟨hrel, rfl⟩
      | ok v => exact ⟨hrel, rfl⟩
  | callLabel label =>
      have htarget : m.target label = m'.target label :=
        hR.read (g := (·.target label)) (fun _ => rfl) h
      have hcalls : m.pc.toNat :: m.calls = m'.pc.toNat :: m'.calls :=
        hR.read (g := fun k => k.pc.toNat :: k.calls) (fun _ => rfl) h
      rw [exec, exec, ← htarget, ← hcalls]
      cases m.target label with
      | error e => exact ⟨h, rfl⟩
      | ok i =>
          refine ⟨hR.noted ?_ _, rfl⟩
          exact hR.update (g := fun k => { k with calls := m.pc.toNat :: m.calls, pc := (i : Int) })
            (fun _ => rfl) h
  | ret =>
      have hcalls : m.calls = m'.calls := hR.read (fun _ => rfl) h
      rw [exec, exec, ← hcalls]
      cases m.calls with
      | nil => exact ⟨h, rfl⟩
      | cons i calls =>
          refine ⟨hR.noted ?_ _, rfl⟩
          exact hR.update (g := fun k => { k with calls := calls, pc := (i : Int) })
            (fun _ => rfl) h
  | _ => exact hR.plain (plain_exec _ rfl (by simp) (by simp)) h

/-- The variables, the arrays and the known functions decide what is attempted. -/
theorem Attempts.congr {a : Action} {target : CallTarget} (h : Attempts m a target)
    (hbindings : m'.bindings = m.bindings) (hheap : m'.heap = m.heap)
    (hnatives : m'.natives = m.natives) : Attempts m' a target := by
  have hresolve : m.resolve = m'.resolve := funext fun v => (resolve_congr hbindings v).symm
  cases h with
  | direct ha hvs => exact .direct ha (hresolve ▸ hvs)
  | mapped ha hvs hmap hmapping hitems =>
      exact .mapped ha (hresolve ▸ hvs) (hnatives ▸ hmap) (hheap ▸ hmapping) hitems

/-- A step does the same to machines that are alike, if they know the same functions under the names
that it attempts to call. -/
theorem same_step (hR : Likeness R) (st : Statement)
    (haccord : ∀ target, Attempts m st.action target → Accord R host target) (h : R m m') :
    Same R (m.step Native.host st) (m'.step host st) := by
  have hcounted : R (m.counted st) (m'.counted st) := by
    have hpc : m.pc = m'.pc := hR.read (fun _ => rfl) h
    have hevent : Event.step m.pc st = .step m'.pc st := congrArg (Event.step · st) hpc
    rw [counted, counted, ← hevent]
    apply hR.noted
    exact hR.update (g := fun k => { k with steps := k.steps + 1 }) (fun _ => rfl) h
  have hattempts : ∀ target, Attempts (m.counted st) st.action target → Accord R host target :=
    fun target ht => haccord target (ht.congr rfl rfl rfl)
  have hexec := same_exec hR st.action hattempts hcounted
  obtain ⟨k, k', r, hk, hk', hrel⟩ := hexec.exists
  cases r with
  | ok u =>
      rw [step_of_exec_ok hk, step_of_exec_ok hk']
      exact ⟨hR.update (g := fun k => { k with pc := following k.pc }) (fun _ => rfl) hrel, rfl⟩
  | error e =>
      rw [step_of_exec_error hk, step_of_exec_error hk']
      exact ⟨hrel, rfl⟩

end Steps

end Machine

end JumpScript
