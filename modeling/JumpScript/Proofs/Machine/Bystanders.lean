import JumpScript.Proofs.Machine.Landing
import JumpScript.Proofs.Machine.Signature

/-!
# Statements that leave a loop alone

A loop has three variables: its own and the two that it keeps.  A statement touches a variable if it
assigns it, or if it calls or maps a function of a loop that has the variable.  Whatever else a
statement does, working in place on arrays included, it leaves a variable that it does not touch as
it was, and so does a run of such statements.  Loops over different identifiers have no variable in
common.
-/

namespace JumpScript

namespace LoopFunction

variable {name other x : Bytes} {bindings : Table Value} {first limit : Int64} {index : Int}

theorem clashes_of_isName (h : Scan.isName name = true) : clashes name = false := by
  rw [clashes, hidden_of_isName h, Bool.false_or]
  cases hname : (text "end:").isPrefixOf name with
  | false => rfl
  | true =>
      -- no name has a colon in it
      obtain ⟨rest, rfl⟩ := List.isPrefixOf_iff_prefix.mp hname
      have hend : text "end:" ++ rest = 0x65 :: 0x6E :: 0x64 :: 0x3A :: rest := rfl
      rw [hend, Scan.isName, Bool.and_eq_true, Bool.and_eq_true, List.all_eq_true] at h
      exact absurd (h.1.2 0x3A (by simp)) (by decide)

/-- The variables of a loop: its own and those that it keeps. -/
def variablesOf (name : Bytes) : List Bytes := [name, lastName name, bodyName name]

theorem mem_variablesOf_iff :
    x ∈ variablesOf name ↔ x = name ∨ x = lastName name ∨ x = bodyName name := by
  simp [variablesOf]

/-- Loops over different identifiers have no variable in common. -/
theorem disjoint_variablesOf (hname : Scan.isName name = true) (hother : Scan.isName other = true)
    (hne : other ≠ name) : List.Disjoint (variablesOf other) (variablesOf name) := by
  have hhidden := hidden_of_isName hname
  have hhidden' := hidden_of_isName hother
  intro x hx hx'
  rw [mem_variablesOf_iff] at hx hx'
  rcases hx with rfl | rfl | rfl
  · rcases hx' with h | h | h
    · exact hne h
    · exact ne_lastName hhidden' name h
    · exact ne_bodyName hhidden' name h
  · rcases hx' with h | h | h
    · exact ne_lastName hhidden other h.symm
    · exact hne (lastName_inj.mp h)
    · exact bodyName_ne_lastName (clashes_of_isName hname) other h.symm
  · rcases hx' with h | h | h
    · exact ne_bodyName hhidden other h.symm
    · exact bodyName_ne_lastName (clashes_of_isName hother) name h
    · exact hne (bodyName_inj.mp h)

theorem get?_begun_of_notMem (hx : x ∉ variablesOf name) :
    (begun bindings name first limit index).get? x = bindings.get? x := by
  rw [mem_variablesOf_iff, not_or, not_or] at hx
  rw [begun, Table.get?_insert, if_neg (Ne.symm hx.2.2), Table.get?_insert,
    if_neg (Ne.symm hx.2.1), Table.get?_insert, if_neg (Ne.symm hx.1)]

theorem get?_ended_of_notMem (hx : x ∉ variablesOf name) :
    (ended bindings name).get? x = bindings.get? x := by
  rw [mem_variablesOf_iff, not_or, not_or] at hx
  rw [ended, Table.get?_erase, if_neg (Ne.symm hx.2.2), Table.get?_erase,
    if_neg (Ne.symm hx.2.1), Table.get?_erase, if_neg (Ne.symm hx.1)]

theorem get?_ended_of_mem (hx : x ∈ variablesOf name) : (ended bindings name).get? x = none := by
  simp only [ended, Table.get?_erase]
  rcases mem_variablesOf_iff.mp hx with rfl | rfl | rfl <;> simp

end LoopFunction

namespace Machine

open Native LoopFunction

variable {σ : Type} {m m' : Machine Native} {a : Action} {target : CallTarget} {name x : Bytes}

/-- What an action can do to a variable other than by storing an array back: it assigns the
variable, or the variable is one of a loop that it begins, continues or ends, by a call or by
mapping. -/
inductive Touches (m : Machine Native) (a : Action) (x : Bytes) : Prop where
  | assigned (hx : a.assigned? = some x)
  | called {target : CallTarget} {args : List Operand} {loop : Bytes} {rest : List Value}
      {f : LoopFunction} (ha : a.nativeCall? = some (target, args))
      (hvs : args.mapM m.resolve = .ok (.str loop :: rest))
      (hf : m.natives.get? target.key = some (.loop f)) (hx : x ∈ variablesOf loop)
  | mapped {target inner : CallTarget} {args : List Operand} {vs items : List Value}
      {collect : Bool} {loop : Bytes} {f : LoopFunction}
      (ha : a.nativeCall? = some (target, args)) (hvs : args.mapM m.resolve = .ok vs)
      (hmap : m.natives.get? target.key = some (.map collect))
      (hmapping : mapping m.heap vs = .ok (inner, items))
      (hf : m.natives.get? inner.key = some (.loop f)) (hitem : .str loop ∈ items)
      (hx : x ∈ variablesOf loop)

/-- A machine is about to execute a statement that touches no variable of a loop. -/
def Spares (name : Bytes) (m : Machine Native) : Prop :=
  ∀ st, m.current? = some st → ∀ x ∈ variablesOf name, ¬ m.Touches st.action x

/-- A function leaves a variable as it was, unless it is that of a loop that has the variable.
What is stored back is what the variable had before. -/
theorem lookup_of_effect {f : Native} {names : List Bytes} {args : List Value}
    {r : Except Failure Value} (heffect : Effect f names args m m' r)
    (hgiven : m.Given names args)
    (hloop : ∀ g loop rest, f = .loop g → args = .str loop :: rest → x ∉ variablesOf loop) :
    m'.lookup x = m.lookup x := by
  cases heffect with
  | kept hsame => exact congrArg (Table.get? · x) hsame.2
  | @stored g y others v rest _ hf hlist hy hargs hpc hbindings =>
      rw [hlist, hargs] at hgiven
      have hself : m.bindings.get? y = some v := hgiven.lookup hy
      rw [lookup, hbindings, Table.insert_eq_self hself]
      rfl
  | began hf hargs hpc hbindings =>
      rw [lookup, hbindings]
      exact get?_begun_of_notMem (hloop _ _ _ hf hargs)
  | ended hf hargs hlast hpc hbindings =>
      rw [lookup, hbindings]
      exact get?_ended_of_notMem (hloop _ _ _ hf hargs)
  | repeated hf hargs hcurrent hlast hpc hbindings =>
      have hx := hloop _ _ _ hf hargs
      rw [mem_variablesOf_iff, not_or] at hx
      rw [lookup, hbindings, Table.get?_insert, if_neg (Ne.symm hx.1)]
      rfl
  | jumped hf hargs hlabel hpc hbindings => exact congrArg (Table.get? · x) hbindings

/-- Mapping leaves a variable as it was, unless it is that of a loop among the elements. -/
theorem lookup_callEach {inner : CallTarget} {collect : Bool} {items : List Value}
    (hloop : ∀ g loop, m.natives.get? inner.key = some (.loop g) → .str loop ∈ items →
      x ∉ variablesOf loop) :
    (callEach (callWithin Native.host 0) inner collect items m).1.lookup x = m.lookup x := by
  have heach := callEach_preserves (m := m)
    (P := fun k => k.natives = m.natives ∧ k.lookup x = m.lookup x)
    (callWithin Native.host 0) inner collect items ?_ ⟨rfl, rfl⟩
  · exact heach.2
  · rintro v hv k ⟨hnatives, hx⟩
    have hframe := framed_callWithin framed_host 0 inner [[]] [v] k
    refine ⟨(congrArg Frame.natives hframe).trans hnatives, ?_⟩
    rcases effect_callWithin_singleton (Prod.eta _).symm with ⟨hsame, -⟩ | ⟨f, hf, heffect⟩
    · rw [hsame]
      exact hx
    · refine (lookup_of_effect heffect (Or.inr ⟨rfl, v, rfl⟩) ?_).trans hx
      rintro g loop rest rfl ⟨⟩
      exact hloop g loop (hnatives ▸ hf) hv

theorem lookup_of_call {args : List Operand} {vs : List Value} {r : Except Failure Value}
    (ha : a.nativeCall? = some (target, args)) (hvs : args.mapM m.resolve = .ok vs)
    (hcall : call Native.host target (args.map argumentName) vs m = (m', r))
    (hx : ¬ m.Touches a x) : m'.lookup x = m.lookup x := by
  cases hf : m.natives.get? target.key with
  | none =>
      rw [call, callWithin, dispatch_of_missing _ hf] at hcall
      cases hcall
      rfl
  | some f =>
      rcases effect_or_mapped_of_call hf hcall with heffect | ⟨collect, rfl, hmapped⟩
      · refine lookup_of_effect heffect (Or.inl ⟨args, rfl, hvs⟩) ?_
        rintro g loop rest rfl rfl hmem
        exact hx (.called ha hvs hf hmem)
      · have heach : ∀ {inner : CallTarget} {items : List Value},
            mapping m.heap vs = .ok (inner, items) →
            (callEach (callWithin Native.host 0) inner collect items m).1.lookup x
              = m.lookup x := by
          intro inner items hmapping
          apply lookup_callEach
          intro g loop hg hitem hmem
          exact hx (.mapped ha hvs hf hmapping hg hitem hmem)
        have hbindings : ∀ {m'' : Machine Native}, m''.SameControl m' →
            m'.lookup x = m''.lookup x := fun hsame => congrArg (Table.get? · x) hsame.2
        cases hmapped with
        | failed hmapping hcalls hsame =>
            rw [hbindings hsame, ← heach hmapping, hcalls]
        | collected hmapping hcalls hsame =>
            rw [hbindings hsame, ← heach hmapping, hcalls]
        | dropped hcollect hmapping hcalls hsame =>
            rw [hbindings hsame, ← heach hmapping, hcalls]

theorem lookup_assign_of_ne {v : Value} (h : name ≠ x) :
    (m.assign name v).lookup x = m.lookup x := by
  rw [lookup, assign, Table.get?_insert, if_neg h]
  rfl

/-- An action that succeeds leaves a variable that it does not touch as it was. -/
theorem lookup_of_exec (h : m.exec Native.host a = (m', .ok ())) (hx : ¬ m.Touches a x) :
    m'.lookup x = m.lookup x := by
  have hne : ∀ y, a.assigned? = some y → y ≠ x := by
    rintro y hy rfl
    exact hx (.assigned hy)
  cases hsite : a.nativeCall? with
  | some site =>
      obtain ⟨target, args⟩ := site
      obtain ⟨vs, m'', v, hvs, hcall, rfl | ⟨y, rfl, -, rfl⟩⟩ := call_of_exec_ok hsite h
      · exact lookup_of_call hsite hvs hcall hx
      · rw [lookup_assign_of_ne (hne y rfl)]
        exact lookup_of_call hsite hvs hcall hx
  | none =>
      cases done_of_exec hsite h with
      | @assigned y v hy hm' =>
          rw [hm']
          exact lookup_assign_of_ne (hne y hy)
      | jumped hlabel hpc hbindings => exact congrArg (Table.get? · x) hbindings
      | returned hcall hpc hbindings => exact congrArg (Table.get? · x) hbindings
      | stayed hsame => exact congrArg (Table.get? · x) hsame.2

theorem Touches.of_counted {st : Statement} (h : (m.counted st).Touches a x) : m.Touches a x := by
  have hresolve : (m.counted st).resolve = m.resolve := funext (resolve_congr rfl)
  cases h with
  | assigned hx => exact .assigned hx
  | called ha hvs hf hx => exact .called ha (hresolve ▸ hvs) hf hx
  | mapped ha hvs hmap hmapping hf hitem hx =>
      exact .mapped ha (hresolve ▸ hvs) hmap hmapping hf hitem hx

variable {hook : Option (Hook σ Native)} {gas : Int}

theorem lookup_of_turn (hhook : ∀ h ∈ hook, Console.IsConsole h) {st : Statement} {s s' : σ}
    (hturn : m.turn Native.host hook gas st s = ((m', s'), .ok ()))
    (hx : ¬ m.Touches st.action x) : m'.lookup x = m.lookup x := by
  obtain ⟨-, m₁, hstep, hpause⟩ := step_of_turn hturn
  obtain ⟨m₂, hexec, rfl⟩ := step_eq_ok_iff.mp hstep
  have hbindings := congrArg Machine.bindings (pause_eq hhook { m₂ with pc := following m₂.pc } s)
  rw [hpause] at hbindings
  have hstepped : m₂.lookup x = (m.counted st).lookup x :=
    lookup_of_exec hexec fun htouches => hx htouches.of_counted
  rw [lookup, hbindings]
  exact hstepped

/-- A run of statements that spare a loop leaves all variables of the loop as they were. -/
theorem lookup_turns (hhook : ∀ h ∈ hook, Console.IsConsole h) {n : Nat} {s s' : σ}
    (hspares : ∀ k ∈ history Native.host hook gas n m s, k.Spares name)
    (h : m.turns Native.host hook gas n s = ((m', s'), .outOfFuel)) (hx : x ∈ variablesOf name) :
    m'.lookup x = m.lookup x := by
  refine turns_preserve_along (P := fun k => k.lookup x = m.lookup x) ?_ rfl hspares h
  intro k k' st s s' hk hsparing hcurrent hturn
  exact (lookup_of_turn hhook hturn (hsparing st hcurrent x hx)).trans hk

end Machine

end JumpScript
