import JumpScript.Library.Registry
import JumpScript.Proofs.Machine.Continuation
import JumpScript.Proofs.Machine.Mapping
import JumpScript.Proofs.Machine.Refusal

/-!
# Where a failed step leaves the program counter

Nothing that a native function has done is undone when the step fails after it.  Two functions move
the program counter, and a step can fail after one of them has succeeded: it has no result to
assign, and mapping may fail at a later element.  `Steered` describes these two ways.  In every
other case a step that fails leaves the program counter where it was.
-/

namespace JumpScript

namespace Machine

open Native

variable {m m' : Machine Native} {a : Action} {target inner : CallTarget} {e : Failure}

/-- How an action that fails moves the program counter, and where to.  A function that steers has
succeeded and has no result to assign; or it is mapped and has succeeded on elements up to one on
which it fails, up to one that it has no wanted result for, or on all of them, while mapping has no
result to assign. -/
inductive Steered (m : Machine Native) : Action → Int → Prop where
  | assigned {name : Bytes} {target : CallTarget} {args : List Operand} {vs : List Value}
      {f : Native} {m' : Machine Native} (hvs : args.mapM m.resolve = .ok vs)
      (hf : m.natives.get? target.key = some f) (hsteers : f.Steers)
      (hcall : call Native.host target (args.map argumentName) vs m = (m', .ok .void)) :
      Steered m (.assignCall name target args) m'.pc
  | mapped {a : Action} {target inner : CallTarget} {args : List Operand} {vs : List Value}
      {first rest results : List Value} {v : Value} {f : Native} {k k' : Machine Native}
      {e : Failure} (ha : a.nativeCall? = some (target, args)) (hvs : args.mapM m.resolve = .ok vs)
      (hmap : m.natives.get? target.key = some (.map false))
      (hmapping : mapping m.heap vs = .ok (inner, first ++ v :: rest))
      (hf : m.natives.get? inner.key = some f) (hsteers : f.Steers) (hfirst : first ≠ [])
      (hcalls : InTurn (callOn inner) first m k results)
      (hlast : callOn inner v k = (k', .error e)) : Steered m a k.pc
  | collected {a : Action} {target inner : CallTarget} {args : List Operand} {vs : List Value}
      {first rest results : List Value} {v : Value} {f : Native} {j k : Machine Native}
      (ha : a.nativeCall? = some (target, args)) (hvs : args.mapM m.resolve = .ok vs)
      (hmap : m.natives.get? target.key = some (.map true))
      (hmapping : mapping m.heap vs = .ok (inner, first ++ v :: rest))
      (hf : m.natives.get? inner.key = some f) (hsteers : f.Steers)
      (hcalls : InTurn (callOn inner) first m j results) (hresults : .void ∉ results)
      (hlast : callOn inner v j = (k, .ok .void)) : Steered m a k.pc
  | dropped {name : Bytes} {target inner : CallTarget} {args : List Operand}
      {vs items results : List Value} {f : Native} {k : Machine Native}
      (hvs : args.mapM m.resolve = .ok vs)
      (hmap : m.natives.get? target.key = some (.map false))
      (hmapping : mapping m.heap vs = .ok (inner, items))
      (hf : m.natives.get? inner.key = some f) (hsteers : f.Steers) (hitems : items ≠ [])
      (hcalls : InTurn (callOn inner) items m k results) :
      Steered m (.assignCall name target args) k.pc

theorem effect_callOn {v : Value} {r : Except Failure Value} (h : callOn inner v m = (m', r)) :
    (m' = m ∧ ∃ e, r = .error e) ∨
      ∃ f, m.natives.get? inner.key = some f ∧ Effect f [[]] [v] m m' r := by
  rw [← callWithin_zero_singleton] at h
  exact effect_callWithin_singleton h

theorem pc_of_callOn_error {v : Value} (h : callOn inner v m = (m', .error e)) : m'.pc = m.pc := by
  rcases effect_callOn h with ⟨rfl, -⟩ | ⟨f, -, heffect⟩
  · rfl
  · exact heffect.sameControl_of_error.1

theorem natives_of_callOn {v r : Value} (h : callOn inner v m = (m', .ok r)) :
    m'.natives = m.natives := by
  have hframe := framed_callWithin framed_host 1 inner [[]] [v] m
  change callWithin Native.host 1 inner [[]] [v] m = _ at h
  rw [h] at hframe
  exact congrArg Frame.natives hframe

theorem natives_of_inTurn {first results : List Value} {k : Machine Native}
    (hcalls : InTurn (callOn inner) first m k results) : k.natives = m.natives := by
  induction hcalls with
  | nil => rfl
  | cons hcall _ ih => exact ih.trans (natives_of_callOn hcall)

/-- Calls that have moved the program counter are calls of a function that steers, and the first of
them has no result. -/
theorem steers_of_inTurn {first results : List Value} {k : Machine Native}
    (hcalls : InTurn (callOn inner) first m k results) (hmoved : k.pc ≠ m.pc) :
    ∃ f, m.natives.get? inner.key = some f ∧ f.Steers ∧ first ≠ [] ∧ .void ∈ results := by
  induction hcalls with
  | nil => exact absurd rfl hmoved
  | @cons v r vs rs m m₁ k hcall hrest ih =>
      by_cases hlater : k.pc = m₁.pc
      · rcases effect_callOn hcall with ⟨-, e, he⟩ | ⟨f, hf, heffect⟩
        · cases he
        · rcases heffect.pc_eq_or_steers with hpc | ⟨hsteers, hr⟩
          · exact absurd (hlater.trans hpc) hmoved
          · cases hr
            exact ⟨f, hf, hsteers, List.cons_ne_nil v vs, List.mem_cons_self⟩
      · obtain ⟨f, hf, hsteers, -, hvoid⟩ := ih hlater
        rw [natives_of_callOn hcall] at hf
        exact ⟨f, hf, hsteers, List.cons_ne_nil v vs, List.mem_cons_of_mem r hvoid⟩

theorem pc_or_steered_of_mapped {args : List Operand} {vs : List Value} {collect : Bool}
    {r : Except Failure Value} (ha : a.nativeCall? = some (target, args))
    (hvs : args.mapM m.resolve = .ok vs) (hmap : m.natives.get? target.key = some (.map collect))
    (h : Mapped collect vs m m' r)
    (hr : (∃ e, r = .error e) ∨ ∃ name, a = .assignCall name target args ∧ r = .ok .void) :
    m'.pc = m.pc ∨ Steered m a m'.pc := by
  by_cases hmoved : m'.pc = m.pc
  · exact Or.inl hmoved
  refine Or.inr ?_
  cases h with
  | failed hmapping heach hsame =>
      rw [hsame.1] at hmoved ⊢
      cases callsEnd_iff.mpr heach with
      | failed hitems hbefore hresults hcall =>
          rw [pc_of_callOn_error hcall] at hmoved ⊢
          obtain ⟨f, hf, hsteers, hfirst, hvoid⟩ := steers_of_inTurn hbefore hmoved
          cases collect with
          | true => exact absurd hvoid (hresults rfl)
          | false => exact .mapped ha hvs hmap (hitems ▸ hmapping) hf hsteers hfirst hbefore hcall
      | @missing before after rs v j _ hcollect hitems hbefore hresults hcall =>
          subst hcollect
          have hkept : j.pc = m.pc := by
            by_contra hmoved
            obtain ⟨-, -, -, -, hvoid⟩ := steers_of_inTurn hbefore hmoved
            exact hresults hvoid
          rcases effect_callOn hcall with ⟨-, e, he⟩ | ⟨f, hf, heffect⟩
          · cases he
          · rw [natives_of_inTurn hbefore] at hf
            rcases heffect.pc_eq_or_steers with hpc | ⟨hsteers, -⟩
            · exact absurd (hpc.trans hkept) hmoved
            · exact .collected ha hvs hmap (hitems ▸ hmapping) hf hsteers hbefore hresults hcall
  | collected hmapping heach hsame =>
      obtain ⟨e, he⟩ | ⟨name, -, he⟩ := hr
      · cases he
      · cases he
  | dropped hcollect hmapping heach hsame =>
      subst hcollect
      rw [hsame.1] at hmoved ⊢
      cases callsEnd_iff.mpr heach with
      | completed hcalls hresults =>
          obtain ⟨f, hf, hsteers, hitems, -⟩ := steers_of_inTurn hcalls hmoved
          obtain ⟨e, he⟩ | ⟨name, rfl, -⟩ := hr
          · cases he
          · exact .dropped hvs hmap hmapping hf hsteers hitems hcalls

theorem pc_or_steered_of_exec_error (h : m.exec Native.host a = (m', .error e)) :
    m'.pc = m.pc ∨ Steered m a m'.pc := by
  cases hreached : m.reached? a with
  | none =>
      obtain ⟨f, hf, -⟩ := refused_of_exec h hreached
      rw [exec_of_refused Native.host hf] at h
      exact Or.inl (congrArg Machine.pc (Prod.mk.inj h).1.symm)
  | some f =>
      obtain ⟨target, args, vs, ha, hvs, hf⟩ := exists_call_of_reached? hreached
      rcases call_of_exec_error ha hvs h with hcall | ⟨name, rfl, hcall⟩
      · rcases effect_or_mapped_of_call hf hcall with heffect | ⟨collect, rfl, hmapped⟩
        · exact Or.inl heffect.sameControl_of_error.1
        · exact pc_or_steered_of_mapped ha hvs hf hmapped (Or.inl ⟨e, rfl⟩)
      · rcases effect_or_mapped_of_call hf hcall with heffect | ⟨collect, rfl, hmapped⟩
        · rcases heffect.pc_eq_or_steers with hpc | ⟨hsteers, -⟩
          · exact Or.inl hpc
          · exact Or.inr (.assigned hvs hf hsteers hcall)
        · exact pc_or_steered_of_mapped ha hvs hf hmapped (Or.inr ⟨name, rfl, rfl⟩)

theorem pc_of_mapping_error {collect : Bool} {args : List Operand} {vs items : List Value}
    {k : Machine Native} {e' : Failure} (ha : a.nativeCall? = some (target, args))
    (hvs : args.mapM m.resolve = .ok vs) (hmap : m.natives.get? target.key = some (.map collect))
    (hmapping : mapping m.heap vs = .ok (inner, items))
    (hend : CallsEnd (callOn inner) inner.key collect items m k (.error e'))
    (h : m.exec Native.host a = (m', .error e)) : m'.pc = k.pc := by
  have hrun : Native.host.run (callWithin Native.host 0) (.map collect) (args.map argumentName) vs m
      = (k, .error e') := runMap_of_failed hmapping (callsEnd_iff.mp hend)
  have hcalled := call_of_run_error hmap hrun
  rcases call_of_exec_error ha hvs h with hcall | ⟨name, -, hcall⟩
  · rw [hcall] at hcalled
    rw [(Prod.mk.inj hcalled).1, noteFailure_eq]
  · rw [hcall] at hcalled
    cases (Prod.mk.inj hcalled).2

/-- There is one place where an action that fails can have put the program counter. -/
theorem Steered.pc_eq {pc : Int} (hsteered : Steered m a pc)
    (h : m.exec Native.host a = (m', .error e)) : m'.pc = pc := by
  cases hsteered with
  | assigned hvs hf hsteers hcall =>
      rcases call_of_exec_error rfl hvs h with hcall' | ⟨name, -, hcall'⟩
      · cases (Prod.mk.inj (hcall'.symm.trans hcall)).2
      · rw [(Prod.mk.inj (hcall'.symm.trans hcall)).1]
  | mapped ha hvs hmap hmapping hf hsteers hfirst hcalls hlast =>
      rw [pc_of_mapping_error ha hvs hmap hmapping (.failed rfl hcalls (by simp) hlast) h]
      exact pc_of_callOn_error hlast
  | collected ha hvs hmap hmapping hf hsteers hcalls hresults hlast =>
      exact pc_of_mapping_error ha hvs hmap hmapping (.missing rfl rfl hcalls hresults hlast) h
  | @dropped _ target _ args vs _ _ _ k hvs hmap hmapping hf hsteers hitems hcalls =>
      have hrun := runMap_of_dropped hmapping (callsEnd_iff.mp (.completed hcalls (by simp)))
      have hcalled : call Native.host target (args.map argumentName) vs m = (k, .ok .void) :=
        call_of_run_ok hmap hrun
      rcases call_of_exec_error rfl hvs h with hcall | ⟨name, -, hcall⟩
      · cases (Prod.mk.inj (hcall.symm.trans hcalled)).2
      · rw [(Prod.mk.inj (hcall.symm.trans hcalled)).1]

/-- A step that fails leaves the program counter at its statement, unless the statement calls a
function that steers, to assign the result that this does not have or to map it over an array.  Then
the program counter is where the calls of that function that have succeeded have put it. -/
theorem failed_step_keeps_place (m m' : Machine Native) (st : Statement) (e : Failure)
    (h : m.step Native.host st = (m', .error e)) :
    (m'.pc = m.pc ∧ ∀ pc, ¬ Steered (m.counted st) st.action pc) ∨
      Steered (m.counted st) st.action m'.pc := by
  obtain ⟨e', hexec, -⟩ := step_eq_error_iff.mp h
  by_cases hsteered : ∃ pc, Steered (m.counted st) st.action pc
  · obtain ⟨pc, hpc⟩ := hsteered
    rw [hpc.pc_eq hexec]
    exact Or.inr hpc
  · have hnot := not_exists.mp hsteered
    exact Or.inl ⟨(pc_or_steered_of_exec_error hexec).resolve_right (hnot _), hnot⟩

/-- An assignment of the result that a computed jump does not have. -/
def jumpResult : Statement :=
  atLine 2 (.assignCall (text "x") ⟨text "runtime", text "gotolabel"⟩ [.str (text "top")])

/-- A label, and an assignment that goes back to it. -/
def strayed : Machine Native where
  program := #[atLine 1 (.label (text "top")), jumpResult]
  natives := Module.all.flatMap (·.registry {})

def strayedNow : Machine Native :=
  ((strayed.start Native.host).turns Native.host (none : Option (Hook Unit Native)) 0 1 ()).1.1

theorem strayedNow_pc : strayedNow.pc = 1 := by decide +kernel

theorem step_strayedNow_pc : (strayedNow.step Native.host jumpResult).1.pc = 0 := by
  decide +kernel

theorem step_strayedNow_error :
    (strayedNow.step Native.host jumpResult).2
      = .error (.anchored []
          (anchorFault jumpResult (.noReturnValue (text "runtime:gotolabel")))) := by
  decide +kernel

/-- The jump has been made when the assignment fails. -/
theorem failed_step_keeps_place_strayed :
    Steered (strayedNow.counted jumpResult) jumpResult.action 0 := by
  have hplace := failed_step_keeps_place strayedNow (strayedNow.step Native.host jumpResult).1
    jumpResult _ (Prod.ext rfl step_strayedNow_error)
  rw [step_strayedNow_pc, strayedNow_pc] at hplace
  exact hplace.resolve_left fun hkept => absurd hkept.1 (by decide)

/-- It is not so that a step that fails always leaves the program counter at its statement. -/
theorem not_failed_steps_keep_place :
    ¬ ∀ (o : LibraryOptions) (m now : Machine Native) (n : Nat) (st : Statement) (e : Failure),
      m.Fresh → o.registry = .ok m.natives →
      (m.start Native.host).turns Native.host (none : Option (Hook Unit Native)) 0 n ()
        = ((now, ()), .outOfFuel) →
      now.current? = some st → (now.step Native.host st).2 = .error e →
      (now.step Native.host st).1.pc = now.pc := by
  intro h
  have hplace := h {} strayed strayedNow 1 jumpResult _ ⟨rfl, rfl, rfl, rfl, rfl⟩ rfl
    (Prod.ext rfl (by decide +kernel)) (by decide +kernel) step_strayedNow_error
  rw [step_strayedNow_pc, strayedNow_pc] at hplace
  exact absurd hplace (by decide)

end Machine

end JumpScript
