import JumpScript.Proofs.Library.Endings
import JumpScript.Proofs.Machine.Mapping

/-!
# Statements that never end

A statement goes on for ever when it calls a function that does, or maps the function that shows
values over an array with an element that cannot be shown.  Mapping calls functions with one
argument, and the others that may go on for ever take two.
-/

namespace JumpScript.Machine

open Native (callEach mapping runDebug runMap CallsForever)

variable {m : Machine Native} {target : CallTarget} {collect : Bool} {items : List Value}

/-- An action never comes to an end. -/
inductive GoesOnForever (m : Machine Native) (a : Action) : Prop where
  | direct {target : CallTarget} {args : List Operand} {vs : List Value} {f : Native}
      (ha : a.nativeCall? = some (target, args)) (hvs : args.mapM m.resolve = .ok vs)
      (hf : m.natives.get? target.key = some f) (hforever : CallsForever m.heap f vs)
  | mapped {target inner : CallTarget} {args : List Operand} {vs items : List Value} {v : Value}
      {collect : Bool} (ha : a.nativeCall? = some (target, args))
      (hvs : args.mapM m.resolve = .ok vs)
      (hmap : m.natives.get? target.key = some (.map collect))
      (hmapping : mapping m.heap vs = .ok (inner, items))
      (hdebug : m.natives.get? inner.key = some .debug) (hv : v ∈ items)
      (hfirst : collect = true → items.head? = some v) (hforever : m.heap.QuotesForever v)

/-- What goes on for ever goes down through an array that is inside one of its own elements. -/
theorem GoesOnForever.not_acyclic {a : Action} (h : m.GoesOnForever a) : ¬ m.heap.Acyclic := by
  cases h with
  | direct _ _ _ hforever => exact hforever.not_acyclic
  | mapped _ _ _ _ _ _ _ hforever => exact fun hacyclic => hacyclic.not_quotesForever _ hforever

theorem dispatch_snd {ν : Type} {host : Host ν} {caller : Caller ν} {m : Machine ν} {f : ν}
    (hf : m.natives.get? target.key = some f) (names : List Bytes) (args : List Value) :
    (dispatch host caller target names args m).2 = (host.run caller f names args m).2 := by
  simp only [dispatch, hf]
  rcases host.run caller f names args m with ⟨k, e | v⟩
  · rfl
  · rfl

theorem callWithin_ne_endless (hdebug : m.natives.get? target.key ≠ some .debug) (v : Value) :
    (callWithin Native.host 0 target [[]] [v] m).2 ≠ .error (.fault .endless) := by
  rw [callWithin]
  cases hf : m.natives.get? target.key with
  | none => simp [dispatch_of_missing _ hf]
  | some f =>
      rw [dispatch_snd hf]
      by_cases hmap : ∃ collect, f = .map collect
      · obtain ⟨collect, rfl⟩ := hmap
        simp [Native.host, Native.run, runMap, Native.mapping_singleton]
      · intro h
        cases (Native.run_eq_endless_iff (not_exists.mp hmap)).mp h with
        | showing => exact hdebug hf

theorem callEach_ne_endless (hdebug : m.natives.get? target.key ≠ some .debug) :
    (callEach (callWithin Native.host 0) target collect items m).2
      ≠ .error (.fault .endless) := by
  induction items generalizing m with
  | nil => simp [callEach]
  | cons v vs ih =>
      have hcall := callWithin_ne_endless hdebug v
      rw [callEach]
      split
      · rename_i heq
        rw [heq] at hcall
        simpa using hcall
      · rename_i k r heq
        have hframe := framed_callWithin Native.framed_host 0 target [[]] [v] m
        rw [heq] at hframe
        have hnatives : k.natives = m.natives := congrArg Frame.natives hframe
        have hrest := ih (m := k) (hnatives ▸ hdebug)
        split
        · simp
        · split
          · rename_i heach
            rw [heach] at hrest
            simpa using hrest
          · simp

theorem callWithin_debug (hdebug : m.natives.get? target.key = some .debug) (v : Value) :
    (¬ m.heap.QuotesForever v ∧
      ∃ s, callWithin Native.host 0 target [[]] [v] m = (m.print s, .ok .void)) ∨
    (m.heap.QuotesForever v ∧
      callWithin Native.host 0 target [[]] [v] m = (m, .error (.fault .endless))) := by
  rw [callWithin_zero_singleton, callOn, ← Heap.quotingEnds_eq_false_iff]
  have hrun : Native.host.run (callWithin Native.host 0) .debug [[]] [v] m = runDebug [v] m := rfl
  cases hends : m.heap.quotingEnds v with
  | true =>
      rw [Native.runDebug_of_quotingEnds (by simpa using hends)] at hrun
      exact Or.inl ⟨by simp, _, call_of_run_ok hdebug hrun⟩
  | false =>
      rw [Native.runDebug_endless (by simpa using hends)] at hrun
      exact Or.inr ⟨rfl, (call_of_run_error hdebug hrun :)⟩

/-- Showing the elements of an array one after another goes on for ever at the first of them that
cannot be shown.  Since showing has no result, there is no second call where results are wanted. -/
theorem callEach_debug_eq_endless_iff (hdebug : m.natives.get? target.key = some .debug) :
    (callEach (callWithin Native.host 0) target collect items m).2 = .error (.fault .endless) ↔
      ∃ v ∈ items, m.heap.QuotesForever v ∧ (collect = true → items.head? = some v) := by
  induction items generalizing m with
  | nil => simp [callEach]
  | cons v vs ih =>
      obtain ⟨hends, s, hcall⟩ | ⟨hforever, hcall⟩ := callWithin_debug hdebug v
      · cases collect with
        | true =>
            simp [callEach, hcall, Value.isVoid, Value.kind, hends]
        | false =>
            rw [Native.callEach_cons hcall (by simp), map_eq_error_iff]
            have hrest := ih (m := m.print s) hdebug
            change _ ↔ ∃ w ∈ vs, m.heap.QuotesForever w ∧ _ at hrest
            simp [hrest, hends]
      · simp [callEach, hcall, hforever]

theorem runMap_eq_endless_iff {args : List Value} :
    (runMap (callWithin Native.host 0) collect args m).2 = .error (.fault .endless) ↔
      ∃ inner items, mapping m.heap args = .ok (inner, items) ∧
        m.natives.get? inner.key = some .debug ∧
        ∃ v ∈ items, m.heap.QuotesForever v ∧ (collect = true → items.head? = some v) := by
  rw [runMap]
  cases hmapping : mapping m.heap args with
  | error f => simpa using (Native.returns_mapping m.heap args).ne hmapping
  | ok r =>
      obtain ⟨inner, items⟩ := r
      have heach : (callEach (callWithin Native.host 0) inner collect items m).2
            = .error (.fault .endless) ↔ m.natives.get? inner.key = some .debug ∧
          ∃ v ∈ items, m.heap.QuotesForever v ∧ (collect = true → items.head? = some v) := by
        by_cases hdebug : m.natives.get? inner.key = some .debug
        · rw [callEach_debug_eq_endless_iff hdebug, and_iff_right hdebug]
        · exact iff_of_false (callEach_ne_endless hdebug) fun h => hdebug h.1
      simp only [Except.ok.injEq, Prod.mk.injEq, and_assoc, exists_and_left, exists_eq_left']
      rw [← heach]
      rcases callEach (callWithin Native.host 0) inner collect items m with ⟨k, e | rs⟩
      · simp
      · cases collect <;> simp

/-- An action that calls a function never comes to an end just if the function does not. -/
theorem exec_eq_endless_iff_run {a : Action} {args : List Operand} {vs : List Value} {f : Native}
    (ha : a.nativeCall? = some (target, args)) (hvs : args.mapM m.resolve = .ok vs)
    (hf : m.natives.get? target.key = some f) :
    (m.exec Native.host a).2 = .error (.fault .endless) ↔
      (Native.run (callWithin Native.host 0) f (args.map argumentName) vs m).2
        = .error (.fault .endless) := by
  have hsite : m.callSite Native.host target args
      = dispatch Native.host (callWithin Native.host 0) target (args.map argumentName) vs m := by
    rw [callSite, hvs]
    rfl
  change _ ↔ (Native.host.run (callWithin Native.host 0) f _ vs m).2 = _
  rw [← dispatch_snd hf, ← hsite]
  cases a with
  | assignCall name callee operands =>
      obtain ⟨rfl, rfl⟩ := Prod.mk.inj (Option.some.inj ha)
      rw [exec]
      rcases m.callSite Native.host callee operands with ⟨k, e | v⟩
      · simp
      · by_cases hvoid : v.isVoid = true
        · simp [hvoid]
        · simp [hvoid]
  | call callee operands =>
      obtain ⟨rfl, rfl⟩ := Prod.mk.inj (Option.some.inj ha)
      rw [exec]
      rcases m.callSite Native.host callee operands with ⟨k, e | v⟩
      · simp
      · simp
  | _ => cases ha

theorem exec_eq_endless_iff {a : Action} :
    (m.exec Native.host a).2 = .error (.fault .endless) ↔ m.GoesOnForever a := by
  constructor
  · intro h
    cases hreached : m.reached? a with
    | none =>
        obtain ⟨f, hrefused, hf⟩ := refused_of_exec (Prod.ext rfl h) hreached
        obtain rfl := Failure.fault.inj hf
        cases hrefused
    | some f =>
        obtain ⟨target, args, vs, ha, hvs, hf⟩ := exists_call_of_reached? hreached
        rw [exec_eq_endless_iff_run ha hvs hf] at h
        by_cases hmap : ∃ collect, f = .map collect
        · obtain ⟨collect, rfl⟩ := hmap
          obtain ⟨inner, items, hmapping, hdebug, v, hv, hforever, hfirst⟩ :=
            runMap_eq_endless_iff.mp h
          exact .mapped ha hvs hf hmapping hdebug hv hfirst hforever
        · exact .direct ha hvs hf ((Native.run_eq_endless_iff (not_exists.mp hmap)).mp h)
  · intro h
    cases h with
    | direct ha hvs hf hforever =>
        refine (exec_eq_endless_iff_run ha hvs hf).mpr ((Native.run_eq_endless_iff ?_).mpr hforever)
        rintro collect rfl
        cases hforever
    | mapped ha hvs hmap hmapping hdebug hv hfirst hforever =>
        refine (exec_eq_endless_iff_run ha hvs hmap).mpr (runMap_eq_endless_iff.mpr ?_)
        exact ⟨_, _, hmapping, hdebug, _, hv, hforever, hfirst⟩

/-- Whether an action goes on for ever depends on the bindings, the functions and the arrays. -/
theorem GoesOnForever.congr {k : Machine Native} {a : Action} (h : m.GoesOnForever a)
    (hbindings : k.bindings = m.bindings) (hnatives : k.natives = m.natives)
    (hheap : k.heap = m.heap) : k.GoesOnForever a := by
  have hresolve : m.resolve = k.resolve := funext (resolve_congr hbindings.symm)
  cases h with
  | direct ha hvs hf hforever =>
      exact .direct ha (hresolve ▸ hvs) (hnatives ▸ hf) (hheap ▸ hforever)
  | mapped ha hvs hmap hmapping hdebug hv hfirst hforever =>
      exact .mapped ha (hresolve ▸ hvs) (hnatives ▸ hmap) (hheap ▸ hmapping) (hnatives ▸ hdebug) hv
        hfirst (hheap ▸ hforever)

theorem goesOnForever_counted_iff {a : Action} (st : Statement) :
    (m.counted st).GoesOnForever a ↔ m.GoesOnForever a :=
  ⟨fun h => h.congr rfl rfl rfl, fun h => h.congr rfl rfl rfl⟩

theorem anchor_eq_endless_iff {st : Statement} {e : Failure} :
    anchor st e = .fault .endless ↔ e = .fault .endless := by
  cases e with
  | fault f => cases f <;> simp [anchor]
  | exit code => simp [anchor]
  | anchored context d => simp [anchor]

/-- A step never comes to an end just if its action does not. -/
theorem step_eq_endless_iff {st : Statement} :
    (m.step Native.host st).2 = .error (.fault .endless) ↔ m.GoesOnForever st.action := by
  rw [← goesOnForever_counted_iff st, ← exec_eq_endless_iff]
  rcases hexec : (m.counted st).exec Native.host st.action with ⟨k, e | u⟩
  · simp [step_of_exec_error hexec, anchor_eq_endless_iff]
  · simp [step_of_exec_ok hexec]

end JumpScript.Machine
