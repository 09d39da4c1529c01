import JumpScript.Library.Registry
import JumpScript.Proofs.Machine.Control
import JumpScript.Proofs.Value.Footprint

/-!
# Mapping

Mapping reads the elements of its array before it calls anything.  From then on the array does not
matter any more: a mapped function may take elements out of it, sort it or put it inside itself, and
is still called on each of the elements that were there, in their order and once each, on the
machine that the call before has left.

`CallsEnd` says what such calls come to without a loop: some calls in turn, all of which have
succeeded, and perhaps one more call that ends them.
-/

namespace JumpScript

namespace Native

variable {ν : Type}

/-- Calls on values one after another, each on the machine that the call before has left.  All of
them succeed. -/
inductive InTurn (f : Value → Machine ν → Machine ν × Except Failure Value) :
    List Value → Machine ν → Machine ν → List Value → Prop where
  | nil (m : Machine ν) : InTurn f [] m m []
  | cons {v r : Value} {vs rs : List Value} {m k m' : Machine ν} (hcall : f v m = (k, .ok r))
      (hrest : InTurn f vs k m' rs) : InTurn f (v :: vs) m m' (r :: rs)

/-- What calls on values one after another come to.  The first call that fails ends them and, if
results are collected, so does the first one without a result; otherwise all of them succeed. -/
inductive CallsEnd (f : Value → Machine ν → Machine ν × Except Failure Value) (key : Bytes)
    (collect : Bool) (items : List Value) (m : Machine ν) :
    Machine ν → Except Failure (List Value) → Prop where
  | failed {before after rs : List Value} {v : Value} {k m' : Machine ν} {e : Failure}
      (hitems : items = before ++ v :: after) (hbefore : InTurn f before m k rs)
      (hresults : collect = true → .void ∉ rs) (hcall : f v k = (m', .error e)) :
      CallsEnd f key collect items m m' (.error e)
  | missing {before after rs : List Value} {v : Value} {k m' : Machine ν}
      (hcollect : collect = true) (hitems : items = before ++ v :: after)
      (hbefore : InTurn f before m k rs) (hresults : .void ∉ rs) (hcall : f v k = (m', .ok .void)) :
      CallsEnd f key collect items m m' (.error (.fault (.noResult key)))
  | completed {rs : List Value} {m' : Machine ν} (hcalls : InTurn f items m m' rs)
      (hresults : collect = true → .void ∉ rs) : CallsEnd f key collect items m m' (.ok rs)

section Calls

variable {f : Value → Machine ν → Machine ν × Except Failure Value} {key : Bytes} {collect : Bool}
  {items : List Value} {v r : Value} {m k m' : Machine ν}

/-- A call that succeeds, and has a result if results are collected, goes before the others. -/
theorem CallsEnd.cons {s : Except Failure (List Value)} (hcall : f v m = (k, .ok r))
    (hr : collect = true → r ≠ .void) (h : CallsEnd f key collect items k m' s) :
    CallsEnd f key collect (v :: items) m m' (s.map (r :: ·)) := by
  have hnotMem : ∀ {rs : List Value}, (collect = true → .void ∉ rs) →
      collect = true → .void ∉ r :: rs := fun hrs hcollect =>
    List.not_mem_cons_of_ne_of_not_mem (hr hcollect).symm (hrs hcollect)
  cases h with
  | failed hitems hbefore hresults hlast =>
      exact .failed (by rw [hitems, List.cons_append]) (.cons hcall hbefore) (hnotMem hresults)
        hlast
  | missing hcollect hitems hbefore hresults hlast =>
      exact .missing hcollect (by rw [hitems, List.cons_append]) (.cons hcall hbefore)
        (hnotMem (fun _ => hresults) hcollect) hlast
  | completed hcalls hresults => exact .completed (.cons hcall hcalls) (hnotMem hresults)

end Calls

section Caller

variable {caller : Caller ν} {target : CallTarget} {collect : Bool} {items rs : List Value}
  {m k m' : Machine ν}

/-- A call that succeeds, and has a result if results are collected, is followed by the others. -/
theorem callEach_cons {v r : Value} (hcall : caller target [[]] [v] m = (k, .ok r))
    (hr : collect = true → r ≠ .void) (items : List Value) :
    callEach caller target collect (v :: items) m
      = ((callEach caller target collect items k).1,
          (callEach caller target collect items k).2.map (r :: ·)) := by
  have hpresent : (collect && r.isVoid) = false := by
    rw [← Bool.not_eq_true, Bool.and_eq_true_iff, Value.isVoid_iff]
    rintro ⟨hcollect, hvoid⟩
    exact hr hcollect hvoid
  rw [callEach, hcall]
  dsimp only
  rw [hpresent]
  obtain ⟨m', s⟩ := callEach caller target collect items k
  cases s <;> rfl

/-- The calls that mapping makes come to something. -/
theorem callsEnd_callEach (caller : Caller ν) (target : CallTarget) (collect : Bool)
    (items : List Value) (m : Machine ν) :
    CallsEnd (fun v => caller target [[]] [v]) target.key collect items m
      (callEach caller target collect items m).1 (callEach caller target collect items m).2 := by
  induction items generalizing m with
  | nil => exact .completed (.nil m) fun _ => List.not_mem_nil
  | cons v items ih =>
      rcases hcall : caller target [[]] [v] m with ⟨k, e | r⟩
      · rw [callEach, hcall]
        exact .failed (List.nil_append _).symm (.nil m) (fun _ => List.not_mem_nil) hcall
      · by_cases hvoid : collect = true ∧ r = .void
        · obtain ⟨hcollect, rfl⟩ := hvoid
          rw [callEach, hcall, hcollect]
          exact .missing rfl (List.nil_append _).symm (.nil m) List.not_mem_nil hcall
        · have hr : collect = true → r ≠ .void := not_and.mp hvoid
          rw [callEach_cons hcall hr]
          exact (ih k).cons hcall hr

/-- Calls in turn are done before those that follow. -/
theorem InTurn.callEach_append {before : List Value}
    (h : InTurn (fun v => caller target [[]] [v]) before m k rs)
    (hresults : collect = true → .void ∉ rs) (rest : List Value) :
    callEach caller target collect (before ++ rest) m
      = ((callEach caller target collect rest k).1,
          (callEach caller target collect rest k).2.map (rs ++ ·)) := by
  induction h with
  | nil m =>
      rw [List.nil_append]
      obtain ⟨k, s⟩ := callEach caller target collect rest m
      cases s <;> rfl
  | @cons v r vs rs m k m' hcall hrest ih =>
      have hr : collect = true → r ≠ .void := fun hcollect hvoid =>
        hresults hcollect (hvoid ▸ List.mem_cons_self)
      have hrs := ih fun hcollect hmem => hresults hcollect (List.mem_cons_of_mem r hmem)
      rw [List.cons_append, callEach_cons hcall hr, hrs]
      cases (callEach caller target collect rest m').2 <;> rfl

/-- Mapping makes the calls, and comes to what they come to. -/
theorem CallsEnd.callEach_eq {s : Except Failure (List Value)}
    (h : CallsEnd (fun v => caller target [[]] [v]) target.key collect items m m' s) :
    callEach caller target collect items m = (m', s) := by
  cases h with
  | failed hitems hbefore hresults hcall =>
      rw [hitems, hbefore.callEach_append hresults, callEach, hcall]
      rfl
  | missing hcollect hitems hbefore hresults hcall =>
      rw [hitems, hbefore.callEach_append fun _ => hresults, callEach, hcall, hcollect]
      rfl
  | @completed rs _ hcalls hresults =>
      have heach := hcalls.callEach_append hresults []
      rw [List.append_nil] at heach
      rw [heach, callEach, Except.map, List.append_nil]

end Caller

/-- With a single argument no native function calls another one. -/
theorem run_singleton_eq (caller caller' : Caller ν) (f : Native) (names : List Bytes) (v : Value)
    (m : Machine ν) : run caller f names [v] m = run caller' f names [v] m := by
  cases f with
  | map collect =>
      rw [run, run, runMap_of_mapping_error collect (mapping_singleton m.heap v),
        runMap_of_mapping_error collect (mapping_singleton m.heap v)]
  | _ => rfl

section Results

variable {caller : Caller ν} {target : CallTarget} {args items rs : List Value} {m k : Machine ν}

theorem runMap_of_failed {collect : Bool} {e : Failure}
    (hmapping : mapping m.heap args = .ok (target, items))
    (heach : callEach caller target collect items m = (k, .error e)) :
    runMap caller collect args m = (k, .error e) := by
  simp only [runMap, hmapping, heach]

theorem runMap_of_collected (hmapping : mapping m.heap args = .ok (target, items))
    (heach : callEach caller target true items m = (k, .ok rs)) :
    runMap caller true args m
      = ({ k with heap := (k.heap.alloc rs.toArray).1 },
          .ok (.array (k.heap.alloc rs.toArray).2)) := by
  simp only [runMap, hmapping, heach, if_true]

theorem runMap_of_dropped (hmapping : mapping m.heap args = .ok (target, items))
    (heach : callEach caller target false items m = (k, .ok rs)) :
    runMap caller false args m = (k, .ok .void) := by
  simp [runMap, hmapping, heach]

end Results

theorem mapping_of_array (σ : Heap) (module function : Bytes) (a : Handle) :
    mapping σ [.str module, .str function, .array a]
      = .ok (⟨module, function⟩, (σ.items a).toList) := rfl

end Native

namespace Machine

open Native

variable {collect : Bool} {m k : Machine Native}

/-- Calls a native function of the library on a value that no variable holds. -/
def callOn (target : CallTarget) (v : Value) (m : Machine Native) :
    Machine Native × Except Failure Value :=
  call Native.host target [[]] [v] m

theorem callWithin_zero_singleton (target : CallTarget) (v : Value) :
    callWithin Native.host 0 target [[]] [v] = callOn target v := by
  funext m
  rw [callOn, call, callWithin, callWithin, dispatch, dispatch]
  cases m.natives.get? target.key with
  | none => rfl
  | some f =>
      dsimp only [Native.host]
      rw [run_singleton_eq _ (callWithin Native.host 0)]
      rfl

/-- A mapped function is called as a program calls functions. -/
theorem callsEnd_iff {target : CallTarget} {items : List Value} {s : Except Failure (List Value)} :
    CallsEnd (callOn target) target.key collect items m k s ↔
      callEach (callWithin Native.host 0) target collect items m = (k, s) := by
  have hcalls : callOn target = fun v => callWithin Native.host 0 target [[]] [v] :=
    funext fun v => (callWithin_zero_singleton target v).symm
  rw [hcalls]
  constructor
  · exact CallsEnd.callEach_eq
  · intro heach
    have hend := callsEnd_callEach (callWithin Native.host 0) target collect items m
    rw [heach] at hend
    exact hend

section Outcome

variable {host : Host ν} {target : CallTarget} {f : ν} {names : List Bytes} {args : List Value}
  {m k : Machine ν}

theorem call_of_run_ok {v : Value} (hf : m.natives.get? target.key = some f)
    (hrun : host.run (callWithin host 0) f names args m = (k, .ok v)) :
    call host target names args m = (k, .ok v) := by
  simp only [call, callWithin, dispatch, hf] at hrun ⊢
  rw [hrun]

theorem call_of_run_error {e : Failure} (hf : m.natives.get? target.key = some f)
    (hrun : host.run (callWithin host 0) f names args m = (k, .error e)) :
    call host target names args m = (k.noteFailure target.key e, .error e) := by
  simp only [call, callWithin, dispatch, hf] at hrun ⊢
  rw [hrun]

end Outcome

/-- Mapping works on a snapshot.  It calls the function on the elements that the array has at the
time of the call, in their order and each on the machine that the call before has left, whatever the
calls do to the array.  The calls come to something in any case.  If they fail, mapping fails with
that failure and what they have done stays done; otherwise their results make up a fresh array, or
are dropped. -/
theorem mapping_works_on_snapshot {outer : CallTarget}
    (hmap : m.natives.get? outer.key = some (.map collect)) (names : List Bytes)
    (module function : Bytes) (a : Handle) :
    let calls := CallsEnd (callOn ⟨module, function⟩) (CallTarget.key ⟨module, function⟩) collect
      (m.heap.items a).toList m
    let mapped := call Native.host outer names [.str module, .str function, .array a] m
    (∃ k s, calls k s) ∧
      (∀ k e, calls k (.error e) → mapped = (k.noteFailure outer.key e, .error e)) ∧
      (∀ k rs, calls k (.ok rs) → collect = true → ∃ τ h,
        mapped = ({ k with heap := τ }, .ok (.array h)) ∧ k.heap.get? h = none ∧
          τ.get? h = some rs.toArray ∧ Heap.SameOutside ∅ k.heap τ) ∧
      (∀ k rs, calls k (.ok rs) → collect = false → mapped = (k, .ok .void)) := by
  intro calls mapped
  have hmapping := mapping_of_array m.heap module function a
  refine ⟨⟨_, _, callsEnd_iff.mpr rfl⟩, ?_, ?_, ?_⟩
  · intro k e hcalls
    exact call_of_run_error hmap (runMap_of_failed hmapping (callsEnd_iff.mp hcalls))
  · rintro k rs hcalls rfl
    exact ⟨_, _, call_of_run_ok hmap (runMap_of_collected hmapping (callsEnd_iff.mp hcalls)),
      Heap.get?_alloc_eq_none _ _, Heap.get?_alloc_self _ _, Heap.sameOutside_alloc _ _ _⟩
  · rintro k rs hcalls rfl
    exact call_of_run_ok hmap (runMap_of_dropped hmapping (callsEnd_iff.mp hcalls))

/-- A machine with an array that contains itself and another array. -/
def looped : Machine Native where
  program := #[]
  heap := ⟨#[#[.array ⟨1⟩, .array ⟨2⟩], #[.int 5]]⟩
  natives := Module.all.flatMap (·.registry {})

/-- Taking the last element out of every element takes one out of the array that is mapped, too; its
second element gets its turn all the same. -/
theorem mapping_works_on_snapshot_looped :
    let pop : CallTarget := ⟨text "array", text "pop"⟩
    ∃ k, InTurn (callOn pop) [.array ⟨1⟩, .array ⟨2⟩] looped k [.array ⟨2⟩, .int 5] ∧
      k.heap.items ⟨1⟩ = #[.array ⟨1⟩] ∧
      ∃ τ h, call Native.host ⟨text "std", text "map"⟩ []
          [.str pop.module, .str pop.function, .array ⟨1⟩] looped
            = ({ k with heap := τ }, .ok (.array h)) ∧
        τ.get? h = some #[.array ⟨2⟩, .int 5] := by
  intro pop
  have hmap : looped.natives.get? (CallTarget.key ⟨text "std", text "map"⟩) = some (.map true) := by
    decide +kernel
  let first := callOn pop (.array ⟨1⟩) looped
  let second := callOn pop (.array ⟨2⟩) first.1
  have hfirst : first.2 = .ok (.array ⟨2⟩) := by decide +kernel
  have hsecond : second.2 = .ok (.int 5) := by decide +kernel
  have hcalls : InTurn (callOn pop) [.array ⟨1⟩, .array ⟨2⟩] looped second.1
      [.array ⟨2⟩, .int 5] :=
    .cons (Prod.ext rfl hfirst) (.cons (Prod.ext rfl hsecond) (.nil second.1))
  obtain ⟨-, -, hcollected, -⟩ :=
    mapping_works_on_snapshot hmap [] pop.module pop.function ⟨1⟩
  obtain ⟨τ, h, hmapped, -, hget, -⟩ := hcollected second.1 _ (.completed hcalls (by decide)) rfl
  exact ⟨second.1, hcalls, by decide +kernel, τ, h, hmapped, hget⟩

end Machine

end JumpScript
