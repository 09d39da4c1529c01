import JumpScript.Library.Native
import JumpScript.Proofs.Machine.Refusal
import JumpScript.Proofs.Value.Endless
import JumpScript.Proofs.Value.Region

/-!
# Calls that never end

Three functions go down through arrays without counting the levels: looking for a value in an array,
asserting that two values are equal, and showing values.  `CallsForever` says when they never come
back.  Every other function comes to an end, since all that it does with arrays is bounded by their
lengths or by a number of levels.
-/

namespace JumpScript

/-- A computation comes to an end, with a result or a fault. -/
def Returns {α : Type} (x : Except Fault α) : Prop := x ≠ .error .endless

section Returns

variable {ε α β : Type} {x : Except Fault α} {f : α → Except Fault β} {e : Fault}

@[simp] theorem returns_ok (a : α) : Returns (.ok a) := by
  intro h
  cases h

@[simp] theorem returns_pure (a : α) : Returns (pure a) := returns_ok a

@[simp] theorem returns_error_iff : Returns (.error e : Except Fault α) ↔ e ≠ .endless := by
  rw [Returns, Ne, Except.error.injEq]

@[simp] theorem returns_bind_iff :
    Returns (x >>= f) ↔ Returns x ∧ ∀ a, x = .ok a → Returns (f a) := by
  cases x with
  | ok a => simp [ok_bind]
  | error e => simp [bind, Except.bind]

@[simp] theorem returns_map_iff {g : α → β} : Returns (x.map g) ↔ Returns x := map_eq_error_iff.not

@[simp] theorem returns_functor_map_iff {g : α → β} : Returns (g <$> x) ↔ Returns x :=
  returns_map_iff

theorem Returns.ne (hx : Returns x) (he : x = .error e) : e ≠ .endless :=
  returns_error_iff.mp (he ▸ hx)

theorem returns_mapError {y : Except ε α} {g : ε → Fault} (hg : ∀ a, g a ≠ .endless) :
    Returns (y.mapError g) := by
  cases y with
  | ok a => exact returns_ok a
  | error a => exact returns_error_iff.mpr (hg a)

theorem returns_mapM {g : β → Except Fault α} {l : List β} (hg : ∀ b, Returns (g b)) :
    Returns (l.mapM g) := by
  intro h
  obtain ⟨before, b, after, -, -, hb⟩ := mapM_eq_error_iff.mp h
  exact hg b hb

end Returns

namespace Arguments

@[simp] theorem returns_none (args : List Value) : Returns (none args) := by
  cases args <;> simp [none]

@[simp] theorem returns_one (args : List Value) : Returns (one args) := by
  rw [one.eq_def]
  split <;> simp

@[simp] theorem returns_two (args : List Value) : Returns (two args) := by
  rw [two.eq_def]
  split <;> simp

@[simp] theorem returns_three (args : List Value) : Returns (three args) := by
  rw [three.eq_def]
  split <;> simp

end Arguments

namespace Value

@[simp] theorem returns_asArray (v : Value) : Returns v.asArray := by
  cases v <;> simp [asArray]

@[simp] theorem returns_asString (v : Value) : Returns v.asString := by
  cases v <;> simp [asString]

@[simp] theorem returns_asInt (v : Value) : Returns v.asInt := by
  cases v <;> simp [asInt]

@[simp] theorem returns_asFloat (v : Value) : Returns v.asFloat := by
  cases v <;> simp [asFloat]

@[simp] theorem returns_asNumber (v : Value) : Returns v.asNumber := by
  rw [asNumber]
  split <;> simp

@[simp] theorem returns_add (a b : Value) : Returns (a.add b) := by
  intro h
  rw [add, arithmetic_eq_error_iff false (by simp) (by simp)] at h
  simp at h

@[simp] theorem returns_order (a b : Value) : Returns (a.order b) := by
  rw [order.eq_def]
  split
  · split <;> simp
  · split <;> simp

@[simp] theorem returns_compare (a b : Value) : Returns (a.compare b) := by
  intro h
  cases (compare_eq_error_iff.mp h).2

end Value

namespace Heap

variable {σ : Heap}

@[simp] theorem returns_place (h : Handle) (i : Int64) : Returns (σ.place h i) := by
  rw [place]
  split <;> simp

@[simp] theorem returns_getAt (h : Handle) (i : Int64) : Returns (σ.getAt h i) := by
  simp [getAt]

@[simp] theorem returns_setAt (h : Handle) (i : Int64) (v : Value) : Returns (σ.setAt h i v).2 := by
  rw [setAt]
  split
  · simp
  · rename_i heq
    exact returns_error_iff.mpr ((σ.returns_place h i).ne heq)

@[simp] theorem returns_pop (h : Handle) : Returns (σ.pop h).2 := by
  rw [pop]
  split <;> simp

@[simp] theorem returns_remove (h : Handle) (i : Int64) : Returns (σ.remove h i).2 := by
  rw [remove.eq_def]
  split
  · simp
  · rename_i heq
    exact returns_error_iff.mpr ((σ.returns_place h i).ne heq)
  · rename_i heq _
    exact returns_error_iff.mpr ((σ.returns_getAt h i).ne heq)

theorem returns_orderable (vs : List Value) : Returns (orderable vs) := by
  cases vs with
  | nil => simp [orderable]
  | cons v vs =>
      rw [orderable]
      induction vs with
      | nil => simp
      | cons w vs ih => simpa using fun _ _ => ih

@[simp] theorem returns_sort (h : Handle) : Returns (σ.sort h).2 := by
  rw [sort]
  split
  · simp
  · rename_i heq
    exact returns_error_iff.mpr ((returns_orderable _).ne heq)

theorem returns_given {α : Type} {checked : Except Fault α}
    {change : Heap → α → Heap × Except Fault Value} (hchecked : Returns checked)
    (hchange : ∀ a, Returns (change σ a).2) : Returns (σ.given checked change).2 := by
  cases checked with
  | ok a => exact hchange a
  | error e => exact returns_error_iff.mpr (hchecked.ne rfl)

end Heap

/-! ### Functions that always come to an end -/

section Functions

variable {ν : Type} {m : Machine ν}

theorem ConversionFunction.returns_run (f : ConversionFunction) (args : List Value) :
    Returns (f.run args) := by
  cases f with
  | readInt | readFloat =>
      simp only [run, returns_bind_iff, Arguments.returns_one, Value.returns_asString, true_and]
      intro a _ s _
      split <;> simp
  | _ => simp [run]

theorem EnvironmentFunction.returns_run (f : EnvironmentFunction) (args : List Value) :
    Returns (f.run m args) := by
  cases f <;> simp [run]

theorem RuntimeFunction.returns_run (f : RuntimeFunction) (args : List Value) :
    Returns (f.run m args) := by
  have hjump (label : Bytes) : Returns (m.jump label) := by
    intro h
    cases (Machine.jump_eq_error_iff.mp h).2
  cases f <;> simp [run, hjump]

theorem StackFunction.returns_run (f : StackFunction) (args : List Value) :
    Returns (f.run m args) := by
  have hpop : Returns m.pop := by
    rw [Machine.pop]
    split <;> simp
  cases f <;> simp [run, hpop]

theorem LoopFunction.returns_run (f : LoopFunction) (args : List Value) :
    Returns (f.run m args) := by
  cases f with
  | iterate =>
      simp only [run, begin, returns_bind_iff, Arguments.returns_three, Value.returns_asString,
        Value.returns_asInt, true_and]
      intro a _ name _ first _ limit _
      split <;> simp
  | next =>
      simp only [run, advance, returns_bind_iff, Arguments.returns_one, Value.returns_asString,
        true_and]
      intro a _ name _
      split
      · split
        · simp
        · split <;> simp
      · simp

theorem StreamFunction.returns_formatted (σ : Heap) (args : List Value) :
    Returns (formatted σ args) := by
  cases args with
  | nil => simp [formatted]
  | cons v vs =>
      simp only [formatted, returns_bind_iff, Value.returns_asString, true_and]
      intro s _
      split <;> simp

theorem StreamFunction.returns_run (f : StreamFunction) (args : List Value) :
    Returns (f.run m args) := by
  cases f <;> simp [run, returns_formatted]

theorem MathFunction.returns_total (acc : Value) (vs : List Value) : Returns (total acc vs) := by
  induction vs generalizing acc with
  | nil => simp [total]
  | cons v vs ih =>
      rw [total]
      split
      · simp [ih]
      · simp

theorem MathFunction.returns_run (f : MathFunction) (σ : Heap) (args : List Value) :
    Returns (f.run σ args) := by
  have hpick (o : Ordering) (a b : Value) : Returns (pick o a b) := by simp [pick]
  have hrounded (round : Float → Int) : Returns (rounded round args) := by
    simp only [rounded, returns_bind_iff, Arguments.returns_one, Value.returns_asNumber, true_and]
    intro a _ v _
    split <;> simp
  cases f with
  | sum => simp [run, returns_total]
  | abs =>
      simp only [run, returns_bind_iff, Arguments.returns_one, Value.returns_asNumber, true_and]
      intro a _ v _
      split <;> simp
  | pow =>
      simp only [run, returns_bind_iff, Arguments.returns_two, Value.returns_asNumber, true_and]
      intro a _ base _ exponent _
      split
      · split <;> simp
      · simp
  | min | max => simp [run, hpick]
  | sqrt => simp [run]
  | floor | ceil => exact hrounded _

theorem StringFunction.returns_contents (vs : List Value) : Returns (contents vs) := by
  induction vs with
  | nil => simp [contents]
  | cons v vs ih => cases v <;> simp [contents, ih]

theorem StringFunction.returns_formatted (args : List Value) : Returns (formatted args) := by
  have hread : Returns (numberAndTag args) := by
    rw [numberAndTag.eq_def]
    split <;> simp
  simp only [formatted, returns_bind_iff, hread, true_and]
  intro a _
  split
  · simp
  · split <;> simp

theorem StringFunction.returns_run (f : StringFunction) (args : List Value) (σ : Heap) :
    Returns (f.run args σ).2 := by
  have honly : Returns (only args) := by simp [only]
  have hboth : Returns (both args) := by simp [both]
  cases f with
  | split => exact Heap.returns_given hboth fun _ => returns_ok _
  | join => simp [run, joined, returns_contents]
  | concat => exact returns_ok _
  | formatNumber => simp [run, returns_formatted]
  | _ => simp [run, honly, hboth]

theorem Json.returns_numberValue (numeral : Bytes) : Returns (numberValue numeral) := by
  rw [numberValue]
  split
  · simp
  · split <;> simp

mutual

theorem Json.returns_toValue (j : Json) (σ : Heap) : Returns (j.toValue σ) := by
  cases j with
  | array items => simp [toValue, returns_toValues items σ]
  | number n => simp [toValue, returns_numberValue]
  | _ => simp [toValue]

theorem Json.returns_toValues (js : List Json) (σ : Heap) : Returns (toValues js σ) := by
  cases js with
  | nil => simp [toValues]
  | cons j js =>
      simp only [toValues, returns_bind_iff]
      exact ⟨returns_toValue j σ, fun r _ => ⟨returns_toValues js r.1, fun _ _ => returns_pure _⟩⟩

end

/-- A document has an end, since the number of its levels is bounded. -/
theorem Json.returns_ofValue (σ : Heap) (levels : Nat) (v : Value) :
    Returns (ofValue σ levels v) := by
  induction levels generalizing v with
  | zero =>
      cases v with
      | float x =>
          rw [ofValue]
          split <;> simp
      | _ => simp [ofValue]
  | succ levels ih =>
      cases v with
      | array h =>
          rw [ofValue, returns_map_iff]
          exact returns_mapM ih
      | float x =>
          rw [ofValue]
          split <;> simp
      | _ => simp [ofValue]

theorem DocumentFunction.returns_run (f : DocumentFunction) (args : List Value) (σ : Heap) :
    Returns (f.run args σ).2 := by
  have hmember (doc key : Bytes) : Returns (member σ doc key) := by
    rw [member]
    split
    · simp
    · split
      · simp
      · exact Json.returns_toValue _ σ
  cases f with
  | get =>
      rw [run]
      dsimp only
      split
      · simp
      · rename_i heq
        exact returns_error_iff.mpr (Returns.ne (by simp [hmember]) heq)
  | encode => simp [run, Json.returns_ofValue]

theorem FileFence.returns_resolve (fence : FileFence) (name : Bytes) :
    Returns (fence.resolve name) := by
  rw [resolve]
  split <;> simp

theorem FileFence.returns_exists? (fence : FileFence) (fs : Files) (name : Bytes) :
    Returns (fence.exists? fs name) := by
  simp only [exists?, returns_bind_iff, returns_resolve, true_and]
  intro path _
  split <;> simp

theorem FileFunction.returns_run (f : FileFunction) (fence : FileFence) (fs : Files)
    (args : List Value) : Returns (f.run fence fs args).2 := by
  cases f with
  | read =>
      have hread (name : Bytes) : Returns ((fence.read fs name).mapError .whileReading) :=
        returns_mapError (by simp)
      simp [run, hread]
  | write =>
      rw [run]
      dsimp only
      split
      · rename_i heq
        exact returns_error_iff.mpr (Returns.ne (by simp) heq)
      · split <;> simp
  | present => simp [run, FileFence.returns_exists?]

theorem Web.returns_follow (server : Server) (left : Nat) (a : Address) :
    Returns (follow server left a).2 := by
  induction left generalizing a with
  | zero => simp [follow, failed]
  | succ left ih =>
      rw [follow]
      split
      · simp [failed]
      · split
        · simp [failed]
        · split
          · simp
          · split
            · simp [failed]
            · exact ih _

theorem WebFence.returns_fetch (fence : WebFence) (web : Web) (address : Bytes) :
    Returns (fence.fetch web address).2 := by
  have hscreen : Returns (fence.screen address) := by
    rw [screen]
    split
    · simp
    · split
      · simp
      · rw [returns_map_iff, admits]
        split
        · simp
        · split <;> simp
  rw [fetch, ask]
  split
  · rename_i heq
    exact returns_error_iff.mpr (hscreen.ne heq)
  · refine returns_bind_iff.mpr ⟨Web.returns_follow _ _ _, fun r _ => ?_⟩
    rw [accept]
    split
    · simp
    · split <;> simp

theorem returns_exitStatus (args : List Value) : Returns (exitStatus args) := by
  rw [exitStatus.eq_def]
  split <;> simp

theorem Native.returns_mapping (σ : Heap) (args : List Value) : Returns (mapping σ args) := by
  simp [mapping]

end Functions

/-! ### Functions that may never come to an end -/

namespace Native

variable {σ : Heap} {args : List Value}

/-- A call of a function with some values never comes to an end. -/
inductive CallsForever (σ : Heap) : Native → List Value → Prop where
  | search {h : Handle} {v w : Value} {before after : List Value}
      (hitems : (σ.items h).toList = before ++ w :: after)
      (hbefore : ∀ u ∈ before, σ.equal? u v = some false) (hw : σ.ComparesForever w v) :
      CallsForever σ (.array .index) [.array h, v]
  | comparison {a b : Value} (hab : σ.ComparesForever a b) : CallsForever σ .assertEqual [a, b]
  | message {a b v : Value} (hab : σ.equal? a b = some false) (hv : v ∈ [a, b])
      (hforever : σ.QuotesForever v) : CallsForever σ .assertEqual [a, b]
  | showing {args : List Value} {v : Value} (hv : v ∈ args) (hforever : σ.QuotesForever v) :
      CallsForever σ .debug args

theorem CallsForever.not_acyclic {f : Native} (h : CallsForever σ f args) : ¬ σ.Acyclic := by
  intro hσ
  cases h with
  | search _ _ hw => exact hσ.not_quotesForever _ hw.quotesForever
  | comparison hab => exact hσ.not_quotesForever _ hab.quotesForever
  | message _ _ hforever => exact hσ.not_quotesForever _ hforever
  | showing _ hforever => exact hσ.not_quotesForever _ hforever

/-- Looking for a value is the one function on arrays that may never come to an end. -/
theorem run_array_eq_endless_iff {f : ArrayFunction} :
    (f.run args σ).2 = .error .endless ↔ CallsForever σ (.array f) args := by
  have hvalue : Returns (ArrayFunction.arrayAndValue args) := by simp [ArrayFunction.arrayAndValue]
  have hindex : Returns (ArrayFunction.arrayAndIndex args) := by simp [ArrayFunction.arrayAndIndex]
  have harray : Returns (ArrayFunction.array args) := by simp [ArrayFunction.array]
  by_cases hf : f = .index
  · subst hf
    rw [ArrayFunction.run, bind_eq_error_iff]
    constructor
    · rintro (h | ⟨⟨h, v⟩, hargs, hposition⟩)
      · exact absurd h hvalue
      · have hends : σ.searchEnds h v = false := by
          by_contra hends
          rw [Bool.not_eq_false] at hends
          simp [ArrayFunction.position, hends] at hposition
        obtain ⟨before, w, after, hitems, hbefore, hw⟩ := Heap.searchEnds_eq_false_iff.mp hends
        rw [ArrayFunction.arrayAndValue_eq_ok hargs]
        exact .search hitems hbefore hw
    · rintro (⟨hitems, hbefore, hw⟩)
      have hends := Heap.searchEnds_eq_false_iff.mpr ⟨_, _, _, hitems, hbefore, hw⟩
      refine Or.inr ⟨_, rfl, ?_⟩
      simp [ArrayFunction.position, hends]
  · refine iff_of_false ?_ fun h => ?_
    · change Returns (f.run args σ).2
      cases f with
      | index => exact absurd rfl hf
      | new => exact returns_ok _
      | get | length | same => simp [ArrayFunction.run, hindex, harray, hvalue]
      | set =>
          refine Heap.returns_given (by simp [ArrayFunction.arrayIndexAndValue]) fun r => ?_
          exact returns_map_iff.mpr (Heap.returns_setAt _ _ _)
      | push => exact Heap.returns_given hvalue fun _ => returns_ok _
      | pop => exact Heap.returns_given harray fun _ => Heap.returns_pop _
      | popAt => exact Heap.returns_given hindex fun _ => Heap.returns_remove _ _
      | reverse | clone => exact Heap.returns_given harray fun _ => returns_ok _
      | sort => exact Heap.returns_given harray fun _ => returns_map_iff.mpr (Heap.returns_sort _)
    · cases h
      exact hf rfl

theorem assertEqual_eq_endless_iff :
    JumpScript.assertEqual σ args = .error .endless ↔ CallsForever σ .assertEqual args := by
  rw [JumpScript.assertEqual, bind_eq_error_iff]
  constructor
  · rintro (h | ⟨⟨a, b⟩, hargs, h⟩)
    · exact absurd h (Arguments.returns_two args)
    · rw [Arguments.two_eq_ok_iff.mp hargs]
      dsimp only at h
      split at h
      · rename_i hab
        exact .comparison (Heap.equal?_eq_none_iff.mp hab)
      · cases h
      · rename_i hab
        split at h
        · cases h
        · rename_i hquoted
          rw [Bool.not_eq_true, Bool.and_eq_false_iff, Heap.quotingEnds_eq_false_iff,
            Heap.quotingEnds_eq_false_iff] at hquoted
          obtain ha | hb := hquoted
          · exact .message hab List.mem_cons_self ha
          · exact .message hab (List.mem_cons_of_mem a List.mem_cons_self) hb
  · intro h
    refine Or.inr ?_
    cases h with
    | comparison hab => exact ⟨_, rfl, by simp [Heap.equal?_eq_none_iff.mpr hab]⟩
    | message hab hv hforever =>
        rw [← Heap.quotingEnds_eq_false_iff] at hforever
        obtain rfl | rfl := List.mem_pair.mp hv
        · exact ⟨_, rfl, by simp [hab, hforever]⟩
        · exact ⟨_, rfl, by simp [hab, hforever]⟩

section Run

variable {ν : Type} {m : Machine ν} {caller : Caller ν} {f : Native} {names : List Bytes}

theorem runDebug_eq_endless_iff :
    (runDebug args m).2 = .error (.fault .endless) ↔ CallsForever m.heap .debug args := by
  have hall : args.all m.heap.quotingEnds = true ↔ ∀ v ∈ args, ¬ m.heap.QuotesForever v := by
    simp only [List.all_eq_true, ← Heap.quotingEnds_eq_false_iff, Bool.not_eq_false]
  constructor
  · intro h
    by_contra hnot
    have hends := hall.mpr fun v hv hforever => hnot (.showing hv hforever)
    rw [runDebug_of_quotingEnds hends] at h
    cases h
  · rintro (⟨⟩ | ⟨⟩ | ⟨⟩ | ⟨hv, hforever⟩)
    rw [runDebug_endless fun hends => hall.mp hends _ hv hforever]

theorem mapError_fault_eq_iff {x : Except Fault Value} {fault : Fault} :
    x.mapError Failure.fault = .error (.fault fault) ↔ x = .error fault := by
  cases x <;> simp [Except.mapError]

theorem onMachine_eq_error_iff {r : Except Fault (Machine ν × Value)} {fault : Fault} :
    (onMachine m r).2 = .error (.fault fault) ↔ r = .error fault := by
  cases r <;> simp [onMachine]

theorem runArray_eq_error_iff {g : ArrayFunction} {fault : Fault} :
    (runArray g names args m).2 = .error (.fault fault) ↔ (g.run args m.heap).2 = .error fault := by
  rcases hrun : g.run args m.heap with ⟨τ, e | v⟩
  · simp [runArray, onHeap, hrun, Except.mapError]
  · simp [runArray, onHeap, hrun, Except.mapError]

theorem runExit_ne_endless : (runExit args m).2 ≠ .error (.fault .endless) := by
  rw [runExit]
  split
  · simp
  · rename_i heq
    simpa using (returns_exitStatus args).ne heq

/-- A call that calls no other function never comes to an end just if it is one of those that can go
on for ever. -/
theorem run_eq_endless_iff (hf : ∀ collect, f ≠ .map collect) :
    (run caller f names args m).2 = .error (.fault .endless) ↔ CallsForever m.heap f args := by
  cases f with
  | array g => exact runArray_eq_error_iff.trans run_array_eq_endless_iff
  | assertEqual => exact mapError_fault_eq_iff.trans assertEqual_eq_endless_iff
  | debug => exact runDebug_eq_endless_iff
  | map collect => exact absurd rfl (hf collect)
  | conversion g =>
      refine iff_of_false (mapError_fault_eq_iff.not.mpr (g.returns_run args)) fun h => ?_
      cases h
  | math g | document g | string g =>
      refine iff_of_false (mapError_fault_eq_iff.not.mpr (g.returns_run _ _)) fun h => ?_
      cases h
  | file fence g =>
      refine iff_of_false (mapError_fault_eq_iff.not.mpr (g.returns_run fence _ args)) fun h => ?_
      cases h
  | environment g | stream g | loop g | runtime g | stack g =>
      refine iff_of_false (onMachine_eq_error_iff.not.mpr (g.returns_run args)) fun h => ?_
      cases h
  | fetch fence =>
      have hfetch : Returns (do
          let address ← (← Arguments.one args).asString
          return Value.str (← (fence.fetch m.world.web address).2)) := by
        simp [WebFence.returns_fetch]
      refine iff_of_false (mapError_fault_eq_iff.not.mpr hfetch) fun h => ?_
      cases h
  | exit =>
      refine iff_of_false runExit_ne_endless fun h => ?_
      cases h

end Run

end Native

end JumpScript
