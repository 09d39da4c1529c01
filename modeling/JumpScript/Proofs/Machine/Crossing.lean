import JumpScript.Proofs.Machine.Bystanders

/-!
# Loops whose names cross

Any text can be the name of a loop, and a loop makes the names of two of its variables from it.  So
two loops can have a variable in common although they have different names: one of them is named as
a variable of the other is, or is named so that both keep different things under one name.  The
names of such loops cross.

What a loop does at its end can be read off its three variables.  Loops under different names leave
each other's variables alone, and so do not matter to each other, exactly when their names do not
cross.
-/

namespace JumpScript

namespace LoopFunction

variable {ν : Type} {name other : Bytes} {bindings bindings' : Table Value} {m m' : Machine ν}
  {v : Value}

/-- A loop under the first name has a variable of the loop under the second: it is named as that
variable is, or it keeps its body where the other one keeps its last value. -/
def Crosses (name other : Bytes) : Prop :=
  name = bodyName other ∨ name = lastName other ∨ name = text "end:" ++ other

instance (name other : Bytes) : Decidable (Crosses name other) :=
  inferInstanceAs (Decidable (_ ∨ _ ∨ _))

theorem bodyName_eq_lastName_iff :
    bodyName name = lastName other ↔ name = text "end:" ++ other := by
  rw [lastName_eq_bodyName, bodyName_inj]

/-- Two loops with different names have a variable in common exactly when their names cross. -/
theorem exists_common_variable_iff (hne : name ≠ other) :
    (∃ x ∈ variablesOf name, x ∈ variablesOf other) ↔
      Crosses name other ∨ Crosses other name := by
  constructor
  · rintro ⟨x, hx, hx'⟩
    rw [mem_variablesOf_iff] at hx hx'
    rcases hx with rfl | rfl | rfl
    · rcases hx' with h | h | h
      · exact absurd h hne
      · exact Or.inl (Or.inr (Or.inl h))
      · exact Or.inl (Or.inl h)
    · rcases hx' with h | h | h
      · exact Or.inr (Or.inr (Or.inl h.symm))
      · exact absurd (lastName_inj.mp h) hne
      · exact Or.inr (Or.inr (Or.inr (bodyName_eq_lastName_iff.mp h.symm)))
    · rcases hx' with h | h | h
      · exact Or.inr (Or.inl h.symm)
      · exact Or.inl (Or.inr (Or.inr (bodyName_eq_lastName_iff.mp h)))
      · exact absurd (bodyName_inj.mp h) hne
  · have hcommon : ∀ {a b : Bytes}, Crosses a b → ∃ x ∈ variablesOf a, x ∈ variablesOf b := by
      rintro a b (h | h | h)
      · exact ⟨a, by simp [variablesOf], by simp [variablesOf, h]⟩
      · exact ⟨a, by simp [variablesOf], by simp [variablesOf, h]⟩
      · exact ⟨bodyName a, by simp [variablesOf],
          by simp [variablesOf, bodyName_eq_lastName_iff.mpr h]⟩
    rintro (h | h)
    · exact hcommon h
    · obtain ⟨x, hx, hx'⟩ := hcommon h
      exact ⟨x, hx', hx⟩

/-- What a loop does at its end: it is left, or its body is executed again with the next value. -/
inductive Move where
  | leave
  | again (value : Int64) (body : Int)
  deriving DecidableEq, Repr

/-- What a loop does at its end, as its variables tell. -/
def move (bindings : Table Value) (name : Bytes) : Except Fault Move :=
  match bindings.get? name with
  | some (.int current) =>
    match bindings.get? (lastName name) with
    | none => .error (.noLoopEnd name)
    | some last =>
      if last.word ≤ current then .ok .leave
      else .ok (.again (current + 1) ((bindings.get? (bodyName name)).getD .void).word.toInt)
  | _ => .error (.noLoopVariable name)

/-- A machine after a loop has done something at its end. -/
def Move.applied (d : Move) (name : Bytes) (m : Machine ν) : Machine ν × Value :=
  match d with
  | .leave => ({ m with bindings := ended m.bindings name }, .void)
  | .again value body =>
    ({ m with bindings := m.bindings.insert name (.int value), pc := body }, .void)

/-- The end of a loop asks the variables what to do, and does it. -/
theorem advance_eq_map_move (m : Machine ν) (name : Bytes) :
    advance m [.str name] = (move m.bindings name).map fun d => d.applied name m := by
  rw [advance, move]
  simp only [Arguments.one, Value.asString, ok_bind, Machine.lookup]
  cases m.bindings.get? name with
  | none => rfl
  | some v =>
      cases v with
      | int current =>
          cases m.bindings.get? (lastName name) with
          | none => rfl
          | some last =>
              dsimp only
              split
              · rfl
              · rfl
      | _ => rfl

theorem move_congr (h : ∀ x ∈ variablesOf name, bindings'.get? x = bindings.get? x) :
    move bindings' name = move bindings name := by
  have hname := h name (by simp [variablesOf])
  have hlast := h (lastName name) (by simp [variablesOf])
  have hbody := h (bodyName name) (by simp [variablesOf])
  rw [move, move, hname, hlast, hbody]

/-- A call that succeeds under a name changes no variable but those of the loop with that name. -/
theorem get?_of_run {f : LoopFunction} {args : List Value} {x : Bytes}
    (hargs : args.head? = some (.str other)) (hrun : f.run m args = .ok (m', v))
    (hx : x ∉ variablesOf other) : m'.bindings.get? x = m.bindings.get? x := by
  cases f with
  | iterate =>
      obtain ⟨k, first, limit, rfl, -, -, hbindings, -⟩ := begin_eq_ok hrun
      obtain rfl : k = other := by simpa using hargs
      rw [hbindings, get?_begun_of_notMem hx]
  | next =>
      obtain ⟨k, current, last, rfl, -, -, -, hmoved⟩ := advance_eq_ok hrun
      obtain rfl : k = other := by simpa using hargs
      split at hmoved
      · rw [hmoved.2, get?_ended_of_notMem hx]
      · have hk : k ≠ x := by
          rintro rfl
          exact hx (by simp [variablesOf])
        rw [hmoved.2, Table.get?_insert, if_neg hk]

/-- A loop that begins gives all of its variables a value. -/
theorem get?_begun_ne_none {x : Bytes} {first limit : Int64} {index : Int}
    (hx : x ∈ variablesOf name) : (begun bindings name first limit index).get? x ≠ none := by
  simp only [begun, Table.get?_insert]
  rcases mem_variablesOf_iff.mp hx with rfl | rfl | rfl
  · rw [if_pos rfl]
    split_ifs <;> simp
  · rw [if_pos rfl]
    split_ifs <;> simp
  · rw [if_pos rfl]
    simp

/-- Loops with different names do not matter to each other exactly when their names do not cross:
a call that succeeds under one name leaves the variables of the loop with the other name alone, and
what that loop does at its end is what it would have done without the call. -/
theorem loops_apart_iff_names_do_not_cross (ν : Type) (hne : name ≠ other) :
    (∀ (f : LoopFunction) (m m' : Machine ν) (args : List Value) (v : Value),
      args.head? = some (.str other) → f.run m args = .ok (m', v) →
      (∀ x ∈ variablesOf name, m'.lookup x = m.lookup x) ∧
      ∃ d : Except Fault Move,
        next.run m [.str name] = d.map (fun d => d.applied name m) ∧
        next.run m' [.str name] = d.map fun d => d.applied name m') ↔
    ¬ (Crosses name other ∨ Crosses other name) := by
  rw [← exists_common_variable_iff hne]
  constructor
  · rintro h ⟨x, hx, hx'⟩
    -- beginning the other loop where there are no variables yet gives the common one a value
    have hbegin : iterate.run ({ program := #[] } : Machine ν) [.str other, .int 0, .int 1] =
        .ok (_, .void) := rfl
    have hsame := (h _ _ _ _ _ rfl hbegin).1 x hx
    exact get?_begun_ne_none hx' hsame
  · intro hapart f m m' args v hargs hrun
    have hsame : ∀ x ∈ variablesOf name, m'.bindings.get? x = m.bindings.get? x :=
      fun x hx => get?_of_run hargs hrun fun hx' => hapart ⟨x, hx, hx'⟩
    refine ⟨hsame, move m.bindings name, advance_eq_map_move m name, ?_⟩
    rw [← move_congr hsame]
    exact advance_eq_map_move m' name

/-- Inside the second of two nested loops. -/
def nested : Machine Native :=
  { program := #[], pc := 4
    bindings := begun (begun [] (text "row") 0 3 0) (text "column") 5 7 1 }

/-- The inner loop goes on, and the outer one does not notice. -/
theorem loops_apart_iff_names_do_not_cross_nested :
    next.run nested [.str (text "column")]
      = .ok ((Move.again 6 1).applied (text "column") nested) ∧
    ∀ x ∈ variablesOf (text "row"),
      ((Move.again 6 1).applied (text "column") nested).1.lookup x = nested.lookup x := by
  have hmove : move nested.bindings (text "column") = .ok (.again 6 1) := by decide +kernel
  have hrun : next.run nested [.str (text "column")]
      = .ok ((Move.again 6 1).applied (text "column") nested) := by
    rw [run, advance_eq_map_move, hmove]
    rfl
  have hne : text "row" ≠ text "column" := by decide +kernel
  have hapart := (loops_apart_iff_names_do_not_cross Native hne).mpr (by decide +kernel)
  exact ⟨hrun, (hapart _ _ _ _ _ rfl hrun).1⟩

/-- A loop named `end:x` keeps its body where the loop named `x` keeps its last value. -/
theorem not_loops_always_apart :
    ¬ ∀ (name other : Bytes) (f : LoopFunction) (m m' : Machine Native) (args : List Value)
      (v : Value), name ≠ other → args.head? = some (.str other) → f.run m args = .ok (m', v) →
      ∀ x ∈ variablesOf name, m'.lookup x = m.lookup x := by
  intro h
  let m : Machine Native := { program := #[], pc := 1, bindings := begun [] (text "x") 0 1 0 }
  have hbegin : iterate.run m [.str (text "end:x"), .int 5, .int 6] = .ok (_, .void) := rfl
  have hsame := h (text "x") (text "end:x") _ _ _ _ _ (by decide +kernel) rfl hbegin
    (lastName (text "x")) (by decide +kernel)
  exact absurd hsame (by decide +kernel)

end LoopFunction

end JumpScript
