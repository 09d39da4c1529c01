import JumpScript.Proofs.Library.Arguments
import JumpScript.Proofs.Machine.Turns

/-!
# Refused statements

A statement is refused when something that it needs is not there: a variable, a label, values of
the right kind, a divisor that is not zero, a call to return from, a native function.  `Refused`
lists the reasons by what the machine holds, without executing anything.

A step fails without a native function having run exactly when its statement is refused, and then
the step is counted and noted and nothing else has changed.
-/

namespace JumpScript

/-! ### Operators and relations that are not defined -/

def Operator.verb : Operator → Verb
  | .add => .add
  | .sub => .subtract
  | .mul => .multiply
  | .div => .divide
  | .mod => .modulo

/-- Whether an operator has no result for a divisor that is zero. -/
def Operator.divides : Operator → Bool
  | .div | .mod => true
  | .add | .sub | .mul => false

def Comparator.verb : Comparator → Verb
  | .eq | .ne => .compare
  | .lt | .gt | .le | .ge => .order

/-- Whether a relation is defined between two values: two numbers, two strings, or two bools unless
it is a relation of order. -/
def Comparator.relates (op : Comparator) (a b : Value) : Bool :=
  (a.isNumber && b.isNumber) || (a.kind == .string && b.kind == .string) ||
    (op.verb == .compare && a.kind == .bool && b.kind == .bool)

/-- The native function that an action calls, with the arguments. -/
def Action.nativeCall? : Action → Option (CallTarget × List Operand)
  | .assignCall _ target args | .call target args => some (target, args)
  | _ => none

namespace Value

/-- Whether a divisor is zero.  Between ints that is the int; as soon as a float takes part, the
divisor counts as a float. -/
def zeroDivisor (a b : Value) : Bool :=
  match a, b with
  | .int _, .int n => n == 0
  | _, _ => b.toFloat == 0

theorem isNumber_cases {v : Value} (h : v.isNumber = true) :
    (∃ n, v = .int n) ∨ ∃ x, v = .float x := by
  cases v with
  | int n => exact Or.inl ⟨n, rfl⟩
  | float x => exact Or.inr ⟨x, rfl⟩
  | _ => cases h

/-- Arithmetic fails on values that are not numbers, and otherwise only for a divisor that is
zero. -/
theorem arithmetic_eq_error_iff (divides : Bool) {verb : Verb}
    {ints : Int64 → Int64 → Except Fault Int64} {floats : Float → Float → Except Fault Float}
    {f : Fault}
    (hints : ∀ x y, ints x y = .error f ↔ divides = true ∧ y = 0 ∧ .divisionByZero = f)
    (hfloats : ∀ x y, floats x y = .error f ↔
      divides = true ∧ (y == 0) = true ∧ .divisionByZero = f) (a b : Value) :
    arithmetic verb ints floats a b = .error f ↔
      ((a.isNumber && b.isNumber) = false ∧ .kindMismatch verb a.kind b.kind = f) ∨
      ((a.isNumber && b.isNumber) = true ∧ divides = true ∧ zeroDivisor a b = true ∧
        .divisionByZero = f) := by
  cases hnumbers : a.isNumber && b.isNumber with
  | false => simp [arithmetic, hnumbers]
  | true =>
      rw [Bool.and_eq_true] at hnumbers
      obtain ⟨x, rfl⟩ | ⟨x, rfl⟩ := isNumber_cases hnumbers.1
      · obtain ⟨y, rfl⟩ | ⟨y, rfl⟩ := isNumber_cases hnumbers.2
        · simp [arithmetic, isNumber, kind, map_eq_error_iff, zeroDivisor, hints]
        · simp [arithmetic, isNumber, kind, map_eq_error_iff, zeroDivisor, hfloats]
      · obtain ⟨y, rfl⟩ | ⟨y, rfl⟩ := isNumber_cases hnumbers.2
        · simp [arithmetic, isNumber, kind, map_eq_error_iff, zeroDivisor, hfloats]
        · simp [arithmetic, isNumber, kind, map_eq_error_iff, zeroDivisor, hfloats]

theorem equals_eq_error_iff {a b : Value} {f : Fault} :
    a.equals b = .error f ↔
      Comparator.eq.relates a b = false ∧ .kindMismatch .compare a.kind b.kind = f := by
  cases a <;> cases b <;> simp [equals, Comparator.relates, Comparator.verb, isNumber, kind]

theorem compare_eq_error_iff {a b : Value} {f : Fault} :
    a.compare b = .error f ↔
      Comparator.lt.relates a b = false ∧ .kindMismatch .order a.kind b.kind = f := by
  cases a <;> cases b <;> simp [compare, order, Comparator.relates, Comparator.verb, isNumber, kind]

end Value

namespace Machine

theorem compute_eq_error_iff {op : Operator} {a b : Value} {f : Fault} :
    compute op a b = .error f ↔
      ((a.isNumber && b.isNumber) = false ∧ .kindMismatch op.verb a.kind b.kind = f) ∨
      ((a.isNumber && b.isNumber) = true ∧ op.divides = true ∧ a.zeroDivisor b = true ∧
        .divisionByZero = f) := by
  cases op with
  | add =>
      rw [compute, Value.add, Value.arithmetic_eq_error_iff false]
      · rfl
      all_goals simp
  | sub =>
      rw [compute, Value.sub, Value.arithmetic_eq_error_iff false]
      · rfl
      all_goals simp
  | mul =>
      rw [compute, Value.mul, Value.arithmetic_eq_error_iff false]
      · rfl
      all_goals simp
  | div =>
      rw [compute, Value.div, Value.arithmetic_eq_error_iff true]
      · rfl
      all_goals simp [guard_eq_error_iff]
  | mod =>
      rw [compute, Value.mod, Value.arithmetic_eq_error_iff true]
      · rfl
      all_goals simp [guard_eq_error_iff]

theorem holds_eq_error_iff {op : Comparator} {a b : Value} {f : Fault} :
    holds op a b = .error f ↔
      op.relates a b = false ∧ .kindMismatch op.verb a.kind b.kind = f := by
  cases op with
  | eq => exact Value.equals_eq_error_iff
  | ne => exact map_eq_error_iff.trans Value.equals_eq_error_iff
  | lt => exact map_eq_error_iff.trans Value.compare_eq_error_iff
  | gt => exact map_eq_error_iff.trans Value.compare_eq_error_iff
  | le => exact map_eq_error_iff.trans Value.compare_eq_error_iff
  | ge => exact map_eq_error_iff.trans Value.compare_eq_error_iff

variable {ν : Type} {m : Machine ν} {a : Action} {f : Fault}

/-! ### Reasons -/

/-- Why a statement cannot be executed.  Operands are looked at from the left, so the first variable
without a value is the one that is named, and it is named before anything else goes wrong. -/
inductive Refused (m : Machine ν) : Action → Fault → Prop where
  | undefinedVariable {a : Action} {before after : List Operand} {name : Bytes}
      (hoperands : a.operands = before ++ .variable name :: after)
      (hbefore : ∀ v ∈ before, ∃ x, m.resolve v = .ok x) (hname : m.lookup name = none) :
      Refused m a (.variableNotFound name)
  | undefinedLabel {a : Action} {label : Bytes} (ha : a = .goto label ∨ a = .callLabel label)
      (hlabel : m.labels.get? label = none) : Refused m a (.labelNotFound label)
  | undefinedBranch {label : Bytes} {op : Comparator} {l r : Operand} {x y : Value}
      (hl : m.resolve l = .ok x) (hr : m.resolve r = .ok y) (htaken : holds op x y = .ok true)
      (hlabel : m.labels.get? label = none) :
      Refused m (.gotoIf label op l r) (.labelNotFound label)
  | notNumbers {name : Bytes} {op : Operator} {l r : Operand} {x y : Value}
      (hl : m.resolve l = .ok x) (hr : m.resolve r = .ok y)
      (hkinds : (x.isNumber && y.isNumber) = false) :
      Refused m (.compute name op l r) (.kindMismatch op.verb x.kind y.kind)
  | zeroDivisor {name : Bytes} {op : Operator} {l r : Operand} {x y : Value}
      (hl : m.resolve l = .ok x) (hr : m.resolve r = .ok y)
      (hnumbers : (x.isNumber && y.isNumber) = true) (hop : op.divides = true)
      (hzero : x.zeroDivisor y = true) : Refused m (.compute name op l r) .divisionByZero
  | notRelated {label : Bytes} {op : Comparator} {l r : Operand} {x y : Value}
      (hl : m.resolve l = .ok x) (hr : m.resolve r = .ok y) (hkinds : op.relates x y = false) :
      Refused m (.gotoIf label op l r) (.kindMismatch op.verb x.kind y.kind)
  | noPendingCall (hcalls : m.calls = []) : Refused m .ret .emptyCallStack
  | missingFunction {a : Action} {target : CallTarget} {args : List Operand}
      (ha : a.nativeCall? = some (target, args)) (hargs : ∀ v ∈ args, ∃ x, m.resolve v = .ok x)
      (hfunction : m.natives.get? target.key = none) :
      Refused m a (.functionNotFound target.key)

/-- The native function that an action gets to run: it is known, and all arguments have values. -/
def reached? (m : Machine ν) (a : Action) : Option ν := do
  let (target, args) ← a.nativeCall?
  let _ ← (args.mapM m.resolve).toOption
  m.natives.get? target.key

theorem resolve_eq_error_iff {v : Operand} :
    m.resolve v = .error f ↔
      ∃ name, v = .variable name ∧ m.lookup name = none ∧ .variableNotFound name = f := by
  match v with
  | .variable name =>
      cases hname : m.lookup name with
      | none => simp [resolve, hname]
      | some x => simp [resolve, hname]
  | .bool _ | .int _ | .float _ | .str _ => simp [resolve]

theorem changed_eq_error_iff {m' : Machine ν} {r : Except Fault (Machine ν)} {e : Failure} :
    m.changed r = (m', .error e) ↔ m = m' ∧ ∃ f, r = .error f ∧ .fault f = e := by
  cases r with
  | ok m'' => simp [changed]
  | error f => simp [changed]

theorem changed_eq_ok_iff {m' : Machine ν} {r : Except Fault (Machine ν)} :
    m.changed r = (m', .ok ()) ↔ r = .ok m' := by
  cases r with
  | ok m'' => simp [changed]
  | error f => simp [changed]

/-! ### Operands without a value -/

/-- An action whose operands do not all have values fails for want of the first. -/
theorem exec_of_operands_error (host : Host ν) (h : a.operands.mapM m.resolve = .error f) :
    m.exec host a = (m, .error (.fault f)) := by
  cases a with
  | assign name v =>
      obtain h | ⟨x, -, h⟩ := bind_eq_error_iff.mp h
      · rw [exec, h]
        rfl
      · cases h
  | compute name op l r =>
      obtain h | ⟨x, hl, h⟩ := mapM_pair_eq_error_iff.mp h
      · rw [exec, h]
        rfl
      · rw [exec, hl, h]
        rfl
  | assignCall name target args =>
      have hargs : args.mapM m.resolve = .error f := h
      rw [exec, callSite, hargs]
  | call target args =>
      have hargs : args.mapM m.resolve = .error f := h
      rw [exec, callSite, hargs]
  | gotoIf label op l r =>
      obtain h | ⟨x, hl, h⟩ := mapM_pair_eq_error_iff.mp h
      · rw [exec, h]
        rfl
      · rw [exec, hl, h]
        rfl
  | label name => cases h
  | goto label => cases h
  | callLabel label => cases h
  | ret => cases h

theorem refused_of_operands_error (h : a.operands.mapM m.resolve = .error f) : Refused m a f := by
  obtain ⟨before, v, after, hoperands, hbefore, hv⟩ := mapM_eq_error_iff.mp h
  obtain ⟨name, rfl, hname, rfl⟩ := resolve_eq_error_iff.mp hv
  exact Refused.undefinedVariable hoperands hbefore hname

/-! ### Refusal and execution -/

/-! Once their operands have values, an operator and a relation decide. -/

section Operands

variable {l r : Operand} {x y : Value}

theorem exec_compute (host : Host ν) (hl : m.resolve l = .ok x) (hr : m.resolve r = .ok y)
    (name : Bytes) (op : Operator) :
    m.exec host (.compute name op l r)
      = m.changed (compute op x y >>= fun v => .ok (m.assign name v)) := by
  rw [exec, hl, hr]
  rfl

theorem exec_gotoIf (host : Host ν) (hl : m.resolve l = .ok x) (hr : m.resolve r = .ok y)
    (label : Bytes) (op : Comparator) :
    m.exec host (.gotoIf label op l r)
      = m.changed (holds op x y >>= fun taken => if taken then m.jump label else .ok m) := by
  rw [exec, hl, hr]
  rfl

end Operands

theorem target_eq_error_iff {label : Bytes} :
    m.target label = .error f ↔ m.labels.get? label = none ∧ .labelNotFound label = f := by
  rw [target]
  cases m.labels.get? label with
  | none => simp
  | some i => simp

theorem target_eq_ok_iff {label : Bytes} {i : Nat} :
    m.target label = .ok i ↔ m.labels.get? label = some i := by
  rw [target]
  cases m.labels.get? label with
  | none => simp
  | some j => simp

theorem jump_eq_error_iff {label : Bytes} :
    m.jump label = .error f ↔ m.labels.get? label = none ∧ .labelNotFound label = f := by
  rw [jump, map_eq_error_iff, bind_eq_error_iff, target_eq_error_iff]
  apply or_iff_left
  rintro ⟨i, -, hi⟩
  cases hi

theorem callSite_of_missing (host : Host ν) {target : CallTarget} {args : List Operand}
    {vs : List Value} (hargs : args.mapM m.resolve = .ok vs)
    (hfunction : m.natives.get? target.key = none) :
    m.callSite host target args = (m, .error (.fault (.functionNotFound target.key))) := by
  rw [callSite, hargs]
  simp only [call, callWithin, dispatch, hfunction]

theorem exec_of_refused (host : Host ν) (h : Refused m a f) :
    m.exec host a = (m, .error (.fault f)) := by
  cases h with
  | @undefinedVariable _ before after name hoperands hbefore hname =>
      apply exec_of_operands_error
      rw [mapM_eq_error_iff]
      exact ⟨before, _, after, hoperands, hbefore, resolve_eq_error_iff.mpr ⟨name, rfl, hname, rfl⟩⟩
  | undefinedLabel ha hlabel =>
      rcases ha with rfl | rfl
      · rw [exec, jump_eq_error_iff.mpr ⟨hlabel, rfl⟩]
        rfl
      · rw [exec, target, hlabel]
        rfl
  | undefinedBranch hl hr htaken hlabel =>
      have hjump := jump_eq_error_iff.mpr ⟨hlabel, rfl⟩
      rw [exec_gotoIf host hl hr, htaken]
      change m.changed (m.jump _) = _
      rw [hjump]
      rfl
  | notNumbers hl hr hkinds =>
      rw [exec_compute host hl hr, compute_eq_error_iff.mpr (Or.inl ⟨hkinds, rfl⟩)]
      rfl
  | zeroDivisor hl hr hnumbers hop hzero =>
      rw [exec_compute host hl hr,
        compute_eq_error_iff.mpr (Or.inr ⟨hnumbers, hop, hzero, rfl⟩)]
      rfl
  | notRelated hl hr hkinds =>
      rw [exec_gotoIf host hl hr, holds_eq_error_iff.mpr ⟨hkinds, rfl⟩]
      rfl
  | noPendingCall hcalls => rw [exec, hcalls]
  | @missingFunction _ target args ha hargs hfunction =>
      obtain ⟨vs, hvs⟩ := exists_mapM_eq_ok_iff.mpr hargs
      have hsite := callSite_of_missing host hvs hfunction
      cases a with
      | assignCall name _ _ =>
          obtain ⟨rfl, rfl⟩ := Prod.mk.inj (Option.some.inj ha)
          rw [exec, hsite]
      | call _ _ =>
          obtain ⟨rfl, rfl⟩ := Prod.mk.inj (Option.some.inj ha)
          rw [exec, hsite]
      | _ => cases ha

theorem operands_of_nativeCall? {target : CallTarget} {args : List Operand}
    (ha : a.nativeCall? = some (target, args)) : a.operands = args := by
  cases a with
  | assignCall name _ _ => exact (Prod.mk.inj (Option.some.inj ha)).2
  | call _ _ => exact (Prod.mk.inj (Option.some.inj ha)).2
  | _ => cases ha

theorem reached?_eq_none_iff :
    m.reached? a = none ↔ ∀ target args vs, a.nativeCall? = some (target, args) →
      args.mapM m.resolve = .ok vs → m.natives.get? target.key = none := by
  constructor
  · intro h target args vs ha hvs
    rw [reached?, ha] at h
    simpa [hvs, Except.toOption] using h
  · intro h
    rw [reached?]
    cases ha : a.nativeCall? with
    | none => rfl
    | some site =>
        cases hvs : site.2.mapM m.resolve with
        | ok vs => simp [hvs, Except.toOption, h site.1 site.2 vs ha hvs]
        | error f => simp [hvs, Except.toOption]

theorem exists_call_of_reached? {f : ν} (h : m.reached? a = some f) :
    ∃ target args vs, a.nativeCall? = some (target, args) ∧ args.mapM m.resolve = .ok vs ∧
      m.natives.get? target.key = some f := by
  rw [reached?] at h
  obtain ⟨⟨target, args⟩, ha, h⟩ := Option.bind_eq_some_iff.mp h
  obtain ⟨vs, hvs, hf⟩ := Option.bind_eq_some_iff.mp h
  refine ⟨target, args, vs, ha, ?_, hf⟩
  cases hargs : args.mapM m.resolve with
  | ok ws =>
      rw [hargs] at hvs
      exact congrArg Except.ok (Option.some.inj hvs)
  | error f =>
      rw [hargs] at hvs
      cases hvs

theorem refused_of_missing {target : CallTarget} {args : List Operand} {vs : List Value}
    (ha : a.nativeCall? = some (target, args)) (hvs : args.mapM m.resolve = .ok vs)
    (hreached : m.reached? a = none) :
    Refused m a (.functionNotFound target.key) ∧ m.natives.get? target.key = none := by
  have hfunction := reached?_eq_none_iff.mp hreached target args vs ha hvs
  exact ⟨.missingFunction ha (exists_mapM_eq_ok_iff.mp ⟨vs, hvs⟩) hfunction, hfunction⟩

/-- An action that fails before it gets to run a native function is refused. -/
theorem refused_of_exec {host : Host ν} {m' : Machine ν} {e : Failure}
    (h : m.exec host a = (m', .error e)) (hreached : m.reached? a = none) :
    ∃ f, Refused m a f ∧ .fault f = e := by
  cases hoperands : a.operands.mapM m.resolve with
  | error f =>
      rw [exec_of_operands_error host hoperands] at h
      exact ⟨f, refused_of_operands_error hoperands, Except.error.inj (Prod.mk.inj h).2⟩
  | ok vs =>
      -- with all operands known, each action has its own way left to fail, or none
      have hvalues := exists_mapM_eq_ok_iff.mp ⟨vs, hoperands⟩
      cases a with
      | assign name v =>
          obtain ⟨x, hx⟩ := hvalues v List.mem_cons_self
          rw [exec, hx] at h
          cases h
      | compute name op l r =>
          obtain ⟨x, hx⟩ := hvalues l List.mem_cons_self
          obtain ⟨y, hy⟩ := hvalues r (List.mem_cons_of_mem l List.mem_cons_self)
          rw [exec_compute host hx hy] at h
          obtain ⟨-, f, hf, rfl⟩ := changed_eq_error_iff.mp h
          obtain hf | ⟨v, -, hf⟩ := bind_eq_error_iff.mp hf
          · obtain ⟨hkinds, rfl⟩ | ⟨hnumbers, hop, hzero, rfl⟩ := compute_eq_error_iff.mp hf
            · exact ⟨_, .notNumbers hx hy hkinds, rfl⟩
            · exact ⟨_, .zeroDivisor hx hy hnumbers hop hzero, rfl⟩
          · cases hf
      | assignCall name target args =>
          have hargs : args.mapM m.resolve = .ok vs := hoperands
          obtain ⟨hrefused, hfunction⟩ := refused_of_missing rfl hargs hreached
          rw [exec, callSite_of_missing host hargs hfunction] at h
          exact ⟨_, hrefused, Except.error.inj (Prod.mk.inj h).2⟩
      | call target args =>
          have hargs : args.mapM m.resolve = .ok vs := hoperands
          obtain ⟨hrefused, hfunction⟩ := refused_of_missing rfl hargs hreached
          rw [exec, callSite_of_missing host hargs hfunction] at h
          exact ⟨_, hrefused, Except.error.inj (Prod.mk.inj h).2⟩
      | label name => cases h
      | goto label =>
          obtain ⟨-, f, hf, rfl⟩ := changed_eq_error_iff.mp h
          obtain ⟨hlabel, rfl⟩ := jump_eq_error_iff.mp hf
          exact ⟨_, .undefinedLabel (Or.inl rfl) hlabel, rfl⟩
      | gotoIf label op l r =>
          obtain ⟨x, hx⟩ := hvalues l List.mem_cons_self
          obtain ⟨y, hy⟩ := hvalues r (List.mem_cons_of_mem l List.mem_cons_self)
          rw [exec_gotoIf host hx hy] at h
          obtain ⟨-, f, hf, rfl⟩ := changed_eq_error_iff.mp h
          obtain hf | ⟨taken, htaken, hf⟩ := bind_eq_error_iff.mp hf
          · obtain ⟨hkinds, rfl⟩ := holds_eq_error_iff.mp hf
            exact ⟨_, .notRelated hx hy hkinds, rfl⟩
          · cases taken with
            | true =>
                obtain ⟨hlabel, rfl⟩ := jump_eq_error_iff.mp hf
                exact ⟨_, .undefinedBranch hx hy htaken hlabel, rfl⟩
            | false => cases hf
      | callLabel label =>
          obtain ⟨-, f, hf, rfl⟩ := changed_eq_error_iff.mp h
          obtain hf | ⟨i, -, hf⟩ := bind_eq_error_iff.mp hf
          · obtain ⟨hlabel, rfl⟩ := target_eq_error_iff.mp hf
            exact ⟨_, .undefinedLabel (Or.inr rfl) hlabel, rfl⟩
          · cases hf
      | ret =>
          cases hcalls : m.calls with
          | nil =>
              rw [exec, hcalls] at h
              exact ⟨_, .noPendingCall hcalls, Except.error.inj (Prod.mk.inj h).2⟩
          | cons i calls =>
              rw [exec, hcalls] at h
              cases h

theorem reached?_of_refused (h : Refused m a f) : m.reached? a = none := by
  rw [reached?_eq_none_iff]
  intro target args vs ha hvs
  cases h with
  | @undefinedVariable _ before after name hoperands hbefore hname =>
      rw [operands_of_nativeCall? ha] at hoperands
      have hname' := resolve_eq_error_iff.mpr ⟨name, rfl, hname, rfl⟩
      rw [mapM_eq_error_iff.mpr ⟨before, _, after, hoperands, hbefore, hname'⟩] at hvs
      cases hvs
  | undefinedLabel hjump hlabel => rcases hjump with rfl | rfl <;> cases ha
  | missingFunction ha' hargs hfunction =>
      obtain ⟨rfl, rfl⟩ := Prod.mk.inj (Option.some.inj (ha.symm.trans ha'))
      exact hfunction
  | _ => cases ha

/-! ### Native calls -/

/-- An action that fails with a native function having run fails as this does, or for want of a
result. -/
theorem call_of_exec_error {host : Host ν} {m' : Machine ν} {e : Failure} {target : CallTarget}
    {args : List Operand} {vs : List Value}
    (ha : a.nativeCall? = some (target, args)) (hvs : args.mapM m.resolve = .ok vs)
    (h : m.exec host a = (m', .error e)) :
    call host target (args.map argumentName) vs m = (m', .error e) ∨
    ∃ name, a = .assignCall name target args ∧
      call host target (args.map argumentName) vs m = (m', .ok .void) := by
  have hsite : m.callSite host target args
      = call host target (args.map argumentName) vs m := by
    rw [callSite, hvs]
  cases a with
  | assignCall name _ _ =>
      obtain ⟨rfl, rfl⟩ := Prod.mk.inj (Option.some.inj ha)
      rw [exec, hsite] at h
      split at h
      · rename_i heq
        cases h
        exact Or.inl heq
      · rename_i m₁ v heq
        split at h
        · rename_i hvoid
          obtain rfl := Value.isVoid_iff.mp hvoid
          obtain ⟨rfl, -⟩ := Prod.mk.inj h
          exact Or.inr ⟨name, rfl, heq⟩
        · cases h
  | call _ _ =>
      obtain ⟨rfl, rfl⟩ := Prod.mk.inj (Option.some.inj ha)
      rw [exec, hsite] at h
      split at h
      · rename_i heq
        cases h
        exact Or.inl heq
      · cases h
  | _ => cases ha

/-- An action that succeeds with a native function has called it with all arguments, and may have
assigned the result. -/
theorem call_of_exec_ok {host : Host ν} {m' : Machine ν} {target : CallTarget}
    {args : List Operand} (ha : a.nativeCall? = some (target, args))
    (h : m.exec host a = (m', .ok ())) :
    ∃ vs m'' v, args.mapM m.resolve = .ok vs ∧
      call host target (args.map argumentName) vs m = (m'', .ok v) ∧
      (m' = m'' ∨
        ∃ name, a = .assignCall name target args ∧ v ≠ .void ∧ m' = m''.assign name v) := by
  cases hvs : args.mapM m.resolve with
  | error f =>
      rw [← operands_of_nativeCall? ha] at hvs
      rw [exec_of_operands_error host hvs] at h
      cases h
  | ok vs =>
      have hsite : m.callSite host target args
          = call host target (args.map argumentName) vs m := by
        rw [callSite, hvs]
      cases a with
      | assignCall name _ _ =>
          obtain ⟨rfl, rfl⟩ := Prod.mk.inj (Option.some.inj ha)
          rw [exec, hsite] at h
          split at h
          · cases h
          · rename_i m'' v heq
            split at h
            · cases h
            · rename_i hvoid
              obtain ⟨rfl, -⟩ := Prod.mk.inj h
              rw [Value.isVoid_iff] at hvoid
              exact ⟨vs, m'', v, rfl, heq, Or.inr ⟨name, rfl, hvoid, rfl⟩⟩
      | call _ _ =>
          obtain ⟨rfl, rfl⟩ := Prod.mk.inj (Option.some.inj ha)
          rw [exec, hsite] at h
          split at h
          · cases h
          · rename_i m'' v heq
            obtain ⟨rfl, -⟩ := Prod.mk.inj h
            exact ⟨vs, m'', v, rfl, heq, Or.inl rfl⟩
      | _ => cases ha

/-! ### Steps -/

section Congruence

variable {m' : Machine ν}

theorem resolve_congr (h : m'.bindings = m.bindings) (v : Operand) :
    m'.resolve v = m.resolve v := by
  match v with
  | .variable name => rw [resolve, resolve, lookup, lookup, h]
  | .bool _ | .int _ | .float _ | .str _ => rfl

/-- The variables, the labels, the pending calls and the known functions decide what is refused. -/
theorem Refused.congr (h : Refused m a f) (hbindings : m'.bindings = m.bindings)
    (hlabels : m'.labels = m.labels) (hcalls : m'.calls = m.calls)
    (hnatives : m'.natives = m.natives) : Refused m' a f := by
  have hresolve := resolve_congr hbindings
  cases h with
  | undefinedVariable hoperands hbefore hname =>
      refine .undefinedVariable hoperands (by simpa only [hresolve] using hbefore) ?_
      rw [lookup, hbindings]
      exact hname
  | undefinedLabel ha hlabel => exact .undefinedLabel ha (hlabels ▸ hlabel)
  | undefinedBranch hl hr htaken hlabel =>
      exact .undefinedBranch ((hresolve _).trans hl) ((hresolve _).trans hr) htaken
        (hlabels ▸ hlabel)
  | notNumbers hl hr hkinds =>
      exact .notNumbers ((hresolve _).trans hl) ((hresolve _).trans hr) hkinds
  | zeroDivisor hl hr hnumbers hop hzero =>
      exact .zeroDivisor ((hresolve _).trans hl) ((hresolve _).trans hr) hnumbers hop hzero
  | notRelated hl hr hkinds =>
      exact .notRelated ((hresolve _).trans hl) ((hresolve _).trans hr) hkinds
  | noPendingCall hempty => exact .noPendingCall (hcalls.trans hempty)
  | missingFunction ha hargs hfunction =>
      exact .missingFunction ha (by simpa only [hresolve] using hargs) (hnatives ▸ hfunction)

end Congruence

theorem anchor_fault {st : Statement} (hf : f ≠ .endless) :
    anchor st (.fault f) = .anchored [] (anchorFault st f) := by
  cases f with
  | endless => exact absurd rfl hf
  | _ => rfl

theorem anchor_of_refused {st : Statement} {a : Action} (h : Refused m a f) :
    anchor st (.fault f) = .anchored [] (anchorFault st f) := by
  cases h <;> rfl

/-- A step fails without a native function having run if and only if its statement is refused.  Then
one more step is counted, the step is noted, the failure is the reason of the refusal at the
statement, and the machine is otherwise the one before the step. -/
theorem refused_step_changes_nothing (host : Host ν) (m m' : Machine ν) (st : Statement)
    (e : Failure) :
    (m.step host st = (m', .error e) ∧ m.reached? st.action = none) ↔
      ∃ f, Refused m st.action f ∧
        m' = { m with steps := m.steps + 1, journal := m.journal.note (.step m.pc st) } ∧
        e = .anchored [] (anchorFault st f) := by
  have hrefused : ∀ f, Refused (m.counted st) st.action f ↔ Refused m st.action f := by
    intro f
    constructor
    · intro h
      exact h.congr rfl rfl rfl rfl
    · intro h
      exact h.congr rfl rfl rfl rfl
  have hreached : (m.counted st).reached? st.action = none ↔ m.reached? st.action = none := by
    rw [reached?_eq_none_iff, reached?_eq_none_iff]
    rfl
  constructor
  · rintro ⟨hstep, hnone⟩
    obtain ⟨e', hexec, rfl⟩ := step_eq_error_iff.mp hstep
    obtain ⟨f, hf, rfl⟩ := refused_of_exec hexec (hreached.mpr hnone)
    rw [exec_of_refused host hf] at hexec
    exact ⟨f, (hrefused f).mp hf, (Prod.mk.inj hexec).1.symm, anchor_of_refused hf⟩
  · rintro ⟨f, hf, rfl, rfl⟩
    refine ⟨?_, reached?_of_refused hf⟩
    rw [← anchor_of_refused hf]
    exact step_of_exec_error (exec_of_refused host ((hrefused f).mpr hf))

end Machine

end JumpScript
