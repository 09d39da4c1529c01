import JumpScript.Proofs.Machine.Control
import JumpScript.Proofs.Machine.Refusal
import JumpScript.Proofs.Value.Region

/-!
# Machines confined to a region

A machine is confined to a region of the heap if its variables and its operand stack are within it.
Native functions that are given values of such a region leave a machine that is confined to a region
that has at most grown, and give a value of it or none at all.  So do functions that call others,
and so do statements, which never assign a result that is not there.
-/

namespace JumpScript

variable {ν : Type} {m m' : Machine ν} {S T : Set Handle} {args : List Value}

namespace Machine

/-- The variables and the operand stack are within a region of the heap. -/
structure Confined (m : Machine ν) (S : Set Handle) : Prop where
  heap : m.heap.Closed S
  bindings : ∀ name v, m.lookup name = some v → v.Within S
  operands : ∀ v ∈ m.operands, v.Within S

theorem Confined.of_eq (h : m.Confined S) (hheap : m'.heap = m.heap)
    (hbindings : m'.bindings = m.bindings) (hoperands : m'.operands = m.operands) :
    m'.Confined S where
  heap := hheap ▸ h.heap
  bindings name v hv := by
    rw [lookup, hbindings] at hv
    exact h.bindings name v hv
  operands := hoperands ▸ h.operands

theorem Confined.assign (h : m.Confined S) {v : Value} (hv : v.Within S) (name : Bytes) :
    (m.assign name v).Confined S where
  heap := h.heap
  bindings other w hw := by
    rw [lookup, Machine.assign, Table.get?_insert] at hw
    split at hw
    · cases hw
      exact hv
    · exact h.bindings other w hw
  operands := h.operands

theorem Confined.unassign (h : m.Confined S) (name : Bytes) : (m.unassign name).Confined S where
  heap := h.heap
  bindings other w hw := by
    rw [lookup, Machine.unassign, Table.get?_erase] at hw
    split at hw
    · cases hw
    · exact h.bindings other w hw
  operands := h.operands

/-- A machine with another heap, in which the region has at most grown. -/
theorem Confined.grow (h : m.Confined S) (hST : S ⊆ T) {τ : Heap} (hτ : τ.Closed T) :
    ({ m with heap := τ } : Machine ν).Confined T where
  heap := hτ
  bindings name v hv := (h.bindings name v hv).mono hST
  operands v hv := (h.operands v hv).mono hST

/-! ### Outcomes -/

/-- What a native function leaves and gives: a machine confined to a region that has at most grown,
and a result within it, if there is one. -/
def Keeps (S : Set Handle) (r : Machine ν × Except Failure Value) : Prop :=
  ∃ T, S ⊆ T ∧ r.1.Confined T ∧ ∀ v, r.2 = .ok v → v = .void ∨ v.Within T

theorem keeps_of_confined (h : m.Confined S) {r : Except Failure Value}
    (hr : ∀ v, r = .ok v → v = .void ∨ v.Within S) : Keeps S (m, r) :=
  ⟨S, subset_rfl, h, hr⟩

theorem keeps_error (h : m.Confined S) (e : Failure) : Keeps S (m, .error e) :=
  keeps_of_confined h (by simp)

theorem keeps_void (h : m.Confined S) : Keeps S (m, .ok .void) :=
  keeps_of_confined h (by simp)

theorem keeps_value (h : m.Confined S) {v : Value} (hv : v.Within S) : Keeps S (m, .ok v) := by
  apply keeps_of_confined h
  intro w hw
  cases hw
  exact Or.inr hv

end Machine

/-! ### Functions that only compute

A value within the empty set is neither void nor an array. -/

theorem Value.Within.of_empty {v : Value} (h : v.Within ∅) : v.Within S :=
  h.mono (Set.empty_subset S)

theorem Value.within_of_isNumber {v : Value} (h : v.isNumber = true) : v.Within ∅ := by
  obtain ⟨n, rfl⟩ | ⟨x, rfl⟩ := isNumber_cases h
  · exact trivial
  · exact trivial

theorem Value.within_arithmetic {verb : Verb} {ints : Int64 → Int64 → Except Fault Int64}
    {floats : Float → Float → Except Fault Float} {a b v : Value}
    (h : arithmetic verb ints floats a b = .ok v) : v.Within ∅ := by
  rw [arithmetic.eq_def] at h
  split at h
  · split at h
    · obtain ⟨n, -, rfl⟩ := map_eq_ok_iff.mp h
      exact trivial
    · obtain ⟨x, -, rfl⟩ := map_eq_ok_iff.mp h
      exact trivial
  · cases h

theorem Machine.within_compute {op : Operator} {a b v : Value} (h : compute op a b = .ok v) :
    v.Within ∅ := by
  cases op with
  | add => exact Value.within_arithmetic (show Value.add a b = .ok v from h)
  | sub => exact Value.within_arithmetic (show Value.sub a b = .ok v from h)
  | mul => exact Value.within_arithmetic (show Value.mul a b = .ok v from h)
  | div => exact Value.within_arithmetic (show Value.div a b = .ok v from h)
  | mod => exact Value.within_arithmetic (show Value.mod a b = .ok v from h)

theorem Value.isNumber_of_asNumber {a v : Value} (h : a.asNumber = .ok v) :
    v.isNumber = true := by
  rw [asNumber] at h
  split at h
  · cases h
    assumption
  · cases h

theorem ConversionFunction.within_run {f : ConversionFunction} {v : Value}
    (h : f.run args = .ok v) : v.Within ∅ := by
  obtain ⟨a, -, h⟩ := bind_eq_ok_iff.mp h
  cases f with
  | readInt =>
      obtain ⟨s, -, h⟩ := bind_eq_ok_iff.mp h
      split at h
      · cases h
        exact trivial
      · cases h
  | writeInt =>
      obtain ⟨n, -, h⟩ := bind_eq_ok_iff.mp h
      cases h
      exact trivial
  | readFloat =>
      obtain ⟨s, -, h⟩ := bind_eq_ok_iff.mp h
      split at h
      · cases h
        exact trivial
      · cases h
  | writeFloat =>
      obtain ⟨x, -, h⟩ := bind_eq_ok_iff.mp h
      cases h
      exact trivial
  | kind =>
      cases h
      exact trivial

namespace MathFunction

theorem within_total {acc v : Value} {vs : List Value} (hacc : acc.Within ∅)
    (h : total acc vs = .ok v) : v.Within ∅ := by
  induction vs generalizing acc with
  | nil =>
      cases h
      exact hacc
  | cons w vs ih =>
      rw [total] at h
      split at h
      · obtain ⟨sum, hsum, h⟩ := bind_eq_ok_iff.mp h
        exact ih (Value.within_arithmetic hsum) h
      · cases h

theorem pick_eq_ok {wanted : Ordering} {a b v : Value} (h : pick wanted a b = .ok v) :
    v = a ∨ v = b := by
  obtain ⟨o, -, h⟩ := bind_eq_ok_iff.mp h
  cases h
  split
  · exact Or.inl rfl
  · exact Or.inr rfl

theorem within_rounded {round : Float → Int} {v : Value} (h : rounded round args = .ok v) :
    v.Within ∅ := by
  obtain ⟨a, -, h⟩ := bind_eq_ok_iff.mp h
  obtain ⟨w, hw, h⟩ := bind_eq_ok_iff.mp h
  have hnumber := Value.isNumber_of_asNumber hw
  split at h
  · cases h
    exact trivial
  · cases h
    exact Value.within_of_isNumber hnumber

theorem within_run (hargs : ∀ v ∈ args, v.Within S) {f : MathFunction} {τ : Heap} {v : Value}
    (h : f.run τ args = .ok v) : v.Within S := by
  cases f with
  | sum =>
      obtain ⟨a, -, h⟩ := bind_eq_ok_iff.mp h
      obtain ⟨k, -, h⟩ := bind_eq_ok_iff.mp h
      have hzero : (Value.int 0).Within ∅ := trivial
      exact (within_total hzero h).of_empty
  | abs =>
      obtain ⟨a, -, h⟩ := bind_eq_ok_iff.mp h
      obtain ⟨w, -, h⟩ := bind_eq_ok_iff.mp h
      split at h
      · cases h
        exact trivial
      · cases h
        exact trivial
  | min =>
      obtain ⟨⟨a, b⟩, hab, h⟩ := bind_eq_ok_iff.mp h
      rw [Arguments.two_eq_ok_iff] at hab
      exact hargs v (by simpa [hab] using pick_eq_ok h)
  | max =>
      obtain ⟨⟨a, b⟩, hab, h⟩ := bind_eq_ok_iff.mp h
      rw [Arguments.two_eq_ok_iff] at hab
      exact hargs v (by simpa [hab] using pick_eq_ok h)
  | pow =>
      obtain ⟨⟨a, b⟩, -, h⟩ := bind_eq_ok_iff.mp h
      obtain ⟨base, -, h⟩ := bind_eq_ok_iff.mp h
      obtain ⟨exponent, -, h⟩ := bind_eq_ok_iff.mp h
      split at h
      · split at h
        · cases h
          exact trivial
        · cases h
          exact trivial
      · cases h
        exact trivial
  | sqrt =>
      obtain ⟨a, -, h⟩ := bind_eq_ok_iff.mp h
      obtain ⟨w, -, h⟩ := bind_eq_ok_iff.mp h
      cases h
      exact trivial
  | floor => exact (within_rounded h).of_empty
  | ceil => exact (within_rounded h).of_empty

end MathFunction

theorem FileFunction.result_run {f : FileFunction} {fence : FileFence} {fs : Files} {v : Value}
    (h : (f.run fence fs args).2 = .ok v) : v = .void ∨ v.Within ∅ := by
  cases f with
  | read =>
      obtain ⟨a, -, h⟩ := bind_eq_ok_iff.mp h
      obtain ⟨name, -, h⟩ := bind_eq_ok_iff.mp h
      obtain ⟨contents, -, h⟩ := bind_eq_ok_iff.mp h
      cases h
      exact Or.inr trivial
  | write =>
      rw [run] at h
      dsimp only at h
      split at h
      · cases h
      · split at h
        · cases h
          exact Or.inl rfl
        · cases h
  | present =>
      obtain ⟨a, -, h⟩ := bind_eq_ok_iff.mp h
      obtain ⟨name, -, h⟩ := bind_eq_ok_iff.mp h
      obtain ⟨found, -, h⟩ := bind_eq_ok_iff.mp h
      cases h
      exact Or.inr trivial

/-! ### Functions that get the machine -/

open Machine (Confined Keeps keeps_of_confined keeps_error keeps_void keeps_value)

theorem LoopFunction.keeps_run (h : m.Confined S) (f : LoopFunction) :
    Ensures (f.run m args) fun r => Keeps S (r.1, .ok r.2) := by
  cases f with
  | iterate =>
      apply Ensures.bind
      rintro ⟨a, b, c⟩
      apply Ensures.bind
      intro name
      apply Ensures.bind
      intro first
      apply Ensures.bind
      intro limit
      split
      · exact Ensures.error _
      · exact Ensures.ok (keeps_void (((h.assign (by trivial) name).assign (by trivial) _).assign
          (by trivial) _))
  | next =>
      apply Ensures.bind
      intro a
      apply Ensures.bind
      intro name
      split
      · split
        · exact Ensures.error _
        · split
          · exact Ensures.ok (keeps_void (((h.unassign name).unassign _).unassign _))
          · apply Ensures.ok
            apply keeps_void
            exact Confined.of_eq (h.assign (by trivial) name) rfl rfl rfl
      · exact Ensures.error _

theorem RuntimeFunction.keeps_run (h : m.Confined S) (f : RuntimeFunction) :
    Ensures (f.run m args) fun r => Keeps S (r.1, .ok r.2) := by
  cases f with
  | gotoLabel =>
      apply Ensures.bind
      intro a
      apply Ensures.bind
      intro label
      rw [Machine.jump]
      cases m.target label with
      | error e => exact Ensures.error e
      | ok i => exact Ensures.ok (keeps_void (h.of_eq rfl rfl rfl))
  | breakpoint =>
      apply Ensures.bind
      intro a
      exact Ensures.ok (keeps_void (h.of_eq rfl rfl rfl))

theorem StackFunction.keeps_run (h : m.Confined S) (hargs : ∀ v ∈ args, v.Within S)
    (f : StackFunction) : Ensures (f.run m args) fun r => Keeps S (r.1, .ok r.2) := by
  cases f with
  | push =>
      rintro ⟨m', v⟩ hr
      obtain ⟨a, ha, hr⟩ := bind_eq_ok_iff.mp hr
      cases hr
      rw [Arguments.one_eq_ok_iff] at ha
      refine keeps_void ⟨h.heap, h.bindings, ?_⟩
      intro w hw
      rcases List.mem_cons.mp hw with rfl | hw
      · exact hargs w (by simp [ha])
      · exact h.operands w hw
  | pop =>
      apply Ensures.bind
      intro a
      rw [Machine.pop]
      split
      · exact Ensures.error _
      · rename_i v vs hoperands
        have hall : ∀ w ∈ v :: vs, w.Within S := hoperands ▸ h.operands
        have hpopped : ({ m with operands := vs } : Machine ν).Confined S :=
          ⟨h.heap, h.bindings, fun w hw => hall w (List.mem_cons_of_mem v hw)⟩
        exact Ensures.ok (keeps_value hpopped (hall v List.mem_cons_self))
  | length =>
      apply Ensures.bind
      intro a
      exact Ensures.ok (keeps_value h trivial)

theorem EnvironmentFunction.keeps_run (h : m.Confined S) (f : EnvironmentFunction) :
    Ensures (f.run m args) fun r => Keeps S (r.1, .ok r.2) := by
  cases f with
  | get =>
      apply Ensures.bind
      intro a
      apply Ensures.bind
      intro name
      exact Ensures.ok (keeps_value h trivial)
  | arguments =>
      apply Ensures.bind
      intro a
      have hitems : ∀ v ∈ (m.arguments.map Value.str).toArray, v.Within S := by
        intro v hv
        rw [List.mem_toArray] at hv
        obtain ⟨s, -, rfl⟩ := List.mem_map.mp hv
        exact trivial
      have hsub := Set.subset_insert (m.heap.alloc (m.arguments.map Value.str).toArray).2 S
      apply Ensures.ok
      refine ⟨_, hsub, h.grow hsub (h.heap.alloc hitems), ?_⟩
      intro v hv
      cases hv
      exact Or.inr (Set.mem_insert _ S)

theorem StreamFunction.keeps_run (h : m.Confined S) (f : StreamFunction) :
    Ensures (f.run m args) fun r => Keeps S (r.1, .ok r.2) := by
  cases f with
  | print | printLine | printFormat =>
      apply Ensures.bind
      intro a
      exact Ensures.ok (keeps_void (h.of_eq rfl rfl rfl))
  | «show» | showFormat | read | readLine =>
      apply Ensures.bind
      intro a
      apply Ensures.ok
      apply keeps_value
      · exact h.of_eq rfl rfl rfl
      · exact trivial

/-! ### All functions -/

/-- A way to call native functions that keeps to regions. -/
def Caller.Kept (caller : Caller ν) : Prop :=
  ∀ target names args m S, m.Confined S → (∀ v ∈ args, v.Within S) →
    Keeps S (caller target names args m)

/-- A host whose functions keep to regions if the functions that they call do. -/
def Host.Kept (host : Host ν) : Prop :=
  ∀ caller, Caller.Kept caller → ∀ f names args m S, m.Confined S → (∀ v ∈ args, v.Within S) →
    Keeps S (host.run caller f names args m)

namespace Native

variable {caller : Caller ν}

theorem keeps_computed (h : m.Confined S) {r : Except Fault Value}
    (hr : ∀ v, r = .ok v → v = .void ∨ v.Within S) : Keeps S (computed m r) := by
  apply keeps_of_confined h
  intro v hv
  exact hr v (mapError_eq_ok_iff.mp hv)

theorem keeps_onHeap (h : m.Confined S) {f : Heap → Heap × Except Fault Value}
    (hf : Heap.Keeps S (f m.heap)) : Keeps S (onHeap m f) := by
  obtain ⟨T, hST, hclosed, hr⟩ := hf
  refine ⟨T, hST, h.grow hST hclosed, ?_⟩
  intro v hv
  exact hr v (mapError_eq_ok_iff.mp hv)

theorem keeps_onMachine (h : m.Confined S) {x : Except Fault (Machine ν × Value)}
    (hx : Ensures x fun r => Keeps S (r.1, .ok r.2)) : Keeps S (onMachine m x) := by
  cases x with
  | ok r => exact hx r rfl
  | error e => exact keeps_error h _

theorem keeps_onFiles (h : m.Confined S) {r : Files × Except Fault Value}
    (hr : ∀ v, r.2 = .ok v → v = .void ∨ v.Within S) : Keeps S (onFiles m r) := by
  have hconfined : (onFiles m r).1.Confined S := h.of_eq rfl rfl rfl
  exact ⟨S, subset_rfl, hconfined, fun v hv => hr v (mapError_eq_ok_iff.mp hv)⟩

/-- An array is stored back only if it was given. -/
theorem confined_storeBack (h : m.Confined S) (hargs : ∀ v ∈ args, v.Within S)
    (names : List Bytes) : (storeBack m names args).Confined S := by
  rw [storeBack.eq_def]
  split
  · rename_i name _ v _
    split
    · exact h
    · exact h.assign (hargs v List.mem_cons_self) name
  · exact h

theorem keeps_runArray (h : m.Confined S) (hargs : ∀ v ∈ args, v.Within S) (f : ArrayFunction)
    (names : List Bytes) : Keeps S (runArray f names args m) := by
  obtain ⟨T, hST, hconfined, hr⟩ := keeps_onHeap h (f.keeps_run h.heap hargs)
  rw [runArray]
  split
  · rename_i m' v heq
    rw [heq] at hconfined hr
    refine ⟨T, hST, ?_, hr⟩
    split
    · exact confined_storeBack hconfined (fun v hv => (hargs v hv).mono hST) names
    · exact hconfined
  · rename_i m' e heq
    rw [heq] at hconfined hr
    exact ⟨T, hST, hconfined, hr⟩

/-- Calls one after another keep to a region, and results that are collected are within it. -/
theorem keeps_callEach (hcaller : Caller.Kept caller) (h : m.Confined S) (target : CallTarget)
    (collect : Bool) {vs : List Value} (hvs : ∀ v ∈ vs, v.Within S) :
    ∃ T, S ⊆ T ∧ (callEach caller target collect vs m).1.Confined T ∧
      ∀ rs, (callEach caller target collect vs m).2 = .ok rs → collect = true →
        ∀ r ∈ rs, r.Within T := by
  induction vs generalizing m S with
  | nil =>
      refine ⟨S, subset_rfl, h, ?_⟩
      intro rs hrs _
      cases hrs
      simp
  | cons v vs ih =>
      have hv : ∀ w ∈ [v], w.Within S := by simpa using hvs v List.mem_cons_self
      obtain ⟨T, hST, hconfined, hr⟩ := hcaller target [[]] [v] m S h hv
      rw [callEach]
      split
      · rename_i heq
        rw [heq] at hconfined
        exact ⟨T, hST, hconfined, by simp⟩
      · rename_i m₁ r heq
        rw [heq] at hconfined hr
        split
        · exact ⟨T, hST, hconfined, by simp⟩
        · rename_i hpresent
          have hrest : ∀ w ∈ vs, w.Within T := by
            intro w hw
            exact (hvs w (List.mem_cons_of_mem v hw)).mono hST
          obtain ⟨T', hTT', hconfined', hrs⟩ := ih hconfined hrest
          refine ⟨T', hST.trans hTT', ?_⟩
          split
          · rename_i heq'
            rw [heq'] at hconfined'
            exact ⟨hconfined', by simp⟩
          · rename_i m₂ rs heq'
            rw [heq'] at hconfined' hrs
            refine ⟨hconfined', ?_⟩
            intro rs' hrs' hcollect w hw
            cases hrs'
            rcases List.mem_cons.mp hw with rfl | hw
            · rcases hr w rfl with rfl | hwithin
              · rw [hcollect] at hpresent
                exact absurd rfl hpresent
              · exact hwithin.mono hTT'
            · exact hrs rs rfl hcollect w hw

theorem mapping_eq_ok {τ : Heap} {target : CallTarget} {items : List Value}
    (h : mapping τ args = .ok (target, items)) :
    ∃ k, .array k ∈ args ∧ items = (τ.items k).toList := by
  obtain ⟨⟨a, b, c⟩, hargs, h⟩ := bind_eq_ok_iff.mp h
  obtain ⟨module, -, h⟩ := bind_eq_ok_iff.mp h
  obtain ⟨function, -, h⟩ := bind_eq_ok_iff.mp h
  obtain ⟨k, hk, h⟩ := bind_eq_ok_iff.mp h
  cases h
  rw [Arguments.three_eq_ok_iff] at hargs
  rw [Value.asArray_eq_ok_iff] at hk
  exact ⟨k, by simp [hargs, hk], rfl⟩

theorem keeps_runMap (hcaller : Caller.Kept caller) (h : m.Confined S)
    (hargs : ∀ v ∈ args, v.Within S) (collect : Bool) :
    Keeps S (runMap caller collect args m) := by
  rw [runMap]
  split
  · exact keeps_error h _
  · rename_i target items hmapping
    obtain ⟨k, hk, rfl⟩ := mapping_eq_ok hmapping
    have hitems : ∀ v ∈ (m.heap.items k).toList, v.Within S := by
      intro v hv
      exact h.heap.within (hargs (.array k) hk) (Array.mem_toList_iff.mp hv)
    obtain ⟨T, hST, hconfined, hrs⟩ := keeps_callEach hcaller h target collect hitems
    split
    · rename_i heq
      rw [heq] at hconfined
      exact ⟨T, hST, hconfined, by simp⟩
    · rename_i m' results heq
      rw [heq] at hconfined hrs
      split
      · rename_i hcollect
        have hresults : ∀ v ∈ results.toArray, v.Within T := by
          intro v hv
          exact hrs results rfl hcollect v (List.mem_toArray.mp hv)
        have hsub := Set.subset_insert (m'.heap.alloc results.toArray).2 T
        refine ⟨_, hST.trans hsub, hconfined.grow hsub (hconfined.heap.alloc hresults), ?_⟩
        intro v hv
        cases hv
        exact Or.inr (Set.mem_insert _ T)
      · exact ⟨T, hST, hconfined, by simp⟩

theorem eq_void_of_assertEqual {σ : Heap} {v : Value}
    (h : JumpScript.assertEqual σ args = .ok v) : v = .void := by
  obtain ⟨⟨a, b⟩, -, h⟩ := bind_eq_ok_iff.mp h
  dsimp only at h
  split at h
  · cases h
  · exact (Except.ok.inj h).symm
  · split at h
    · cases h
    · cases h

theorem keeps_runDebug (h : m.Confined S) (args : List Value) : Keeps S (runDebug args m) := by
  obtain ⟨s, hrun⟩ | hrun := runDebug_cases args m
  · rw [hrun]
    exact keeps_void (h.of_eq rfl rfl rfl)
  · rw [hrun]
    exact keeps_error h _

/-- Every function of the library keeps to regions. -/
theorem kept_host : Native.host.Kept := by
  intro caller hcaller f names args m S h hargs
  change Keeps S (run caller f names args m)
  cases f with
  | array f => exact keeps_runArray h hargs f names
  | conversion f => exact keeps_computed h fun v hv => Or.inr (f.within_run hv).of_empty
  | environment f => exact keeps_onMachine h (f.keeps_run h)
  | file fence f =>
      exact keeps_onFiles h fun v hv => (FileFunction.result_run hv).imp_right (·.of_empty)
  | fetch fence =>
      apply keeps_computed h
      intro v hv
      obtain ⟨a, -, hv⟩ := bind_eq_ok_iff.mp hv
      obtain ⟨address, -, hv⟩ := bind_eq_ok_iff.mp hv
      obtain ⟨contents, -, hv⟩ := bind_eq_ok_iff.mp hv
      cases hv
      exact Or.inr trivial
  | stream f => exact keeps_onMachine h (f.keeps_run h)
  | loop f => exact keeps_onMachine h (f.keeps_run h)
  | document f => exact keeps_onHeap h (f.keeps_run h.heap args)
  | math f => exact keeps_computed h fun v hv => Or.inr (f.within_run hargs hv)
  | exit =>
      rw [run, runExit]
      split
      · exact keeps_error h _
      · exact keeps_error h _
  | runtime f => exact keeps_onMachine h (f.keeps_run h)
  | stack f => exact keeps_onMachine h (f.keeps_run h hargs)
  | map collect => exact keeps_runMap hcaller h hargs collect
  | string f => exact keeps_onHeap h (f.keeps_run h.heap args)
  | assertEqual =>
      apply keeps_computed h
      intro v hv
      rw [eq_void_of_assertEqual hv]
      exact Or.inl rfl
  | debug => exact keeps_runDebug h args

end Native

/-! ### Calls -/

namespace Machine

variable {host : Host ν}

theorem kept_dispatch (hhost : host.Kept) {inner : Caller ν} (hinner : Caller.Kept inner) :
    Caller.Kept (dispatch host inner) := by
  intro target names args m S h hargs
  rw [dispatch]
  split
  · exact keeps_error h _
  · rename_i f hf
    obtain ⟨T, hST, hconfined, hr⟩ := hhost inner hinner f names args m S h hargs
    split
    · rename_i heq
      rw [heq] at hconfined hr
      exact ⟨T, hST, hconfined, hr⟩
    · rename_i m' e heq
      rw [heq] at hconfined
      refine ⟨T, hST, ?_, by simp⟩
      rw [noteFailure_eq]
      exact hconfined.of_eq rfl rfl rfl

theorem kept_callWithin (hhost : host.Kept) (depth : Nat) :
    Caller.Kept (callWithin host depth) := by
  induction depth with
  | zero =>
      apply kept_dispatch hhost
      intro target names args m S h _
      exact keeps_error h _
  | succ depth ih => exact kept_dispatch hhost ih

/-! ### Statements -/

theorem Confined.resolve (h : m.Confined S) {o : Operand} {v : Value} (hv : m.resolve o = .ok v) :
    v.Within S := by
  match o with
  | .variable name =>
      rw [Machine.resolve] at hv
      split at hv
      · rename_i w hw
        cases hv
        exact h.bindings name v hw
      · cases hv
  | .bool _ | .int _ | .float _ | .str _ =>
      cases hv
      exact trivial

theorem Confined.callSite (hhost : host.Kept) (h : m.Confined S) (target : CallTarget)
    (args : List Operand) : Keeps S (m.callSite host target args) := by
  rw [Machine.callSite]
  split
  · exact keeps_error h _
  · rename_i vs hvs
    apply kept_callWithin hhost 1 target _ vs m S h
    intro v hv
    obtain ⟨o, -, ho⟩ := exists_of_mem_mapM hvs hv
    exact h.resolve ho

theorem Confined.changed (h : m.Confined S) {r : Except Fault (Machine ν)}
    (hr : ∀ m', r = .ok m' → m'.Confined S) : (m.changed r).1.Confined S := by
  cases r with
  | ok m' => exact hr m' rfl
  | error e => exact h

theorem Confined.jump (h : m.Confined S) {label : Bytes} (hm' : m.jump label = .ok m') :
    m'.Confined S := by
  obtain ⟨i, -, rfl⟩ := jump_eq_ok hm'
  exact h.of_eq rfl rfl rfl

/-- An action leaves a machine confined to a region that has at most grown. -/
theorem Confined.exec (hhost : host.Kept) (h : m.Confined S) (a : Action) :
    ∃ T, S ⊆ T ∧ (m.exec host a).1.Confined T := by
  cases a with
  | assign name o =>
      refine ⟨S, subset_rfl, h.changed ?_⟩
      intro m' hm'
      obtain ⟨v, hv, hm'⟩ := bind_eq_ok_iff.mp hm'
      cases hm'
      exact h.assign (h.resolve hv) name
  | compute name op l r =>
      refine ⟨S, subset_rfl, h.changed ?_⟩
      intro m' hm'
      obtain ⟨x, -, hm'⟩ := bind_eq_ok_iff.mp hm'
      obtain ⟨y, -, hm'⟩ := bind_eq_ok_iff.mp hm'
      obtain ⟨v, hv, hm'⟩ := bind_eq_ok_iff.mp hm'
      cases hm'
      exact h.assign (within_compute hv).of_empty name
  | assignCall name target args =>
      obtain ⟨T, hST, hconfined, hr⟩ := h.callSite hhost target args
      refine ⟨T, hST, ?_⟩
      rw [Machine.exec]
      split
      · rename_i heq
        rw [heq] at hconfined
        exact hconfined
      · rename_i m' v heq
        rw [heq] at hconfined hr
        split
        · exact hconfined
        · rename_i hvoid
          rcases hr v rfl with rfl | hv
          · exact absurd rfl hvoid
          · exact hconfined.assign hv name
  | call target args =>
      obtain ⟨T, hST, hconfined, -⟩ := h.callSite hhost target args
      refine ⟨T, hST, ?_⟩
      rw [Machine.exec]
      split
      · rename_i heq
        rw [heq] at hconfined
        exact hconfined
      · rename_i heq
        rw [heq] at hconfined
        exact hconfined
  | label name => exact ⟨S, subset_rfl, h⟩
  | goto label => exact ⟨S, subset_rfl, h.changed fun m' hm' => h.jump hm'⟩
  | gotoIf label op l r =>
      refine ⟨S, subset_rfl, h.changed ?_⟩
      intro m' hm'
      obtain ⟨x, -, hm'⟩ := bind_eq_ok_iff.mp hm'
      obtain ⟨y, -, hm'⟩ := bind_eq_ok_iff.mp hm'
      obtain ⟨taken, -, hm'⟩ := bind_eq_ok_iff.mp hm'
      cases taken with
      | true => exact h.jump hm'
      | false =>
          cases hm'
          exact h
  | callLabel label =>
      refine ⟨S, subset_rfl, h.changed ?_⟩
      intro m' hm'
      obtain ⟨i, -, hm'⟩ := bind_eq_ok_iff.mp hm'
      cases hm'
      exact h.of_eq rfl rfl rfl
  | ret =>
      refine ⟨S, subset_rfl, ?_⟩
      rw [Machine.exec]
      split
      · exact h
      · exact h.of_eq rfl rfl rfl

end Machine

end JumpScript
