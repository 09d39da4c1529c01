import JumpScript.Library.Registry
import JumpScript.Proofs.Machine.Calls
import JumpScript.Proofs.Machine.Confinement

/-!
# What is stored

A machine holds the values of its variables, those on its operand stack, and the elements of every
array that it holds.  It is sound if none of these is void and every array among them is there.
That is the case exactly if the machine is confined to a region of the heap, and a machine that is
stays so whatever it executes.
-/

namespace JumpScript

variable {ν σ : Type} {m m' : Machine ν} {S : Set Handle} {args : List Value}

/-- A value that is not void and, if it is an array, is there. -/
def Value.Proper (σ : Heap) : Value → Prop
  | .void => False
  | .array h => ∃ items, σ.get? h = some items
  | _ => True

/-- The values that a machine holds: in its variables, on its operand stack, and as elements of
arrays that it holds. -/
inductive Machine.Holds (m : Machine ν) : Value → Prop where
  | bound {name : Bytes} {v : Value} (h : m.lookup name = some v) : Holds m v
  | operand {v : Value} (h : v ∈ m.operands) : Holds m v
  | element {h : Handle} {v : Value} (hholds : Holds m (.array h)) (hv : v ∈ m.heap.items h) :
      Holds m v

namespace Machine

/-- Nothing that a machine holds is void or an array that is not there. -/
def Sound (m : Machine ν) : Prop := ∀ v, m.Holds v → v.Proper m.heap

theorem Confined.within (h : m.Confined S) {v : Value} (hv : m.Holds v) : v.Within S := by
  induction hv with
  | @bound name v hname => exact h.bindings name v hname
  | operand hmem => exact h.operands _ hmem
  | element _ hmem ih => exact h.heap.within ih hmem

theorem Confined.sound (h : m.Confined S) : m.Sound := by
  intro v hv
  have hwithin := h.within hv
  cases v with
  | void => exact hwithin
  | array k =>
      obtain ⟨items, hitems, -⟩ := h.heap.items k hwithin
      exact ⟨items, hitems⟩
  | _ => exact trivial

theorem within_of_sound (h : m.Sound) {v : Value} (hv : m.Holds v) :
    v.Within {k | m.Holds (.array k)} := by
  cases v with
  | void => exact h .void hv
  | array k => exact hv
  | _ => exact trivial

/-- The arrays that a sound machine holds are a region. -/
theorem confined_of_sound (h : m.Sound) : m.Confined {k | m.Holds (.array k)} where
  heap := by
    constructor
    intro k hk
    obtain ⟨items, hitems⟩ := h (.array k) hk
    refine ⟨items, hitems, ?_⟩
    intro v hv
    have hmem : v ∈ m.heap.items k := by
      rw [Heap.items, hitems]
      exact hv
    exact within_of_sound h (.element hk hmem)
  bindings name v hv := within_of_sound h (.bound hv)
  operands v hv := within_of_sound h (.operand hv)

variable {host : Host ν} {hook : Option (Hook σ ν)} {gas : Int}

theorem Sound.of_eq (h : m.Sound) (hheap : m'.heap = m.heap) (hbindings : m'.bindings = m.bindings)
    (hoperands : m'.operands = m.operands) : m'.Sound :=
  ((confined_of_sound h).of_eq hheap hbindings hoperands).sound

theorem Sound.step (hhost : host.Kept) (h : m.Sound) (st : Statement) :
    (m.step host st).1.Sound := by
  have hcounted : (m.counted st).Sound := h.of_eq rfl rfl rfl
  obtain ⟨T, -, hconfined⟩ := (confined_of_sound hcounted).exec hhost st.action
  rcases hexec : (m.counted st).exec host st.action with ⟨m', e | u⟩
  · rw [hexec] at hconfined
    rw [step_of_exec_error hexec]
    exact hconfined.sound
  · rw [hexec] at hconfined
    rw [step_of_exec_ok hexec]
    exact hconfined.sound.of_eq rfl rfl rfl

theorem Sound.turn (hhost : host.Kept) (hhook : ∀ h ∈ hook, Console.IsConsole h) (h : m.Sound)
    (st : Statement) (s : σ) : (m.turn host hook gas st s).1.1.Sound := by
  have hstep := h.step hhost st
  rw [Machine.turn]
  split
  · exact h
  · split
    · rename_i heq
      rw [heq] at hstep
      exact hstep
    · rename_i m' heq
      rw [heq] at hstep
      rw [pause_eq hhook m' s]
      exact hstep.of_eq rfl rfl rfl

theorem Sound.run (hhost : host.Kept) (hhook : ∀ h ∈ hook, Console.IsConsole h) (h : m.Sound)
    (n : Nat) (s : σ) : (m.run host hook gas n s).1.1.Sound := by
  rw [Machine.run]
  split
  · have hstart : (m.start host).Sound := h.of_eq rfl rfl rfl
    have hturn : ∀ (m : Machine ν) st s, m.Sound → (m.turn host hook gas st s).1.1.Sound := by
      intro m st s hm
      exact hm.turn hhost hhook st s
    have hturns := turns_keep hturn hstart n s
    split
    rename_i m' s' o heq
    rw [heq] at hturns
    rw [halt]
    split
    · exact hturns.of_eq rfl rfl rfl
    · exact hturns.of_eq rfl rfl rfl
  · exact h

theorem result_of_conversion {k : Machine Native} {target : CallTarget} {f : ConversionFunction}
    (hf : k.natives.get? target.key = some (.conversion f)) (depth : Nat) (names : List Bytes)
    (args : List Value) :
    (callWithin Native.host depth target names args k).2 = (f.run args).mapError .fault := by
  obtain ⟨inner, hinner⟩ := exists_callWithin_eq_dispatch Native.host depth
  rcases hcall : callWithin Native.host depth target names args k with ⟨k', r⟩
  rw [hinner] at hcall
  obtain ⟨k'', hrun, -⟩ := run_of_dispatch hf hcall
  exact (congrArg Prod.snd hrun).symm

theorem name_kind_ne_void {v : Value} (hv : v ≠ .void) : v.kind.name ≠ text "void" := by
  have hname : ∀ k : Kind, k ≠ .void → k.name ≠ text "void" := by
    intro k hk
    cases k with
    | void => exact absurd rfl hk
    | _ => decide
  apply hname
  cases v with
  | void => exact absurd rfl hv
  | _ => exact Kind.noConfusion

/-- The kind of a value that is not void is not called void. -/
theorem run_kind_ne_void (hargs : ∀ v ∈ args, v ≠ .void) :
    (ConversionFunction.kind.run args).mapError Failure.fault ≠ .ok (.str (text "void")) := by
  intro h
  obtain ⟨v, hv, h⟩ := bind_eq_ok_iff.mp (mapError_eq_ok_iff.mp h)
  rw [Arguments.one_eq_ok_iff] at hv
  have hname : v.kind.name = text "void" := Value.str.inj (Except.ok.inj h)
  exact name_kind_ne_void (hargs v (by simp [hv])) hname

/-- Nothing void and nothing that is not there is ever stored.  In every state that a run reaches,
what the machine holds is not void, and its arrays are there.  So no call finds that the kind of an
argument is void: not with what a statement gives it, and not with what a mapping does. -/
theorem run_stores_no_void (hook : Option (Hook σ Native))
    (hhook : ∀ h ∈ hook, Console.IsConsole h) (m : Machine Native) (s : σ) (hsound : m.Sound)
    (gas : Int) (n : Nat) :
    let now := (m.run Native.host hook gas n s).1.1
    now.Sound ∧
    (∀ target args, now.natives.get? target.key = some (.conversion .kind) →
      (now.callSite Native.host target args).2 ≠ .ok (.str (text "void"))) ∧
    ∀ v, now.Holds v → ∀ (k : Machine Native) (depth : Nat) (target : CallTarget)
      (names : List Bytes), k.natives.get? target.key = some (.conversion .kind) →
      (callWithin Native.host depth target names [v] k).2 ≠ .ok (.str (text "void")) := by
  intro now
  have hnow : now.Sound := hsound.run Native.kept_host hhook n s
  have hconfined := confined_of_sound hnow
  refine ⟨hnow, ?_, ?_⟩
  · intro target args hf
    rw [callSite]
    split
    · simp
    · rename_i vs hvs
      rw [call, result_of_conversion hf]
      apply run_kind_ne_void
      intro v hv
      obtain ⟨o, -, ho⟩ := exists_of_mem_mapM hvs hv
      exact (hconfined.resolve ho).ne_void
  · intro v hv k depth target names hf
    rw [result_of_conversion hf]
    apply run_kind_ne_void
    intro w hw
    obtain rfl := List.mem_singleton.mp hw
    exact (hconfined.within hv).ne_void

/-- An array that holds itself behind an int, and a program that takes it out and asks for its
kind. -/
def selfHolding : Machine Native where
  program :=
    #[atLine 1 (.assignCall (text "x") ⟨text "array", text "pop"⟩ [.variable (text "a")]),
      atLine 2 (.assignCall (text "t") ⟨text "convert", text "type"⟩ [.variable (text "x")])]
  bindings := [(text "a", .array ⟨1⟩)]
  heap := ⟨#[#[.int 7, .array ⟨1⟩]]⟩
  natives := Module.all.flatMap (·.registry {})

theorem sound_selfHolding : selfHolding.Sound := by
  apply Confined.sound (S := {⟨1⟩})
  refine ⟨⟨?_⟩, ?_, ?_⟩
  · rintro h rfl
    exact ⟨#[.int 7, .array ⟨1⟩], rfl, by simp [Value.Within]⟩
  · intro name v hv
    change (if text "a" = name then some (.array ⟨1⟩) else none) = some v at hv
    split at hv
    · cases hv
      exact rfl
    · cases hv
  · intro v hv
    cases hv

/-- What has been taken out is the array, and its kind is known. -/
theorem run_stores_no_void_selfHolding :
    let now := (selfHolding.run Native.host (none : Option (Hook Unit Native)) 0 2 ()).1.1
    now.Sound ∧ now.lookup (text "t") = some (.str (text "array")) := by
  intro now
  exact ⟨(run_stores_no_void (none : Option (Hook Unit Native)) (by simp) selfHolding ()
    sound_selfHolding 0 2).1, by decide +kernel⟩

end Machine

end JumpScript
