import JumpScript.Library.Registry
import JumpScript.Proofs.Machine.Control
import JumpScript.Proofs.Value.Footprint

/-!
# Failures that leave a machine intact

A function of the library checks all that can fail before it changes anything, so one that has
failed has changed nothing.  Files are the exception: writing one may fail after directories have
been made or after the file has been emptied.  A call also takes note of the failure.

Mapping is left out, since the calls that have succeeded before one fails stay in effect.
-/

namespace JumpScript

theorem Heap.given_eq_error {α : Type} {checked : Except Fault α}
    {change : Heap → α → Heap × Except Fault Value} {σ τ : Heap} {e : Fault}
    (h : ∀ a τ e, change σ a = (τ, .error e) → τ = σ)
    (hgiven : σ.given checked change = (τ, .error e)) : τ = σ := by
  cases checked with
  | ok a => exact h a τ e hgiven
  | error e' => exact (Prod.mk.inj hgiven).1.symm

namespace ArrayFunction

variable {σ τ : Heap} {args : List Value} {e : Fault}

theorem setAt_eq_error {h : Handle} {i : Int64} {v : Value}
    (hset : silent (σ.setAt h i v) = (τ, .error e)) : τ = σ := by
  rw [Heap.setAt] at hset
  split at hset
  · cases (Prod.mk.inj hset).2
  · exact (Prod.mk.inj hset).1.symm

theorem pop_eq_error {h : Handle} (hpop : σ.pop h = (τ, .error e)) : τ = σ := by
  rw [Heap.pop] at hpop
  split at hpop
  · exact (Prod.mk.inj hpop).1.symm
  · cases (Prod.mk.inj hpop).2

theorem remove_eq_error {h : Handle} {i : Int64} (hremove : σ.remove h i = (τ, .error e)) :
    τ = σ := by
  rw [Heap.remove] at hremove
  split at hremove
  · cases (Prod.mk.inj hremove).2
  · exact (Prod.mk.inj hremove).1.symm
  · exact (Prod.mk.inj hremove).1.symm

/-- All elements are compared before any of them moves. -/
theorem sort_eq_error {h : Handle} (hsort : silent (σ.sort h) = (τ, .error e)) : τ = σ := by
  rw [Heap.sort] at hsort
  split at hsort
  · cases (Prod.mk.inj hsort).2
  · exact (Prod.mk.inj hsort).1.symm

theorem run_eq_error {f : ArrayFunction} (h : f.run args σ = (τ, .error e)) : τ = σ := by
  cases f with
  | new => cases (Prod.mk.inj h).2
  | get | index | length | same => exact (Prod.mk.inj h).1.symm
  | set =>
      rw [run] at h
      refine Heap.given_eq_error ?_ h
      rintro ⟨a, i, v⟩ τ e hset
      exact setAt_eq_error hset
  | push =>
      rw [run] at h
      refine Heap.given_eq_error ?_ h
      rintro ⟨a, v⟩ τ e hpush
      cases (Prod.mk.inj hpush).2
  | pop =>
      rw [run] at h
      refine Heap.given_eq_error ?_ h
      intro a τ e hpop
      exact pop_eq_error hpop
  | popAt =>
      rw [run] at h
      refine Heap.given_eq_error ?_ h
      rintro ⟨a, i⟩ τ e hremove
      exact remove_eq_error hremove
  | reverse =>
      rw [run] at h
      refine Heap.given_eq_error ?_ h
      intro a τ e hreverse
      cases (Prod.mk.inj hreverse).2
  | sort =>
      rw [run] at h
      refine Heap.given_eq_error ?_ h
      intro a τ e hsort
      exact sort_eq_error hsort
  | clone =>
      rw [run] at h
      refine Heap.given_eq_error ?_ h
      intro a τ e hclone
      cases (Prod.mk.inj hclone).2

end ArrayFunction

theorem StringFunction.run_eq_error {f : StringFunction} {σ τ : Heap} {args : List Value}
    {e : Fault} (h : f.run args σ = (τ, .error e)) : τ = σ := by
  cases f with
  | split =>
      rw [run] at h
      refine Heap.given_eq_error ?_ h
      rintro ⟨s, sep⟩ τ e hsplit
      cases (Prod.mk.inj hsplit).2
  | _ => exact (Prod.mk.inj h).1.symm

theorem DocumentFunction.run_eq_error {f : DocumentFunction} {σ τ : Heap} {args : List Value}
    {e : Fault} (h : f.run args σ = (τ, .error e)) : τ = σ := by
  cases f with
  | get =>
      rcases run_get_cases args σ with ⟨doc, key, τ', v, -, -, hrun⟩ | ⟨e', hrun⟩
      · rw [h] at hrun
        cases (Prod.mk.inj hrun).2
      · rw [h] at hrun
        exact (Prod.mk.inj hrun).1
  | encode => exact (Prod.mk.inj h).1.symm

namespace Native

variable {ν : Type} {m m' : Machine ν} {names : List Bytes} {args : List Value} {e : Failure}

theorem onHeap_eq_error {g : Heap → Heap × Except Fault Value}
    (hg : ∀ τ e, g m.heap = (τ, .error e) → τ = m.heap) (h : onHeap m g = (m', .error e)) :
    m' = m := by
  obtain ⟨rfl, hresult⟩ := Prod.mk.inj h
  cases hrun : g m.heap with
  | mk τ r =>
      rw [hrun] at hresult
      cases r with
      | ok v => cases hresult
      | error fault =>
          obtain rfl := hg τ fault hrun
          rfl

theorem onMachine_eq_error {r : Except Fault (Machine ν × Value)}
    (h : onMachine m r = (m', .error e)) : m' = m := by
  cases r with
  | ok y => cases (Prod.mk.inj h).2
  | error fault => exact (Prod.mk.inj h).1.symm

theorem runArray_eq_error {g : ArrayFunction} (h : runArray g names args m = (m', .error e)) :
    m' = m := by
  simp only [runArray] at h
  split at h
  · cases (Prod.mk.inj h).2
  · rename_i m₁ e' hrun
    obtain ⟨rfl, -⟩ := Prod.mk.inj h
    exact onHeap_eq_error (fun _ _ => ArrayFunction.run_eq_error) hrun

theorem runExit_eq_error (h : runExit args m = (m', .error e)) : m' = m := by
  rw [runExit] at h
  split at h
  · exact (Prod.mk.inj h).1.symm
  · exact (Prod.mk.inj h).1.symm

/-- What has failed without being a mapping has changed files at most, and these only in writing. -/
theorem run_eq_error {f : Native} {caller : Caller ν} (hmap : ∀ collect, f ≠ .map collect)
    (h : run caller f names args m = (m', .error e)) :
    (∃ files, m' = { m with world := { m.world with files } }) ∧
      ((∀ fence, f ≠ .file fence .write) → m' = m) := by
  have hintact : m' = m → (∃ files, m' = { m with world := { m.world with files } }) ∧
      ((∀ fence, f ≠ .file fence .write) → m' = m) := by
    rintro rfl
    exact ⟨⟨_, rfl⟩, fun _ => rfl⟩
  cases f with
  | array g => exact hintact (runArray_eq_error h)
  | conversion g | fetch fence | math g | assertEqual => exact hintact (Prod.mk.inj h).1.symm
  | environment g | stream g | loop g | runtime g | stack g =>
      exact hintact (onMachine_eq_error h)
  | file fence g =>
      obtain ⟨rfl, -⟩ := Prod.mk.inj h
      cases g with
      | read | present => exact hintact rfl
      | write => exact ⟨⟨_, rfl⟩, fun hwrite => absurd rfl (hwrite fence)⟩
  | document g => exact hintact (onHeap_eq_error (fun _ _ => DocumentFunction.run_eq_error) h)
  | exit => exact hintact (runExit_eq_error h)
  | map collect => exact absurd rfl (hmap collect)
  | string g => exact hintact (onHeap_eq_error (fun _ _ => StringFunction.run_eq_error) h)
  | debug => exact hintact (runDebug_eq_error h).1

end Native

namespace Machine

variable {m m' : Machine Native} {target : CallTarget} {names : List Bytes} {args : List Value}
  {e : Failure}

/-- A call that fails leaves the machine as it was, apart from the note of the failure and from what
a function that writes a file has done to files. -/
theorem failed_call_leaves_machine {depth : Nat}
    (hmap : ∀ collect, m.natives.get? target.key ≠ some (.map collect))
    (h : callWithin Native.host depth target names args m = (m', .error e)) :
    (∃ files journal, m' = { m with world := { m.world with files }, journal }) ∧
      ((∀ fence, m.natives.get? target.key ≠ some (.file fence .write)) →
        m'.world = m.world) := by
  obtain ⟨inner, hinner⟩ := exists_callWithin_eq_dispatch Native.host depth
  rw [hinner] at h
  cases hf : m.natives.get? target.key with
  | none =>
      rw [dispatch_of_missing inner hf] at h
      obtain ⟨rfl, -⟩ := Prod.mk.inj h
      exact ⟨⟨_, _, rfl⟩, fun _ => rfl⟩
  | some f =>
      rw [hf] at hmap
      simp only [dispatch, hf] at h
      split at h
      · cases (Prod.mk.inj h).2
      · rename_i m₁ e₁ hrun
        obtain ⟨rfl, -⟩ := Prod.mk.inj h
        obtain ⟨⟨files, rfl⟩, hintact⟩ :=
          Native.run_eq_error (fun collect heq => hmap collect (congrArg some heq)) hrun
        rw [noteFailure_eq]
        refine ⟨⟨files, _, rfl⟩, ?_⟩
        intro hwrite
        have hsame := hintact fun fence heq => hwrite fence (congrArg some heq)
        have hworld := congrArg Machine.world hsame
        exact hworld

def unsortable : Machine Native where
  program := #[]
  bindings := [(text "a", .array ⟨1⟩)]
  heap := ⟨#[#[.int 3, .int 1, .str (text "x")]]⟩
  natives := Module.all.flatMap (·.registry {})

/-- The ints could be put in order, but they stay where they are. -/
theorem failed_call_leaves_machine_unsortable :
    let now := call Native.host ⟨text "array", text "sort"⟩ [text "a"] [.array ⟨1⟩] unsortable
    now.2 = .error (.fault (.kindMismatch .order .int .string)) ∧
      now.1.heap = unsortable.heap ∧ now.1.bindings = unsortable.bindings ∧
      now.1.world = unsortable.world := by
  intro now
  have hresult : now.2 = .error (.fault (.kindMismatch .order .int .string)) := by decide +kernel
  have hnative : unsortable.natives.get? (CallTarget.key ⟨text "array", text "sort"⟩)
      = some (.array .sort) := by decide +kernel
  obtain ⟨⟨files, journal, hsame⟩, hworld⟩ := failed_call_leaves_machine (m := unsortable)
    (by simp [hnative]) (Prod.ext rfl hresult)
  have hheap := congrArg heap hsame
  have hbindings := congrArg bindings hsame
  exact ⟨hresult, hheap, hbindings, hworld (by simp [hnative])⟩

end Machine

end JumpScript
