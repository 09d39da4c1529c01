import Mathlib.Data.Set.Insert
import JumpScript.Library.Arrays
import JumpScript.Library.Documents
import JumpScript.Library.Strings
import JumpScript.Proofs.Library.Arguments
import JumpScript.Proofs.Sorting

/-!
# Regions of the heap

A region is a set of arrays that is closed: each of them is there, and its elements are values
within the region, which means that they are not void and that those that are arrays belong to it.
Arrays outside of a region do not matter to it.  Functions on the heap that are given values within
a region may add to it, and what they give is within what it has become.
-/

namespace JumpScript

/-- A value that is not void and, if it is an array, belongs to a set. -/
def Value.Within (S : Set Handle) : Value → Prop
  | .void => False
  | .array h => h ∈ S
  | _ => True

theorem Value.Within.mono {S T : Set Handle} (hST : S ⊆ T) {v : Value} (h : v.Within S) :
    v.Within T := by
  cases v with
  | void => exact h
  | array k => exact hST h
  | _ => exact trivial

theorem Value.Within.ne_void {S : Set Handle} {v : Value} (h : v.Within S) : v ≠ .void := by
  rintro rfl
  exact h

namespace Heap

variable {σ τ : Heap} {S T : Set Handle} {h k : Handle} {v : Value}

theorem get?_alloc_self (σ : Heap) (items : Array Value) :
    (σ.alloc items).1.get? (σ.alloc items).2 = some items := by
  simp [alloc, get?]

theorem get?_alloc_of_some {items : Array Value} (hk : σ.get? k = some items)
    (more : Array Value) : (σ.alloc more).1.get? k = some items := by
  obtain ⟨_ | n⟩ := k
  · cases hk
  · have hlt : n < σ.cells.size := (Array.getElem?_eq_some_iff.mp hk).1
    have hpush : (σ.cells.push more)[n]? = σ.cells[n]? := by
      rw [Array.getElem?_push, if_neg (Nat.ne_of_lt hlt)]
    exact hpush.trans hk

theorem get?_modify (σ : Heap) (h k : Handle) (f : Array Value → Array Value) :
    (σ.modify h f).get? k = if h = k then (σ.get? k).map f else σ.get? k := by
  obtain ⟨_ | i⟩ := h
  · obtain ⟨_ | n⟩ := k
    · simp [get?]
    · simp [modify, get?]
  · obtain ⟨_ | n⟩ := k
    · simp [get?]
    · simp [modify, get?, Array.getElem?_modify]

/-- Every array of a set is there, and its elements are within the set. -/
structure Closed (σ : Heap) (S : Set Handle) : Prop where
  items : ∀ h ∈ S, ∃ items, σ.get? h = some items ∧ ∀ v ∈ items, v.Within S

theorem Closed.within (hσ : σ.Closed S) (hh : h ∈ S) (hv : v ∈ σ.items h) : v.Within S := by
  obtain ⟨items, hitems, hwithin⟩ := hσ.items h hh
  rw [Heap.items, hitems] at hv
  exact hwithin v hv

theorem Closed.alloc (hσ : σ.Closed S) {items : Array Value} (hitems : ∀ v ∈ items, v.Within S) :
    (σ.alloc items).1.Closed (insert (σ.alloc items).2 S) := by
  have hsub : S ⊆ insert (σ.alloc items).2 S := Set.subset_insert _ S
  constructor
  rintro h (rfl | hh)
  · exact ⟨items, σ.get?_alloc_self items, fun v hv => (hitems v hv).mono hsub⟩
  · obtain ⟨others, hothers, hwithin⟩ := hσ.items h hh
    exact ⟨others, get?_alloc_of_some hothers items, fun v hv => (hwithin v hv).mono hsub⟩

theorem Closed.modify (hσ : σ.Closed S) (h : Handle) {f : Array Value → Array Value}
    (hf : ∀ items : Array Value, (∀ v ∈ items, v.Within S) → ∀ v ∈ f items, v.Within S) :
    (σ.modify h f).Closed S := by
  constructor
  intro k hk
  obtain ⟨items, hitems, hwithin⟩ := hσ.items k hk
  rw [get?_modify, hitems]
  split
  · exact ⟨f items, rfl, hf items hwithin⟩
  · exact ⟨items, rfl, hwithin⟩

/-- What a function on the heap leaves and gives: a region that has at most grown, and a result
within it, if there is one. -/
def Keeps (S : Set Handle) (r : Heap × Except Fault Value) : Prop :=
  ∃ T, S ⊆ T ∧ r.1.Closed T ∧ ∀ v, r.2 = .ok v → v = .void ∨ v.Within T

theorem keeps_of_closed {r : Except Fault Value} (hσ : σ.Closed S)
    (hr : ∀ v, r = .ok v → v = .void ∨ v.Within S) : Keeps S (σ, r) :=
  ⟨S, subset_rfl, hσ, hr⟩

theorem keeps_fresh (hσ : σ.Closed S) {items : Array Value} (hitems : ∀ v ∈ items, v.Within S) :
    Keeps S (ArrayFunction.fresh (σ.alloc items)) := by
  refine ⟨_, Set.subset_insert _ S, hσ.alloc hitems, ?_⟩
  intro v hv
  cases hv
  exact Or.inr (Set.mem_insert _ S)

theorem keeps_given {α : Type} {checked : Except Fault α}
    {change : Heap → α → Heap × Except Fault Value} (hσ : σ.Closed S)
    (h : ∀ a, checked = .ok a → Keeps S (change σ a)) : Keeps S (σ.given checked change) := by
  cases checked with
  | ok a => exact h a rfl
  | error e => exact keeps_of_closed hσ (by simp)

theorem getElem?_of_place {i : Int64} {n : Nat} (hn : σ.place h i = .ok n) :
    ∃ v, (σ.items h)[n]? = some v := by
  rw [place] at hn
  split at hn
  · rename_i hbounds
    cases hn
    rw [Bool.and_eq_true, decide_eq_true_eq, decide_eq_true_eq, length] at hbounds
    exact ⟨_, Array.getElem?_eq_getElem (by omega)⟩
  · cases hn

theorem mem_items_of_getAt {i : Int64} (hv : σ.getAt h i = .ok v) : v ∈ σ.items h := by
  obtain ⟨n, hn, hv⟩ := bind_eq_ok_iff.mp hv
  obtain ⟨w, hw⟩ := getElem?_of_place hn
  rw [hw] at hv
  cases hv
  exact Array.mem_of_getElem? hw

theorem keeps_setAt (hσ : σ.Closed S) (h : Handle) (i : Int64) (hv : v.Within S) :
    Keeps S (ArrayFunction.silent (σ.setAt h i v)) := by
  rw [setAt]
  split
  · refine ⟨S, subset_rfl, hσ.modify h ?_, ?_⟩
    · intro items hitems w hw
      rcases Array.mem_or_eq_of_mem_setIfInBounds hw with hw | rfl
      · exact hitems w hw
      · exact hv
    · intro w hw
      cases hw
      exact Or.inl rfl
  · exact keeps_of_closed hσ (by simp [Except.map])

theorem keeps_push (hσ : σ.Closed S) (h : Handle) (hv : v.Within S) :
    Keeps S (σ.push h v, .ok .void) := by
  refine ⟨S, subset_rfl, hσ.modify h ?_, by simp⟩
  intro items hitems w hw
  rcases Array.mem_push.mp hw with hw | rfl
  · exact hitems w hw
  · exact hv

theorem keeps_pop (hσ : σ.Closed S) (hh : h ∈ S) : Keeps S (σ.pop h) := by
  rw [pop]
  split
  · exact keeps_of_closed hσ (by simp)
  · rename_i v hback
    refine ⟨S, subset_rfl, hσ.modify h ?_, ?_⟩
    · intro items hitems w hw
      rw [← Array.mem_toList_iff, Array.toList_pop] at hw
      exact hitems w (Array.mem_toList_iff.mp ((List.dropLast_sublist _).mem hw))
    · intro w hw
      cases hw
      exact Or.inr (hσ.within hh (Array.mem_of_back? hback))

theorem keeps_remove (hσ : σ.Closed S) (hh : h ∈ S) (i : Int64) : Keeps S (σ.remove h i) := by
  rw [remove]
  split
  · rename_i n v _ hv
    refine ⟨S, subset_rfl, hσ.modify h ?_, ?_⟩
    · intro items hitems w hw
      rw [← Array.mem_toList_iff, Array.toList_eraseIdxIfInBounds] at hw
      exact hitems w (Array.mem_toList_iff.mp (List.mem_of_mem_eraseIdx hw))
    · intro w hw
      cases hw
      exact Or.inr (hσ.within hh (mem_items_of_getAt hv))
  · exact keeps_of_closed hσ (by simp)
  · exact keeps_of_closed hσ (by simp)

theorem keeps_reverse (hσ : σ.Closed S) (h : Handle) : Keeps S (σ.reverse h, .ok .void) := by
  refine ⟨S, subset_rfl, hσ.modify h ?_, by simp⟩
  intro items hitems w hw
  exact hitems w (Array.mem_reverse.mp hw)

theorem keeps_sort (hσ : σ.Closed S) (h : Handle) :
    Keeps S (ArrayFunction.silent (σ.sort h)) := by
  rw [sort]
  split
  · refine ⟨S, subset_rfl, hσ.modify h ?_, ?_⟩
    · intro items hitems w hw
      rw [List.mem_toArray, sorted, (Sorting.sorted_perm precedes items.toList).mem_iff,
        Array.mem_toList_iff] at hw
      exact hitems w hw
    · intro w hw
      cases hw
      exact Or.inl rfl
  · exact keeps_of_closed hσ (by simp [Except.map])

end Heap

namespace ArrayFunction

variable {σ : Heap} {S : Set Handle} {args : List Value} {h : Handle} {i : Int64} {v : Value}

theorem array_eq_ok (hargs : array args = .ok h) : args = [.array h] := by
  obtain ⟨a, ha, hh⟩ := bind_eq_ok_iff.mp hargs
  rw [Arguments.one_eq_ok_iff] at ha
  rw [Value.asArray_eq_ok_iff] at hh
  rw [ha, hh]

theorem arrayAndValue_eq_ok (hargs : arrayAndValue args = .ok (h, v)) : args = [.array h, v] := by
  obtain ⟨⟨a, w⟩, ha, hargs⟩ := bind_eq_ok_iff.mp hargs
  obtain ⟨k, hk, hargs⟩ := bind_eq_ok_iff.mp hargs
  cases hargs
  rw [Arguments.two_eq_ok_iff] at ha
  rw [Value.asArray_eq_ok_iff] at hk
  rw [ha, hk]

theorem arrayAndIndex_eq_ok (hargs : arrayAndIndex args = .ok (h, i)) :
    args = [.array h, .int i] := by
  obtain ⟨⟨a, w⟩, ha, hargs⟩ := bind_eq_ok_iff.mp hargs
  obtain ⟨k, hk, hargs⟩ := bind_eq_ok_iff.mp hargs
  obtain ⟨n, hn, hargs⟩ := bind_eq_ok_iff.mp hargs
  cases hargs
  rw [Arguments.two_eq_ok_iff] at ha
  rw [Value.asArray_eq_ok_iff] at hk
  rw [Value.asInt_eq_ok_iff] at hn
  rw [ha, hk, hn]

theorem arrayIndexAndValue_eq_ok (hargs : arrayIndexAndValue args = .ok (h, i, v)) :
    args = [.array h, .int i, v] := by
  obtain ⟨⟨a, w, x⟩, ha, hargs⟩ := bind_eq_ok_iff.mp hargs
  obtain ⟨k, hk, hargs⟩ := bind_eq_ok_iff.mp hargs
  obtain ⟨n, hn, hargs⟩ := bind_eq_ok_iff.mp hargs
  cases hargs
  rw [Arguments.three_eq_ok_iff] at ha
  rw [Value.asArray_eq_ok_iff] at hk
  rw [Value.asInt_eq_ok_iff] at hn
  rw [ha, hk, hn]

theorem position_eq_ok (hv : position σ h w = .ok v) : ∃ n, v = .int n := by
  rw [position] at hv
  split at hv
  · exact ⟨_, (Except.ok.inj hv).symm⟩
  · cases hv

/-- Functions on arrays keep to a region that they are given values of. -/
theorem keeps_run (hσ : σ.Closed S) (hargs : ∀ v ∈ args, v.Within S) (f : ArrayFunction) :
    Heap.Keeps S (f.run args σ) := by
  cases f with
  | new =>
      apply Heap.keeps_fresh hσ
      intro v hv
      exact hargs v (List.mem_toArray.mp hv)
  | get =>
      apply Heap.keeps_of_closed hσ
      intro v hv
      obtain ⟨⟨h, i⟩, hchecked, hv⟩ := bind_eq_ok_iff.mp hv
      have hh : h ∈ S := hargs (.array h) (by simp [arrayAndIndex_eq_ok hchecked])
      exact Or.inr (hσ.within hh (Heap.mem_items_of_getAt hv))
  | set =>
      apply Heap.keeps_given hσ
      rintro ⟨h, i, v⟩ hchecked
      exact Heap.keeps_setAt hσ h i (hargs v (by simp [arrayIndexAndValue_eq_ok hchecked]))
  | push =>
      apply Heap.keeps_given hσ
      rintro ⟨h, v⟩ hchecked
      exact Heap.keeps_push hσ h (hargs v (by simp [arrayAndValue_eq_ok hchecked]))
  | pop =>
      apply Heap.keeps_given hσ
      intro h hchecked
      exact Heap.keeps_pop hσ (hargs (.array h) (by simp [array_eq_ok hchecked]))
  | popAt =>
      apply Heap.keeps_given hσ
      rintro ⟨h, i⟩ hchecked
      exact Heap.keeps_remove hσ (hargs (.array h) (by simp [arrayAndIndex_eq_ok hchecked])) i
  | index =>
      apply Heap.keeps_of_closed hσ
      intro v hv
      obtain ⟨_, -, hv⟩ := bind_eq_ok_iff.mp hv
      obtain ⟨n, rfl⟩ := position_eq_ok hv
      exact Or.inr trivial
  | reverse =>
      apply Heap.keeps_given hσ
      intro h _
      exact Heap.keeps_reverse hσ h
  | sort =>
      apply Heap.keeps_given hσ
      intro h _
      exact Heap.keeps_sort hσ h
  | length =>
      apply Heap.keeps_of_closed hσ
      intro v hv
      obtain ⟨_, -, hv⟩ := bind_eq_ok_iff.mp hv
      cases hv
      exact Or.inr trivial
  | clone =>
      apply Heap.keeps_given hσ
      intro h hchecked
      have hh : h ∈ S := hargs (.array h) (by simp [array_eq_ok hchecked])
      exact Heap.keeps_fresh hσ fun v hv => hσ.within hh hv
  | same =>
      apply Heap.keeps_of_closed hσ
      intro v hv
      obtain ⟨_, -, hv⟩ := bind_eq_ok_iff.mp hv
      obtain ⟨_, -, hv⟩ := bind_eq_ok_iff.mp hv
      cases hv
      exact Or.inr trivial

end ArrayFunction

namespace Json

theorem within_numberValue {numeral : Bytes} {v : Value} (h : numberValue numeral = .ok v)
    (S : Set Handle) : v.Within S := by
  rw [numberValue] at h
  split at h
  · cases h
    exact trivial
  · split at h
    · cases h
      exact trivial
    · cases h

mutual

/-- The value of a document is within the region with the arrays that it has added. -/
theorem keeps_toValue : ∀ (j : Json) {σ τ : Heap} {S : Set Handle} {v : Value}, σ.Closed S →
    j.toValue σ = .ok (τ, v) → ∃ T, S ⊆ T ∧ τ.Closed T ∧ v.Within T
  | .null, σ, τ, S, v, hσ, h => by
      cases h
      exact ⟨S, subset_rfl, hσ, trivial⟩
  | .bool b, σ, τ, S, v, hσ, h => by
      cases h
      exact ⟨S, subset_rfl, hσ, trivial⟩
  | .number n, σ, τ, S, v, hσ, h => by
      rw [toValue] at h
      cases hn : numberValue n with
      | error e =>
          rw [hn] at h
          cases h
      | ok w =>
          rw [hn] at h
          cases h
          exact ⟨S, subset_rfl, hσ, within_numberValue hn S⟩
  | .string s, σ, τ, S, v, hσ, h => by
      cases h
      exact ⟨S, subset_rfl, hσ, trivial⟩
  | .array items, σ, τ, S, v, hσ, h => by
      rw [toValue] at h
      obtain ⟨⟨σ', vs⟩, hitems, h⟩ := bind_eq_ok_iff.mp h
      cases h
      obtain ⟨T, hST, hσ', hvs⟩ := keeps_toValues items hσ hitems
      have hall : ∀ v ∈ vs.toArray, v.Within T := by
        intro v hv
        exact hvs v (List.mem_toArray.mp hv)
      exact ⟨_, hST.trans (Set.subset_insert _ T), hσ'.alloc hall, Set.mem_insert _ T⟩
  | .object ms, σ, τ, S, v, hσ, h => by
      cases h
      exact ⟨S, subset_rfl, hσ, trivial⟩

theorem keeps_toValues : ∀ (js : List Json) {σ τ : Heap} {S : Set Handle} {vs : List Value},
    σ.Closed S → toValues js σ = .ok (τ, vs) →
    ∃ T, S ⊆ T ∧ τ.Closed T ∧ ∀ v ∈ vs, v.Within T
  | [], σ, τ, S, vs, hσ, h => by
      cases h
      exact ⟨S, subset_rfl, hσ, by simp⟩
  | j :: js, σ, τ, S, vs, hσ, h => by
      rw [toValues] at h
      obtain ⟨⟨σ₁, v⟩, hv, h⟩ := bind_eq_ok_iff.mp h
      obtain ⟨⟨σ₂, ws⟩, hws, h⟩ := bind_eq_ok_iff.mp h
      cases h
      obtain ⟨T₁, hST₁, hσ₁, hwithin⟩ := keeps_toValue j hσ hv
      obtain ⟨T₂, hT₁T₂, hσ₂, hrest⟩ := keeps_toValues js hσ₁ hws
      refine ⟨T₂, hST₁.trans hT₁T₂, hσ₂, ?_⟩
      intro w hw
      rcases List.mem_cons.mp hw with rfl | hw
      · exact hwithin.mono hT₁T₂
      · exact hrest w hw

end

end Json

theorem DocumentFunction.keeps_run {σ : Heap} {S : Set Handle} (hσ : σ.Closed S)
    (args : List Value) (f : DocumentFunction) : Heap.Keeps S (f.run args σ) := by
  cases f with
  | get =>
      rw [run]
      dsimp only
      split
      · rename_i τ v hfound
        obtain ⟨_, -, hfound⟩ := bind_eq_ok_iff.mp hfound
        obtain ⟨_, -, hfound⟩ := bind_eq_ok_iff.mp hfound
        obtain ⟨_, -, hfound⟩ := bind_eq_ok_iff.mp hfound
        rw [member] at hfound
        split at hfound
        · cases hfound
        · split at hfound
          · cases hfound
          · obtain ⟨T, hST, hτ, hv⟩ := Json.keeps_toValue _ hσ hfound
            refine ⟨T, hST, hτ, ?_⟩
            intro w hw
            cases hw
            exact Or.inr hv
      · exact Heap.keeps_of_closed hσ (by simp)
  | encode =>
      apply Heap.keeps_of_closed hσ
      intro v hv
      obtain ⟨_, -, hv⟩ := bind_eq_ok_iff.mp hv
      obtain ⟨_, -, hv⟩ := bind_eq_ok_iff.mp hv
      cases hv
      exact Or.inr trivial

theorem StringFunction.keeps_run {σ : Heap} {S : Set Handle} (hσ : σ.Closed S)
    (args : List Value) (f : StringFunction) : Heap.Keeps S (f.run args σ) := by
  cases f with
  | split =>
      apply Heap.keeps_given hσ
      rintro ⟨s, sep⟩ _
      apply Heap.keeps_fresh hσ
      intro v hv
      rw [List.mem_toArray] at hv
      obtain ⟨piece, -, rfl⟩ := List.mem_map.mp hv
      exact trivial
  | concat =>
      apply Heap.keeps_of_closed hσ
      intro v hv
      cases hv
      exact Or.inr trivial
  | _ =>
      -- every other function takes its arguments apart and gives a scalar
      apply Heap.keeps_of_closed hσ
      intro v hv
      obtain ⟨_, -, hv⟩ := bind_eq_ok_iff.mp hv
      cases hv
      exact Or.inr trivial

end JumpScript
