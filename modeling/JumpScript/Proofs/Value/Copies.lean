import Mathlib.Data.List.Forall2
import JumpScript.Proofs.Value.Nesting

/-!
# Copies of values

A value that nests finitely deep can be copied: a copy has the same scalars and texts in arrays of
its own.  A copy equals what it was made from, as the language compares them, wherever the arrays of
both are there.
-/

namespace JumpScript.Heap

variable {σ τ υ : Heap} {h k : Handle} {v w : Value} {n m fuel : Nat}

theorem items_of_get? {vs : Array Value} (hget : σ.get? k = some vs) : σ.items k = vs := by
  rw [items, hget, Option.getD_some]

/-- Bools, ints, valid texts and arrays that are there. -/
def Plain (σ : Heap) : Value → Prop
  | .bool _ | .int _ => True
  | .str s => Utf8.isValid s = true
  | .array h => σ.get? h ≠ none
  | .void | .float _ => False

/-- A value made of bools, ints, valid texts and arrays of such values, which nest so many levels
deep at most. -/
structure Nests (σ : Heap) (n : Nat) (v : Value) : Prop where
  depth : σ.Depth n v
  plain : ∀ w, σ.Holds v w → σ.Plain w

theorem exists_get?_of_plain (h : σ.Plain (.array k)) : ∃ items, σ.get? k = some items :=
  Option.ne_none_iff_exists'.mp h

theorem Nests.scalar (hv : v.kind ≠ .array) (hplain : σ.Plain v) : σ.Nests n v where
  depth := .scalar hv
  plain w hw := by
    cases hw with
    | self => exact hplain
    | element => exact absurd rfl hv

theorem Nests.array {items : Array Value} (hget : σ.get? k = some items)
    (hitems : ∀ v ∈ items.toList, σ.Nests n v) : σ.Nests (n + 1) (.array k) := by
  have hnests {v : Value} (hv : v ∈ σ.items k) : σ.Nests n v := by
    rw [items_of_get? hget] at hv
    exact hitems v (Array.mem_toList_iff.mpr hv)
  refine ⟨.array fun v hv => (hnests hv).depth, fun w hw => ?_⟩
  cases hw with
  | self => exact Option.ne_none_iff_exists'.mpr ⟨items, hget⟩
  | element hv hw => exact (hnests hv).plain w hw

/-- The second value is a copy of the first: the same scalar or text, or an array of another heap
with copies of the elements.  Arrays nest so many levels deep at most. -/
inductive Copies (σ τ : Heap) : Nat → Value → Value → Prop where
  | scalar {n : Nat} {v : Value} (hv : v.kind ≠ .array) : Copies σ τ n v v
  | array {n : Nat} {h k : Handle} {vs ws : Array Value} (hh : σ.get? h = some vs)
      (hk : τ.get? k = some ws) (hsize : vs.toList.length = ws.toList.length)
      (hitems : ∀ v w, (v, w) ∈ vs.toList.zip ws.toList → Copies σ τ n v w) :
      Copies σ τ (n + 1) (.array h) (.array k)

/-- A copy stays one while its arrays stay as they are. -/
theorem Copies.mono (h : Copies σ τ n v w) (hτ : SameOutside ∅ τ υ) (hle : n ≤ m) :
    Copies σ υ m v w := by
  induction h generalizing m with
  | scalar hv => exact .scalar hv
  | array hh hk hsize hitems ih =>
      obtain ⟨m, rfl⟩ : ∃ l, m = l + 1 := ⟨m - 1, by omega⟩
      exact .array hh (hτ.items _ _ hk (Set.notMem_empty _)) hsize
        fun v w hmem => ih v w hmem (Nat.le_of_succ_le_succ hle)

theorem Copies.of_forall₂ {vs ws : List Value} (hh : σ.get? h = some vs.toArray)
    (hk : τ.get? k = some ws.toArray) (hitems : List.Forall₂ (Copies σ τ n) vs ws) :
    Copies σ τ (n + 1) (.array h) (.array k) := by
  obtain ⟨hlength, hitems⟩ := List.forall₂_iff_zip.mp hitems
  exact .array hh hk hlength fun _ _ => hitems

theorem equal_eq_true_iff : σ.equal v w = true ↔ σ.equal? v w = some true := beq_iff_eq

theorem allAgree_of_zip {eq : Value → Value → Option Bool} {vs ws : List Value}
    (hlength : vs.length = ws.length) (h : ∀ v w, (v, w) ∈ vs.zip ws → eq v w = some true) :
    allAgree eq vs ws = some true := by
  induction vs generalizing ws with
  | nil =>
      obtain rfl := List.length_eq_zero_iff.mp hlength.symm
      rfl
  | cons v vs ih =>
      cases ws with
      | nil => cases hlength
      | cons w ws =>
          have hrest := ih (Nat.succ.inj hlength) fun a b hmem =>
            h a b (List.mem_cons_of_mem _ hmem)
          rw [allAgree, h v w List.mem_cons_self]
          exact hrest

theorem equalWithin_arrays (σ : Heap) (fuel : Nat) (h k : Handle) :
    σ.equalWithin (fuel + 1) (.array h) (.array k) =
      if h == k then some true
      else if (σ.items h).size != (σ.items k).size then some false
      else allAgree (σ.equalWithin fuel) (σ.items h).toList (σ.items k).toList := rfl

theorem equalWithin_of_zip (hlength : (σ.items h).toList.length = (σ.items k).toList.length)
    (hitems : ∀ v w, (v, w) ∈ (σ.items h).toList.zip (σ.items k).toList →
      σ.equalWithin fuel v w = some true) :
    σ.equalWithin (fuel + 1) (.array h) (.array k) = some true := by
  have hagree := allAgree_of_zip hlength hitems
  have hsize : (σ.items h).size = (σ.items k).size := by simpa using hlength
  simp [equalWithin, Value.isNumber, Value.kind, hagree, hsize]

/-- A copy is found equal to what it was made from, with more fuel than its arrays nest deep. -/
theorem Copies.equalWithin (h : Copies σ τ n v w) (hv : ∀ u, σ.Holds v u → σ.Plain u)
    (hσ : SameOutside ∅ σ τ) (hfuel : n < fuel) : τ.equalWithin fuel v w = some true := by
  induction h generalizing fuel with
  | @scalar n v hscalar =>
      obtain ⟨fuel, rfl⟩ : ∃ l, fuel = l + 1 := ⟨fuel - 1, by omega⟩
      have hplain := hv v (.self v)
      cases v with
      | bool | int | str =>
          simp [Heap.equalWithin, Value.isNumber, Value.kind, Value.equalNumbers]
      | array => exact absurd rfl hscalar
      | void | float => cases hplain
  | @array n h k vs ws hh hk hsize hitems ih =>
      obtain ⟨fuel, rfl⟩ : ∃ l, fuel = l + 1 := ⟨fuel - 1, by omega⟩
      have hsource : τ.items h = vs := items_of_get? (hσ.items h vs hh (Set.notMem_empty h))
      have hcopy : τ.items k = ws := items_of_get? hk
      have holds {u : Value} (hu : u ∈ vs.toList) : u ∈ σ.items h := by
        rw [items_of_get? hh]
        exact Array.mem_toList_iff.mp hu
      refine equalWithin_of_zip (by rw [hsource, hcopy, hsize]) fun a b hmem => ?_
      rw [hsource, hcopy] at hmem
      exact ih a b hmem (fun u hu => hv u (.element (holds (List.of_mem_zip hmem).1) hu)) (by omega)

/-- A copy that nests no deeper than its heap has arrays equals what it was made from. -/
theorem Copies.equal (h : Copies σ τ n v w) (hv : ∀ u, σ.Holds v u → σ.Plain u)
    (hσ : SameOutside ∅ σ τ) (hn : n ≤ τ.cells.size) : τ.equal v w = true := by
  have hsquare := Nat.le_mul_self (τ.cells.size + 1)
  exact equal_eq_true_iff.mpr (h.equalWithin hv hσ (by omega))

end JumpScript.Heap
