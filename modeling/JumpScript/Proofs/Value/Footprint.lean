import JumpScript.Proofs.Value.Region

/-!
# Footprints in the heap

A function on the heap writes to one array at most, the first one that it is given, and may add
arrays.  All others keep their contents and none goes away.  An array that has been added is none of
those that were there, and neither is any array inside the value of a document.
-/

namespace JumpScript

namespace Heap

variable {σ τ υ : Heap} {S W V : Set Handle} {h k : Handle} {v : Value}

/-- The arrays outside a set keep their contents, and no array goes away. -/
structure SameOutside (W : Set Handle) (σ τ : Heap) : Prop where
  items : ∀ h items, σ.get? h = some items → h ∉ W → τ.get? h = some items
  remains : ∀ h, τ.get? h = none → σ.get? h = none

theorem SameOutside.refl (W : Set Handle) (σ : Heap) : SameOutside W σ σ where
  items _ _ hget _ := hget
  remains _ hget := hget

theorem SameOutside.mono (h : SameOutside W σ τ) (hWV : W ⊆ V) : SameOutside V σ τ where
  items k items hget hk := h.items k items hget fun hmem => hk (hWV hmem)
  remains := h.remains

theorem SameOutside.trans (h : SameOutside W σ τ) (h' : SameOutside W τ υ) :
    SameOutside W σ υ where
  items k items hget hk := h'.items k items (h.items k items hget hk) hk
  remains k hget := h.remains k (h'.remains k hget)

theorem get?_alloc_eq_none (σ : Heap) (items : Array Value) :
    σ.get? (σ.alloc items).2 = none := by
  simp [alloc, get?]

theorem sameOutside_alloc (W : Set Handle) (σ : Heap) (items : Array Value) :
    SameOutside W σ (σ.alloc items).1 where
  items _ _ hget _ := get?_alloc_of_some hget items
  remains k hget := by
    cases hk : σ.get? k with
    | none => rfl
    | some others =>
        rw [get?_alloc_of_some hk items] at hget
        cases hget

theorem sameOutside_modify (hh : h ∈ W) (σ : Heap) (f : Array Value → Array Value) :
    SameOutside W σ (σ.modify h f) where
  items k items hget hk := by
    rw [get?_modify, if_neg, hget]
    rintro rfl
    exact hk hh
  remains k hget := by
    rw [get?_modify] at hget
    split at hget
    · exact Option.map_eq_none_iff.mp hget
    · exact hget

theorem sameOutside_given {α : Type} {checked : Except Fault α}
    {change : Heap → α → Heap × Except Fault Value}
    (h : ∀ a, checked = .ok a → SameOutside W σ (change σ a).1) :
    SameOutside W σ (σ.given checked change).1 := by
  cases checked with
  | ok a => exact h a rfl
  | error e => exact .refl W σ

theorem Closed.of_sameOutside (hσ : σ.Closed S) (h : SameOutside ∅ σ τ) : τ.Closed S where
  items k hk := by
    obtain ⟨items, hget, hitems⟩ := hσ.items k hk
    exact ⟨items, h.items k items hget (Set.notMem_empty k), hitems⟩

theorem Closed.union (hS : σ.Closed S) (hV : σ.Closed V) : σ.Closed (S ∪ V) where
  items k hk := by
    rcases hk with hk | hk
    · obtain ⟨items, hget, hitems⟩ := hS.items k hk
      exact ⟨items, hget, fun v hv => (hitems v hv).mono Set.subset_union_left⟩
    · obtain ⟨items, hget, hitems⟩ := hV.items k hk
      exact ⟨items, hget, fun v hv => (hitems v hv).mono Set.subset_union_right⟩

/-- A value is an array of one heap that another heap does not have. -/
def Fresh (σ τ : Heap) (v : Value) : Prop :=
  ∃ h items, v = .array h ∧ σ.get? h = none ∧ τ.get? h = some items

theorem SameOutside.fresh_alloc (h : SameOutside W σ τ) (items : Array Value) :
    Fresh σ (τ.alloc items).1 (.array (τ.alloc items).2) :=
  ⟨_, items, rfl, h.remains _ (get?_alloc_eq_none τ items), get?_alloc_self τ items⟩

theorem fresh_of_given {α : Type} {checked : Except Fault α}
    {change : Heap → α → Heap × Except Fault Value}
    (h : ∀ a τ v, change σ a = (τ, .ok v) → Fresh σ τ v)
    (hgiven : σ.given checked change = (τ, .ok v)) : Fresh σ τ v := by
  cases checked with
  | ok a => exact h a τ v hgiven
  | error e => cases (Prod.mk.inj hgiven).2

/-- The arrays that a value consists of: itself, if it is one, and those inside its elements. -/
inductive Inside (σ : Heap) : Value → Handle → Prop where
  | self (h : Handle) : Inside σ (.array h) h
  | element {h k : Handle} {v : Value} (hv : v ∈ σ.items h) (hk : Inside σ v k) :
      Inside σ (.array h) k

theorem Closed.mem_of_inside (hσ : σ.Closed S) (hv : v.Within S) (h : σ.Inside v k) : k ∈ S := by
  induction h with
  | self k => exact hv
  | element hmem _ ih => exact ih (hσ.within hv hmem)

end Heap

namespace ArrayFunction

variable {σ : Heap} {args : List Value}

/-- The arrays that a function may write to: for one that works in place, its first argument. -/
def written (f : ArrayFunction) (args : List Value) : Set Handle :=
  {h | f.inPlace = true ∧ args.head? = some (.array h)}

theorem mem_written {f : ArrayFunction} {h : Handle} {rest : List Value}
    (hf : f.inPlace = true) (hargs : args = .array h :: rest) : h ∈ f.written args :=
  ⟨hf, congrArg List.head? hargs⟩

/-- A function on arrays leaves all of them alone but the one that it may write to. -/
theorem sameOutside_run (f : ArrayFunction) (args : List Value) (σ : Heap) :
    Heap.SameOutside (f.written args) σ (f.run args σ).1 := by
  cases f with
  | new => exact Heap.sameOutside_alloc _ σ args.toArray
  | get | index | length | same => exact .refl _ σ
  | set =>
      apply Heap.sameOutside_given
      rintro ⟨h, i, v⟩ hchecked
      dsimp only [silent]
      rw [Heap.setAt]
      split
      · exact Heap.sameOutside_modify (mem_written rfl (arrayIndexAndValue_eq_ok hchecked)) σ _
      · exact .refl _ σ
  | push =>
      apply Heap.sameOutside_given
      rintro ⟨h, v⟩ hchecked
      exact Heap.sameOutside_modify (mem_written rfl (arrayAndValue_eq_ok hchecked)) σ _
  | pop =>
      apply Heap.sameOutside_given
      intro h hchecked
      rw [Heap.pop]
      split
      · exact .refl _ σ
      · exact Heap.sameOutside_modify (mem_written rfl (array_eq_ok hchecked)) σ _
  | popAt =>
      apply Heap.sameOutside_given
      rintro ⟨h, i⟩ hchecked
      dsimp only
      rw [Heap.remove]
      split
      · exact Heap.sameOutside_modify (mem_written rfl (arrayAndIndex_eq_ok hchecked)) σ _
      · exact .refl _ σ
      · exact .refl _ σ
  | reverse =>
      apply Heap.sameOutside_given
      intro h hchecked
      exact Heap.sameOutside_modify (mem_written rfl (array_eq_ok hchecked)) σ _
  | sort =>
      apply Heap.sameOutside_given
      intro h hchecked
      dsimp only [silent]
      rw [Heap.sort]
      split
      · exact Heap.sameOutside_modify (mem_written rfl (array_eq_ok hchecked)) σ _
      · exact .refl _ σ
  | clone =>
      apply Heap.sameOutside_given
      intro h _
      exact Heap.sameOutside_alloc _ σ (σ.items h)

theorem fresh_run {f : ArrayFunction} (hf : f = .new ∨ f = .clone) {τ : Heap} {v : Value}
    (h : f.run args σ = (τ, .ok v)) : Heap.Fresh σ τ v := by
  have hself : Heap.SameOutside ∅ σ σ := .refl ∅ σ
  rcases hf with rfl | rfl
  · obtain ⟨rfl, hv⟩ := Prod.mk.inj h
    obtain rfl := Except.ok.inj hv
    exact hself.fresh_alloc args.toArray
  · rw [run] at h
    refine Heap.fresh_of_given ?_ h
    intro h τ v hclone
    obtain ⟨rfl, hv⟩ := Prod.mk.inj hclone
    obtain rfl := Except.ok.inj hv
    exact hself.fresh_alloc (σ.items h)

end ArrayFunction

theorem StringFunction.fresh_split {σ τ : Heap} {args : List Value} {v : Value}
    (h : split.run args σ = (τ, .ok v)) : Heap.Fresh σ τ v := by
  rw [run] at h
  refine Heap.fresh_of_given ?_ h
  rintro ⟨s, sep⟩ τ v hsplit
  obtain ⟨rfl, hv⟩ := Prod.mk.inj hsplit
  obtain rfl := Except.ok.inj hv
  exact (Heap.SameOutside.refl ∅ σ).fresh_alloc _

theorem StringFunction.sameOutside_run (f : StringFunction) (args : List Value) (σ : Heap) :
    Heap.SameOutside ∅ σ (f.run args σ).1 := by
  cases f with
  | split =>
      apply Heap.sameOutside_given
      rintro ⟨s, sep⟩ _
      exact Heap.sameOutside_alloc ∅ σ _
  | _ => exact .refl ∅ σ

namespace Json

/-- A heap has arrays that another one does not have, and some values consist of such arrays. -/
def Novel (σ τ : Heap) (vs : List Value) : Prop :=
  ∃ S, τ.Closed S ∧ (∀ v ∈ vs, v.Within S) ∧ ∀ h ∈ S, σ.get? h = none

theorem novel_scalar (σ : Heap) {v : Value} (hv : v.Within ∅) : Novel σ σ [v] :=
  ⟨∅, ⟨by simp⟩, by simpa using hv, by simp⟩

mutual

/-- The value of a document leaves the arrays that were there alone and consists of others. -/
theorem novel_toValue : ∀ (j : Json) {σ τ : Heap} {v : Value}, j.toValue σ = .ok (τ, v) →
    Heap.SameOutside ∅ σ τ ∧ Novel σ τ [v]
  | .null, σ, τ, v, h => by
      cases h
      exact ⟨.refl ∅ σ, novel_scalar σ trivial⟩
  | .bool b, σ, τ, v, h => by
      cases h
      exact ⟨.refl ∅ σ, novel_scalar σ trivial⟩
  | .number n, σ, τ, v, h => by
      rw [toValue] at h
      obtain ⟨w, hw, h⟩ := map_eq_ok_iff.mp h
      cases h
      exact ⟨.refl ∅ σ, novel_scalar σ (within_numberValue hw ∅)⟩
  | .string s, σ, τ, v, h => by
      cases h
      exact ⟨.refl ∅ σ, novel_scalar σ trivial⟩
  | .array items, σ, τ, v, h => by
      rw [toValue] at h
      obtain ⟨⟨σ', vs⟩, hitems, h⟩ := bind_eq_ok_iff.mp h
      cases h
      obtain ⟨hsame, S, hclosed, hvs, hnovel⟩ := novel_toValues items hitems
      refine ⟨hsame.trans (Heap.sameOutside_alloc ∅ σ' _), insert (σ'.alloc vs.toArray).2 S, ?_⟩
      refine ⟨hclosed.alloc ?_, ?_, ?_⟩
      · intro v hv
        exact hvs v (List.mem_toArray.mp hv)
      · intro v hv
        obtain rfl := List.mem_singleton.mp hv
        exact Set.mem_insert _ S
      · rintro k (rfl | hk)
        · exact hsame.remains _ (Heap.get?_alloc_eq_none σ' vs.toArray)
        · exact hnovel k hk
  | .object ms, σ, τ, v, h => by
      cases h
      exact ⟨.refl ∅ σ, novel_scalar σ trivial⟩

theorem novel_toValues : ∀ (js : List Json) {σ τ : Heap} {vs : List Value},
    toValues js σ = .ok (τ, vs) → Heap.SameOutside ∅ σ τ ∧ Novel σ τ vs
  | [], σ, τ, vs, h => by
      cases h
      exact ⟨.refl ∅ σ, ∅, ⟨by simp⟩, by simp, by simp⟩
  | j :: js, σ, τ, vs, h => by
      rw [toValues] at h
      obtain ⟨⟨σ₁, v⟩, hv, h⟩ := bind_eq_ok_iff.mp h
      obtain ⟨⟨σ₂, ws⟩, hws, h⟩ := bind_eq_ok_iff.mp h
      cases h
      obtain ⟨hsame₁, S₁, hclosed₁, hv₁, hnovel₁⟩ := novel_toValue j hv
      obtain ⟨hsame₂, S₂, hclosed₂, hws₂, hnovel₂⟩ := novel_toValues js hws
      -- the arrays of the first value stay as they are while the rest is read
      have hclosed := (hclosed₁.of_sameOutside hsame₂).union hclosed₂
      refine ⟨hsame₁.trans hsame₂, S₁ ∪ S₂, hclosed, ?_, ?_⟩
      · intro w hw
        rcases List.mem_cons.mp hw with rfl | hw
        · exact (hv₁ w List.mem_cons_self).mono Set.subset_union_left
        · exact (hws₂ w hw).mono Set.subset_union_right
      · rintro k (hk | hk)
        · exact hnovel₁ k hk
        · exact hsame₁.remains k (hnovel₂ k hk)

end

theorem fresh_toValue_array {items : List Json} {σ τ : Heap} {v : Value}
    (h : (Json.array items).toValue σ = .ok (τ, v)) : Heap.Fresh σ τ v := by
  rw [toValue] at h
  obtain ⟨⟨σ', vs⟩, hitems, h⟩ := bind_eq_ok_iff.mp h
  cases h
  exact (novel_toValues items hitems).1.fresh_alloc vs.toArray

end Json

namespace DocumentFunction

variable {σ τ : Heap} {doc key : Bytes} {v : Value}

theorem novel_member (h : member σ doc key = .ok (τ, v)) :
    Heap.SameOutside ∅ σ τ ∧ Json.Novel σ τ [v] := by
  rw [member] at h
  split at h
  · cases h
  · split at h
    · cases h
    · exact Json.novel_toValue _ h

theorem fresh_member {ms : List (Bytes × Json)} {items : List Json}
    (hms : Json.readObject? doc = some ms) (hkey : Table.get? ms key = some (.array items))
    (h : member σ doc key = .ok (τ, v)) : Heap.Fresh σ τ v := by
  rw [member, hms] at h
  dsimp only at h
  rw [hkey] at h
  exact Json.fresh_toValue_array h

/-- Getting a member either finds it or leaves the heap as it was. -/
theorem run_get_cases (args : List Value) (σ : Heap) :
    (∃ doc key τ v, args = [.str doc, .str key] ∧ member σ doc key = .ok (τ, v) ∧
      get.run args σ = (τ, .ok v)) ∨ ∃ e, get.run args σ = (σ, .error e) := by
  rw [run]
  dsimp only
  split
  · rename_i τ v hfound
    obtain ⟨⟨a, b⟩, hargs, hfound⟩ := bind_eq_ok_iff.mp hfound
    obtain ⟨doc, hdoc, hfound⟩ := bind_eq_ok_iff.mp hfound
    obtain ⟨key, hkey, hfound⟩ := bind_eq_ok_iff.mp hfound
    obtain rfl : a = .str doc := Value.asString_eq_ok_iff.mp hdoc
    obtain rfl : b = .str key := Value.asString_eq_ok_iff.mp hkey
    exact Or.inl ⟨doc, key, τ, v, Arguments.two_eq_ok_iff.mp hargs, hfound, rfl⟩
  · exact Or.inr ⟨_, rfl⟩

theorem sameOutside_run (f : DocumentFunction) (args : List Value) (σ : Heap) :
    Heap.SameOutside ∅ σ (f.run args σ).1 := by
  cases f with
  | get =>
      rcases run_get_cases args σ with ⟨doc, key, τ, v, -, hmember, hrun⟩ | ⟨e, hrun⟩
      · rw [hrun]
        exact (novel_member hmember).1
      · rw [hrun]
        exact .refl ∅ σ
  | encode => exact .refl ∅ σ

end DocumentFunction

end JumpScript
