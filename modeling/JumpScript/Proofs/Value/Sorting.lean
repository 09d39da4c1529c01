import JumpScript.Proofs.Sorting.Stability
import JumpScript.Proofs.Value.Order

/-!
# Sorting arrays

An array is sorted if its elements are all numbers, all strings or all bools, which its first
element tells when it is compared with the others; any other array is left as it is.  As long as no
float hides a greater int, the elements end up in ascending order, and those that compare equal stay
in the order in which they were.
-/

namespace JumpScript

namespace Value

variable {a b v w : Value} {items vs : List Value}

/-- Values that can all be ordered with each other: numbers only, strings only or bools only. -/
def OneSort (vs : List Value) : Prop :=
  (∀ v ∈ vs, v.isNumber = true) ∨ (∀ v ∈ vs, v.kind = .string) ∨ ∀ v ∈ vs, v.kind = .bool

instance (vs : List Value) : Decidable (OneSort vs) := inferInstanceAs (Decidable (_ ∨ _ ∨ _))

theorem likeKinded_iff :
    LikeKinded v w ↔ (v.isNumber = true ∧ w.isNumber = true) ∨
      (v.kind = .string ∧ w.kind = .string) ∨ (v.kind = .bool ∧ w.kind = .bool) := by
  constructor
  · intro h
    cases h with
    | numbers hv hw => exact Or.inl ⟨hv, hw⟩
    | strings s t => exact Or.inr (Or.inl ⟨rfl, rfl⟩)
    | bools p q => exact Or.inr (Or.inr ⟨rfl, rfl⟩)
  · rintro (⟨hv, hw⟩ | ⟨hv, hw⟩ | ⟨hv, hw⟩)
    · exact .numbers hv hw
    · cases v <;> cases hv
      cases w <;> cases hw
      exact .strings _ _
    · cases v <;> cases hv
      cases w <;> cases hw
      exact .bools _ _

theorem exists_order_iff : (∃ o, order v w = .ok o) ↔ LikeKinded v w := by
  constructor
  · rintro ⟨o, h⟩
    exact likeKinded_of_order h
  · intro h
    cases h with
    | numbers hv hw =>
        obtain ⟨x, rfl⟩ | ⟨x, rfl⟩ := isNumber_cases hv <;>
          obtain ⟨y, rfl⟩ | ⟨y, rfl⟩ := isNumber_cases hw <;> exact ⟨_, rfl⟩
    | strings s t => exact ⟨_, rfl⟩
    | bools p q => exact ⟨_, rfl⟩

theorem orderable_cons_iff :
    Heap.orderable (v :: vs) = .ok () ↔ ∀ w ∈ vs, LikeKinded v w := by
  refine ⟨likeKinded_of_orderable, fun h => ?_⟩
  rw [Heap.orderable]
  induction vs with
  | nil => rfl
  | cons w ws ih =>
      obtain ⟨hw, hws⟩ := List.forall_mem_cons.mp h
      obtain ⟨o, ho⟩ := exists_order_iff.mpr hw
      have hrest := ih hws
      rw [List.forM_eq_forM, List.forM_cons, ho]
      exact hrest

/-- Being ordered with the first element makes all elements of one sort. -/
theorem forall_likeKinded_iff :
    (∀ u ∈ w :: vs, LikeKinded v u) ↔ OneSort (v :: w :: vs) := by
  simp only [likeKinded_iff, OneSort, List.forall_mem_cons (a := v)]
  constructor
  · intro h
    rcases h w List.mem_cons_self with ⟨hv, -⟩ | ⟨hv, -⟩ | ⟨hv, -⟩
    · have hne : v.kind ≠ .string ∧ v.kind ≠ .bool := by
        constructor <;> intro hkind <;> simp [isNumber, hkind] at hv
      exact Or.inl ⟨hv, fun u hu => by simpa [hv, hne] using h u hu⟩
    · exact Or.inr (Or.inl ⟨hv, fun u hu => by simpa [isNumber, hv] using h u hu⟩)
    · exact Or.inr (Or.inr ⟨hv, fun u hu => by simpa [isNumber, hv] using h u hu⟩)
  · rintro (⟨hv, h⟩ | ⟨hv, h⟩ | ⟨hv, h⟩) u hu
    · exact Or.inl ⟨hv, h u hu⟩
    · exact Or.inr (Or.inl ⟨hv, h u hu⟩)
    · exact Or.inr (Or.inr ⟨hv, h u hu⟩)

theorem orderable_eq_ok_iff :
    Heap.orderable vs = .ok () ↔ vs.length < 2 ∨ OneSort vs := by
  match vs with
  | [] | [v] => exact iff_of_true rfl (Or.inl (by simp))
  | v :: w :: vs =>
      have hlength : ¬ (v :: w :: vs).length < 2 := by simp
      rw [orderable_cons_iff, forall_likeKinded_iff, or_iff_right hlength]

theorem isNaN_toFloat (h : v.kind ≠ .float) : v.toFloat.isNaN = false := by
  cases v with
  | float x => exact absurd rfl h
  | _ => exact Double.isNaN_ofInt _

theorem hides_eq_false (h : v.kind ≠ .float) (a b : Value) : hides v a b = false := by
  rw [← Bool.not_eq_true]
  intro hhides
  obtain ⟨f, x, y, rfl, -, -⟩ := exists_of_hides hhides
  exact h rfl

theorem Sortable.precedes_eq_false_iff (h : Sortable items) (ha : a ∈ items) (hb : b ∈ items) :
    Heap.precedes a b = false ↔ AtMost b a := by
  obtain ⟨o, hab, hba⟩ := exists_order_and_swap (h.likeKinded a ha b hb) (h.isNumber a ha)
    (h.isNumber b hb)
  rw [← Bool.not_eq_true, precedes_iff, atMost_of_order hba, hab]
  cases o <;> decide

/-- Where no float hides a greater int, values that can be sorted are strictly ordered. -/
theorem Sortable.strictlyOrders (h : Sortable items)
    (hvisible : ∀ f ∈ items, ∀ a ∈ items, ∀ b ∈ items, hides f a b = false) :
    Sorting.StrictlyOrders Heap.precedes {v | v ∈ items} where
  asymm a ha b hb hab := by
    rw [h.precedes_eq_false_iff hb ha]
    exact ⟨.lt, precedes_iff.mp hab, by decide⟩
  negTrans a ha b hb c hc hab hbc := by
    rw [h.precedes_eq_false_iff ha hb] at hab
    rw [h.precedes_eq_false_iff hb hc] at hbc
    rw [h.precedes_eq_false_iff ha hc]
    have htrans :=
      atMost_trans_iff (h.isNumber c hc) (h.isNumber b hb) (h.isNumber a ha) hbc hab
    exact htrans.mpr (hvisible b hb c hc a ha)

theorem sortable_of_oneSort (h : OneSort items)
    (hnumbers : ∀ v ∈ items, v.toFloat.isNaN = false) : Sortable items where
  likeKinded v hv w hw := by
    rw [likeKinded_iff]
    rcases h with h | h | h
    · exact Or.inl ⟨h v hv, h w hw⟩
    · exact Or.inr (Or.inl ⟨h v hv, h w hw⟩)
    · exact Or.inr (Or.inr ⟨h v hv, h w hw⟩)
  isNumber := hnumbers

/-- The elements of a sorted array are in order, and those that compare equal are in the order in
which they were. -/
theorem OneSort.pairwise_origins (h : OneSort items)
    (hnumbers : ∀ v ∈ items, v.toFloat.isNaN = false)
    (hvisible : ∀ f ∈ items, ∀ a ∈ items, ∀ b ∈ items, hides f a b = false) :
    (Sorting.origins Heap.precedes items).Pairwise fun p q =>
      AtMost p.1 q.1 ∧ (order p.1 q.1 = .ok .eq → p.2 < q.2) := by
  have hsortable := sortable_of_oneSort h hnumbers
  have hmem : ∀ p ∈ Sorting.origins Heap.precedes items, p.1 ∈ items := by
    intro p hp
    rw [(Sorting.origins_perm _ _).mem_iff] at hp
    exact List.fst_mem_of_mem_zipIdx hp
  have hordered := (hsortable.strictlyOrders hvisible).pairwise_origins fun v hv => hv
  refine hordered.imp_of_mem fun {p q} hp hq hpq => ⟨?_, fun hequal => hpq.2 ?_⟩
  · exact (hsortable.precedes_eq_false_iff (hmem q hq) (hmem p hp)).mp hpq.1
  · rw [← Bool.not_eq_true, precedes_iff, hequal]
    decide

/-- Ascending order without floats: ints by size, strings bytewise, false before true. -/
inductive Ascends : Value → Value → Prop where
  | ints {x y : Int64} (h : x ≤ y) : Ascends (.int x) (.int y)
  | strings {s t : Bytes} (h : s ≤ t) : Ascends (.str s) (.str t)
  | bools {p q : Bool} (h : p ≤ q) : Ascends (.bool p) (.bool q)

theorem AtMost.ascends (h : AtMost v w) (hv : v.kind ≠ .float) (hw : w.kind ≠ .float) :
    Ascends v w := by
  cases h.likeKinded with
  | numbers hnv hnw =>
      obtain ⟨x, rfl⟩ | ⟨x, rfl⟩ := isNumber_cases hnv
      · obtain ⟨y, rfl⟩ | ⟨y, rfl⟩ := isNumber_cases hnw
        · exact .ints (atMost_ints.mp h)
        · exact absurd rfl hw
      · exact absurd rfl hv
  | strings s t => exact .strings (atMost_strings.mp h)
  | bools p q =>
      refine .bools ?_
      rw [atMost_of_order rfl] at h
      revert h
      cases p <;> cases q <;> decide

end Value

namespace Heap

open Value (OneSort Ascends order AtMost)

variable {σ τ : Heap} {h : Handle} {e : Fault}

theorem sort_fails_iff :
    (∃ e, (σ.sort h).2 = .error e) ↔
      2 ≤ (σ.items h).toList.length ∧ ¬ OneSort (σ.items h).toList := by
  have hok := @Value.orderable_eq_ok_iff (σ.items h).toList
  rw [sort]
  split
  next horderable =>
    refine iff_of_false (by simp) ?_
    rintro ⟨hlength, hsort⟩
    rcases hok.mp horderable with hshort | hone
    · omega
    · exact hsort hone
  next e herror =>
    refine iff_of_true ⟨e, rfl⟩ ?_
    rw [herror] at hok
    have hnot := not_or.mp (mt hok.mpr (by simp))
    exact ⟨Nat.le_of_not_lt hnot.1, hnot.2⟩

theorem eq_of_sort_error (hsort : σ.sort h = (τ, .error e)) : τ = σ := by
  rw [sort] at hsort
  split at hsort
  next => cases (Prod.mk.inj hsort).2
  next => exact (Prod.mk.inj hsort).1.symm

theorem sameOutside_sort (hsort : σ.sort h = (τ, .ok ())) : SameOutside {h} σ τ := by
  rw [sort] at hsort
  split at hsort
  next =>
    rw [← (Prod.mk.inj hsort).1]
    exact sameOutside_modify (Set.mem_singleton h) σ _
  next => cases (Prod.mk.inj hsort).2

/-- Sorting is stable, and fails as a whole.  It fails for an array of two elements or more that are
not all numbers, all strings or all bools, and changes nothing then.  Otherwise it only moves the
elements of the array.  If none of them is a float, they end up in ascending order, and of those
that compare equal the ones that were first stay first. -/
theorem sort_stable_or_untouched (σ : Heap) (h : Handle) :
    let items := (σ.items h).toList
    ((∃ e, (σ.sort h).2 = .error e) ↔ 2 ≤ items.length ∧ ¬ OneSort items) ∧
    (∀ τ e, σ.sort h = (τ, .error e) → τ = σ) ∧
    ∀ τ, σ.sort h = (τ, .ok ()) →
      let moved := Sorting.origins precedes items
      SameOutside {h} σ τ ∧ (τ.items h).toList.Perm items ∧
      moved.Perm items.zipIdx ∧ moved.map Prod.fst = (τ.items h).toList ∧
      ((∀ v ∈ items, v.kind ≠ .float) → moved.Pairwise fun p q =>
        AtMost p.1 q.1 ∧ Ascends p.1 q.1 ∧ (order p.1 q.1 = .ok .eq → p.2 < q.2)) := by
  intro items
  refine ⟨sort_fails_iff, fun τ e => eq_of_sort_error, fun τ hsort => ?_⟩
  intro moved
  obtain ⟨horderable, hitems⟩ := toList_items_sort hsort
  have hperm : moved.Perm items.zipIdx := Sorting.origins_perm precedes items
  have hmoved : moved.map Prod.fst = (τ.items h).toList :=
    (Sorting.map_fst_origins precedes items).trans hitems.symm
  refine ⟨sameOutside_sort hsort, hitems ▸ Sorting.sorted_perm _ _, hperm, hmoved, ?_⟩
  intro hfloats
  have hmem : ∀ p ∈ moved, p.1.kind ≠ .float := by
    intro p hp
    exact hfloats p.1 (List.fst_mem_of_mem_zipIdx (hperm.mem_iff.mp hp))
  rcases Value.orderable_eq_ok_iff.mp horderable with hshort | hone
  · have hlength : moved.length < 2 := by
      rw [hperm.length_eq, List.length_zipIdx]
      exact hshort
    match moved, hlength with
    | [], _ => exact List.Pairwise.nil
    | [p], _ => exact List.pairwise_singleton _ p
    | _ :: _ :: _, hlength => simp at hlength
  · have hordered := hone.pairwise_origins (fun v hv => Value.isNaN_toFloat (hfloats v hv))
      fun f hf a _ b _ => Value.hides_eq_false (hfloats f hf) a b
    exact hordered.imp_of_mem fun {p q} hp hq hpq =>
      ⟨hpq.1, hpq.1.ascends (hmem p hp) (hmem q hq), hpq.2⟩

/-- An array with the same text twice, and one that cannot be sorted. -/
theorem sort_stable_or_untouched_words :
    let σ : Heap := ⟨#[#[.str (JumpScript.text "b"), .str [], .str (JumpScript.text "b")],
      #[.int 1, .float 0.5, .bool true]]⟩
    (∀ v ∈ (σ.items ⟨1⟩).toList, v.kind ≠ .float) ∧ (σ.sort ⟨1⟩).2 = .ok () ∧
      ((Sorting.origins precedes (σ.items ⟨1⟩).toList).Pairwise fun p q =>
        AtMost p.1 q.1 ∧ Ascends p.1 q.1 ∧ (order p.1 q.1 = .ok .eq → p.2 < q.2)) ∧
      ∃ e, σ.sort ⟨2⟩ = (σ, .error e) := by
  intro σ
  have hfloats : ∀ v ∈ (σ.items ⟨1⟩).toList, v.kind ≠ .float := by decide
  have hsort : (σ.sort ⟨1⟩).2 = .ok () := by rfl
  obtain ⟨-, -, hsorted⟩ := sort_stable_or_untouched σ ⟨1⟩
  obtain ⟨-, -, -, -, hordered⟩ := hsorted _ (Prod.ext rfl hsort)
  obtain ⟨hfails, huntouched, -⟩ := sort_stable_or_untouched σ ⟨2⟩
  obtain ⟨e, he⟩ := hfails.mpr ⟨by decide, by decide⟩
  exact ⟨hfloats, hsort, hordered hfloats, e, Prod.ext (huntouched _ e (Prod.ext rfl he)) he⟩

end Heap

end JumpScript
