import JumpScript.Proofs.Machine.Relations
import JumpScript.Proofs.Sorting
import JumpScript.Proofs.Value.Footprint

/-!
# How far the order of values is total

Two ints are compared exactly, an int and a float as floats.  A float can be level with two ints
that are not level with each other, since both are turned into it.  Such a float hides that the one
int is greater, and this is all that keeps the order of numbers from being transitive, and a sorted
array from being in order.
-/

namespace JumpScript

namespace Value

/-- One value is at most another one. -/
def AtMost (a b : Value) : Prop := ∃ o, order a b = .ok o ∧ o ≠ .gt

/-- Whether a value is a float that two ints are turned into, the first of which is greater. -/
def hides (f a c : Value) : Bool :=
  match f, a, c with
  | .float f, .int x, .int y => y < x && toFloat (.int x) == f && toFloat (.int y) == f
  | _, _, _ => false

/-- Two values of a kind with an order: two numbers, two strings or two bools. -/
inductive LikeKinded : Value → Value → Prop where
  | numbers {a b : Value} (ha : a.isNumber = true) (hb : b.isNumber = true) : LikeKinded a b
  | strings (s t : Bytes) : LikeKinded (.str s) (.str t)
  | bools (p q : Bool) : LikeKinded (.bool p) (.bool q)

variable {a b c v w : Value} {o : Ordering}

theorem LikeKinded.symm (h : LikeKinded a b) : LikeKinded b a := by
  cases h with
  | numbers ha hb => exact .numbers hb ha
  | strings s t => exact .strings t s
  | bools p q => exact .bools q p

theorem LikeKinded.trans (h : LikeKinded a b) (h' : LikeKinded b c) : LikeKinded a c := by
  cases h with
  | numbers ha hb =>
      cases h' with
      | numbers _ hc => exact .numbers ha hc
      | strings | bools => cases hb
  | strings s t =>
      cases h' with
      | numbers ht => cases ht
      | strings _ u => exact .strings s u
  | bools p q =>
      cases h' with
      | numbers hq => cases hq
      | bools _ r => exact .bools p r

theorem likeKinded_of_order (h : order a b = .ok o) : LikeKinded a b := by
  unfold order at h
  split at h
  next hnumbers =>
    rw [Bool.and_eq_true] at hnumbers
    exact .numbers hnumbers.1 hnumbers.2
  next =>
    split at h
    · exact .strings _ _
    · exact .bools _ _
    · cases h

/-- The place of a value that is turned into a float. -/
def level (v : Value) : Int := Double.key v.toFloat

theorem level_int_mono {x y : Int64} (h : x ≤ y) : level (.int x) ≤ level (.int y) :=
  Double.key_ofInt_mono h

theorem order_ints (x y : Int64) : order (.int x) (.int y) = .ok (Ord.compare x.toInt y.toInt) := by
  change Except.ok (threeWay (x < y) (y < x)) = _
  simp only [Int64.lt_iff_toInt_lt]
  rcases lt_trichotomy x.toInt y.toInt with h | h | h
  · rw [compare_lt_iff_lt.mpr h, decide_eq_true h]
    rfl
  · rw [compare_eq_iff_eq.mpr h, h, decide_eq_false (lt_irrefl _)]
    rfl
  · rw [compare_gt_iff_gt.mpr h, decide_eq_true h, decide_eq_false h.not_gt]
    rfl

/-- Two numbers are two ints, which are compared as such, or are compared by their levels. -/
theorem order_numbers_cases (ha : a.isNumber = true) (hb : b.isNumber = true)
    (hna : a.toFloat.isNaN = false) (hnb : b.toFloat.isNaN = false) :
    (∃ x y, a = .int x ∧ b = .int y) ∨
      (((∃ x, a = .float x) ∨ ∃ y, b = .float y) ∧
        order a b = .ok (Ord.compare a.level b.level)) := by
  have hlevels : Except.ok (threeWay (a.toFloat < b.toFloat) (b.toFloat < a.toFloat))
      = (.ok (Ord.compare a.level b.level) : Except Fault Ordering) := by
    rw [threeWay_floats, Double.standing_eq_compare_key hna hnb]
    rfl
  obtain ⟨x, rfl⟩ | ⟨x, rfl⟩ := isNumber_cases ha
  · obtain ⟨y, rfl⟩ | ⟨y, rfl⟩ := isNumber_cases hb
    · exact Or.inl ⟨x, y, rfl, rfl⟩
    · exact Or.inr ⟨Or.inr ⟨y, rfl⟩, hlevels⟩
  · obtain ⟨y, rfl⟩ | ⟨y, rfl⟩ := isNumber_cases hb
    · exact Or.inr ⟨Or.inl ⟨x, rfl⟩, hlevels⟩
    · exact Or.inr ⟨Or.inl ⟨x, rfl⟩, hlevels⟩

theorem isNaN_toFloat_int (n : Int64) : (toFloat (.int n)).isNaN = false :=
  Double.isNaN_ofInt n

theorem beq_iff_level {x : Int64} {f : Float} (hf : f.isNaN = false) :
    (toFloat (.int x) == f) = true ↔ level (.int x) = level (.float f) := by
  rw [Double.beq_iff_standing, Double.standing_eq_compare_key (isNaN_toFloat_int x) hf,
    Option.some.injEq, compare_eq_iff_eq]
  rfl

theorem exists_of_hides (h : hides b a c = true) :
    ∃ f x y, b = .float f ∧ a = .int x ∧ c = .int y := by
  unfold hides at h
  split at h
  · exact ⟨_, _, _, rfl, rfl, rfl⟩
  · cases h

theorem hides_iff {f : Float} {x y : Int64} (hf : f.isNaN = false) :
    hides (.float f) (.int x) (.int y) = true ↔
      y < x ∧ level (.int x) = level (.float f) ∧ level (.int y) = level (.float f) := by
  rw [← beq_iff_level hf, ← beq_iff_level hf, hides, Bool.and_eq_true, Bool.and_eq_true,
    decide_eq_true_iff, and_assoc]

theorem exists_order_and_swap (h : LikeKinded a b) (hna : a.toFloat.isNaN = false)
    (hnb : b.toFloat.isNaN = false) :
    ∃ o, order a b = .ok o ∧ order b a = .ok o.swap := by
  cases h with
  | numbers ha hb =>
      obtain ⟨x, y, rfl, rfl⟩ | ⟨-, hab⟩ := order_numbers_cases ha hb hna hnb
      · exact ⟨_, order_ints x y, by rw [Int.compare_swap, order_ints]⟩
      · obtain ⟨x, y, rfl, rfl⟩ | ⟨-, hba⟩ := order_numbers_cases hb ha hnb hna
        · exact ⟨_, order_ints y x, by rw [Int.compare_swap, order_ints]⟩
        · exact ⟨_, hab, by rw [Int.compare_swap, hba]⟩
  | strings s t => exact ⟨_, rfl, congrArg Except.ok (threeWay_swap Bytes.lt_asymm)⟩
  | bools p q => exact ⟨_, rfl, by cases p <;> cases q <;> rfl⟩

theorem atMost_of_order (h : order a b = .ok o) : AtMost a b ↔ o ≠ .gt := by
  refine ⟨?_, fun ho => ⟨o, h, ho⟩⟩
  rintro ⟨o', h', ho'⟩
  rw [h] at h'
  cases h'
  exact ho'

theorem atMost_ints {x y : Int64} : AtMost (.int x) (.int y) ↔ x ≤ y := by
  rw [atMost_of_order (order_ints x y), Int64.le_iff_toInt_le, Int.compare_ne_gt]

theorem AtMost.likeKinded (h : AtMost a b) : LikeKinded a b :=
  likeKinded_of_order h.choose_spec.1

theorem AtMost.level_le (h : AtMost a b) (hna : a.toFloat.isNaN = false)
    (hnb : b.toFloat.isNaN = false) : a.level ≤ b.level := by
  cases h.likeKinded with
  | numbers ha hb =>
      obtain ⟨x, y, rfl, rfl⟩ | ⟨-, hab⟩ := order_numbers_cases ha hb hna hnb
      · exact level_int_mono (atMost_ints.mp h)
      · exact Int.compare_ne_gt.mp ((atMost_of_order hab).mp h)
  | strings s t => exact le_refl _
  | bools p q =>
      have hle : (if p then 1 else 0 : Int64) ≤ if q then 1 else 0 := by
        cases p with
        | false => cases q <;> decide
        | true =>
            cases q with
            | true => decide
            | false => exact absurd h ((atMost_of_order rfl).not.mpr (by decide))
      exact level_int_mono hle

theorem atMost_strings {s t : Bytes} : AtMost (.str s) (.str t) ↔ s ≤ t := by
  rw [atMost_of_order rfl, ← List.not_lt, ← Bytes.lt_iff]
  have hasymm : Bytes.lt s t = true → Bytes.lt t s = false := Bytes.lt_asymm
  revert hasymm
  cases Bytes.lt s t <;> cases Bytes.lt t s <;> simp [threeWay]

/-- Order is transitive but where a float between two ints hides that the first one is greater. -/
theorem atMost_trans_iff (hna : a.toFloat.isNaN = false) (hnb : b.toFloat.isNaN = false)
    (hnc : c.toFloat.isNaN = false) (hab : AtMost a b) (hbc : AtMost b c) :
    AtMost a c ↔ hides b a c = false := by
  have hlevels := (hab.level_le hna hnb).trans (hbc.level_le hnb hnc)
  cases hab.likeKinded.trans hbc.likeKinded with
  | numbers ha hc =>
      obtain ⟨x, z, rfl, rfl⟩ | ⟨hfloat, hac⟩ := order_numbers_cases ha hc hna hnc
      · cases b with
        | int y =>
            refine iff_of_true ?_ rfl
            exact atMost_ints.mpr (Int64.le_trans (atMost_ints.mp hab) (atMost_ints.mp hbc))
        | float f =>
            have hxf := hab.level_le hna hnb
            have hfz := hbc.level_le hnb hnc
            have hnf : f.isNaN = false := hnb
            rw [atMost_ints, ← Bool.not_eq_true, hides_iff hnf]
            constructor
            · rintro hle ⟨hlt, -⟩
              exact Int64.not_le.mpr hlt hle
            · intro hvisible
              rw [← Int64.not_lt]
              intro hlt
              have hback := level_int_mono (Int64.le_of_lt hlt)
              exact hvisible ⟨hlt, by omega, by omega⟩
        | void | bool | str | array => cases hab.likeKinded with | numbers _ hb => cases hb
      · refine iff_of_true ((atMost_of_order hac).mpr (Int.compare_ne_gt.mpr hlevels)) ?_
        rw [← Bool.not_eq_true]
        intro hhides
        obtain ⟨f, x, z, -, rfl, rfl⟩ := exists_of_hides hhides
        simp at hfloat
  | strings s u =>
      obtain ⟨t, rfl⟩ : ∃ t, b = .str t := by
        cases hab.likeKinded with
        | numbers hs => cases hs
        | strings _ t => exact ⟨t, rfl⟩
      rw [atMost_strings] at *
      exact iff_of_true (List.le_trans hab hbc) rfl
  | bools p r =>
      obtain ⟨q, rfl⟩ : ∃ q, b = .bool q := by
        cases hab.likeKinded with
        | numbers hs => cases hs
        | bools _ q => exact ⟨q, rfl⟩
      rw [atMost_of_order rfl] at *
      revert hab hbc
      cases p <;> cases q <;> cases r <;> simp [threeWay, hides]

/-- One value comes before another one in a sorted list: its level is not greater, and if the levels
are the same, it is at most the other one unless a float of that level is in the list. -/
def Rises (items : List Value) (v w : Value) : Prop :=
  v.level ≤ w.level ∧
    (v.level = w.level → (∃ x, .float x ∈ items ∧ (float x).level = v.level) ∨ AtMost v w)

/-- Values that can be sorted: numbers, strings or bools, and no float that is not a number. -/
structure Sortable (items : List Value) : Prop where
  likeKinded : ∀ v ∈ items, ∀ w ∈ items, LikeKinded v w
  isNumber : ∀ v ∈ items, v.toFloat.isNaN = false

variable {items : List Value}

theorem AtMost.rises (h : AtMost v w) (hv : v.toFloat.isNaN = false)
    (hw : w.toFloat.isNaN = false) : Rises items v w :=
  ⟨h.level_le hv hw, fun _ => Or.inr h⟩

theorem precedes_iff : Heap.precedes v w = true ↔ order v w = .ok .lt := by
  rw [Heap.precedes]
  split
  next h => exact iff_of_true rfl h
  next h => exact iff_of_false Bool.false_ne_true h

theorem Sortable.decides (h : Sortable items) :
    Sorting.Decides Heap.precedes (Rises items) {v | v ∈ items} where
  trans a ha b hb c hc hab hbc := by
    refine ⟨hab.1.trans hbc.1, fun hac => ?_⟩
    have hlevels : a.level = b.level ∧ b.level = c.level := by
      have hfirst := hab.1
      have hsecond := hbc.1
      omega
    obtain ⟨x, hx, hxa⟩ | hab := hab.2 hlevels.1
    · exact Or.inl ⟨x, hx, hxa⟩
    · obtain ⟨x, hx, hxb⟩ | hbc := hbc.2 hlevels.2
      · exact Or.inl ⟨x, hx, hxb.trans hlevels.1.symm⟩
      · have htrans :=
          atMost_trans_iff (h.isNumber a ha) (h.isNumber b hb) (h.isNumber c hc) hab hbc
        cases hhides : hides b a c with
        | false => exact Or.inr (htrans.mpr hhides)
        | true =>
            obtain ⟨f, x, y, rfl, -, -⟩ := exists_of_hides hhides
            exact Or.inl ⟨f, hb, hlevels.1.symm⟩
  of_lt v hv w hw hlt := by
    have hatMost : AtMost v w := ⟨_, precedes_iff.mp hlt, by decide⟩
    exact hatMost.rises (h.isNumber v hv) (h.isNumber w hw)
  of_not_lt v hv w hw hnot := by
    obtain ⟨o, hvw, hwv⟩ := exists_order_and_swap (h.likeKinded v hv w hw) (h.isNumber v hv)
      (h.isNumber w hw)
    have hne : o ≠ .lt := by
      rintro rfl
      rw [precedes_iff.mpr hvw] at hnot
      cases hnot
    have hatMost : AtMost w v := (atMost_of_order hwv).mpr (by cases o <;> simp_all)
    exact hatMost.rises (h.isNumber w hw) (h.isNumber v hv)

theorem Sortable.atMost_or_hides (h : Sortable items) (hv : v ∈ items) (hw : w ∈ items)
    (hrises : Rises items v w) : AtMost v w ∨ ∃ f ∈ items, hides f v w = true := by
  obtain ⟨o, hvw, hwv⟩ := exists_order_and_swap (h.likeKinded v hv w hw) (h.isNumber v hv)
    (h.isNumber w hw)
  rw [atMost_of_order hvw]
  by_cases ho : o = .gt
  · refine Or.inr ?_
    subst ho
    have hback : AtMost w v := ⟨_, hwv, by decide⟩
    have hlevels : v.level = w.level :=
      le_antisymm hrises.1 (hback.level_le (h.isNumber w hw) (h.isNumber v hv))
    obtain ⟨x, hx, hlevel⟩ | hatMost := hrises.2 hlevels
    · have hnumber {u : Value} (hu : u ∈ items) : u.isNumber = true := by
        cases h.likeKinded _ hx u hu with
        | numbers _ hu => exact hu
      have hnx := h.isNumber _ hx
      obtain ⟨m, n, rfl, rfl⟩ | ⟨-, horder⟩ := order_numbers_cases (hnumber hv) (hnumber hw)
        (h.isNumber v hv) (h.isNumber w hw)
      · refine ⟨_, hx, (hides_iff hnx).mpr ⟨?_, hlevel.symm, (hlevel.trans hlevels).symm⟩⟩
        rw [order_ints, Except.ok.injEq, Int.compare_eq_gt] at hvw
        exact Int64.lt_iff_toInt_lt.mpr hvw
      · rw [horder, Except.ok.injEq, Int.compare_eq_gt] at hvw
        omega
    · exact absurd rfl ((atMost_of_order hvw).mp hatMost)
  · exact Or.inl ho

theorem likeKinded_of_orderable {v : Value} {vs : List Value}
    (h : Heap.orderable (v :: vs) = .ok ()) : ∀ w ∈ vs, LikeKinded v w := by
  rw [Heap.orderable] at h
  induction vs with
  | nil => simp
  | cons w ws ih =>
      obtain ⟨_, hw, hws⟩ := bind_eq_ok_iff.mp h
      obtain ⟨o, ho, -⟩ := map_eq_ok_iff.mp hw
      exact List.forall_mem_cons.mpr ⟨likeKinded_of_order ho, ih hws⟩

theorem sortable_of_orderable {v w : Value} {vs : List Value}
    (h : Heap.orderable (v :: w :: vs) = .ok ())
    (hnumbers : ∀ u ∈ v :: w :: vs, u.toFloat.isNaN = false) : Sortable (v :: w :: vs) := by
  have hothers := likeKinded_of_orderable h
  have hw := hothers w List.mem_cons_self
  have hall : ∀ u ∈ v :: w :: vs, LikeKinded v u :=
    List.forall_mem_cons.mpr ⟨hw.trans hw.symm, hothers⟩
  exact ⟨fun a ha b hb => (hall a ha).symm.trans (hall b hb), hnumbers⟩

theorem pairwise_sorted (h : Heap.orderable items = .ok ())
    (hnumbers : ∀ v ∈ items, v.toFloat.isNaN = false) :
    (Heap.sorted items).Pairwise fun v w => AtMost v w ∨ ∃ f ∈ items, hides f v w = true := by
  have hperm : (Heap.sorted items).Perm items := Sorting.sorted_perm _ _
  match items with
  | [] =>
      rw [List.perm_nil.mp hperm]
      exact List.Pairwise.nil
  | [v] =>
      rw [List.perm_singleton.mp hperm]
      exact List.pairwise_singleton _ v
  | v :: w :: vs =>
      have hsortable := sortable_of_orderable h hnumbers
      have hrises := hsortable.decides.pairwise_sorted fun v hv => hv
      refine List.Pairwise.imp_of_mem ?_ hrises
      intro a b ha hb hab
      exact hsortable.atMost_or_hides (hperm.mem_iff.mp ha) (hperm.mem_iff.mp hb) hab

end Value

namespace Heap

theorem toList_items_sort {σ τ : Heap} {h : Handle} (hsort : σ.sort h = (τ, .ok ())) :
    orderable (σ.items h).toList = .ok () ∧ (τ.items h).toList = sorted (σ.items h).toList := by
  rw [sort] at hsort
  split at hsort
  next horderable =>
    refine ⟨horderable, ?_⟩
    rw [← (Prod.mk.inj hsort).1, items, get?_modify, if_pos rfl, items]
    cases σ.get? h with
    | some items => rfl
    | none => exact (List.perm_nil.mp (Sorting.sorted_perm precedes [])).symm
  next => cases (Prod.mk.inj hsort).2

end Heap

namespace Value

/-- Values without a float that is not a number are in order but for floats that hide a greater
int: two like-kinded values stand to each other one way, order is transitive unless the value in the
middle hides that the first one is greater, and a sorted array is in order but for pairs of ints
that one of its floats hides. -/
theorem order_total_unless_hidden (hna : a.toFloat.isNaN = false) (hnb : b.toFloat.isNaN = false)
    (hnc : c.toFloat.isNaN = false) (hab : LikeKinded a b) :
    (∃ o, order a b = .ok o ∧ order b a = .ok o.swap) ∧
    (AtMost a b → AtMost b c → (AtMost a c ↔ hides b a c = false)) ∧
    ∀ (σ τ : Heap) (h : Handle), (∀ v ∈ σ.items h, v.toFloat.isNaN = false) →
      σ.sort h = (τ, .ok ()) →
      (τ.items h).toList.Perm (σ.items h).toList ∧
      (τ.items h).toList.Pairwise fun v w =>
        AtMost v w ∨ ∃ f ∈ (σ.items h).toList, hides f v w = true := by
  refine ⟨exists_order_and_swap hab hna hnb, atMost_trans_iff hna hnb hnc, ?_⟩
  intro σ τ h hnumbers hsort
  obtain ⟨horderable, hitems⟩ := Heap.toList_items_sort hsort
  rw [hitems]
  refine ⟨Sorting.sorted_perm _ _, pairwise_sorted horderable fun v hv => ?_⟩
  exact hnumbers v (Array.mem_toList_iff.mp hv)

/-- Three numbers that are far from each other are in order once they are sorted. -/
theorem order_total_unless_hidden_mixed :
    let σ : Heap := ⟨#[#[.int 3, .float 2.5, .int 2]]⟩
    AtMost (.int 2) (.int 3) ∧ (σ.sort ⟨1⟩).2 = .ok () ∧
      ((σ.sort ⟨1⟩).1.items ⟨1⟩).toList.Pairwise AtMost := by
  intro σ
  have hsort : (σ.sort ⟨1⟩).2 = .ok () := by rfl
  have hnone : ∀ f ∈ (σ.items ⟨1⟩).toList, ∀ v ∈ (σ.items ⟨1⟩).toList,
      ∀ w ∈ (σ.items ⟨1⟩).toList, hides f v w = false := by decide +kernel
  have hnumbers : ∀ v ∈ σ.items ⟨1⟩, v.toFloat.isNaN = false := by decide +kernel
  obtain ⟨-, htrans, hpairs⟩ := order_total_unless_hidden (hnumbers (.int 2) (by decide +kernel))
    (hnumbers (.float 2.5) (by decide +kernel)) (hnumbers (.int 3) (by decide +kernel))
    (.numbers rfl rfl)
  obtain ⟨hperm, hpairs⟩ := hpairs σ _ ⟨1⟩ hnumbers (Prod.ext rfl hsort)
  refine ⟨?_, hsort, hpairs.imp_of_mem fun hv hw hvw => ?_⟩
  · have hiff := htrans ⟨.lt, by decide +kernel, by decide⟩ ⟨.lt, by decide +kernel, by decide⟩
    exact hiff.mpr (by decide +kernel)
  · obtain hle | ⟨f, hf, hhides⟩ := hvw
    · exact hle
    · rw [hnone f hf _ (hperm.mem_iff.mp hv) _ (hperm.mem_iff.mp hw)] at hhides
      cases hhides

/-- A float is level with the int it stands for and with the next one. -/
theorem not_order_transitive :
    ¬ ∀ a b c : Value, a.toFloat.isNaN = false → b.toFloat.isNaN = false →
      c.toFloat.isNaN = false → AtMost a b → AtMost b c → AtMost a c := by
  intro h
  have htrans := h (.int 9007199254740993) (.float 9007199254740992) (.int 9007199254740992)
    (by decide +kernel) (by decide +kernel) (by decide +kernel)
    ⟨.eq, by decide +kernel, by decide⟩ ⟨.eq, by decide +kernel, by decide⟩
  exact absurd (atMost_ints.mp htrans) (by decide)

end Value

end JumpScript
