import JumpScript.Proofs.Value.Endless
import JumpScript.Proofs.Value.Order

/-!
# Equality of arrays

Arrays are compared element by element, but two handles of one array are taken to be equal without
looking at its elements.  In a heap without cycles that gives the same answer, unless the array
holds a float that is not a number: no such float equals itself, so neither does an array with one
when it is compared element by element.
-/

namespace JumpScript

namespace Heap

variable {σ : Heap} {a b v w : Value} {h k : Handle} {n m fuel : Nat}

/-- Two values agree, element by element: numbers numerically, strings and bools by value, arrays by
their length and their elements.  Handles do not matter. -/
inductive Agrees (σ : Heap) : Value → Value → Prop where
  | void : Agrees σ .void .void
  | numbers {a b : Value} (ha : a.isNumber = true) (hb : b.isNumber = true)
      (h : Value.equalNumbers a b = true) : Agrees σ a b
  | str (s : Bytes) : Agrees σ (.str s) (.str s)
  | bool (p : Bool) : Agrees σ (.bool p) (.bool p)
  | array {h k : Handle} (hlength : (σ.items h).toList.length = (σ.items k).toList.length)
      (hitems : ∀ v w, (v, w) ∈ (σ.items h).toList.zip (σ.items k).toList → Agrees σ v w) :
      Agrees σ (.array h) (.array k)

/-- A value is a float that is not a number, or an array with such a float inside. -/
inductive HoldsNaN (σ : Heap) : Value → Prop where
  | float {x : Float} (hx : x.isNaN = true) : HoldsNaN σ (.float x)
  | element {h : Handle} {v : Value} (hv : v ∈ σ.items h) (hnan : HoldsNaN σ v) :
      HoldsNaN σ (.array h)

/-- Where all floats are numbers, no value holds one that is not. -/
theorem not_holdsNaN_of_cells (hσ : ∀ c ∈ σ.cells, ∀ v ∈ c, v.toFloat.isNaN = false)
    (ha : a.toFloat.isNaN = false) : ¬ σ.HoldsNaN a := by
  intro hnan
  induction hnan with
  | float hx => exact absurd hx (Bool.eq_false_iff.mp ha)
  | element hv _ ih =>
      obtain ⟨i, -, hmem⟩ := getElem_of_mem_items hv
      exact ih (hσ _ (Array.getElem_mem i.isLt) _ hmem)

theorem equalNumbers_eq_false {x : Float} (hx : x.isNaN = true) (b : Value) :
    Value.equalNumbers (.float x) b = false := by
  change (x == b.toFloat) = false
  rw [← Bool.not_eq_true, Double.beq_iff_standing,
    Double.standing_eq_none_iff.mpr (by rw [hx, Bool.true_or])]
  exact nofun

theorem beq_self_iff {x : Float} : (x == x) = true ↔ x.isNaN = false := by
  constructor
  · intro hequal
    rw [← Bool.not_eq_true]
    intro hnan
    have hnot : (x == x) = false := equalNumbers_eq_false hnan (.float x)
    rw [hnot] at hequal
    cases hequal
  · intro hx
    rw [Double.beq_iff_standing, Double.standing_eq_compare_key hx hx, Int.compare_eq_eq.mpr rfl]

theorem equalNumbers_self (ha : a.isNumber = true) (hnan : ¬ σ.HoldsNaN a) :
    Value.equalNumbers a a = true := by
  obtain ⟨x, rfl⟩ | ⟨x, rfl⟩ := Value.isNumber_cases ha
  · exact beq_self_eq_true x
  · exact beq_self_iff.mpr (Bool.eq_false_iff.mpr fun hx => hnan (.float hx))

theorem Agrees.not_holdsNaN (hab : σ.Agrees a b) : ¬ σ.HoldsNaN a := by
  induction hab with
  | void | str | bool => exact nofun
  | @numbers a b ha hb h =>
      intro hnan
      cases hnan with
      | float hx =>
          rw [equalNumbers_eq_false hx] at h
          cases h
      | element => cases ha
  | @array h k hlength hitems ih =>
      intro hnan
      cases hnan with
      | element hv hnan =>
          obtain ⟨i, hi, rfl⟩ := List.getElem_of_mem (Array.mem_toList_iff.mpr hv)
          refine ih _ ((σ.items k).toList.get ⟨i, hlength ▸ hi⟩) ?_ hnan
          rw [List.mem_iff_getElem]
          exact ⟨i, by simpa [← hlength] using hi, List.getElem_zip⟩

/-- A value without floats that are not numbers agrees with itself. -/
theorem Depth.agrees_self (ha : σ.Depth n a) (hnan : ¬ σ.HoldsNaN a) : σ.Agrees a a := by
  induction ha with
  | @scalar n a ha =>
      cases a with
      | void => exact .void
      | bool p => exact .bool p
      | str s => exact .str s
      | array h => exact absurd rfl ha
      | int | float => exact .numbers rfl rfl (equalNumbers_self rfl hnan)
  | @array n h hitems ih =>
      refine .array rfl fun v w hmem => ?_
      obtain rfl : v = w := by
        rw [List.zip_eq_zipWith, List.zipWith_self, List.mem_map] at hmem
        obtain ⟨u, -, heq⟩ := hmem
        exact (Prod.mk.inj heq).1.symm.trans (Prod.mk.inj heq).2
      have hv : v ∈ σ.items h := Array.mem_toList_iff.mp (List.of_mem_zip hmem).1
      exact ih v hv fun hnan' => hnan (.element hv hnan')

/-- Values that agree are found equal with fuel for all levels of the first one. -/
theorem Agrees.equalWithin (hab : σ.Agrees a b) (ha : σ.Depth n a) :
    σ.equalWithin (n + 1) a b = some true := by
  induction hab generalizing n with
  | void | str | bool => simp [Heap.equalWithin, Value.isNumber, Value.kind]
  | numbers hna hnb h => simp [Heap.equalWithin, hna, hnb, h]
  | @array h k hlength hitems ih =>
      obtain ⟨n, rfl⟩ := ha.pos
      refine equalWithin_of_zip hlength fun v w hmem => ?_
      exact ih v w hmem (ha.of_mem (Array.mem_toList_iff.mp (List.of_mem_zip hmem).1))

theorem allAgree_cons_eq_true_iff {eq : Value → Value → Option Bool} {v w : Value}
    {vs ws : List Value} :
    allAgree eq (v :: vs) (w :: ws) = some true ↔
      eq v w = some true ∧ allAgree eq vs ws = some true := by
  rw [allAgree]
  cases eq v w with
  | none => simp
  | some r => cases r <;> simp

theorem length_and_zip_of_allAgree {eq : Value → Value → Option Bool} {vs ws : List Value}
    (h : allAgree eq vs ws = some true) :
    vs.length = ws.length ∧ ∀ v w, (v, w) ∈ vs.zip ws → eq v w = some true := by
  induction vs generalizing ws with
  | nil =>
      cases ws with
      | nil => exact ⟨rfl, by simp⟩
      | cons w ws => cases h
  | cons v vs ih =>
      cases ws with
      | nil => cases h
      | cons w ws =>
          rw [allAgree_cons_eq_true_iff] at h
          obtain ⟨hlength, hzip⟩ := ih h.2
          refine ⟨congrArg Nat.succ hlength, fun a b hmem => ?_⟩
          rcases List.mem_cons.mp hmem with heq | hmem
          · obtain ⟨rfl, rfl⟩ := Prod.mk.inj heq
            exact h.1
          · exact hzip a b hmem

/-- Equal values agree, if the first one holds no float that is not a number. -/
theorem Depth.agrees_of_equalWithin (ha : σ.Depth n a) (hnan : ¬ σ.HoldsNaN a)
    (h : σ.equalWithin fuel a b = some true) : σ.Agrees a b := by
  induction fuel generalizing n a b with
  | zero => cases h
  | succ fuel ih =>
      unfold Heap.equalWithin at h
      split at h
      next hnumbers =>
        rw [Bool.and_eq_true] at hnumbers
        exact .numbers hnumbers.1 hnumbers.2 (Option.some.inj h)
      next =>
        split at h
        · exact .void
        · rw [eq_of_beq (Option.some.inj h)]
          exact .str _
        · rw [eq_of_beq (Option.some.inj h)]
          exact .bool _
        next x y _ =>
          split at h
          next hsame =>
            rw [← eq_of_beq hsame]
            exact ha.agrees_self hnan
          next =>
            split at h
            · cases h
            · obtain ⟨n, rfl⟩ := ha.pos
              obtain ⟨hlength, hzip⟩ := length_and_zip_of_allAgree h
              refine .array hlength fun v w hmem => ?_
              have hv : v ∈ σ.items x := Array.mem_toList_iff.mp (List.of_mem_zip hmem).1
              exact ih (ha.of_mem hv) (fun hnan' => hnan (.element hv hnan')) (hzip v w hmem)
        · cases h

theorem equal_self (σ : Heap) (h : Handle) : σ.equal (.array h) (.array h) = true := by
  simp [equal, equal?, Heap.equalWithin, Value.isNumber, Value.kind]

/-- A value is found equal to itself unless it is a float that is not a number. -/
theorem equalWithin_self_iff :
    σ.equalWithin (fuel + 1) v v = some true ↔ ∀ x, v = .float x → x.isNaN = false := by
  cases v with
  | float x =>
      have hself : σ.equalWithin (fuel + 1) (.float x) (.float x) = some (x == x) := by
        simp [Heap.equalWithin, Value.isNumber, Value.kind, Value.equalNumbers, Value.toFloat]
      rw [hself, Option.some_inj, beq_self_iff]
      exact ⟨fun hx y heq => Value.float.inj heq ▸ hx, fun h => h x rfl⟩
  | int n =>
      refine iff_of_true ?_ (by simp)
      simp [Heap.equalWithin, Value.isNumber, Value.kind, Value.equalNumbers]
  | _ =>
      refine iff_of_true ?_ (by simp)
      simp [Heap.equalWithin, Value.isNumber, Value.kind]

theorem allAgree_self_iff {eq : Value → Value → Option Bool} {vs : List Value} :
    allAgree eq vs vs = some true ↔ ∀ v ∈ vs, eq v v = some true := by
  induction vs with
  | nil => simp [allAgree]
  | cons v vs ih => rw [allAgree_cons_eq_true_iff, ih, List.forall_mem_cons]

/-- Two arrays with the same elements are equal unless one of those is a float that is not a
number: elements that are arrays are shared. -/
theorem equal_of_items_eq (hne : h ≠ k) (hitems : σ.items k = σ.items h) :
    σ.equal (.array h) (.array k) = true ↔ ∀ x, .float x ∈ σ.items h → x.isNaN = false := by
  obtain ⟨fuel, hfuel⟩ : ∃ fuel, (σ.cells.size + 1) * (σ.cells.size + 1) = fuel + 1 :=
    Nat.exists_eq_succ_of_ne_zero (Nat.mul_pos (Nat.succ_pos _) (Nat.succ_pos _)).ne'
  have hequal : σ.equal? (.array h) (.array k)
      = allAgree (σ.equalWithin (fuel + 1)) (σ.items h).toList (σ.items h).toList := by
    rw [equal?, hfuel, equalWithin_arrays, hitems, if_neg (by simpa using hne), if_neg (by simp)]
  rw [equal_eq_true_iff, hequal, allAgree_self_iff]
  simp only [equalWithin_self_iff, Array.mem_toList_iff]
  constructor
  · intro hall x hx
    exact hall _ hx x rfl
  · rintro hall v hv x rfl
    exact hall x hv

theorem get?_alloc_of_ne {items : Array Value} (hne : k ≠ (σ.alloc items).2) :
    (σ.alloc items).1.get? k = σ.get? k := by
  obtain ⟨_ | n⟩ := k
  · rfl
  · have hn : n ≠ σ.cells.size := by
      rintro rfl
      exact hne rfl
    simp [alloc, get?, Array.getElem?_push, hn]

theorem equal_clone_iff (σ : Heap) (h : Handle) :
    (σ.clone h).1.equal (.array h) (.array (σ.clone h).2) = true ↔
      ∀ x, .float x ∈ σ.items h → x.isNaN = false := by
  have hclone : (σ.clone h).1.items (σ.clone h).2 = σ.items h :=
    items_of_get? (σ.get?_alloc_self (σ.items h))
  by_cases hne : h = (σ.clone h).2
  · -- only an array that is not there can be given the handle of its clone
    have hnone : σ.get? h = none := by
      rw [hne]
      exact get?_alloc_eq_none σ (σ.items h)
    rw [← hne]
    refine iff_of_true (equal_self _ h) fun x hx => ?_
    rw [items, hnone] at hx
    simp at hx
  · have hold : (σ.clone h).1.items h = σ.items h := by
      rw [items, items, clone, get?_alloc_of_ne hne]
    rw [equal_of_items_eq hne (hclone.trans hold.symm), hold]

/-- In a heap without cycles, two values agree element by element just if they are found equal and
the first one holds no float that is not a number.  An array always equals itself, and it equals its
clone just if none of its own elements is such a float. -/
theorem equal_agrees_unless_not_a_number (hσ : σ.Acyclic) (a b : Value) :
    (σ.Agrees a b ↔ σ.equal a b = true ∧ ¬ σ.HoldsNaN a) ∧
    ∀ h, σ.equal (.array h) (.array h) = true ∧
      ((σ.clone h).1.equal (.array h) (.array (σ.clone h).2) = true ↔
        ∀ x, .float x ∈ σ.items h → x.isNaN = false) := by
  have hdepth := hσ.depth a
  rw [equal_eq_true_iff, equal?_eq_some_iff]
  refine ⟨⟨fun hab => ⟨⟨_, hab.equalWithin hdepth⟩, hab.not_holdsNaN⟩, ?_⟩,
    fun h => ⟨equal_self σ h, equal_clone_iff σ h⟩⟩
  rintro ⟨⟨fuel, hequal⟩, hnan⟩
  exact hdepth.agrees_of_equalWithin hnan hequal

/-- One array holds another one twice, and a third one that and one with the same numbers. -/
theorem equal_agrees_unless_not_a_number_shared :
    let σ : Heap := ⟨#[#[.int 1, .float 2.5], #[.array ⟨1⟩, .array ⟨1⟩], #[.float 1, .float 2.5],
      #[.array ⟨1⟩, .array ⟨3⟩]]⟩
    σ.Acyclic ∧ σ.equal (.array ⟨2⟩) (.array ⟨4⟩) = true ∧ ¬ σ.HoldsNaN (.array ⟨2⟩) ∧
      σ.Agrees (.array ⟨2⟩) (.array ⟨4⟩) := by
  intro σ
  have hacyclic : σ.Acyclic := acyclic_of_le (by decide)
  have hequal : σ.equal (.array ⟨2⟩) (.array ⟨4⟩) = true := by decide +kernel
  have hnan : ¬ σ.HoldsNaN (.array ⟨2⟩) :=
    not_holdsNaN_of_cells (by decide +kernel) (by decide +kernel)
  obtain ⟨hagrees, -⟩ := equal_agrees_unless_not_a_number hacyclic (.array ⟨2⟩) (.array ⟨4⟩)
  exact ⟨hacyclic, hequal, hnan, hagrees.mpr ⟨hequal, hnan⟩⟩

/-- An array with a float that is not a number equals itself but does not agree with itself. -/
theorem not_equal_always_agrees :
    ¬ ∀ (σ : Heap) (a b : Value), σ.Acyclic → (σ.equal a b = true ↔ σ.Agrees a b) := by
  intro hall
  let nan : Float := Float.ofBits 0x7FF8000000000001
  let σ : Heap := ⟨#[#[.float nan]]⟩
  have hacyclic : σ.Acyclic := acyclic_of_le (by decide)
  have hagrees := (hall σ (.array ⟨1⟩) (.array ⟨1⟩) hacyclic).mp (equal_self σ ⟨1⟩)
  have hnan : nan.isNaN = true := by decide +kernel
  exact hagrees.not_holdsNaN (.element (v := .float nan) (by simp [items, get?, σ]) (.float hnan))

end Heap

end JumpScript
