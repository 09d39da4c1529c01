import JumpScript.Proofs.Value.Copies

/-!
# Comparing and quoting without end

Comparing two values and quoting one go down through their arrays and do not count the levels.  What
has an answer with some fuel has the same answer with more, and the fuel that the heap is given for
them is enough whenever any is.  So there is no answer only where they never end: quoting a value
with a cycle in it, and comparing two values that lead from one pair of arrays to that pair again.
-/

namespace JumpScript.Heap

variable {σ : Heap} {a b v w : Value} {h k : Handle} {n m fuel : Nat} {r : Bool}

/-- No fuel is enough to compare two values. -/
def ComparesForever (σ : Heap) (a b : Value) : Prop := ∀ fuel, σ.equalWithin fuel a b = none

/-- No fuel is enough to quote a value. -/
def QuotesForever (σ : Heap) (v : Value) : Prop := ∀ fuel, σ.quotedWithin fuel v = none

theorem mapM_ne_none_iff {f : Value → Option Bytes} {vs : List Value} :
    vs.mapM f ≠ none ↔ ∀ v ∈ vs, f v ≠ none := by
  induction vs with
  | nil => simp
  | cons v vs ih =>
      rw [List.forall_mem_cons, ← ih, List.mapM_cons]
      cases f v with
      | none => simp
      | some s => cases vs.mapM f <;> simp

/-- Quoting needs as much fuel as the arrays of a value nest deep. -/
theorem quotedWithin_ne_none_iff : σ.quotedWithin n v ≠ none ↔ σ.Depth n v := by
  induction n generalizing v with
  | zero =>
      cases v with
      | array h =>
          refine iff_of_false (fun hne => hne rfl) fun hdepth => ?_
          obtain ⟨m, hm⟩ := hdepth.pos
          cases hm
      | _ => exact iff_of_true (Option.some_ne_none _) (.scalar nofun)
  | succ n ih =>
      cases v with
      | array h =>
          rw [quotedWithin, Ne, Option.map_eq_none_iff, ← Ne, mapM_ne_none_iff, depth_array_iff]
          simp only [ih, Array.mem_toList_iff]
      | _ => exact iff_of_true (Option.some_ne_none _) (.scalar nofun)

theorem quotesForever_iff : σ.QuotesForever v ↔ ∀ n, ¬ σ.Depth n v := by
  simp only [← quotedWithin_ne_none_iff, not_not]
  rfl

theorem quoted?_eq_none_iff : σ.quoted? v = none ↔ σ.QuotesForever v := by
  refine ⟨fun hnone => ?_, fun hforever => hforever _⟩
  rw [quotesForever_iff]
  intro n hdepth
  exact quotedWithin_ne_none_iff.mpr hdepth.le_size hnone

theorem quotingEnds_eq_false_iff : σ.quotingEnds v = false ↔ σ.QuotesForever v := by
  rw [quotingEnds, ← quoted?_eq_none_iff, Option.isSome_eq_false_iff, Option.isNone_iff_eq_none]

/-- Quoting a value never ends just if some array in it is inside one of its own elements. -/
theorem quotesForever_iff_cycle :
    σ.QuotesForever v ↔ ∃ h, σ.Inside v h ∧ ∃ w ∈ σ.items h, σ.Inside w h := by
  rw [quotesForever_iff]
  constructor
  · intro hdeep
    by_contra hnot
    refine hdeep _ (depth_of_not_cycle fun h hh w hw hback => ?_)
    exact hnot ⟨h, hh, w, hw, hback⟩
  · rintro ⟨h, hh, w, hw, hback⟩ n
    exact not_depth_of_cycle hh hw hback

theorem Acyclic.not_quotesForever (hσ : σ.Acyclic) (v : Value) : ¬ σ.QuotesForever v := by
  rw [quotesForever_iff_cycle]
  rintro ⟨h, -, w, hw, hback⟩
  exact hσ h w hw hback

/-- A comparison is decided at once, or goes through the elements of two arrays. -/
theorem equalWithin_cases (σ : Heap) (a b : Value) :
    (∃ r, ∀ fuel, σ.equalWithin (fuel + 1) a b = some r) ∨
      ∃ h k, a = .array h ∧ b = .array k ∧ ∀ fuel, σ.equalWithin (fuel + 1) a b
        = allAgree (σ.equalWithin fuel) (σ.items h).toList (σ.items k).toList := by
  cases a with
  | array h =>
      cases b with
      | array k =>
          simp only [equalWithin_arrays]
          by_cases hsame : (h == k) = true
          · exact Or.inl ⟨true, fun _ => if_pos hsame⟩
          · by_cases hsize : ((σ.items h).size != (σ.items k).size) = true
            · exact Or.inl ⟨false, fun _ => (if_neg hsame).trans (if_pos hsize)⟩
            · exact Or.inr ⟨h, k, rfl, rfl, fun _ => (if_neg hsame).trans (if_neg hsize)⟩
      | _ => exact Or.inl ⟨_, fun _ => rfl⟩
  | _ => cases b <;> exact Or.inl ⟨_, fun _ => rfl⟩

theorem allAgree_mono {eq eq' : Value → Value → Option Bool} {vs ws : List Value}
    (heq : ∀ v w r, eq v w = some r → eq' v w = some r) (h : allAgree eq vs ws = some r) :
    allAgree eq' vs ws = some r := by
  induction vs generalizing ws with
  | nil => cases ws <;> exact h
  | cons v vs ih =>
      cases ws with
      | nil => exact h
      | cons w ws =>
          rw [allAgree] at h ⊢
          cases hvw : eq v w with
          | none =>
              rw [hvw] at h
              cases h
          | some agree =>
              rw [hvw] at h
              rw [heq v w agree hvw]
              cases agree with
              | false => exact h
              | true => exact ih h

/-- An answer stays the same with more fuel. -/
theorem equalWithin_succ (h : σ.equalWithin n a b = some r) :
    σ.equalWithin (n + 1) a b = some r := by
  induction n generalizing a b r with
  | zero => cases h
  | succ n ih =>
      obtain ⟨answer, hanswer⟩ | ⟨x, y, rfl, rfl, helements⟩ := σ.equalWithin_cases a b
      · rw [hanswer] at h ⊢
        exact h
      · rw [helements] at h ⊢
        exact allAgree_mono (fun _ _ _ => ih) h

theorem equalWithin_mono (h : σ.equalWithin n a b = some r) (hle : n ≤ m) :
    σ.equalWithin m a b = some r := by
  induction hle with
  | refl => exact h
  | step _ ih => exact equalWithin_succ ih

theorem equalWithin_unique {r' : Bool} (h : σ.equalWithin n a b = some r)
    (h' : σ.equalWithin m a b = some r') : r = r' := by
  have hmax := equalWithin_mono h (Nat.le_max_left n m)
  rw [equalWithin_mono h' (Nat.le_max_right n m)] at hmax
  exact (Option.some.inj hmax).symm

theorem exists_of_allAgree_eq_none {eq : Value → Value → Option Bool} {vs ws : List Value}
    (h : allAgree eq vs ws = none) : ∃ v w, (v, w) ∈ vs.zip ws ∧ eq v w = none := by
  induction vs generalizing ws with
  | nil => cases ws <;> cases h
  | cons v vs ih =>
      cases ws with
      | nil => cases h
      | cons w ws =>
          cases hvw : eq v w with
          | none => exact ⟨v, w, List.mem_cons_self, hvw⟩
          | some agree =>
              rw [allAgree, hvw] at h
              cases agree with
              | false => cases h
              | true =>
                  obtain ⟨v', w', hmem, hnone⟩ := ih h
                  exact ⟨v', w', List.mem_cons_of_mem _ hmem, hnone⟩

/-- With fuel for all levels of the first value there is an answer. -/
theorem Depth.equalWithin_ne_none (ha : σ.Depth n a) (b : Value) :
    σ.equalWithin (n + 1) a b ≠ none := by
  induction n generalizing a b with
  | zero =>
      obtain ⟨r, hr⟩ | ⟨h, k, rfl, -, -⟩ := σ.equalWithin_cases a b
      · simp [hr]
      · obtain ⟨m, hm⟩ := ha.pos
        cases hm
  | succ n ih =>
      obtain ⟨r, hr⟩ | ⟨h, k, rfl, rfl, helements⟩ := σ.equalWithin_cases a b
      · simp [hr]
      · rw [helements]
        intro hnone
        obtain ⟨v, w, hmem, hvw⟩ := exists_of_allAgree_eq_none hnone
        exact ih (ha.of_mem (Array.mem_toList_iff.mp (List.of_mem_zip hmem).1)) w hvw

theorem ComparesForever.quotesForever (hab : σ.ComparesForever a b) : σ.QuotesForever a :=
  quotesForever_iff.mpr fun n ha => ha.equalWithin_ne_none b (hab (n + 1))

/-- Elements that decide a comparison of lists: without an answer before, with one now. -/
theorem exists_decisive {eq eq' : Value → Value → Option Bool} {vs ws : List Value}
    (heq : ∀ v w r, eq v w = some r → eq' v w = some r) (hnone : allAgree eq vs ws = none)
    (hsome : allAgree eq' vs ws ≠ none) :
    ∃ v w, (v, w) ∈ vs.zip ws ∧ eq v w = none ∧ eq' v w ≠ none := by
  induction vs generalizing ws with
  | nil => cases ws <;> cases hnone
  | cons v vs ih =>
      cases ws with
      | nil => cases hnone
      | cons w ws =>
          rw [allAgree] at hnone hsome
          cases hvw : eq v w with
          | none =>
              refine ⟨v, w, List.mem_cons_self, hvw, fun hnone' => hsome ?_⟩
              rw [hnone']
              rfl
          | some agree =>
              rw [hvw] at hnone
              rw [heq v w agree hvw] at hsome
              cases agree with
              | false => cases hnone
              | true =>
                  obtain ⟨v', w', hmem, hdecisive⟩ := ih hnone hsome
                  exact ⟨v', w', List.mem_cons_of_mem _ hmem, hdecisive⟩

/-- A comparison that so much fuel is just not enough for. -/
def FallsShort (σ : Heap) (n : Nat) (a b : Value) : Prop :=
  σ.equalWithin n a b = none ∧ σ.equalWithin (n + 1) a b ≠ none

theorem FallsShort.inj (hn : σ.FallsShort n a b) (hm : σ.FallsShort m a b) : n = m := by
  have hle {n m : Nat} (hn : σ.FallsShort n a b) (hm : σ.FallsShort m a b) : m ≤ n := by
    by_contra hlt
    obtain ⟨r, hr⟩ := Option.ne_none_iff_exists'.mp hn.2
    have hsome := equalWithin_mono hr (Nat.lt_of_not_le hlt)
    rw [hm.1] at hsome
    cases hsome
  exact Nat.le_antisymm (hle hm hn) (hle hn hm)

/-- Below a pair of arrays for which fuel is just not enough there is a pair for which one less is
just not enough. -/
theorem FallsShort.descend (hab : σ.FallsShort (n + 1) a b) :
    ∃ h k, a = .array h ∧ b = .array k ∧
      ∃ v w, v ∈ σ.items h ∧ w ∈ σ.items k ∧ σ.FallsShort n v w := by
  obtain ⟨hnone, hsome⟩ := hab
  obtain ⟨r, hr⟩ | ⟨h, k, rfl, rfl, helements⟩ := σ.equalWithin_cases a b
  · rw [hr] at hnone
    cases hnone
  · rw [helements] at hnone hsome
    obtain ⟨v, w, hmem, hshort⟩ := exists_decisive (fun _ _ _ => equalWithin_succ) hnone hsome
    obtain ⟨hv, hw⟩ := List.of_mem_zip hmem
    exact ⟨h, k, rfl, rfl, v, w, Array.mem_toList_iff.mp hv, Array.mem_toList_iff.mp hw, hshort⟩

/-- On the way down each pair of arrays comes once, so fuel falls short by no more than there are
pairs. -/
theorem FallsShort.le_pairs (hab : σ.FallsShort n a b) : n ≤ σ.cells.size * σ.cells.size := by
  let handles := Finset.Icc 1 σ.cells.size
  have hpairs : ∀ i ∈ Finset.Icc 1 n, ∃ p ∈ handles ×ˢ handles,
      σ.FallsShort i (.array ⟨p.1⟩) (.array ⟨p.2⟩) := by
    induction n generalizing a b with
    | zero => simp
    | succ n ih =>
        obtain ⟨h, k, rfl, rfl, v, w, hv, hw, hvw⟩ := hab.descend
        intro i hi
        rw [Finset.mem_Icc] at hi
        obtain rfl | hlt := Nat.eq_or_lt_of_le hi.2
        · exact ⟨(h.number, k.number), Finset.mem_product.mpr
            ⟨number_mem_of_mem_items hv, number_mem_of_mem_items hw⟩, hab⟩
        · exact ih hvw i (Finset.mem_Icc.mpr ⟨hi.1, Nat.le_of_lt_succ hlt⟩)
  choose! pair hmem hshort using hpairs
  have hinj : Set.InjOn pair (Finset.Icc 1 n) := by
    intro i hi j hj hij
    have hshort' := hshort j hj
    rw [← hij] at hshort'
    exact (hshort i hi).inj hshort'
  have hcard := Finset.card_le_card_of_injOn pair hmem hinj
  simpa [handles, Finset.card_product] using hcard

theorem exists_fallsShort (hnone : σ.equalWithin n a b = none)
    (hsome : σ.equalWithin m a b ≠ none) : ∃ l, n ≤ l ∧ σ.FallsShort l a b := by
  induction m with
  | zero => exact absurd rfl hsome
  | succ m ih =>
      by_cases hm : σ.equalWithin m a b = none
      · refine ⟨m, ?_, hm, hsome⟩
        by_contra hlt
        obtain ⟨r, hr⟩ := Option.ne_none_iff_exists'.mp hsome
        rw [equalWithin_mono hr (Nat.lt_of_not_le hlt)] at hnone
        cases hnone
      · exact ih hm

theorem equal?_eq_none_iff : σ.equal? a b = none ↔ σ.ComparesForever a b := by
  refine ⟨fun hnone fuel => ?_, fun hforever => hforever _⟩
  by_contra hsome
  obtain ⟨l, hle, hshort⟩ := exists_fallsShort hnone hsome
  have hpairs := hshort.le_pairs
  have hroom := Nat.mul_le_mul (Nat.le_succ σ.cells.size) (Nat.le_succ σ.cells.size)
  exact absurd (hle.trans hpairs) (Nat.not_le_of_gt (Nat.lt_succ_of_le hroom))

/-- The answer of a comparison is the one that it has with any fuel that is enough. -/
theorem equal?_eq_some_iff : σ.equal? a b = some r ↔ ∃ fuel, σ.equalWithin fuel a b = some r := by
  refine ⟨fun h => ⟨_, h⟩, fun ⟨fuel, hfuel⟩ => ?_⟩
  cases hanswer : σ.equal? a b with
  | none =>
      rw [equal?_eq_none_iff.mp hanswer fuel] at hfuel
      cases hfuel
  | some r' => rw [equalWithin_unique hfuel hanswer]

/-- Looking for a value never ends just if comparing never ends at an element before which there is
none that equals the value. -/
theorem searchEnds_eq_false_iff :
    σ.searchEnds h v = false ↔ ∃ before w after, (σ.items h).toList = before ++ w :: after ∧
      (∀ u ∈ before, σ.equal? u v = some false) ∧ σ.ComparesForever w v := by
  rw [searchEnds]
  constructor
  · intro hends
    cases hfind : (σ.items h).toList.find? (fun w => σ.equal? w v != some false) with
    | none =>
        rw [hfind] at hends
        cases hends
    | some w =>
        obtain ⟨hw, before, after, hsplit, hbefore⟩ := List.find?_eq_some_iff_append.mp hfind
        refine ⟨before, w, after, hsplit, by simpa using hbefore, equal?_eq_none_iff.mp ?_⟩
        rw [hfind, Option.all_some, equal] at hends
        cases hequal : σ.equal? w v with
        | none => rfl
        | some agree => cases agree <;> simp [hequal] at hw hends
  · rintro ⟨before, w, after, hsplit, hbefore, hforever⟩
    have hw := equal?_eq_none_iff.mpr hforever
    have hfind : (σ.items h).toList.find? (fun w => σ.equal? w v != some false) = some w := by
      refine List.find?_eq_some_iff_append.mpr ⟨by simp [hw], before, after, hsplit, ?_⟩
      simpa using hbefore
    rw [hfind, Option.all_some, equal, hw]
    rfl

end JumpScript.Heap
