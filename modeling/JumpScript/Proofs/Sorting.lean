import Mathlib.Data.List.Perm.Basic
import JumpScript.Sorting

/-!
# Sorting

Whatever `lt` answers, sorting puts the elements of a list in another order and neither loses nor
adds any.  Where a transitive relation goes with `lt` on these elements, the order is that of the
relation.
-/

namespace JumpScript.Sorting

variable {α : Type}

theorem insertDescending_perm (lt : α → α → Bool) (v : α) (ws : List α) :
    (insertDescending lt v ws).Perm (v :: ws) := by
  induction ws with
  | nil => exact List.Perm.refl _
  | cons w ws ih =>
      rw [insertDescending]
      split
      · exact (ih.cons w).trans (List.Perm.swap v w ws)
      · exact List.Perm.refl _

theorem foldl_insertDescending_perm (lt : α → α → Bool) (vs acc : List α) :
    (vs.foldl (fun acc v => insertDescending lt v acc) acc).Perm (vs ++ acc) := by
  induction vs generalizing acc with
  | nil => exact List.Perm.refl acc
  | cons v vs ih =>
      have hinsert := (insertDescending_perm lt v acc).append_left vs
      exact ((ih _).trans hinsert).trans List.perm_middle

theorem insertAll_perm (lt : α → α → Bool) (vs : List α) : (insertAll lt vs).Perm vs := by
  have hfold := foldl_insertDescending_perm lt vs []
  rw [List.append_nil] at hfold
  exact (List.reverse_perm _).trans hfold

/-- What comes in at any place of a list can as well come before it. -/
theorem insert_at_perm (xs ys : List α) (i : Nat) :
    (ys.take i ++ xs ++ ys.drop i).Perm (xs ++ ys) := by
  have hswap : (ys.take i ++ xs).Perm (xs ++ ys.take i) := List.perm_append_comm
  have hall := hswap.append_right (ys.drop i)
  rwa [List.append_assoc xs, List.take_append_drop] at hall

theorem merge_perm (lt : α → α → Bool) (xs ys : List α) : (merge lt xs ys).Perm (xs ++ ys) := by
  fun_induction merge lt xs ys with
  | case1 xs ys => exact List.Perm.refl _
  | case2 xs ys _ _ i => exact insert_at_perm xs ys i
  | case3 xs ys _ _ _ i => exact (insert_at_perm ys xs i).trans List.perm_append_comm
  | case4 xs ys _ _ _ half k ihfirst ihsecond =>
      have hmiddle : (xs.take k ++ ys.take (half - k) ++ (xs.drop k ++ ys.drop (half - k))).Perm
          (xs.take k ++ xs.drop k ++ (ys.take (half - k) ++ ys.drop (half - k))) := by
        rw [List.append_assoc, List.append_assoc]
        apply List.Perm.append_left
        exact List.perm_append_comm_assoc _ _ _
      rw [List.take_append_drop, List.take_append_drop] at hmiddle
      exact (ihfirst.append ihsecond).trans hmiddle

theorem flatten_blocks (size : Nat) (vs : List α) : (blocks size vs).flatten = vs := by
  fun_induction blocks size vs with
  | case1 vs => simp
  | case2 vs _ ih => rw [List.flatten_cons, ih, List.take_append_drop]

theorem flatten_mergePairs_perm (lt : α → α → Bool) (bs : List (List α)) :
    (mergePairs lt bs).flatten.Perm bs.flatten := by
  fun_induction mergePairs lt bs with
  | case1 xs ys rest ih =>
      rw [List.flatten_cons, List.flatten_cons, List.flatten_cons, ← List.append_assoc]
      exact (merge_perm lt xs ys).append ih
  | case2 rest _ => exact List.Perm.refl _

theorem mergeAll_perm (lt : α → α → Bool) (bs : List (List α)) :
    (mergeAll lt bs).Perm bs.flatten := by
  fun_induction mergeAll lt bs with
  | case1 => exact List.Perm.refl _
  | case2 b => simp
  | case3 b c rest ih => exact ih.trans (flatten_mergePairs_perm lt (b :: c :: rest))

theorem flatten_map_insertAll_perm (lt : α → α → Bool) (bs : List (List α)) :
    (bs.map (insertAll lt)).flatten.Perm bs.flatten := by
  induction bs with
  | nil => exact List.Perm.refl _
  | cons b bs ih =>
      rw [List.map_cons, List.flatten_cons, List.flatten_cons]
      exact (insertAll_perm lt b).append ih

/-- Sorting only changes the order. -/
theorem sorted_perm (lt : α → α → Bool) (vs : List α) : (sorted lt vs).Perm vs := by
  have hblocks := flatten_map_insertAll_perm lt (blocks (blockSize - 1) vs)
  rw [flatten_blocks] at hblocks
  exact (mergeAll_perm lt _).trans hblocks

section Ordered

variable {lt : α → α → Bool} {r : α → α → Prop} {S : Set α} {p : Nat → Bool} {lo hi i j : Nat}

/-- On the elements of a set, a relation goes with what `lt` answers: it holds where `lt` says so,
and the other way round where `lt` says no. -/
structure Decides (lt : α → α → Bool) (r : α → α → Prop) (S : Set α) : Prop where
  trans : ∀ a ∈ S, ∀ b ∈ S, ∀ c ∈ S, r a b → r b c → r a c
  of_lt : ∀ a ∈ S, ∀ b ∈ S, lt a b = true → r a b
  of_not_lt : ∀ a ∈ S, ∀ b ∈ S, lt a b = false → r b a

theorem Decides.pairwise_insertDescending (hr : Decides lt r S) {v : α} {ws : List α} (hv : v ∈ S)
    (hmem : ∀ w ∈ ws, w ∈ S) (hws : ws.Pairwise fun a b => r b a) :
    (insertDescending lt v ws).Pairwise fun a b => r b a := by
  induction ws with
  | nil => exact List.pairwise_singleton _ v
  | cons w ws ih =>
      obtain ⟨hw, htail⟩ := List.forall_mem_cons.mp hmem
      obtain ⟨hhead, hrest⟩ := List.pairwise_cons.mp hws
      rw [insertDescending]
      split
      next hlt =>
        refine List.pairwise_cons.mpr ⟨?_, ih htail hrest⟩
        intro x hx
        rw [(insertDescending_perm lt v ws).mem_iff] at hx
        rcases List.mem_cons.mp hx with rfl | hx
        · exact hr.of_lt _ hv _ hw hlt
        · exact hhead x hx
      next hlt =>
        have hwv : r w v := hr.of_not_lt _ hv _ hw (Bool.eq_false_iff.mpr hlt)
        refine List.pairwise_cons.mpr ⟨?_, hws⟩
        intro x hx
        rcases List.mem_cons.mp hx with rfl | hx
        · exact hwv
        · exact hr.trans _ (htail x hx) _ hw _ hv (hhead x hx) hwv

theorem Decides.pairwise_foldl_insertDescending (hr : Decides lt r S) (vs : List α) {ws : List α}
    (hvs : ∀ v ∈ vs, v ∈ S) (hmem : ∀ w ∈ ws, w ∈ S) (hws : ws.Pairwise fun a b => r b a) :
    (vs.foldl (fun acc v => insertDescending lt v acc) ws).Pairwise fun a b => r b a := by
  induction vs generalizing ws with
  | nil => exact hws
  | cons v vs ih =>
      obtain ⟨hv, hrest⟩ := List.forall_mem_cons.mp hvs
      refine ih hrest ?_ (hr.pairwise_insertDescending hv hmem hws)
      intro w hw
      rw [(insertDescending_perm lt v ws).mem_iff] at hw
      rcases List.mem_cons.mp hw with rfl | hw
      · exact hv
      · exact hmem w hw

theorem Decides.pairwise_insertAll (hr : Decides lt r S) {vs : List α} (hvs : ∀ v ∈ vs, v ∈ S) :
    (insertAll lt vs).Pairwise r :=
  List.pairwise_reverse.mpr (hr.pairwise_foldl_insertDescending vs hvs (by simp) List.Pairwise.nil)

/-- Bisection ends between its limits, behind a place where `p` holds and at one where it does not,
unless it ends at a limit. -/
theorem bisect_spec (h : lo ≤ hi) :
    lo ≤ bisect p lo hi ∧ bisect p lo hi ≤ hi ∧
      (lo < bisect p lo hi → p (bisect p lo hi - 1) = true) ∧
      (bisect p lo hi < hi → p (bisect p lo hi) = false) := by
  fun_induction bisect p lo hi with
  | case1 lo hi hlt c hp ih =>
      have hc : lo ≤ c ∧ c + 1 ≤ hi := by omega
      obtain ⟨hlow, hhigh, hbelow, hat⟩ := ih hc.2
      refine ⟨by omega, hhigh, fun _ => ?_, hat⟩
      rcases Nat.lt_or_eq_of_le hlow with h' | h'
      · exact hbelow h'
      · rw [← h']
        exact hp
  | case2 lo hi hlt c hp ih =>
      have hc : lo ≤ c ∧ c + 1 ≤ hi := by omega
      obtain ⟨hlow, hhigh, hbelow, hat⟩ := ih hc.1
      refine ⟨hlow, by omega, hbelow, fun _ => ?_⟩
      rcases Nat.lt_or_eq_of_le hhigh with h' | h'
      · exact hat h'
      · rw [h']
        exact Bool.eq_false_iff.mpr hp
  | case3 lo hi hge =>
      exact ⟨Nat.le_refl lo, h, fun h' => absurd h' (Nat.lt_irrefl lo), fun h' => absurd h' hge⟩

/-- Where a sorted list is cut before an element that comes after the last one before another cut,
what stands before that cut comes before what stands after this one. -/
theorem Decides.take_drop (hr : Decides lt r S) {xs ys : List α} (hxs : xs.Pairwise r)
    (hys : ys.Pairwise r) (hxsS : ∀ x ∈ xs, x ∈ S) (hysS : ∀ y ∈ ys, y ∈ S) (hi : i ≤ xs.length)
    (hcut : ∀ (hx : i - 1 < xs.length) (hy : j < ys.length), 0 < i → r xs[i - 1] ys[j]) :
    ∀ x ∈ xs.take i, ∀ y ∈ ys.drop j, r x y := by
  intro x hx y hy
  obtain ⟨m, hm, rfl⟩ := List.mem_take_iff_getElem.mp hx
  obtain ⟨n, hn, rfl⟩ := List.mem_drop_iff_getElem.mp hy
  have hlast : i - 1 < xs.length := by omega
  have hfirst : j < ys.length := by omega
  have hmiddle := hcut hlast hfirst (by omega)
  have hleft : r xs[m] ys[j] := by
    rcases Nat.lt_or_eq_of_le (show m ≤ i - 1 by omega) with hlt | rfl
    · have hbefore := List.pairwise_iff_getElem.mp hxs m (i - 1) (by omega) hlast hlt
      exact hr.trans _ (hxsS _ (List.getElem_mem _)) _ (hxsS _ (List.getElem_mem _)) _
        (hysS _ (List.getElem_mem _)) hbefore hmiddle
    · exact hmiddle
  rcases Nat.eq_zero_or_pos n with rfl | hpos
  · exact hleft
  · have hafter := List.pairwise_iff_getElem.mp hys j (j + n) hfirst (by omega) (by omega)
    exact hr.trans _ (hxsS _ (List.getElem_mem _)) _ (hysS _ (List.getElem_mem _)) _
      (hysS _ (List.getElem_mem _)) hleft hafter

theorem less_eq {xs ys : List α} (hx : i < xs.length) (hy : j < ys.length) :
    less lt xs.toArray ys.toArray i j = lt xs[i] ys[j] := by
  simp [less, hx, hy]

theorem Decides.pairwise_insert (hr : Decides lt r S) {x : α} {ys : List α} (hx : x ∈ S)
    (hys : ys.Pairwise r) (hysS : ∀ y ∈ ys, y ∈ S) (hi : i ≤ ys.length)
    (hbefore : ∀ h : i - 1 < ys.length, 0 < i → r ys[i - 1] x)
    (hafter : ∀ h : i < ys.length, r x ys[i]) : (ys.take i ++ [x] ++ ys.drop i).Pairwise r := by
  have hxs : [x].Pairwise r := List.pairwise_singleton r x
  have hxS : ∀ z ∈ [x], z ∈ S := List.forall_mem_singleton.mpr hx
  have hleft : ∀ y ∈ ys.take i, ∀ z ∈ [x].drop 0, r y z :=
    hr.take_drop hys hxs hysS hxS hi fun hy _ hpos => hbefore hy hpos
  have hright : ∀ z ∈ [x].take 1, ∀ y ∈ ys.drop i, r z y :=
    hr.take_drop hxs hys hxS hysS (Nat.le_refl 1) fun _ hy _ => hafter hy
  rw [← List.take_append_drop i ys, List.pairwise_append] at hys
  obtain ⟨htake, hdrop, hcross⟩ := hys
  refine List.pairwise_append.mpr ⟨List.pairwise_append.mpr ⟨htake, hxs, hleft⟩, hdrop, ?_⟩
  intro z hz y hy
  rcases List.mem_append.mp hz with hz | hz
  · exact hcross z hz y hy
  · exact hright z hz y hy

/-- A merge cuts two lists where the elements around one cut do not go before those around the other
one. -/
theorem share_spec {xs ys : List α} {half k : Nat} (hhalf : half ≤ xs.length + ys.length)
    (hk : k = share lt xs.toArray ys.toArray half) :
    half - ys.length ≤ k ∧ k ≤ half ∧ k ≤ xs.length ∧
      (∀ (hx : k - 1 < xs.length) (hy : half - k < ys.length), 0 < k →
        lt ys[half - k] xs[k - 1] = false) ∧
      (∀ (hy : half - k - 1 < ys.length) (hx : k < xs.length), 0 < half - k →
        lt ys[half - k - 1] xs[k] = true) := by
  have hlimits : half - ys.length ≤ min half xs.length := by omega
  have hspec := @bisect_spec (fun c => !less lt ys.toArray xs.toArray (half - 1 - c) c) _ _ hlimits
  change _ ≤ share lt xs.toArray ys.toArray half ∧ share lt xs.toArray ys.toArray half ≤ _ ∧
    (_ < share lt xs.toArray ys.toArray half →
      (!less lt ys.toArray xs.toArray (half - 1 - (share lt xs.toArray ys.toArray half - 1))
        (share lt xs.toArray ys.toArray half - 1)) = true) ∧
    (share lt xs.toArray ys.toArray half < _ →
      (!less lt ys.toArray xs.toArray (half - 1 - share lt xs.toArray ys.toArray half)
        (share lt xs.toArray ys.toArray half)) = false) at hspec
  rw [← hk] at hspec
  obtain ⟨hlow, hhigh, hbelow, hat⟩ := hspec
  refine ⟨hlow, by omega, by omega, fun hx hy hpos => ?_, fun hy hx hpos => ?_⟩
  · have hnot := hbelow (by omega)
    rwa [show half - 1 - (k - 1) = half - k by omega, less_eq hy hx, Bool.not_eq_true'] at hnot
  · have hlt := hat (by omega)
    rwa [show half - 1 - k = half - k - 1 by omega, less_eq hy hx, Bool.not_eq_false'] at hlt

/-- The merge of two sorted lists is sorted. -/
theorem Decides.pairwise_merge (hr : Decides lt r S) {xs ys : List α} (hxs : xs.Pairwise r)
    (hys : ys.Pairwise r) (hxsS : ∀ x ∈ xs, x ∈ S) (hysS : ∀ y ∈ ys, y ∈ S) :
    (merge lt xs ys).Pairwise r := by
  fun_induction merge lt xs ys with
  | case1 xs ys h =>
      rcases h with h | h
      · rw [List.length_eq_zero_iff.mp h]
        exact hys
      · rw [List.length_eq_zero_iff.mp h, List.append_nil]
        exact hxs
  | case2 xs ys hne hone i =>
      obtain ⟨x, rfl⟩ := List.length_eq_one_iff.mp hone
      obtain ⟨-, hi, hbelow, hat⟩ := @bisect_spec (fun h => less lt ys.toArray [x].toArray h 0) 0
        ys.length (Nat.zero_le _)
      have hx : x ∈ S := hxsS x List.mem_cons_self
      refine hr.pairwise_insert hx hys hysS hi (fun hy hpos => ?_) fun hy => ?_
      · have hlt := hbelow hpos
        rw [less_eq hy Nat.one_pos] at hlt
        exact hr.of_lt _ (hysS _ (List.getElem_mem _)) _ hx hlt
      · have hnot := hat hy
        rw [less_eq hy Nat.one_pos] at hnot
        exact hr.of_not_lt _ (hysS _ (List.getElem_mem _)) _ hx hnot
  | case3 xs ys hne hmany hone i =>
      obtain ⟨y, rfl⟩ := List.length_eq_one_iff.mp hone
      obtain ⟨-, hi, hbelow, hat⟩ := @bisect_spec (fun h => !less lt [y].toArray xs.toArray 0 h) 0
        xs.length (Nat.zero_le _)
      have hy : y ∈ S := hysS y List.mem_cons_self
      refine hr.pairwise_insert hy hxs hxsS hi (fun hx hpos => ?_) fun hx => ?_
      · have hnot := hbelow hpos
        rw [less_eq Nat.one_pos hx, Bool.not_eq_true'] at hnot
        exact hr.of_not_lt _ hy _ (hxsS _ (List.getElem_mem _)) hnot
      · have hlt := hat hx
        rw [less_eq Nat.one_pos hx, Bool.not_eq_false'] at hlt
        exact hr.of_lt _ hy _ (hxsS _ (List.getElem_mem _)) hlt
  | case4 xs ys hne hxs1 hys1 half k ihfirst ihsecond =>
      have hhalf : half ≤ xs.length + ys.length := Nat.div_le_self _ 2
      obtain ⟨hlow, hhalfk, hxsk, hbefore, hafter⟩ := share_spec hhalf (@rfl _ (share lt _ _ half))
      have hk : k = share lt xs.toArray ys.toArray half := Nat.min_eq_right hhalfk
      rw [← hk] at hlow hhalfk hxsk hbefore hafter
      have hfirst := ihfirst (hxs.take) (hys.take) (fun x hx => hxsS x (List.mem_of_mem_take hx))
        (fun y hy => hysS y (List.mem_of_mem_take hy))
      have hsecond := ihsecond (hxs.drop) (hys.drop) (fun x hx => hxsS x (List.mem_of_mem_drop hx))
        (fun y hy => hysS y (List.mem_of_mem_drop hy))
      refine List.pairwise_append.mpr ⟨hfirst, hsecond, ?_⟩
      intro a ha b hb
      rw [(merge_perm lt _ _).mem_iff, List.mem_append] at ha hb
      have hwithin {zs : List α} {i : Nat} (hzs : zs.Pairwise r) :
          ∀ x ∈ zs.take i, ∀ y ∈ zs.drop i, r x y := by
        rw [← List.take_append_drop i zs, List.pairwise_append] at hzs
        exact hzs.2.2
      rcases ha with ha | ha <;> rcases hb with hb | hb
      · exact hwithin hxs a ha b hb
      · refine hr.take_drop hxs hys hxsS hysS hxsk (fun hx hy hpos => ?_) a ha b hb
        exact hr.of_not_lt _ (hysS _ (List.getElem_mem _)) _ (hxsS _ (List.getElem_mem _))
          (hbefore hx hy hpos)
      · refine hr.take_drop hys hxs hysS hxsS (by omega) (fun hy hx hpos => ?_) a ha b hb
        exact hr.of_lt _ (hysS _ (List.getElem_mem _)) _ (hxsS _ (List.getElem_mem _))
          (hafter hy hx hpos)
      · exact hwithin hys a ha b hb

/-- A list of elements of a set is in order. -/
def Run (r : α → α → Prop) (S : Set α) (vs : List α) : Prop := vs.Pairwise r ∧ ∀ v ∈ vs, v ∈ S

theorem Decides.run_merge (hr : Decides lt r S) {xs ys : List α} (hxs : Run r S xs)
    (hys : Run r S ys) : Run r S (merge lt xs ys) := by
  refine ⟨hr.pairwise_merge hxs.1 hys.1 hxs.2 hys.2, fun v hv => ?_⟩
  rw [(merge_perm lt xs ys).mem_iff, List.mem_append] at hv
  exact hv.elim (hxs.2 v) (hys.2 v)

theorem Decides.run_mergePairs (hr : Decides lt r S) {bs : List (List α)}
    (hbs : ∀ b ∈ bs, Run r S b) : ∀ b ∈ mergePairs lt bs, Run r S b := by
  fun_induction mergePairs lt bs with
  | case1 xs ys rest ih =>
      simp only [List.forall_mem_cons] at hbs
      obtain ⟨hxs, hys, hrest⟩ := hbs
      exact List.forall_mem_cons.mpr ⟨hr.run_merge hxs hys, ih hrest⟩
  | case2 rest _ => exact hbs

theorem Decides.run_mergeAll (hr : Decides lt r S) {bs : List (List α)}
    (hbs : ∀ b ∈ bs, Run r S b) : Run r S (mergeAll lt bs) := by
  fun_induction mergeAll lt bs with
  | case1 => exact ⟨List.Pairwise.nil, by simp⟩
  | case2 b => exact hbs b List.mem_cons_self
  | case3 b c rest ih => exact ih (hr.run_mergePairs hbs)

/-- Where a relation goes with `lt`, a sorted list is in the order of that relation. -/
theorem Decides.pairwise_sorted (hr : Decides lt r S) {vs : List α} (hvs : ∀ v ∈ vs, v ∈ S) :
    (sorted lt vs).Pairwise r := by
  refine (hr.run_mergeAll fun b hb => ?_).1
  obtain ⟨c, hc, rfl⟩ := List.mem_map.mp hb
  have hmem : ∀ v ∈ c, v ∈ S := by
    intro v hv
    apply hvs
    rw [← flatten_blocks (blockSize - 1) vs]
    exact List.mem_flatten_of_mem hc hv
  refine ⟨hr.pairwise_insertAll hmem, fun v hv => hmem v ?_⟩
  exact (insertAll_perm lt c).mem_iff.mp hv

end Ordered

end JumpScript.Sorting
