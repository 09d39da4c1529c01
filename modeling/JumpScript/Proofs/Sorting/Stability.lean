import Mathlib.Data.List.Nodup
import JumpScript.Proofs.Sorting

/-!
# Stability

Sorting only asks whether a later element is less than an earlier one.  Number the elements of a
list, and let the smaller number decide between two that compare equal: no answer changes, so the
numbered list is sorted like the list.  But now no two elements compare equal, and being in order
says that those that did keep theirs.
-/

namespace JumpScript.Sorting

variable {α β : Type} {lt : α → α → Bool} {lt' : β → β → Bool} {f : α → β}

theorem insertDescending_map {v : α} {ws : List α} (h : ∀ w ∈ ws, lt v w = lt' (f v) (f w)) :
    (insertDescending lt v ws).map f = insertDescending lt' (f v) (ws.map f) := by
  induction ws with
  | nil => rfl
  | cons w ws ih =>
      obtain ⟨hw, hws⟩ := List.forall_mem_cons.mp h
      rw [insertDescending, List.map_cons, insertDescending, ← hw]
      split
      · rw [List.map_cons, ih hws]
      · rfl

theorem foldl_insertDescending_map {vs acc : List α}
    (h : vs.Pairwise fun a b => lt b a = lt' (f b) (f a))
    (hacc : ∀ v ∈ vs, ∀ w ∈ acc, lt v w = lt' (f v) (f w)) :
    (vs.foldl (fun acc v => insertDescending lt v acc) acc).map f
      = (vs.map f).foldl (fun acc v => insertDescending lt' v acc) (acc.map f) := by
  induction vs generalizing acc with
  | nil => rfl
  | cons v vs ih =>
      obtain ⟨hv, hvs⟩ := List.pairwise_cons.mp h
      obtain ⟨hvacc, hvsacc⟩ := List.forall_mem_cons.mp hacc
      rw [List.foldl_cons, List.map_cons, List.foldl_cons, ← insertDescending_map hvacc]
      refine ih hvs fun u hu w hw => ?_
      rw [(insertDescending_perm lt v acc).mem_iff] at hw
      rcases List.mem_cons.mp hw with rfl | hw
      · exact hv u hu
      · exact hvsacc u hu w hw

theorem insertAll_map {vs : List α} (h : vs.Pairwise fun a b => lt b a = lt' (f b) (f a)) :
    (insertAll lt vs).map f = insertAll lt' (vs.map f) := by
  rw [insertAll, insertAll, List.map_reverse, foldl_insertDescending_map h (by simp)]
  rfl

/-- The answers about elements of two lists, the second of which comes after the first. -/
def Preserves (lt : α → α → Bool) (lt' : β → β → Bool) (f : α → β) (xs ys : List α) : Prop :=
  ∀ x ∈ xs, ∀ y ∈ ys, lt y x = lt' (f y) (f x)

theorem Preserves.less_map {xs ys : List α} (h : Preserves lt lt' f xs ys) (i j : Nat) :
    less lt' (ys.map f).toArray (xs.map f).toArray i j = less lt ys.toArray xs.toArray i j := by
  simp only [less, List.getElem?_toArray, List.getElem?_map]
  cases hy : ys[i]? with
  | none => rfl
  | some y =>
      cases hx : xs[j]? with
      | none => rfl
      | some x => exact (h x (List.mem_of_getElem? hx) y (List.mem_of_getElem? hy)).symm

theorem Preserves.share_map {xs ys : List α} (h : Preserves lt lt' f xs ys) (half : Nat) :
    share lt' (xs.map f).toArray (ys.map f).toArray half
      = share lt xs.toArray ys.toArray half := by
  simp only [share, h.less_map, List.size_toArray, List.length_map]

theorem Preserves.merge_map {xs ys : List α} (h : Preserves lt lt' f xs ys) :
    (merge lt xs ys).map f = merge lt' (xs.map f) (ys.map f) := by
  fun_induction merge lt xs ys with
  | case1 xs ys hempty =>
      rw [merge, if_pos (by simpa using hempty), List.map_append]
  | case2 xs ys hne hone i =>
      rw [merge, if_neg (by simpa using hne), if_pos (by simpa using hone)]
      simp only [h.less_map, List.length_map, List.map_append, List.map_take, List.map_drop, i]
  | case3 xs ys hne hmany hone i =>
      rw [merge, if_neg (by simpa using hne), if_neg (by simpa using hmany),
        if_pos (by simpa using hone)]
      simp only [h.less_map, List.length_map, List.map_append, List.map_take, List.map_drop, i]
  | case4 xs ys hne hxs hys half k ihfirst ihsecond =>
      have hfirst : Preserves lt lt' f (xs.take k) (ys.take (half - k)) := fun x hx y hy =>
        h x (List.mem_of_mem_take hx) y (List.mem_of_mem_take hy)
      have hsecond : Preserves lt lt' f (xs.drop k) (ys.drop (half - k)) := fun x hx y hy =>
        h x (List.mem_of_mem_drop hx) y (List.mem_of_mem_drop hy)
      rw [List.map_append, ihfirst hfirst, ihsecond hsecond]
      conv_rhs =>
        rw [merge, if_neg (by simpa using hne), if_neg (by simpa using hxs),
          if_neg (by simpa using hys)]
      simp only [h.share_map, List.length_map, List.map_take, List.map_drop, k, half]

theorem blocks_map (size : Nat) (vs : List α) :
    (blocks size vs).map (List.map f) = blocks size (vs.map f) := by
  fun_induction blocks size vs with
  | case1 vs hle => rw [blocks, if_pos (by simpa using hle), List.map_singleton]
  | case2 vs hgt ih =>
      rw [List.map_cons, ih]
      conv_rhs => rw [blocks, if_neg (by simpa using hgt)]
      rw [List.map_take, List.map_drop]

theorem mergePairs_map {bs : List (List α)} (h : bs.Pairwise (Preserves lt lt' f)) :
    (mergePairs lt bs).map (List.map f) = mergePairs lt' (bs.map (List.map f)) := by
  fun_induction mergePairs lt bs with
  | case1 xs ys rest ih =>
      obtain ⟨hxs, hrest⟩ := List.pairwise_cons.mp h
      rw [List.map_cons, List.map_cons, List.map_cons, mergePairs,
        (hxs ys List.mem_cons_self).merge_map, ih hrest.tail]
  | case2 rest hshort =>
      cases rest with
      | nil => rfl
      | cons xs rest =>
          cases rest with
          | nil => rfl
          | cons ys rest => exact absurd rfl (hshort xs ys rest)

/-- Merged neighbours hold what the lists held that they were made of. -/
theorem forall_mem_mergePairs {P : α → Prop} {bs : List (List α)} (h : ∀ b ∈ bs, ∀ v ∈ b, P v) :
    ∀ b ∈ mergePairs lt bs, ∀ v ∈ b, P v := by
  intro b hb v hv
  have hmem : v ∈ (mergePairs lt bs).flatten := List.mem_flatten_of_mem hb hv
  rw [(flatten_mergePairs_perm lt bs).mem_iff, List.mem_flatten] at hmem
  obtain ⟨c, hc, hv⟩ := hmem
  exact h c hc v hv

theorem pairwise_mergePairs {bs : List (List α)} (h : bs.Pairwise (Preserves lt lt' f)) :
    (mergePairs lt bs).Pairwise (Preserves lt lt' f) := by
  fun_induction mergePairs lt bs with
  | case1 xs ys rest ih =>
      obtain ⟨hxs, hrest⟩ := List.pairwise_cons.mp h
      obtain ⟨hys, hrest⟩ := List.pairwise_cons.mp hrest
      refine List.pairwise_cons.mpr ⟨fun b hb v hv => ?_, ih hrest⟩
      rw [(merge_perm lt xs ys).mem_iff, List.mem_append] at hv
      refine forall_mem_mergePairs (fun c hc w hw => ?_) b hb
      rcases hv with hv | hv
      · exact hxs c (List.mem_cons_of_mem ys hc) v hv w hw
      · exact hys c hc v hv w hw
  | case2 rest _ => exact h

theorem mergeAll_map {bs : List (List α)} (h : bs.Pairwise (Preserves lt lt' f)) :
    (mergeAll lt bs).map f = mergeAll lt' (bs.map (List.map f)) := by
  fun_induction mergeAll lt bs with
  | case1 => rw [List.map_nil, List.map_nil, mergeAll]
  | case2 b => rw [List.map_singleton, mergeAll]
  | case3 b c rest ih =>
      have hpairs : (mergePairs lt (b :: c :: rest)).Pairwise (Preserves lt lt' f) :=
        pairwise_mergePairs h
      rw [ih hpairs]
      change mergeAll lt' ((mergePairs lt (b :: c :: rest)).map (List.map f)) = _
      rw [mergePairs_map h, List.map_cons, List.map_cons]
      conv_rhs => rw [mergeAll]
      rfl

theorem preserves_insertAll {xs ys : List α} (h : Preserves lt lt' f xs ys) :
    Preserves lt lt' f (insertAll lt xs) (insertAll lt ys) := by
  intro x hx y hy
  exact h x ((insertAll_perm lt xs).mem_iff.mp hx) y ((insertAll_perm lt ys).mem_iff.mp hy)

/-- Of a list that is sorted the image is sorted, if all answers about a later element and an
earlier one are kept. -/
theorem sorted_map {vs : List α} (h : vs.Pairwise fun a b => lt b a = lt' (f b) (f a)) :
    (sorted lt vs).map f = sorted lt' (vs.map f) := by
  rw [← flatten_blocks (blockSize - 1) vs, List.pairwise_flatten] at h
  obtain ⟨hwithin, hacross⟩ := h
  have hblocks : ((blocks (blockSize - 1) vs).map (insertAll lt)).Pairwise
      (Preserves lt lt' f) :=
    List.pairwise_map.mpr (hacross.imp preserves_insertAll)
  rw [sorted, sorted, mergeAll_map hblocks, ← blocks_map, List.map_map, List.map_map]
  congr 1
  refine List.map_congr_left fun b hb => ?_
  exact insertAll_map (hwithin b hb)

/-- On the elements of a set, `lt` is a strict order in which those that compare equal are
interchangeable. -/
structure StrictlyOrders (lt : α → α → Bool) (S : Set α) : Prop where
  asymm : ∀ a ∈ S, ∀ b ∈ S, lt a b = true → lt b a = false
  negTrans : ∀ a ∈ S, ∀ b ∈ S, ∀ c ∈ S, lt a b = false → lt b c = false → lt a c = false

/-- One numbered element comes before another one: by `lt`, or by its number if they compare
equal. -/
def numberedLt (lt : α → α → Bool) (p q : α × Nat) : Bool :=
  lt p.1 q.1 || (!lt q.1 p.1 && decide (p.2 < q.2))

/-- The elements of a sorted list with the places that they come from. -/
def origins (lt : α → α → Bool) (vs : List α) : List (α × Nat) :=
  sorted (fun p q => lt p.1 q.1) vs.zipIdx

theorem origins_perm (lt : α → α → Bool) (vs : List α) : (origins lt vs).Perm vs.zipIdx :=
  sorted_perm _ _

theorem map_fst_origins (lt : α → α → Bool) (vs : List α) :
    (origins lt vs).map Prod.fst = sorted lt vs := by
  have hanswers : vs.zipIdx.Pairwise fun p q => lt q.1 p.1 = lt q.1 p.1 :=
    List.pairwise_of_forall fun _ _ => rfl
  have hfirst : (origins lt vs).map Prod.fst = sorted lt (vs.zipIdx.map Prod.fst) :=
    sorted_map hanswers
  rw [hfirst, List.zipIdx_map_fst]

/-- The places that the elements of a list come from increase, counted from any number. -/
theorem pairwise_zipIdx (vs : List α) (n : Nat) : (vs.zipIdx n).Pairwise fun p q => p.2 < q.2 := by
  have hsnd : ((vs.zipIdx n).map Prod.snd).Pairwise (· < ·) := by
    rw [List.zipIdx_map_snd]
    exact List.pairwise_lt_range'
  exact List.pairwise_map.mp hsnd

/-- The numbers do not change how a list is sorted. -/
theorem sorted_numberedLt (lt : α → α → Bool) (vs : List α) :
    sorted (numberedLt lt) vs.zipIdx = origins lt vs := by
  have hanswers : vs.zipIdx.Pairwise fun p q => numberedLt lt q p = lt (id q).1 (id p).1 := by
    refine (pairwise_zipIdx vs 0).imp fun {p q} hlt => ?_
    have hnot : ¬ q.2 < p.2 := Nat.not_lt_of_gt hlt
    simp [numberedLt, hnot]
  have hsame : (sorted (numberedLt lt) vs.zipIdx).map id
      = sorted (fun p q => lt p.1 q.1) (vs.zipIdx.map id) := sorted_map hanswers
  rwa [List.map_id, List.map_id] at hsame

theorem StrictlyOrders.decides {S : Set α} (h : StrictlyOrders lt S) :
    Decides (numberedLt lt)
      (fun p q => lt q.1 p.1 = false ∧ (lt p.1 q.1 = false → p.2 ≤ q.2)) {p | p.1 ∈ S} where
  trans p hp q hq s hs hpq hqs := by
    refine ⟨h.negTrans _ hs _ hq _ hp hqs.1 hpq.1, fun hps => ?_⟩
    have hfirst : lt p.1 q.1 = false := h.negTrans _ hp _ hs _ hq hps hqs.1
    have hsecond : lt q.1 s.1 = false := h.negTrans _ hq _ hp _ hs hpq.1 hps
    exact Nat.le_trans (hpq.2 hfirst) (hqs.2 hsecond)
  of_lt p hp q hq hlt := by
    simp only [numberedLt, Bool.or_eq_true, Bool.and_eq_true, Bool.not_eq_true',
      decide_eq_true_eq] at hlt
    rcases hlt with hlt | ⟨hback, hnumber⟩
    · refine ⟨h.asymm _ hp _ hq hlt, fun hnot => ?_⟩
      rw [hlt] at hnot
      cases hnot
    · exact ⟨hback, fun _ => Nat.le_of_lt hnumber⟩
  of_not_lt p hp q hq hnot := by
    simp only [numberedLt, Bool.or_eq_false_iff, Bool.and_eq_false_iff, Bool.not_eq_false',
      decide_eq_false_iff_not, Nat.not_lt] at hnot
    obtain ⟨hnot, hnumber⟩ := hnot
    refine ⟨hnot, fun hback => hnumber.resolve_left fun hlt => ?_⟩
    rw [hlt] at hback
    cases hback

/-- Where `lt` is an order, a sorted list is in that order, and elements that compare equal are in
the order in which they were given. -/
theorem StrictlyOrders.pairwise_origins {S : Set α} (h : StrictlyOrders lt S) {vs : List α}
    (hvs : ∀ v ∈ vs, v ∈ S) :
    (origins lt vs).Pairwise fun p q =>
      lt q.1 p.1 = false ∧ (lt p.1 q.1 = false → p.2 < q.2) := by
  have hmem : ∀ p ∈ vs.zipIdx, p ∈ {p : α × Nat | p.1 ∈ S} := fun p hp =>
    hvs p.1 (List.fst_mem_of_mem_zipIdx hp)
  have hordered := h.decides.pairwise_sorted hmem
  rw [sorted_numberedLt] at hordered
  have hdistinct : (origins lt vs).Pairwise fun p q => p.2 ≠ q.2 :=
    (origins_perm lt vs).symm.pairwise ((pairwise_zipIdx vs 0).imp Nat.ne_of_lt) Ne.symm
  exact hordered.imp₂ (fun p q hpq hne => ⟨hpq.1, fun hnot =>
    Nat.lt_of_le_of_ne (hpq.2 hnot) hne⟩) hdistinct

end JumpScript.Sorting
