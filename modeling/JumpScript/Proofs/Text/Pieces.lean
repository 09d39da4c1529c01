import Mathlib.Data.List.Infix
import JumpScript.Text.Bytes

/-!
# Splitting and joining

The pieces of a text make it up again when they are joined, whatever the separator is.  Splitting
at a single byte is splitting a list at one of its elements, and joining is putting a list between
others, so that what is known of lists holds of texts: the pieces of a text do not have the
separator, and pieces without the separator are found again.
-/

namespace JumpScript.Bytes

variable {c : UInt8} {s sep : Bytes}

theorem cut?_eq_none_iff : cut? sep s = none ↔ ¬ sep <:+: s := by
  induction s with
  | nil => cases sep <;> simp [cut?]
  | cons d s ih =>
      rw [cut?, List.infix_cons_iff, not_or, ← ih, ← List.isPrefixOf_iff_prefix]
      cases sep.isPrefixOf (d :: s) <;> simp

/-- A text is cut where the separator stands first. -/
theorem not_infix_of_cut? {a b : Bytes} (hsep : sep ≠ []) (h : cut? sep s = some (a, b)) :
    ¬ sep <:+: a := by
  induction s generalizing a b with
  | nil =>
      rw [cut?] at h
      split at h
      · rename_i hempty
        exact absurd (List.isEmpty_iff.mp hempty) hsep
      · cases h
  | cons d s ih =>
      have hs := eq_of_cut? h
      rw [cut?] at h
      split at h
      · cases h
        rwa [List.infix_nil]
      · rename_i hprefix
        obtain ⟨⟨a', b'⟩, hcut, hab⟩ := Option.map_eq_some_iff.mp h
        cases hab
        rw [List.infix_cons_iff, not_or]
        refine ⟨fun hhead => hprefix (List.isPrefixOf_iff_prefix.mpr ?_), ih hcut⟩
        rw [hs, List.append_assoc]
        exact hhead.trans (List.prefix_append _ _)

theorem notMem_of_cut?_eq_none (h : cut? [c] s = none) : c ∉ s := by
  rw [cut?_eq_none_iff, List.singleton_infix_iff] at h
  exact h

theorem notMem_of_cut?_eq_some {a b : Bytes} (h : cut? [c] s = some (a, b)) : c ∉ a := by
  rw [← List.singleton_infix_iff]
  exact not_infix_of_cut? (List.cons_ne_nil c []) h

/-- A text is split at a byte as the list of its bytes is. -/
theorem splitOn_singleton (c : UInt8) (s : Bytes) : splitOn [c] s = List.splitOn c s := by
  have hne : [c] ≠ [] := List.cons_ne_nil c []
  rw [splitOn, dif_neg hne]
  split
  · rename_i hcut
    rw [List.splitOn_eq_singleton (notMem_of_cut?_eq_none hcut)]
  · rename_i a b hcut
    have hlt : b.length < s.length := length_lt_of_cut? hne hcut
    have hs : s = a ++ c :: b := by simpa using eq_of_cut? hcut
    change a :: splitOn [c] b = List.splitOn c s
    rw [splitOn_singleton c b, hs]
    exact (List.splitOn_append_cons_self_of_not_mem (notMem_of_cut?_eq_some hcut) b).symm
termination_by s.length

theorem join_eq_intercalate (sep : Bytes) (ps : List Bytes) :
    join sep ps = sep.intercalate ps := by
  induction ps with
  | nil => rfl
  | cons p ps ih =>
      cases ps with
      | nil => exact List.intercalate_singleton.symm
      | cons q ps => rw [join, ih, List.intercalate_cons_cons]

theorem join_cons_of_ne_nil {sep p : Bytes} {ps : List Bytes} (h : ps ≠ []) :
    join sep (p :: ps) = p ++ sep ++ join sep ps := by
  cases ps with
  | nil => exact absurd rfl h
  | cons q ps => rfl

theorem join_nil (ps : List Bytes) : join [] ps = ps.flatten := by
  induction ps with
  | nil => rfl
  | cons p ps ih =>
      cases ps with
      | nil => exact (List.append_nil p).symm
      | cons q ps =>
          rw [join_cons_of_ne_nil (List.cons_ne_nil q ps), ih, List.append_nil]
          exact List.flatten_cons.symm

theorem join_append {sep : Bytes} {ps qs : List Bytes} (hps : ps ≠ []) (hqs : qs ≠ []) :
    join sep (ps ++ qs) = join sep ps ++ sep ++ join sep qs := by
  induction ps with
  | nil => exact absurd rfl hps
  | cons p ps ih =>
      cases ps with
      | nil => exact join_cons_of_ne_nil hqs
      | cons p' ps =>
          have hrest : p' :: ps ≠ [] := List.cons_ne_nil p' ps
          have hall : p' :: ps ++ qs ≠ [] := List.cons_ne_nil p' (ps ++ qs)
          rw [List.cons_append, join_cons_of_ne_nil hall, ih hrest, join_cons_of_ne_nil hrest]
          simp only [List.append_assoc]

/-- A byte of a joined text is one of the separator or of a piece. -/
theorem mem_join {ps : List Bytes} (h : c ∈ join sep ps) : c ∈ sep ∨ ∃ p ∈ ps, c ∈ p := by
  induction ps with
  | nil => cases h
  | cons p ps ih =>
      cases ps with
      | nil => exact .inr ⟨p, List.mem_cons_self, h⟩
      | cons q ps =>
          rw [join_cons_of_ne_nil (List.cons_ne_nil q ps), List.mem_append, List.mem_append] at h
          rcases h with (hp | hsep) | hrest
          · exact .inr ⟨p, List.mem_cons_self, hp⟩
          · exact .inl hsep
          · rcases ih hrest with hsep | ⟨r, hr, hc⟩
            · exact .inl hsep
            · exact .inr ⟨r, List.mem_cons_of_mem p hr, hc⟩

theorem splitOn_ne_nil (sep s : Bytes) : splitOn sep s ≠ [] := by
  rw [splitOn]
  split
  · exact List.cons_ne_nil _ _
  · split <;> exact List.cons_ne_nil _ _

/-- The pieces of a text make it up again, wherever the separator was found. -/
theorem join_splitOn (sep s : Bytes) : join sep (splitOn sep s) = s := by
  rw [splitOn]
  split
  · rfl
  · rename_i hsep
    split
    · rfl
    · rename_i a b hcut
      have hlt : b.length < s.length := length_lt_of_cut? hsep hcut
      rw [join_cons_of_ne_nil (splitOn_ne_nil sep b), join_splitOn sep b, ← eq_of_cut? hcut]
termination_by s.length

/-- Pieces without the separator are what a text is split into that they have been joined to. -/
theorem splitOn_join {ps : List Bytes} (hps : ∀ p ∈ ps, c ∉ p) (hne : ps ≠ []) :
    splitOn [c] (join [c] ps) = ps := by
  rw [join_eq_intercalate, splitOn_singleton, List.splitOn_intercalate c hps hne]

theorem splitOn_nil (c : UInt8) : splitOn [c] [] = [[]] := by
  rw [splitOn_singleton, List.splitOn_nil]

theorem splitOn_append (c : UInt8) (s t : Bytes) :
    splitOn [c] (s ++ c :: t) = splitOn [c] s ++ splitOn [c] t := by
  simp only [splitOn_singleton, List.splitOn_append_cons_self]

theorem notMem_of_mem_splitOn {p : Bytes} (h : p ∈ splitOn [c] s) : c ∉ p := by
  rw [splitOn_singleton] at h
  induction s generalizing p with
  | nil =>
      obtain rfl : p = [] := by simpa using h
      exact List.not_mem_nil
  | cons d s ih =>
      rw [List.splitOn_cons_eq_if_modifyHead] at h
      split at h
      · rcases List.mem_cons.mp h with rfl | h
        · exact List.not_mem_nil
        · exact ih h
      · rename_i hd
        have hne : c ≠ d := fun hcd => hd (by simp [hcd])
        cases hpieces : List.splitOn c s with
        | nil => exact absurd hpieces (List.splitOn_ne_nil c s)
        | cons q qs =>
            rw [hpieces, List.modifyHead_cons] at h
            rw [hpieces] at ih
            rcases List.mem_cons.mp h with rfl | h
            · rw [List.mem_cons, not_or]
              exact ⟨hne, ih List.mem_cons_self⟩
            · exact ih (List.mem_cons_of_mem q h)

end JumpScript.Bytes
