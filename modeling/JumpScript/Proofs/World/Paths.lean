import JumpScript.Proofs.Text.Pieces
import JumpScript.World.Path

/-!
# Rooted paths in normal form

Cleaning a rooted path gives the text of a list of proper names: none of them is empty, `.` or `..`,
and none holds a separator.  Such a text has those names as its parts, so cleaning changes nothing
about it, and a path that begins with another one and a separator lies below it name by name.
-/

namespace JumpScript.Path

/-- A part that names something in the directory it stands in. -/
structure Proper (n : Bytes) : Prop where
  ne_nil : n ≠ []
  ne_here : n ≠ here
  ne_up : n ≠ up
  separator_notMem : separator ∉ n

/-- A path that starts at the root and is clean. -/
def IsAbsolute (p : Bytes) : Prop := isRooted p = true ∧ clean p = p

variable {p q : Bytes} {ns ps : List Bytes}

theorem proper_push (hns : ∀ n ∈ ns, Proper n) (hp : separator ∉ p) :
    ∀ n ∈ push true ns p, Proper n := by
  rw [push.eq_def]
  split
  · exact hns
  · rename_i hkept
    rw [not_or] at hkept
    split
    · cases ns with
      | nil => exact hns
      | cons n rest =>
          dsimp only
          rw [if_neg (hns n List.mem_cons_self).ne_up]
          exact fun k hk => hns k (List.mem_cons_of_mem n hk)
    · rename_i hup
      intro n hn
      rcases List.mem_cons.mp hn with rfl | hn
      · exact ⟨hkept.1, hkept.2, hup, hp⟩
      · exact hns n hn

theorem proper_foldl_push (hns : ∀ n ∈ ns, Proper n) (hps : ∀ p ∈ ps, separator ∉ p) :
    ∀ n ∈ ps.foldl (push true) ns, Proper n := by
  induction ps generalizing ns with
  | nil => exact hns
  | cons p ps ih =>
      apply ih
      · exact proper_push hns (hps p List.mem_cons_self)
      · exact fun q hq => hps q (List.mem_cons_of_mem p hq)

/-- Whatever the parts of a rooted path are, proper names are left of them. -/
theorem proper_names (hps : ∀ p ∈ ps, separator ∉ p) : ∀ n ∈ names true ps, Proper n := by
  intro n hn
  have hnil : ∀ n ∈ ([] : List Bytes), Proper n := by simp
  exact proper_foldl_push hnil hps n (List.mem_reverse.mp hn)

theorem foldl_push_of_proper (rooted : Bool) (hps : ∀ p ∈ ps, Proper p) (ns : List Bytes) :
    ps.foldl (push rooted) ns = ps.reverse ++ ns := by
  induction ps generalizing ns with
  | nil => rfl
  | cons p ps ih =>
      have hp := hps p List.mem_cons_self
      have hpush : push rooted ns p = p :: ns := by
        rw [push.eq_def, if_neg (not_or.mpr ⟨hp.ne_nil, hp.ne_here⟩), if_neg hp.ne_up]
      rw [List.foldl_cons, hpush, ih fun q hq => hps q (List.mem_cons_of_mem p hq)]
      simp

/-- Proper names stay as they are behind whatever parts. -/
theorem names_append_of_proper (rooted : Bool) (ps : List Bytes) (hns : ∀ n ∈ ns, Proper n) :
    names rooted (ps ++ ns) = names rooted ps ++ ns := by
  rw [names, List.foldl_append, foldl_push_of_proper rooted hns]
  simp [names]

theorem names_of_proper (rooted : Bool) (hns : ∀ n ∈ ns, Proper n) : names rooted ns = ns :=
  names_append_of_proper rooted [] hns

theorem names_nil_cons (ps : List Bytes) : names true ([] :: ps) = names true ps := rfl

theorem isRooted_render (ns : List Bytes) : isRooted (render true ns) = true := by
  simp [isRooted, render]

theorem parts_render (ns : List Bytes) :
    parts (render true ns) = [] :: Bytes.splitOn [separator] (Bytes.join [separator] ns) := by
  have hsplit := Bytes.splitOn_append separator [] (Bytes.join [separator] ns)
  rw [Bytes.splitOn_nil] at hsplit
  exact hsplit

theorem parts_render_of_proper (hns : ∀ n ∈ ns, Proper n) (hne : ns ≠ []) :
    parts (render true ns) = [] :: ns := by
  rw [parts_render, Bytes.splitOn_join (fun n hn => (hns n hn).separator_notMem) hne]

/-- The names that a path has been made up of are found in its text again. -/
theorem names_parts_render (hns : ∀ n ∈ ns, Proper n) :
    names true (parts (render true ns)) = ns := by
  cases ns with
  | nil =>
      rw [parts_render, Bytes.join, Bytes.splitOn_nil]
      rfl
  | cons n ns =>
      rw [parts_render_of_proper hns (List.cons_ne_nil n ns), names_nil_cons,
        names_of_proper true hns]

theorem clean_render (hns : ∀ n ∈ ns, Proper n) : clean (render true ns) = render true ns := by
  rw [clean, isRooted_render, names_parts_render hns]

theorem isAbsolute_render (hns : ∀ n ∈ ns, Proper n) : IsAbsolute (render true ns) :=
  ⟨isRooted_render ns, clean_render hns⟩

theorem exists_clean_eq_render (h : isRooted p = true) :
    ∃ ns, (∀ n ∈ ns, Proper n) ∧ clean p = render true ns := by
  refine ⟨names true (parts p), ?_, ?_⟩
  · exact proper_names fun q hq => Bytes.notMem_of_mem_splitOn hq
  · rw [clean, h]

theorem isAbsolute_clean (h : isRooted p = true) : IsAbsolute (clean p) := by
  obtain ⟨ns, hns, hclean⟩ := exists_clean_eq_render h
  rw [hclean]
  exact isAbsolute_render hns

theorem IsAbsolute.exists_eq_render (h : IsAbsolute p) :
    ∃ ns, (∀ n ∈ ns, Proper n) ∧ p = render true ns := by
  obtain ⟨ns, hns, hclean⟩ := exists_clean_eq_render h.1
  exact ⟨ns, hns, h.2.symm.trans hclean⟩

theorem isAbsolute_join (hp : isRooted p = true) (q : Bytes) : IsAbsolute (join p q) := by
  cases p with
  | nil => cases hp
  | cons c p =>
      rw [join, if_neg (by simp), if_neg (by simp)]
      split
      · exact isAbsolute_clean hp
      · exact isAbsolute_clean hp

/-- Whatever a path is given as, it is absolute seen from a working directory. -/
theorem isAbsolute_absolute {cwd : Bytes} (hcwd : isRooted cwd = true) (p : Bytes) :
    IsAbsolute (absolute cwd p) := by
  rw [absolute]
  split
  · rename_i hp
    exact isAbsolute_clean hp
  · exact isAbsolute_join hcwd p

theorem parts_join_of_proper (hns : ∀ n ∈ ns, Proper n) (hne : ns ≠ []) :
    parts (Bytes.join [separator] ns) = ns :=
  Bytes.splitOn_join (fun n hn => (hns n hn).separator_notMem) hne

theorem exists_join_eq_cons (hns : ∀ n ∈ ns, Proper n) (hne : ns ≠ []) :
    ∃ c s, Bytes.join [separator] ns = c :: s ∧ c ≠ separator := by
  cases ns with
  | nil => exact absurd rfl hne
  | cons n ns =>
      have hn := hns n List.mem_cons_self
      cases n with
      | nil => exact absurd rfl hn.ne_nil
      | cons c n =>
          have hc : c ≠ separator := by
            rintro rfl
            exact hn.separator_notMem List.mem_cons_self
          cases ns with
          | nil => exact ⟨c, n, rfl, hc⟩
          | cons n' ns => exact ⟨c, _, rfl, hc⟩

/-- Proper names one below another are clean. -/
theorem clean_join_of_proper (hns : ∀ n ∈ ns, Proper n) (hne : ns ≠ []) :
    clean (Bytes.join [separator] ns) = Bytes.join [separator] ns := by
  obtain ⟨c, s, hjoin, hc⟩ := exists_join_eq_cons hns hne
  have hrooted : isRooted (Bytes.join [separator] ns) = false := by
    rw [isRooted, hjoin]
    simpa using hc
  rw [clean, hrooted, parts_join_of_proper hns hne, names_of_proper false hns, render,
    if_neg Bool.false_ne_true, if_neg (by simpa using hne)]

/-- Below a directory proper names lead where they say. -/
theorem join_of_proper (hp : IsAbsolute p) (hroot : p ≠ [separator]) (hns : ∀ n ∈ ns, Proper n)
    (hne : ns ≠ []) :
    join p (Bytes.join [separator] ns) = p ++ separator :: Bytes.join [separator] ns := by
  obtain ⟨ds, hds, rfl⟩ := hp.exists_eq_render
  have hne' : ds ≠ [] := by
    rintro rfl
    exact hroot rfl
  obtain ⟨c, s, hjoin, -⟩ := exists_join_eq_cons hns hne
  have hparts : parts (render true ds ++ [separator] ++ Bytes.join [separator] ns) =
      parts (render true ds) ++ ns := by
    have hsplit := Bytes.splitOn_append separator (render true ds) (Bytes.join [separator] ns)
    rw [List.append_assoc, List.singleton_append, parts, hsplit]
    exact congrArg (parts (render true ds) ++ ·) (parts_join_of_proper hns hne)
  have hrooted : isRooted (render true ds ++ [separator] ++ Bytes.join [separator] ns) = true := by
    simp [isRooted, render]
  rw [join, if_neg (by simp [render]), if_neg (by simp [render]), if_neg (by simp [hjoin]), clean,
    hrooted, hparts, names_append_of_proper true _ hns, names_parts_render hds, render, if_pos rfl,
    Bytes.join_append hne' hne]
  simp [render]

/-- What begins with a path and a separator is that path followed by proper names. -/
theorem exists_names_of_prefix (hp : p ≠ []) (hq : IsAbsolute q)
    (h : (p ++ [separator]).isPrefixOf q = true) :
    ∃ ns, ns ≠ [] ∧ (∀ n ∈ ns, Proper n) ∧
      q = p ++ separator :: Bytes.join [separator] ns := by
  obtain ⟨t, ht⟩ := List.isPrefixOf_iff_prefix.mp h
  rw [List.append_assoc, List.singleton_append] at ht
  obtain ⟨ns, hns, hrender⟩ := hq.exists_eq_render
  have hne : ns ≠ [] := by
    rintro rfl
    -- the root has no separator but the one that it consists of
    have hlength := congrArg List.length (ht.trans hrender)
    have hpos := List.length_pos_iff.mpr hp
    simp [render, Bytes.join] at hlength
    omega
  have hparts : parts p ++ parts t = [] :: ns := by
    rw [← parts_render_of_proper hns hne, ← hrender, ← ht]
    exact (Bytes.splitOn_append separator p t).symm
  refine ⟨parts t, Bytes.splitOn_ne_nil [separator] t, ?_, ?_⟩
  · cases hfirst : parts p with
    | nil => exact absurd hfirst (Bytes.splitOn_ne_nil [separator] p)
    | cons first rest =>
        rw [hfirst] at hparts
        obtain ⟨-, hrest⟩ := List.cons.inj hparts
        intro n hn
        exact hns n (hrest ▸ List.mem_append_right rest hn)
  · rw [← ht]
    exact congrArg (p ++ separator :: ·) (Bytes.join_splitOn [separator] t).symm

end JumpScript.Path
