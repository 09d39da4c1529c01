import JumpScript.Proofs.World.Fence
import JumpScript.Settings.Basic

/-!
# What a fence refuses

A fence looks at texts: a path is let in if it is the root or begins with the root and a separator.
For absolute paths this says that the names on the way to the path begin with those on the way to
the root, so that nothing is refused but what leaves the root.  The one exception is the fence whose
root is the top of all directories: its root ends in the separator already, no clean path has two
separators in a row, and so it refuses everything but the top itself.
-/

namespace JumpScript

namespace Path

variable {p q : Bytes} {ns ms ps : List Bytes}

/-- The names on the way to what a path stands for. -/
def components (p : Bytes) : List Bytes := names (isRooted p) (parts p)

theorem components_render (hns : ∀ n ∈ ns, Proper n) : components (render true ns) = ns := by
  rw [components, isRooted_render, names_parts_render hns]

/-- A path lies below another one, or is the same, if it begins with it and a separator. -/
theorem components_prefix_iff (hp : IsAbsolute p) (htop : p ≠ [separator]) (hq : IsAbsolute q) :
    components p <+: components q ↔ q = p ∨ (p ++ [separator]).isPrefixOf q = true := by
  obtain ⟨ns, hns, rfl⟩ := hp.exists_eq_render
  have hne : ns ≠ [] := by
    rintro rfl
    exact htop rfl
  have hbelow (ks : List Bytes) (hks : ks ≠ []) :
      render true (ns ++ ks) = render true ns ++ separator :: Bytes.join [separator] ks := by
    rw [render, if_pos rfl, Bytes.join_append hne hks]
    simp [render]
  constructor
  · obtain ⟨ms, hms, rfl⟩ := hq.exists_eq_render
    rw [components_render hns, components_render hms]
    rintro ⟨ks, rfl⟩
    by_cases hks : ks = []
    · rw [hks, List.append_nil]
      exact Or.inl rfl
    · rw [hbelow ks hks, List.isPrefixOf_iff_prefix]
      exact Or.inr ⟨Bytes.join [separator] ks, by simp⟩
  · rintro (rfl | hprefix)
    · exact List.prefix_rfl
    · obtain ⟨ks, hks, hproper, rfl⟩ := exists_names_of_prefix (by simp [render]) hq hprefix
      have hall : ∀ n ∈ ns ++ ks, Proper n := by
        intro n hn
        rcases List.mem_append.mp hn with hn | hn
        · exact hns n hn
        · exact hproper n hn
      rw [← hbelow ks hks, components_render hall, components_render hns]
      exact List.prefix_append ns ks

/-- No clean path begins with two separators. -/
theorem not_top_prefix (hq : IsAbsolute q) :
    ([separator] ++ [separator]).isPrefixOf q = false := by
  rw [← Bool.not_eq_true, List.isPrefixOf_iff_prefix]
  rintro ⟨t, ht⟩
  obtain ⟨ms, hms, rfl⟩ := hq.exists_eq_render
  have hjoin : separator :: t = Bytes.join [separator] ms := (List.cons.inj ht).2
  have hne : ms ≠ [] := by
    rintro rfl
    cases hjoin
  obtain ⟨c, s, heq, hc⟩ := exists_join_eq_cons hms hne
  rw [heq] at hjoin
  exact hc (List.cons.inj hjoin).1.symm

/-- Every path lies below the top. -/
theorem components_top : components [separator] = [] := by
  have hrender := @components_render []
  exact hrender (by simp)

/-- A part that cleaning leaves in a path that does not start at the root. -/
structure Kept (n : Bytes) : Prop where
  ne_nil : n ≠ []
  ne_here : n ≠ here
  separator_notMem : separator ∉ n

theorem kept_push (hns : ∀ n ∈ ns, Kept n) (hp : separator ∉ p) :
    ∀ n ∈ push false ns p, Kept n := by
  have hup : Kept up := ⟨by decide +kernel, by decide +kernel, by decide +kernel⟩
  rw [push.eq_def]
  split
  · exact hns
  · rename_i hpart
    rw [not_or] at hpart
    split
    · cases ns with
      | nil => simpa using hup
      | cons n rest =>
          dsimp only
          split
          · exact List.forall_mem_cons.mpr ⟨hup, hns⟩
          · exact fun k hk => hns k (List.mem_cons_of_mem n hk)
    · exact List.forall_mem_cons.mpr ⟨⟨hpart.1, hpart.2, hp⟩, hns⟩

theorem kept_foldl_push (hns : ∀ n ∈ ns, Kept n) (hps : ∀ p ∈ ps, separator ∉ p) :
    ∀ n ∈ ps.foldl (push false) ns, Kept n := by
  induction ps generalizing ns with
  | nil => exact hns
  | cons p ps ih =>
      rw [List.forall_mem_cons] at hps
      exact ih (kept_push hns hps.1) hps.2

/-- Going where the parts lead that cleaning has left is going where they led before. -/
theorem foldl_push_reverse (hns : ∀ n ∈ ns, Kept n) (acc : List Bytes) (p : Bytes) :
    (push false ns p).reverse.foldl (push true) acc =
      push true (ns.reverse.foldl (push true) acc) p := by
  rw [push.eq_def false]
  split
  · rename_i hpart
    rw [push.eq_def, if_pos hpart]
  · rename_i hpart
    split
    · rename_i hup
      subst hup
      cases ns with
      | nil => rfl
      | cons n rest =>
          dsimp only
          split
          · rw [List.reverse_cons, List.foldl_append]
            rfl
          · rename_i hn
            -- a name and the step back up cancel each other
            have hkept := hns n List.mem_cons_self
            rw [List.reverse_cons, List.foldl_append, List.foldl_cons, List.foldl_nil,
              push.eq_def true _ n, if_neg (not_or.mpr ⟨hkept.ne_nil, hkept.ne_here⟩), if_neg hn,
              push.eq_def, if_neg hpart, if_pos rfl]
            dsimp only
            rw [if_neg hn]
    · rw [List.reverse_cons, List.foldl_append]
      rfl

theorem foldl_push_foldl_push (hns : ∀ n ∈ ns, Kept n) (hps : ∀ p ∈ ps, separator ∉ p)
    (acc : List Bytes) :
    (ps.foldl (push false) ns).reverse.foldl (push true) acc =
      ps.foldl (push true) (ns.reverse.foldl (push true) acc) := by
  induction ps generalizing ns with
  | nil => rfl
  | cons p ps ih =>
      rw [List.forall_mem_cons] at hps
      rw [List.foldl_cons, List.foldl_cons, ih (kept_push hns hps.1) hps.2,
        foldl_push_reverse hns]

theorem separator_notMem_of_mem_parts : ∀ n ∈ parts p, separator ∉ n :=
  fun _ hn => Bytes.notMem_of_mem_splitOn hn

theorem kept_names (p : Bytes) : ∀ n ∈ names false (parts p), Kept n := by
  intro n hn
  have hnil : ∀ n ∈ ([] : List Bytes), Kept n := by simp
  exact kept_foldl_push hnil separator_notMem_of_mem_parts n (List.mem_reverse.mp hn)

/-- Below a directory, a name that does not start at the root leads to the same place before and
after it is cleaned. -/
theorem names_append_parts_clean (ps : List Bytes) (hq : isRooted q = false) :
    names true (ps ++ parts (clean q)) = names true (ps ++ parts q) := by
  have hnil : ∀ n ∈ ([] : List Bytes), Kept n := by simp
  have happend (rs : List Bytes) : names true (ps ++ rs) =
      (rs.foldl (push true) (ps.foldl (push true) [])).reverse := by
    rw [names, List.foldl_append]
  have hfold : (names false (parts q)).foldl (push true) (ps.foldl (push true) []) =
      (parts q).foldl (push true) (ps.foldl (push true) []) :=
    foldl_push_foldl_push hnil separator_notMem_of_mem_parts _
  rw [happend, happend, ← hfold, clean, hq]
  have hkept := kept_names q
  cases hnames : names false (parts q) with
  | nil =>
      have hhere : parts (render false []) = [here] := by decide +kernel
      rw [hhere, List.foldl_cons, push.eq_def, if_pos (Or.inr rfl)]
  | cons n ns =>
      rw [hnames] at hkept
      have hsplit : parts (render false (n :: ns)) = n :: ns :=
        Bytes.splitOn_join (fun k hk => (hkept k hk).separator_notMem) (List.cons_ne_nil n ns)
      rw [hsplit]

theorem clean_ne_nil (hq : isRooted q = false) : clean q ≠ [] := by
  rw [clean, hq]
  have hkept := kept_names q
  cases hnames : names false (parts q) with
  | nil => exact by decide +kernel
  | cons n ns =>
      rw [hnames] at hkept
      have hn := (hkept n List.mem_cons_self).ne_nil
      cases ns with
      | nil => simpa [render, Bytes.join] using hn
      | cons k ns => simp [render, Bytes.join]

/-- What a name stands for below a directory is told by the directory, a separator and the name. -/
theorem join_clean (hp : isRooted p = true) (hq : isRooted q = false) :
    join p (clean q) = clean (p ++ separator :: q) := by
  obtain ⟨c, t, rfl⟩ : ∃ c t, p = c :: t := by
    cases p with
    | nil => cases hp
    | cons c t => exact ⟨c, t, rfl⟩
  have hall (r : Bytes) : clean (c :: t ++ separator :: r) =
      render true (names true (parts (c :: t) ++ parts r)) := by
    have hrooted : isRooted (c :: t ++ separator :: r) = true := hp
    rw [clean, hrooted, parts, Bytes.splitOn_append]
    rfl
  rw [join, if_neg (by simp), if_neg (by simp), if_neg (by simpa using clean_ne_nil hq),
    List.append_assoc, List.singleton_append, hall, hall, names_append_parts_clean _ hq]

end Path

theorem Settings.isAbsolute_root {s : Settings} {fs : Files} {f : FileFence}
    (h : (s.library fs).files = some f) : Path.IsAbsolute f.root := by
  obtain rfl := Option.some.inj h
  exact FileFence.isAbsolute_around fs s.sandbox.root s.fileLimit

namespace FileFence

open JumpScript.Path

variable {f : FileFence}

/-- A fence refuses only what leaves its root, unless that is the top of all directories: a name is
resolved exactly when the names on the way to what it stands for begin with those on the way to the
root.  With the top as the root, nothing can leave it, and yet everything but the top is refused. -/
theorem refuses_only_outside_unless_top (hroot : IsAbsolute f.root) (name : Bytes) :
    (isRooted name = false → join f.root (clean name) = clean (f.root ++ separator :: name)) ∧
    (f.root ≠ [separator] →
      (components f.root <+: components (join f.root (clean name)) →
        f.resolve name = .ok (join f.root (clean name))) ∧
      (¬ components f.root <+: components (join f.root (clean name)) →
        f.resolve name = .error .pathEscape)) ∧
    (f.root = [separator] →
      components f.root <+: components (join f.root (clean name)) ∧
      f.resolve name =
        if join f.root (clean name) = f.root then .ok f.root else .error .pathEscape) := by
  have hpath := isAbsolute_join hroot.1 (clean name)
  refine ⟨join_clean hroot.1, fun htop => ?_, fun htop => ?_⟩
  · rw [components_prefix_iff hroot htop hpath]
    constructor
    · intro hinside
      rw [resolve, if_neg]
      rintro ⟨hne, hprefix⟩
      exact hinside.elim hne hprefix
    · intro houtside
      rw [not_or] at houtside
      exact if_pos houtside
  · refine ⟨?_, ?_⟩
    · rw [htop, components_top]
      exact List.nil_prefix
    · have hprefix : (f.root ++ [separator]).isPrefixOf (join f.root (clean name)) = false := by
        rw [htop] at hpath ⊢
        exact not_top_prefix hpath
      rw [resolve, hprefix]
      by_cases hself : join f.root (clean name) = f.root
      · simp [hself]
      · simp [hself]

/-- A name may leave the root on its way, but not end beside it. -/
theorem refuses_only_outside_unless_top_roundabout :
    jail.resolve (text "../jail/a") = .ok (text "/home/jail/a") ∧
      jail.resolve (text "../jailer") = .error .pathEscape := by
  have hroot := isAbsolute_around ⟨[], [text "home"]⟩ (text "jail") 8
  have htop : jail.root ≠ [separator] := by decide +kernel
  have hinside := ((refuses_only_outside_unless_top hroot (text "../jail/a")).2.1 htop).1
  have houtside := ((refuses_only_outside_unless_top hroot (text "../jailer")).2.1 htop).2
  have hpath : join jail.root (clean (text "../jail/a")) = text "/home/jail/a" := by
    decide +kernel
  exact ⟨hpath ▸ hinside (by decide +kernel), houtside (by decide +kernel)⟩

/-- The fence of settings that name the top of all directories refuses what lies below it. -/
theorem not_refuses_only_outside :
    ¬ ∀ (s : Settings) (fs : Files) (f : FileFence) (name : Bytes),
      (s.library fs).files = some f →
      components f.root <+: components (join f.root (clean name)) →
      f.resolve name = .ok (join f.root (clean name)) := by
  intro h
  let s : Settings := { sandbox := { root := text "/" } }
  have hresolve := h s .empty _ (text "etc") rfl (by decide +kernel)
  exact absurd hresolve (by decide +kernel)

end FileFence

end JumpScript
