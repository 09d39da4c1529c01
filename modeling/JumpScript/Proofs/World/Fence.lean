import Mathlib.Data.Set.Basic
import JumpScript.Proofs.Outcomes
import JumpScript.Proofs.World.Paths
import JumpScript.World.FileFence

/-!
# The fence around files

Whatever name a script gives, the path that it stands for is the root of the fence or lies below
it, name by name.  The fence asks the file system for this path and, in writing, for the directories
that lead to it.  It asks for nothing at all where a name is refused or a text is too long to be
written.
-/

namespace JumpScript

/-- What is done with files: one request after another, each of which names a path. -/
inductive FileTask (α : Type) where
  | done (result : α)
  | status (path : Bytes) (next : Except FileReason Node → FileTask α)
  | read (path : Bytes) (next : Except FileError Bytes → FileTask α)
  | makeDirectory (path : Bytes) (next : Except FileError Unit → FileTask α)
  | write (path contents : Bytes) (next : Except FileError Unit → FileTask α)

namespace FileTask

variable {α : Type}

/-- New files if a request has changed them, and what it is answered. -/
def answer (fs : Files) (r : Except FileError Files) : Files × Except FileError Unit :=
  match r with
  | .ok fs => (fs, .ok ())
  | .error e => (fs, .error e)

/-- What a task does to files, and its result. -/
def run : FileTask α → Files → Files × α
  | done a, fs => (fs, a)
  | status p next, fs => (next (fs.status p)).run fs
  | read p next, fs => (next (fs.read p)).run fs
  | makeDirectory p next, fs =>
    (next (answer fs (fs.makeDirectory p)).2).run (answer fs (fs.makeDirectory p)).1
  | write p contents next, fs =>
    (next (answer fs (fs.write p contents)).2).run (answer fs (fs.write p contents)).1

/-- Every request names a path of a set, whatever the answers are. -/
def Within (S : Set Bytes) : FileTask α → Prop
  | done _ => True
  | status p next => p ∈ S ∧ ∀ a, (next a).Within S
  | read p next => p ∈ S ∧ ∀ a, (next a).Within S
  | makeDirectory p next => p ∈ S ∧ ∀ a, (next a).Within S
  | write p _ next => p ∈ S ∧ ∀ a, (next a).Within S

/-- Creates directories one after another, up to the first failure. -/
def makeDirectories : List Bytes → (Except FileError Unit → FileTask α) → FileTask α
  | [], next => next (.ok ())
  | p :: ps, next =>
    makeDirectory p fun
      | .ok () => makeDirectories ps next
      | .error e => next (.error e)

end FileTask

/-- A change to files that can be carried out by requests that name no path outside a set. -/
def Files.Touches {α : Type} (S : Set Bytes) (change : Files → Files × α) : Prop :=
  ∃ task : FileTask α, task.Within S ∧ ∀ fs, task.run fs = change fs

namespace Files

variable {α : Type} {S : Set Bytes}

theorem touches_done (S : Set Bytes) (a : α) : Touches S fun fs => (fs, a) :=
  ⟨.done a, trivial, fun _ => rfl⟩

/-- What touches no path leaves all files alone and does not depend on them. -/
theorem Touches.exists_of_empty {change : Files → Files × α} (h : Touches ∅ change) :
    ∃ a, ∀ fs, change fs = (fs, a) := by
  obtain ⟨task, hwithin, hrun⟩ := h
  cases task with
  | done a => exact ⟨a, fun fs => (hrun fs).symm⟩
  | status p next | read p next | makeDirectory p next | write p contents next =>
      exact absurd hwithin.1 (Set.notMem_empty p)

end Files

/-- A path leads through the directory of another one. -/
def Path.LeadsThrough (p q : Bytes) : Prop :=
  ∃ ns ms, ms ≠ [] ∧ (∀ n ∈ ns ++ ms, Path.Proper n) ∧
    q = Path.render true ns ∧ p = Path.render true (ns ++ ms)

theorem Path.leadsThrough_of_mem_ancestors {p q : Bytes} (hp : Path.IsAbsolute p)
    (hq : q ∈ Files.ancestors (Path.names true (Path.parts (Path.parent p)))) :
    Path.LeadsThrough p q := by
  obtain ⟨ns, hns, rfl⟩ := hp.exists_eq_render
  have hdirs : ∀ n ∈ ns.dropLast, Path.Proper n := fun n hn => hns n (List.dropLast_subset ns hn)
  have hparent : Path.parent (Path.render true ns) = Path.render true ns.dropLast := by
    rw [Path.parent, Path.isRooted_render, Path.names_parts_render hns]
  rw [hparent, Path.names_parts_render hdirs, Files.ancestors, List.mem_map] at hq
  obtain ⟨j, hj, rfl⟩ := hq
  rw [List.mem_range, List.length_dropLast] at hj
  refine ⟨ns.dropLast.take (j + 1), ns.drop (j + 1), ?_, ?_, rfl, ?_⟩
  · rw [ne_eq, List.drop_eq_nil_iff]
    omega
  · rw [List.dropLast_eq_take, List.take_take, min_eq_left (by omega), List.take_append_drop]
    exact hns
  · rw [List.dropLast_eq_take, List.take_take, min_eq_left (by omega), List.take_append_drop]

namespace FileTask

variable {α : Type} {S : Set Bytes} {ps : List Bytes} {next : Except FileError Unit → FileTask α}

theorem within_makeDirectories (hps : ∀ p ∈ ps, p ∈ S) (hnext : ∀ r, (next r).Within S) :
    (makeDirectories ps next).Within S := by
  induction ps with
  | nil => exact hnext (.ok ())
  | cons p ps ih =>
      refine ⟨hps p List.mem_cons_self, ?_⟩
      rintro (e | ⟨⟩)
      · exact hnext (.error e)
      · exact ih fun q hq => hps q (List.mem_cons_of_mem p hq)

theorem run_makeDirectories (next : Except FileError Unit → FileTask α) (path : Bytes)
    (fs : Files) :
    (makeDirectories (Files.ancestors (Path.names true (Path.parts path))) next).run fs =
      (next (fs.makeDirectories path).2).run (fs.makeDirectories path).1 := by
  rw [Files.makeDirectories]
  generalize Files.ancestors _ = ps
  induction ps generalizing fs with
  | nil => rfl
  | cons p ps ih =>
      rw [makeDirectories, run, List.foldl_cons]
      dsimp only
      cases fs.makeDirectory p with
      | ok fs' => exact ih fs'
      | error e =>
          -- nothing is asked for after a failure
          change (next (.error e)).run fs = _
          clear ih
          induction ps with
          | nil => rfl
          | cons q ps ih => exact ih

end FileTask

namespace FileFence

/-- The paths of a fence: its root and whatever proper names lead to from there. -/
def Holds (f : FileFence) (p : Bytes) : Prop :=
  Path.IsAbsolute p ∧ (p = f.root ∨ ∃ ns, ns ≠ [] ∧ (∀ n ∈ ns, Path.Proper n) ∧
    p = f.root ++ Path.separator :: Bytes.join [Path.separator] ns)

variable {f : FileFence} {name contents p : Bytes}

theorem holds_of_resolve (hroot : Path.IsAbsolute f.root) (h : f.resolve name = .ok p) :
    f.Holds p := by
  have hne : f.root ≠ [] := by
    intro hnil
    rw [Path.IsAbsolute, hnil] at hroot
    cases hroot.1
  rw [resolve] at h
  split at h
  · cases h
  · rename_i hinside
    obtain rfl := Except.ok.inj h
    have habsolute := Path.isAbsolute_join hroot.1 (Path.clean name)
    rw [not_and_not_right] at hinside
    refine ⟨habsolute, or_iff_not_imp_left.mpr fun hroot => ?_⟩
    exact Path.exists_names_of_prefix hne habsolute (hinside hroot)

/-- A name made up of proper names is resolved, and to what it says. -/
theorem resolve_of_proper (hroot : Path.IsAbsolute f.root) (htop : f.root ≠ [Path.separator])
    {ns : List Bytes} (hns : ∀ n ∈ ns, Path.Proper n) (hne : ns ≠ []) :
    f.resolve (Bytes.join [Path.separator] ns) =
      .ok (f.root ++ Path.separator :: Bytes.join [Path.separator] ns) := by
  have hprefix : (f.root ++ [Path.separator]).isPrefixOf
      (f.root ++ Path.separator :: Bytes.join [Path.separator] ns) = true := by
    rw [List.isPrefixOf_iff_prefix]
    exact ⟨Bytes.join [Path.separator] ns, by simp⟩
  rw [resolve, Path.clean_join_of_proper hns hne, Path.join_of_proper hroot htop hns hne]
  exact if_neg fun h => h.2 hprefix

/-- The requests that reading a path comes down to. -/
def reading (f : FileFence) (path : Bytes) : FileTask (Except Fault Bytes) :=
  .status path fun
    | .error reason => .done (.error (.file ⟨.stating, path, reason⟩))
    | .ok node =>
      if f.exceeds (nodeSize node) then .done (.error .fileTooLarge)
      else .read path fun r => .done (r.mapError .file)

/-- The request that tells whether a path names anything. -/
def looking (path : Bytes) : FileTask (Except Fault Bool) :=
  .status path fun
    | .ok _ => .done (.ok true)
    | .error .notFound => .done (.ok false)
    | .error reason => .done (.error (.file ⟨.stating, path, reason⟩))

/-- The requests that writing to a path comes down to. -/
def writing (path contents : Bytes) : FileTask (Except Fault Unit) :=
  .makeDirectories (Files.ancestors (Path.names true (Path.parts (Path.parent path)))) fun
    | .error e => .done (.error (.file e))
    | .ok () => .write path contents fun r => .done (r.mapError .file)

theorem run_reading (hp : f.resolve name = .ok p) (fs : Files) :
    (f.reading p).run fs = (fs, f.read fs name) := by
  simp only [reading, FileTask.run, read, hp, bind, Except.bind]
  cases fs.status p with
  | error reason => rfl
  | ok node =>
      dsimp only
      split
      · rfl
      · rfl

theorem run_looking (hp : f.resolve name = .ok p) (fs : Files) :
    (looking p).run fs = (fs, f.exists? fs name) := by
  simp only [looking, FileTask.run, exists?, hp, bind, Except.bind]
  cases fs.status p with
  | error reason => cases reason <;> rfl
  | ok node => rfl

theorem run_writing (hp : f.resolve name = .ok p) (hsize : f.exceeds contents.length = false)
    (fs : Files) : (writing p contents).run fs = f.write fs name contents := by
  simp only [writing, FileTask.run_makeDirectories, write, hp, hsize, Bool.false_eq_true, if_false]
  obtain ⟨made, r⟩ := fs.makeDirectories (Path.parent p)
  cases r with
  | error e => rfl
  | ok u =>
      rw [FileTask.run]
      dsimp only
      cases made.write p contents with
      | error e => rfl
      | ok written => rfl

theorem touches_read (f : FileFence) (name : Bytes) :
    Files.Touches {p | f.resolve name = .ok p} fun fs => (fs, f.read fs name) := by
  cases hp : f.resolve name with
  | error e =>
      simp only [read, hp]
      exact Files.touches_done _ (Except.error e)
  | ok p =>
      refine ⟨f.reading p, ⟨rfl, ?_⟩, run_reading hp⟩
      rintro (reason | node)
      · trivial
      · dsimp only
        split
        · trivial
        · exact ⟨rfl, fun _ => trivial⟩

theorem touches_exists? (f : FileFence) (name : Bytes) :
    Files.Touches {p | f.resolve name = .ok p} fun fs => (fs, f.exists? fs name) := by
  cases hp : f.resolve name with
  | error e =>
      simp only [exists?, hp]
      exact Files.touches_done _ (Except.error e)
  | ok p =>
      refine ⟨looking p, ⟨rfl, ?_⟩, run_looking hp⟩
      rintro (reason | node)
      · cases reason <;> trivial
      · trivial

theorem touches_write (hroot : Path.IsAbsolute f.root) (name contents : Bytes) :
    Files.Touches {q | f.exceeds contents.length = false ∧
        ∃ p, f.resolve name = .ok p ∧ (q = p ∨ Path.LeadsThrough p q)}
      fun fs => f.write fs name contents := by
  cases hp : f.resolve name with
  | error e =>
      simp only [write, hp]
      exact Files.touches_done _ (Except.error e)
  | ok p =>
      cases hsize : f.exceeds contents.length with
      | true =>
          simp only [write, hp, hsize]
          exact Files.touches_done _ (Except.error Fault.fileTooLarge)
      | false =>
          refine ⟨writing p contents, ?_, run_writing hp hsize⟩
          apply FileTask.within_makeDirectories
          · intro q hq
            have habsolute := (holds_of_resolve hroot hp).1
            exact ⟨rfl, p, rfl, Or.inr (Path.leadsThrough_of_mem_ancestors habsolute hq)⟩
          · rintro (e | ⟨⟩)
            · trivial
            · exact ⟨⟨rfl, p, rfl, Or.inl rfl⟩, fun _ => trivial⟩

/-- A fence lets no name out, lets proper names in, and touches nothing but what a name stands for
and, in writing, the directories that lead there. -/
theorem resolves_and_touches_below_root (hroot : Path.IsAbsolute f.root) (name contents : Bytes) :
    (∀ p, f.resolve name = .ok p → f.Holds p) ∧
      (f.root ≠ [Path.separator] → ∀ ns, ns ≠ [] → (∀ n ∈ ns, Path.Proper n) →
        f.resolve (Bytes.join [Path.separator] ns) =
          .ok (f.root ++ Path.separator :: Bytes.join [Path.separator] ns)) ∧
      Files.Touches {p | f.resolve name = .ok p} (fun fs => (fs, f.read fs name)) ∧
      Files.Touches {p | f.resolve name = .ok p} (fun fs => (fs, f.exists? fs name)) ∧
      Files.Touches {q | f.exceeds contents.length = false ∧
          ∃ p, f.resolve name = .ok p ∧ (q = p ∨ Path.LeadsThrough p q)}
        (fun fs => f.write fs name contents) ∧
      ((∃ e, f.resolve name = .error e) ∨ f.exceeds contents.length = true →
        ∃ r, ∀ fs, f.write fs name contents = (fs, r)) := by
  have hwrite := touches_write hroot name contents
  refine ⟨fun p hp => holds_of_resolve hroot hp,
    fun htop ns hne hns => resolve_of_proper hroot htop hns hne, touches_read f name,
    touches_exists? f name, hwrite, fun hrefused => Files.Touches.exists_of_empty ?_⟩
  convert hwrite
  apply Set.Subset.antisymm (Set.empty_subset _)
  rintro q ⟨hsize, p, hp, -⟩
  rcases hrefused with ⟨e, he⟩ | hsize'
  · rw [he] at hp
    cases hp
  · rw [hsize] at hsize'
    cases hsize'

theorem isAbsolute_around (fs : Files) (root : Bytes) (limit : Int) :
    Path.IsAbsolute (around fs root limit).root :=
  Path.isAbsolute_absolute (Path.isRooted_render fs.cwd) root

/-- The fence around a directory of the working directory. -/
def jail : FileFence := around ⟨[], [text "home"]⟩ (text "jail") 8

/-- A name that leaves the directory and comes back into it. -/
theorem resolves_and_touches_below_root_roundabout :
    jail.resolve (text "../jail//a/./../b") = .ok (text "/home/jail/b") ∧
      jail.Holds (text "/home/jail/b") := by
  have hresolve : jail.resolve (text "../jail//a/./../b") = .ok (text "/home/jail/b") := by
    decide +kernel
  have hroot := isAbsolute_around ⟨[], [text "home"]⟩ (text "jail") 8
  exact ⟨hresolve, (resolves_and_touches_below_root hroot _ []).1 _ hresolve⟩

end FileFence

end JumpScript
