import JumpScript.Proofs.Token.Splicing

/-!
# Import trees

Unfolding the imports of a source, the imports of the files they name and so on makes a tree of
files, which has no end where there is a cycle.  A source is tokenized exactly when its tree ends in
time: no file at the depth limit imports anything, and every file of the tree is there and scans.
The files taken in on the way are those of the tree, each before the files that it imports.
-/

namespace JumpScript

structure SourceFile where
  path : Bytes
  contents : Bytes

namespace SourceFile

/-- Whether a file scans without a fault. -/
def Scannable (f : SourceFile) : Prop := ∃ last, (scan f.path f.contents).2 = .ok last

/-- The runs of a file, one for each statement. -/
def runs (f : SourceFile) : List TokenRun := TokenRun.cut (scan f.path f.contents).1

/-- The paths that the import statements of a file name, in order. -/
def imports (f : SourceFile) : List Bytes := f.runs.filterMap fun r => r.import?.map Prod.snd

theorem mem_imports {f : SourceFile} {path : Bytes} :
    path ∈ f.imports ↔ ∃ r ∈ f.runs, ∃ t, r.import? = some (t, path) := by
  simp only [imports, List.mem_filterMap, Option.map_eq_some_iff, Prod.exists, exists_eq_right]

theorem imports_eq_nil_iff {f : SourceFile} :
    f.imports = [] ↔ ∀ r ∈ f.runs, r.import? = none := by
  simp only [imports, List.filterMap_eq_nil_iff, Option.map_eq_none_iff]

end SourceFile

/-- The files of the tree of imports below a file, with their depths. -/
inductive InTree (read : FileReader) (root : SourceFile) : Nat → SourceFile → Prop where
  | root : InTree read root 0 root
  | imported {depth : Nat} {f : SourceFile} {path contents : Bytes} (h : InTree read root depth f)
      (hpath : path ∈ f.imports) (hread : read path = .ok contents) :
      InTree read root (depth + 1) ⟨path, contents⟩

/-- A tree that ends at a depth, with all its files there and without a fault. -/
structure BoundedTree (read : FileReader) (limit : Nat) (root : SourceFile) : Prop where
  shallow : ∀ f, InTree read root limit f → f.imports = []
  readable : ∀ depth f, InTree read root depth f →
    ∀ path ∈ f.imports, ∃ contents, read path = .ok contents
  scannable : ∀ depth f, InTree read root depth f → f.Scannable

section Tree

variable {read : FileReader} {root f g : SourceFile} {depth k limit : Nat}

theorem InTree.trans (h : InTree read root depth f) (h' : InTree read f k g) :
    InTree read root (depth + k) g := by
  induction h' with
  | root => exact h
  | imported _ hpath hread ih => exact InTree.imported ih hpath hread

theorem inTree_zero_iff : InTree read root 0 f ↔ f = root := by
  constructor
  · intro h
    cases h with
    | root => rfl
  · rintro rfl
    exact InTree.root

/-- The tree below a file is made of the trees below its imports. -/
theorem inTree_succ_iff :
    InTree read root (depth + 1) g ↔
      ∃ path ∈ root.imports, ∃ contents, read path = .ok contents ∧
        InTree read ⟨path, contents⟩ depth g := by
  constructor
  · intro h
    induction depth generalizing g with
    | zero =>
        cases h with
        | imported h hpath hread =>
            obtain rfl := inTree_zero_iff.mp h
            exact ⟨_, hpath, _, hread, InTree.root⟩
    | succ depth ih =>
        cases h with
        | imported h hpath hread =>
            obtain ⟨first, hfirst, contents, hcontents, hbelow⟩ := ih h
            exact ⟨first, hfirst, contents, hcontents, hbelow.imported hpath hread⟩
  · rintro ⟨path, hpath, contents, hread, h⟩
    have hone := InTree.imported InTree.root hpath hread
    rw [Nat.add_comm]
    exact hone.trans h

/-- Below a file without imports there is nothing. -/
theorem InTree.eq_root (h : InTree read root depth f) (hnone : root.imports = []) : f = root := by
  cases depth with
  | zero => exact inTree_zero_iff.mp h
  | succ depth =>
      obtain ⟨path, hpath, -⟩ := inTree_succ_iff.mp h
      rw [hnone] at hpath
      cases hpath

theorem boundedTree_zero_iff :
    BoundedTree read 0 root ↔ root.Scannable ∧ root.imports = [] := by
  constructor
  · intro h
    exact ⟨h.scannable 0 root InTree.root, h.shallow root InTree.root⟩
  · rintro ⟨hscan, hnone⟩
    refine ⟨fun f h => h.eq_root hnone ▸ hnone, ?_, fun depth f h => h.eq_root hnone ▸ hscan⟩
    intro depth f h path hpath
    rw [h.eq_root hnone, hnone] at hpath
    cases hpath

theorem boundedTree_succ_iff :
    BoundedTree read (limit + 1) root ↔
      root.Scannable ∧ ∀ path ∈ root.imports, ∃ contents, read path = .ok contents ∧
        BoundedTree read limit ⟨path, contents⟩ := by
  constructor
  · intro h
    refine ⟨h.scannable 0 root InTree.root, ?_⟩
    intro path hpath
    obtain ⟨contents, hread⟩ := h.readable 0 root InTree.root path hpath
    have hbelow : ∀ {depth f}, InTree read ⟨path, contents⟩ depth f →
        InTree read root (depth + 1) f :=
      fun hf => inTree_succ_iff.mpr ⟨path, hpath, contents, hread, hf⟩
    exact ⟨contents, hread, fun f hf => h.shallow f (hbelow hf),
      fun depth f hf => h.readable (depth + 1) f (hbelow hf),
      fun depth f hf => h.scannable (depth + 1) f (hbelow hf)⟩
  · rintro ⟨hscan, himports⟩
    have hsplit : ∀ {depth f}, InTree read root (depth + 1) f →
        ∃ g, BoundedTree read limit g ∧ InTree read g depth f := by
      intro depth f hf
      obtain ⟨path, hpath, contents, hread, hf⟩ := inTree_succ_iff.mp hf
      obtain ⟨contents', hread', hbounded⟩ := himports path hpath
      rw [hread] at hread'
      obtain rfl := Except.ok.inj hread'
      exact ⟨_, hbounded, hf⟩
    refine ⟨?_, ?_, ?_⟩
    · intro f hf
      obtain ⟨g, hbounded, hf⟩ := hsplit hf
      exact hbounded.shallow f hf
    · intro depth f hf path hpath
      cases depth with
      | zero =>
          obtain rfl := inTree_zero_iff.mp hf
          obtain ⟨contents, hread, -⟩ := himports path hpath
          exact ⟨contents, hread⟩
      | succ depth =>
          obtain ⟨g, hbounded, hf⟩ := hsplit hf
          exact hbounded.readable depth f hf path hpath
    · intro depth f hf
      cases depth with
      | zero =>
          obtain rfl := inTree_zero_iff.mp hf
          exact hscan
      | succ depth =>
          obtain ⟨g, hbounded, hf⟩ := hsplit hf
          exact hbounded.scannable depth f hf

theorem BoundedTree.depth_le (hbounded : BoundedTree read limit root)
    (h : InTree read root depth f) : depth ≤ limit := by
  induction h with
  | root => exact Nat.zero_le limit
  | @imported depth f path contents hf hpath _ ih =>
      rcases Nat.lt_or_eq_of_le ih with hlt | rfl
      · exact hlt
      · rw [hbounded.shallow f hf] at hpath
        cases hpath

/-- A file that is below itself is in the tree at any depth. -/
theorem BoundedTree.not_cyclic (hbounded : BoundedTree read limit root)
    (h : InTree read root depth f) : ¬ InTree read f (k + 1) f := by
  intro hcycle
  have hagain : ∀ n, ∃ d, n ≤ d ∧ InTree read root d f := by
    intro n
    induction n with
    | zero => exact ⟨depth, Nat.zero_le depth, h⟩
    | succ n ih =>
        obtain ⟨d, hd, hf⟩ := ih
        exact ⟨d + (k + 1), by omega, hf.trans hcycle⟩
  obtain ⟨d, hd, hf⟩ := hagain (limit + 1)
  have hle := hbounded.depth_le hf
  omega

end Tree

/-- The files below some imports in preorder, each before the files that it imports, with their
depths. -/
inductive Listing (read : FileReader) : Nat → List Bytes → List ImportNote → Prop where
  | nil {depth : Nat} : Listing read depth [] []
  | cons {depth : Nat} {path contents : Bytes} {paths : List Bytes} {below rest : List ImportNote}
      (hread : read path = .ok contents)
      (hbelow : Listing read (depth + 1) (SourceFile.imports ⟨path, contents⟩) below)
      (hrest : Listing read depth paths rest) :
      Listing read depth (path :: paths) (⟨path, depth + 1⟩ :: below ++ rest)

section Listings

variable {read : FileReader} {depth : Nat} {paths : List Bytes} {notes others : List ImportNote}

theorem Listing.unique (h : Listing read depth paths notes)
    (h' : Listing read depth paths others) : notes = others := by
  induction h generalizing others with
  | nil =>
      cases h' with
      | nil => rfl
  | cons hread _ _ ihbelow ihrest =>
      cases h' with
      | cons hread' hbelow' hrest' =>
          rw [hread] at hread'
          obtain rfl := Except.ok.inj hread'
          rw [ihbelow hbelow', ihrest hrest']

/-- What is listed is in the tree. -/
theorem Listing.inTree {root f : SourceFile} (h : Listing read depth paths notes)
    (hf : InTree read root depth f) (hpaths : ∀ path ∈ paths, path ∈ f.imports) :
    ∀ note ∈ notes, depth < note.depth ∧
      ∃ contents, InTree read root note.depth ⟨note.path, contents⟩ := by
  induction h generalizing f with
  | nil =>
      intro note hnote
      cases hnote
  | @cons depth path contents paths below rest hread _ _ ihbelow ihrest =>
      have hchild := InTree.imported hf (hpaths path List.mem_cons_self) hread
      intro note hnote
      rcases List.mem_cons.mp hnote with rfl | hnote
      · exact ⟨Nat.lt_succ_self depth, contents, hchild⟩
      · rcases List.mem_append.mp hnote with hnote | hnote
        · obtain ⟨hlt, hin⟩ := ihbelow hchild (fun _ h => h) note hnote
          exact ⟨Nat.lt_of_succ_lt hlt, hin⟩
        · exact ihrest hf (fun p hp => hpaths p (List.mem_cons_of_mem path hp)) note hnote

end Listings

section Splice

variable {load : Loader} {runs : List TokenRun} {file source : Bytes}

theorem exists_included_ok_iff {r : TokenRun} :
    (∃ ts, r.included load = .ok ts) ↔
      ∀ t path, r.import? = some (t, path) → ∃ ts, (load t path).2 = .ok ts := by
  rw [TokenRun.included]
  rcases himport : r.import? with _ | ⟨t, path⟩
  · simp
  · simp

theorem exists_splice_ok_iff :
    (∃ ts, (splice load runs).2 = .ok ts) ↔
      ∀ r ∈ runs, ∀ t path, r.import? = some (t, path) → ∃ ts, (load t path).2 = .ok ts := by
  induction runs with
  | nil => exact ⟨fun _ r hr => absurd hr List.not_mem_nil, fun _ => ⟨[], rfl⟩⟩
  | cons r rs ih =>
      rw [List.forall_mem_cons, ← ih, ← exists_included_ok_iff, snd_splice_cons]
      constructor
      · rintro ⟨ts, h⟩
        obtain ⟨us, hus, h⟩ := bind_eq_ok_iff.mp h
        obtain ⟨more, hmore, -⟩ := bind_eq_ok_iff.mp h
        exact ⟨⟨us, hus⟩, more, hmore⟩
      · rintro ⟨⟨us, hus⟩, more, hmore⟩
        rw [hus, hmore]
        exact ⟨_, rfl⟩

theorem exists_finish_ok_iff :
    (∃ ts, (tokenizeWithin.finish file source load).2 = .ok ts) ↔
      SourceFile.Scannable ⟨file, source⟩ ∧
        ∀ r ∈ SourceFile.runs ⟨file, source⟩, ∀ t path, r.import? = some (t, path) →
          ∃ ts, (load t path).2 = .ok ts := by
  rw [snd_finish, ← exists_splice_ok_iff]
  constructor
  · rintro ⟨ts, h⟩
    obtain ⟨last, hlast, h⟩ := bind_eq_ok_iff.mp h
    obtain ⟨us, hus, -⟩ := bind_eq_ok_iff.mp h
    exact ⟨⟨last, hlast⟩, us, hus⟩
  · rintro ⟨⟨last, hlast⟩, us, hus⟩
    change (scan file source).2 = _ at hlast
    change (splice load (TokenRun.cut (scan file source).1)).2 = _ at hus
    rw [hlast, hus]
    exact ⟨_, rfl⟩

/-- The files taken in for one run and then for the runs after it. -/
theorem fst_splice_cons {r : TokenRun} {us : List Token} (hus : r.included load = .ok us) :
    (splice load (r :: runs)).1
      = (match r.import? with
          | some (t, path) => (load t path).1
          | none => []) ++ (splice load runs).1 := by
  rw [TokenRun.included] at hus
  rw [splice]
  cases himport : r.import? with
  | none => rfl
  | some p =>
      rw [himport] at hus
      simp only [hus]

theorem fst_finish {last : Token} (hlast : (scan file source).2 = .ok last) :
    (tokenizeWithin.finish file source load).1
      = (splice load (SourceFile.runs ⟨file, source⟩)).1 := by
  rw [tokenizeWithin.finish, SourceFile.runs]
  split
  · rename_i hscan
    rw [hscan] at hlast
    cases hlast
  · rename_i hscan
    rw [hscan]

end Splice

section Within

variable {read : FileReader} {limit left : Nat} {file source : Bytes}

theorem exists_loader_ok_iff {t : Token} {path : Bytes} :
    (∃ ts, (loader read limit (left + 1) t path).2 = .ok ts) ↔
      ∃ contents, read path = .ok contents ∧
        ∃ ts, (tokenizeWithin read limit left path contents).2 = .ok ts := by
  cases hread : read path with
  | error e =>
      rw [snd_loader_succ_error hread]
      simp
  | ok contents =>
      rw [snd_loader_succ hread]
      simp

/-- Tokenizing succeeds exactly on trees that end in time. -/
theorem exists_tokenizeWithin_ok_iff :
    (∃ ts, (tokenizeWithin read limit left file source).2 = .ok ts) ↔
      BoundedTree read left ⟨file, source⟩ := by
  induction left generalizing file source with
  | zero =>
      rw [tokenizeWithin_eq_finish, exists_finish_ok_iff, boundedTree_zero_iff,
        SourceFile.imports_eq_nil_iff]
      apply and_congr_right'
      constructor
      · intro h r hr
        rcases himport : r.import? with _ | ⟨t, path⟩
        · rfl
        · obtain ⟨ts, hts⟩ := h r hr t path himport
          cases hts
      · intro h r hr t path himport
        rw [h r hr] at himport
        cases himport
  | succ left ih =>
      rw [tokenizeWithin_eq_finish, exists_finish_ok_iff, boundedTree_succ_iff]
      simp only [exists_loader_ok_iff, ih, SourceFile.mem_imports]
      apply and_congr_right'
      constructor
      · rintro h path ⟨r, hr, t, himport⟩
        exact h r hr t path himport
      · intro h r hr t path himport
        exact h path ⟨r, hr, t, himport⟩

/-- A loader that takes in a file and lists the files below it. -/
def Lists (read : FileReader) (depth : Nat) (load : Loader) : Prop :=
  ∀ t path us, (load t path).2 = .ok us → ∃ contents below, read path = .ok contents ∧
    Listing read (depth + 1) (SourceFile.imports ⟨path, contents⟩) below ∧
    (load t path).1 = ⟨path, depth + 1⟩ :: below

theorem listing_splice {load : Loader} {depth : Nat} {runs : List TokenRun} {ts : List Token}
    (hload : Lists read depth load) (hsplice : (splice load runs).2 = .ok ts) :
    Listing read depth (runs.filterMap fun r => r.import?.map Prod.snd) (splice load runs).1 := by
  induction runs generalizing ts with
  | nil => exact Listing.nil
  | cons r rs ih =>
      rw [snd_splice_cons] at hsplice
      obtain ⟨us, hus, hsplice⟩ := bind_eq_ok_iff.mp hsplice
      obtain ⟨more, hmore, -⟩ := bind_eq_ok_iff.mp hsplice
      rw [fst_splice_cons hus, List.filterMap_cons]
      rw [TokenRun.included] at hus
      rcases himport : r.import? with _ | ⟨t, path⟩
      · exact ih hmore
      · rw [himport] at hus
        obtain ⟨contents, below, hread, hbelow, hnotes⟩ := hload t path us hus
        simp only [hnotes]
        exact Listing.cons hread hbelow (ih hmore)

theorem listing_finish {load : Loader} {depth : Nat} {ts : List Token}
    (hload : Lists read depth load) (h : (tokenizeWithin.finish file source load).2 = .ok ts) :
    Listing read depth (SourceFile.imports ⟨file, source⟩)
      (tokenizeWithin.finish file source load).1 := by
  rw [snd_finish] at h
  obtain ⟨last, hlast, h⟩ := bind_eq_ok_iff.mp h
  obtain ⟨us, hus, -⟩ := bind_eq_ok_iff.mp h
  rw [fst_finish hlast]
  exact listing_splice hload hus

/-- What is taken in lists the tree. -/
theorem listing_tokenizeWithin {ts : List Token} (hle : left ≤ limit)
    (h : (tokenizeWithin read limit left file source).2 = .ok ts) :
    Listing read (limit - left) (SourceFile.imports ⟨file, source⟩)
      (tokenizeWithin read limit left file source).1 := by
  induction left generalizing file source ts with
  | zero =>
      rw [tokenizeWithin_eq_finish] at h ⊢
      refine listing_finish ?_ h
      intro t path us hus
      cases hus
  | succ left ih =>
      rw [tokenizeWithin_eq_finish] at h ⊢
      refine listing_finish ?_ h
      intro t path us hus
      cases hread : read path with
      | error e =>
          rw [snd_loader_succ_error hread] at hus
          cases hus
      | ok contents =>
          rw [snd_loader_succ hread] at hus
          -- one level less is left for the file, so it is one level deeper
          have hdepth : limit - (left + 1) + 1 = limit - left := by omega
          have hbelow := ih (Nat.le_of_succ_le hle) hus
          refine ⟨contents, _, rfl, hdepth ▸ hbelow, ?_⟩
          simp only [loader, hread, hdepth]

end Within

section Failures

variable {file : Bytes} {d : Diagnostic}

theorem stage_of_tokens {c : Cursor} {ts : List Token} (h : c.tokens file = (ts, .error d)) :
    d.stage = .lexing := by
  induction ts generalizing c with
  | nil =>
      obtain ⟨b, r, e, -, -, rfl⟩ := Cursor.fault_of_tokens h
      rfl
  | cons t ts ih =>
      obtain ⟨b, r, l, n, -, -, -, hmore⟩ := Cursor.first_of_tokens h
      exact ih hmore

/-- Splicing fails where an import cannot be loaded. -/
theorem exists_load_error_of_splice {load : Loader} {runs : List TokenRun}
    (h : (splice load runs).2 = .error d) :
    ∃ r ∈ runs, ∃ t path, r.import? = some (t, path) ∧ (load t path).2 = .error d := by
  induction runs with
  | nil => cases h
  | cons r rs ih =>
      rw [snd_splice_cons] at h
      rcases bind_eq_error h with h | ⟨us, h⟩
      · rw [TokenRun.included] at h
        split at h
        · rename_i t path himport
          exact ⟨r, List.mem_cons_self, t, path, himport, h⟩
        · cases h
      · rcases bind_eq_error h with h | ⟨more, h⟩
        · obtain ⟨q, hq, t, path, himport, hload⟩ := ih h
          exact ⟨q, List.mem_cons_of_mem r hq, t, path, himport, hload⟩
        · cases h

/-- A file fails because it does not scan, or for one of its imports. -/
theorem finish_error_cases {load : Loader} {source : Bytes}
    (h : (tokenizeWithin.finish file source load).2 = .error d) :
    (scan file source).2 = .error d ∨
    SourceFile.Scannable ⟨file, source⟩ ∧ ∃ r ∈ SourceFile.runs ⟨file, source⟩, ∃ t path,
      r.import? = some (t, path) ∧ (load t path).2 = .error d := by
  rw [snd_finish] at h
  rcases bind_eq_error_iff.mp h with h | ⟨last, hlast, h⟩
  · exact Or.inl h
  · rcases bind_eq_error h with h | ⟨us, h⟩
    · exact Or.inr ⟨⟨last, hlast⟩, exists_load_error_of_splice h⟩
    · cases h

theorem stage_of_finish {load : Loader}
    (hload : ∀ t path d, (load t path).2 = .error d → d.stage = .lexing) {source : Bytes}
    (h : (tokenizeWithin.finish file source load).2 = .error d) : d.stage = .lexing := by
  rcases finish_error_cases h with h | ⟨-, r, -, t, path, -, h⟩
  · exact stage_of_tokens (Prod.ext rfl h)
  · exact hload t path d h

/-- Whatever goes wrong is a fault of a source or of an import. -/
theorem stage_of_tokenizeWithin {read : FileReader} {limit left : Nat} {source : Bytes}
    (h : (tokenizeWithin read limit left file source).2 = .error d) : d.stage = .lexing := by
  induction left generalizing file source d with
  | zero =>
      rw [tokenizeWithin_eq_finish] at h
      refine stage_of_finish ?_ h
      intro t path d hd
      obtain rfl := Except.error.inj hd
      rfl
  | succ left ih =>
      rw [tokenizeWithin_eq_finish] at h
      refine stage_of_finish ?_ h
      intro t path d hd
      cases hread : read path with
      | error e =>
          rw [snd_loader_succ_error hread] at hd
          obtain rfl := Except.error.inj hd
          rfl
      | ok contents =>
          rw [snd_loader_succ hread] at hd
          exact ih hd

end Failures

/-- Tokenizing always comes to an end, and succeeds exactly on bounded trees of imports.  It gives
tokens or a diagnostic of its own stage; it gives tokens if and only if in the tree of imports no
file at the limit imports anything, every imported file can be read and every file scans.  Then the
files taken in are the tree in preorder, with their depths from one up to the limit.  Where a file
of the tree comes to import itself, it fails. -/
theorem tokenize_succeeds_on_bounded_trees (read : FileReader) (maxDepth : Int)
    (file source : Bytes) :
    let limit := importLimit maxDepth
    let root : SourceFile := ⟨file, source⟩
    let result := tokenize read limit file source
    (∀ d, result.2 = .error d → d.stage = .lexing) ∧
    ((∃ ts, result.2 = .ok ts) ↔
      (∀ f, InTree read root limit f → f.imports = []) ∧
      (∀ depth f, InTree read root depth f →
        ∀ path ∈ f.imports, ∃ contents, read path = .ok contents) ∧
      ∀ depth f, InTree read root depth f → f.Scannable) ∧
    (∀ ts, result.2 = .ok ts →
      (∀ notes, Listing read 0 root.imports notes ↔ notes = result.1) ∧
      ∀ note ∈ result.1, 1 ≤ note.depth ∧ note.depth ≤ limit) ∧
    ∀ depth f k, InTree read root depth f → InTree read f (k + 1) f →
      ∃ d, result.2 = .error d := by
  intro limit root result
  have hiff : (∃ ts, result.2 = .ok ts) ↔ BoundedTree read limit root :=
    exists_tokenizeWithin_ok_iff
  refine ⟨fun d hd => stage_of_tokenizeWithin hd, ?_, ?_, ?_⟩
  · rw [hiff]
    constructor
    · intro h
      exact ⟨h.shallow, h.readable, h.scannable⟩
    · rintro ⟨hshallow, hreadable, hscannable⟩
      exact ⟨hshallow, hreadable, hscannable⟩
  · intro ts hts
    have hlisting : Listing read 0 root.imports result.1 := by
      have h := listing_tokenizeWithin (Nat.le_refl limit) hts
      rw [Nat.sub_self] at h
      exact h
    refine ⟨?_, ?_⟩
    · intro notes
      constructor
      · intro h
        exact h.unique hlisting
      · rintro rfl
        exact hlisting
    · intro note hnote
      obtain ⟨hpos, contents, hin⟩ :=
        hlisting.inTree InTree.root (fun _ h => h) note hnote
      exact ⟨hpos, (hiff.mp ⟨ts, hts⟩).depth_le hin⟩
  · intro depth f k hf hcycle
    cases hresult : result.2 with
    | error d => exact ⟨d, rfl⟩
    | ok ts => exact absurd hcycle ((hiff.mp ⟨ts, hresult⟩).not_cyclic hf)

end JumpScript
