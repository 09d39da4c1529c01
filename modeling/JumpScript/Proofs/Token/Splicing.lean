import Mathlib.Tactic.SplitIfs
import JumpScript.Proofs.Outcomes
import JumpScript.Proofs.Token.Runs
import JumpScript.Proofs.Token.Scanning

/-!
# Splicing and normal form

Where no run is an import, splicing puts the tokens back together.  In any case every token that
comes out was scanned from some file, or closes one.
-/

namespace JumpScript

/-- How the tokens of an imported file are obtained. -/
abbrev Loader := Token → Bytes → List ImportNote × Except Diagnostic (List Token)

variable {load : Loader} {ts : List Token}

/-- What takes the place of the tokens of a run. -/
def TokenRun.included (load : Loader) (r : TokenRun) : Except Diagnostic (List Token) :=
  match r.import? with
  | some (t, path) => (load t path).2
  | none => .ok r.body

theorem snd_splice_cons (load : Loader) (r : TokenRun) (rs : List TokenRun) :
    (splice load (r :: rs)).2 = (do
      let us ← r.included load
      let more ← (splice load rs).2
      return us ++ r.close.toList ++ more) := by
  rw [splice, TokenRun.included]
  cases himport : r.import? with
  | none => cases hmore : (splice load rs).2 <;> simp [hmore] <;> rfl
  | some p =>
      cases hload : (load p.1 p.2).2 with
      | error d => simp [hload]; rfl
      | ok us => cases hmore : (splice load rs).2 <;> simp [hload, hmore] <;> rfl

theorem snd_finish (load : Loader) (file source : Bytes) :
    (tokenizeWithin.finish file source load).2 = (do
      let last ← (scan file source).2
      let us ← (splice load (TokenRun.cut (scan file source).1)).2
      return collapse true (us ++ [{ last with lexeme := .endOfStatement }])) := by
  simp only [tokenizeWithin.finish]
  split
  · rename_i d hscan
    rw [hscan]
    rfl
  · rename_i raw last hscan
    rw [hscan]
    cases hsplice : (splice load (TokenRun.cut raw)).2 <;> rfl

theorem splice_of_import?_none {runs : List TokenRun} (hruns : ∀ r ∈ runs, r.import? = none) :
    (splice load runs).2 = .ok (runs.flatMap TokenRun.tokens) := by
  induction runs with
  | nil => rfl
  | cons r rs ih =>
      have hr := hruns r List.mem_cons_self
      have hrs := ih fun q hq => hruns q (List.mem_cons_of_mem r hq)
      rw [snd_splice_cons, TokenRun.included, hr, hrs]
      rfl

theorem collapse_unclosed {body : List Token} (hbody : Unclosed body) (hne : body ≠ [])
    (blocked : Bool) (rest : List Token) :
    collapse blocked (body ++ rest) = body ++ collapse false rest := by
  induction body generalizing blocked with
  | nil => exact absurd rfl hne
  | cons t body ih =>
      rw [List.cons_append, collapse, if_neg hbody.not_isEnd]
      cases body with
      | nil => rfl
      | cons u body =>
          rw [ih hbody.tail (List.cons_ne_nil u body)]
          rfl

theorem mem_of_mem_collapse {blocked : Bool} {t : Token} (ht : t ∈ collapse blocked ts) :
    t ∈ ts := by
  induction ts generalizing blocked with
  | nil => exact ht
  | cons u ts ih =>
      rw [collapse] at ht
      split_ifs at ht
      · exact List.mem_cons_of_mem u (ih ht)
      all_goals
        rcases List.mem_cons.mp ht with rfl | ht
        · exact List.mem_cons_self
        · exact List.mem_cons_of_mem u (ih ht)

/-- Every spliced token stood in a run or was loaded. -/
theorem splice_forall {P : Token → Prop} {runs : List TokenRun}
    (hload : ∀ t path us, (load t path).2 = .ok us → ∀ u ∈ us, P u)
    (hruns : ∀ r ∈ runs, ∀ t ∈ r.tokens, P t)
    (hsplice : (splice load runs).2 = .ok ts) : ∀ t ∈ ts, P t := by
  induction runs generalizing ts with
  | nil =>
      obtain rfl : [] = ts := Except.ok.inj hsplice
      intro t ht
      cases ht
  | cons r rs ih =>
      rw [snd_splice_cons] at hsplice
      obtain ⟨us, hus, hsplice⟩ := bind_eq_ok_iff.mp hsplice
      obtain ⟨more, hmore, hsplice⟩ := bind_eq_ok_iff.mp hsplice
      obtain rfl := Except.ok.inj hsplice
      have hr := hruns r List.mem_cons_self
      have hincluded : ∀ u ∈ us, P u := by
        rw [TokenRun.included] at hus
        split at hus
        · exact hload _ _ us hus
        · obtain rfl := Except.ok.inj hus
          exact fun u hu => hr u (List.mem_append_left _ hu)
      intro t ht
      rcases List.mem_append.mp ht with ht | ht
      · rcases List.mem_append.mp ht with ht | ht
        · exact hincluded t ht
        · exact hr t (List.mem_append_right _ ht)
      · exact ih (fun q hq => hruns q (List.mem_cons_of_mem r hq)) hmore t ht

def nestingDiagnostic (limit : Nat) (t : Token) (path : Bytes) : Diagnostic :=
  t.diagnostic .lexing (text "import nesting deeper than " ++ Bytes.ofNat limit
    ++ text " levels at '" ++ path ++ text "'") none

def importDiagnostic (t : Token) (path : Bytes) (e : FileError) : Diagnostic :=
  t.diagnostic .lexing (text "failed to import file '" ++ path ++ text "': " ++ e.message)
    (some (.file e))

/-- The loader for imports that may nest `left` levels. -/
def loader (read : FileReader) (limit : Nat) : (left : Nat) → Loader
  | 0, t, path => ([], .error (nestingDiagnostic limit t path))
  | left + 1, t, path =>
    match read path with
    | .error e => ([⟨path, limit - left⟩], .error (importDiagnostic t path e))
    | .ok contents =>
      let (notes, ts) := tokenizeWithin read limit left path contents
      (⟨path, limit - left⟩ :: notes, ts)

variable {read : FileReader} {limit left : Nat}

theorem tokenizeWithin_eq_finish (read : FileReader) (limit left : Nat)
    (file source : Bytes) :
    tokenizeWithin read limit left file source
      = tokenizeWithin.finish file source (loader read limit left) := by
  cases left <;> rfl

theorem snd_loader_succ {path contents : Bytes} (hread : read path = .ok contents) (t : Token) :
    (loader read limit (left + 1) t path).2
      = (tokenizeWithin read limit left path contents).2 := by
  simp only [loader, hread]

theorem snd_loader_succ_error {path : Bytes} {e : FileError} (hread : read path = .error e)
    (t : Token) :
    (loader read limit (left + 1) t path).2 = .error (importDiagnostic t path e) := by
  simp only [loader, hread]

/-- What holds of every scanned and every loaded lexeme holds of every token of a source. -/
theorem finish_forall {P : Lexeme → Prop} (hend : P .endOfStatement)
    (hscan : ∀ s ls, Scan.Scans s ls → ∀ l ∈ ls, P l)
    (hload : ∀ t path us, (load t path).2 = .ok us → ∀ u ∈ us, P u.lexeme)
    {file source : Bytes} (h : (tokenizeWithin.finish file source load).2 = .ok ts) :
    ∀ t ∈ ts, P t.lexeme := by
  rw [snd_finish] at h
  obtain ⟨last, hlast, h⟩ := bind_eq_ok_iff.mp h
  obtain ⟨us, hus, h⟩ := bind_eq_ok_iff.mp h
  obtain rfl := Except.ok.inj h
  have hscans : Scan.Scans source ((scan file source).1.map Token.lexeme) :=
    scan_eq_ok_iff.mp ⟨_, last, Prod.ext rfl hlast, rfl⟩
  have hruns : ∀ r ∈ TokenRun.cut (scan file source).1, ∀ t ∈ r.tokens, P t.lexeme := by
    intro r hr t ht
    have hmem : t ∈ (scan file source).1 := by
      rw [← TokenRun.flatMap_tokens_cut (scan file source).1]
      exact List.mem_flatMap.mpr ⟨r, hr, ht⟩
    exact hscan source _ hscans t.lexeme (List.mem_map_of_mem hmem)
  intro t ht
  rcases List.mem_append.mp (mem_of_mem_collapse ht) with ht | ht
  · exact splice_forall hload hruns hus t ht
  · rw [List.mem_singleton.mp ht]
    exact hend

/-- What holds of every scanned lexeme holds of every token of a source and its imports. -/
theorem tokenizeWithin_forall {P : Lexeme → Prop} (hend : P .endOfStatement)
    (hscan : ∀ s ls, Scan.Scans s ls → ∀ l ∈ ls, P l) {file source : Bytes}
    (h : (tokenizeWithin read limit left file source).2 = .ok ts) :
    ∀ t ∈ ts, P t.lexeme := by
  induction left generalizing file source ts with
  | zero =>
      rw [tokenizeWithin_eq_finish] at h
      refine finish_forall hend hscan ?_ h
      intro t path us hus
      cases hus
  | succ left ih =>
      rw [tokenizeWithin_eq_finish] at h
      refine finish_forall hend hscan ?_ h
      intro t path us hus
      cases hread : read path with
      | error e =>
          rw [snd_loader_succ_error hread] at hus
          cases hus
      | ok contents =>
          rw [snd_loader_succ hread] at hus
          exact ih hus

end JumpScript
