import JumpScript.Proofs.Token.Newline
import JumpScript.Proofs.Token.Splicing

/-!
# An import is textual inclusion

Replacing an import by the text of the file it names changes no lexeme.  The two sources are
compared by `Below`: they give the same lexemes or both fail, except that the source with the import
may nest too deep.  More levels can only turn such a failure into another outcome.
-/

namespace JumpScript

/-- Two token lists say the same. -/
def SameLexemes (ts us : List Token) : Prop := ts.map Token.lexeme = us.map Token.lexeme

theorem SameLexemes.refl (ts : List Token) : SameLexemes ts ts := rfl

theorem SameLexemes.append {ts ts' us us' : List Token} (h : SameLexemes ts us)
    (h' : SameLexemes ts' us') : SameLexemes (ts ++ ts') (us ++ us') := by
  rw [SameLexemes, List.map_append, List.map_append, h, h']

theorem SameLexemes.cons {t u : Token} {ts us : List Token} (hlexeme : t.lexeme = u.lexeme)
    (h : SameLexemes ts us) : SameLexemes (t :: ts) (u :: us) := by
  rw [SameLexemes, List.map_cons, List.map_cons, hlexeme, h]

theorem isEnd_congr {t u : Token} (h : t.lexeme = u.lexeme) : t.isEnd = u.isEnd := by
  rw [Token.isEnd, Token.isEnd, h]

/-- The first outcome is a nesting diagnostic, or both succeed with related tokens, or both
fail. -/
inductive Below (limit : Nat) (R : List Token → List Token → Prop) :
    Except Diagnostic (List Token) → Except Diagnostic (List Token) → Prop where
  | nesting (t : Token) (path : Bytes) (y : Except Diagnostic (List Token)) :
      Below limit R (.error (nestingDiagnostic limit t path)) y
  | ok {ts us : List Token} (h : R ts us) : Below limit R (.ok ts) (.ok us)
  | error (d e : Diagnostic) : Below limit R (.error d) (.error e)

variable {limit : Nat} {R S : List Token → List Token → Prop}

theorem Below.bind {x y : Except Diagnostic (List Token)}
    {f g : List Token → Except Diagnostic (List Token)} (h : Below limit R x y)
    (hfg : ∀ ts us, R ts us → Below limit S (f ts) (g us)) :
    Below limit S (x >>= f) (y >>= g) := by
  cases h with
  | nesting t path y => exact Below.nesting t path _
  | ok h => exact hfg _ _ h
  | error d e => exact Below.error d e

theorem Below.of_ok_left {x y : Except Diagnostic (List Token)} (h : Below limit R x y)
    {ts : List Token} (hx : x = .ok ts) : ∃ us, y = .ok us ∧ R ts us := by
  cases h with
  | nesting t path y => cases hx
  | ok h =>
      obtain rfl := Except.ok.inj hx
      exact ⟨_, rfl, h⟩
  | error d e => cases hx

theorem Below.of_ok_right {x y : Except Diagnostic (List Token)} (h : Below limit R x y)
    {us : List Token} (hy : y = .ok us) :
    (∃ ts, x = .ok ts ∧ R ts us) ∨
      ∃ t path, x = .error (nestingDiagnostic limit t path) := by
  cases h with
  | nesting t path y => exact Or.inr ⟨t, path, rfl⟩
  | ok h =>
      obtain rfl := Except.ok.inj hy
      exact Or.inl ⟨_, rfl, h⟩
  | error d e => cases hy

/-- The path that lexemes import. -/
def importPath? : List Lexeme → Option Bytes
  | [.identifier word, .string path] => if word == text "import" then some path else none
  | _ => none

theorem map_import? (r : TokenRun) :
    r.import?.map (·.2) = importPath? (r.body.map Token.lexeme) := by
  obtain ⟨body, close⟩ := r
  rcases body with _ | ⟨t, _ | ⟨u, _ | ⟨v, more⟩⟩⟩
  · rfl
  · cases ht : t.lexeme <;> simp [TokenRun.import?, importPath?, ht]
  · cases ht : t.lexeme <;> cases hu : u.lexeme <;>
      simp [TokenRun.import?, importPath?, ht, hu]
  · cases ht : t.lexeme <;> cases hu : u.lexeme <;>
      simp [TokenRun.import?, importPath?, ht, hu]

theorem import?_congr {r q : TokenRun} (h : SameLexemes r.body q.body) :
    r.import?.map (·.2) = q.import?.map (·.2) := by
  rw [map_import?, map_import?, h]

theorem below_included {load load' : Loader} {r q : TokenRun}
    (hload : ∀ t u path, Below limit SameLexemes (load t path).2 (load' u path).2)
    (h : SameLexemes r.body q.body) :
    Below limit SameLexemes (r.included load) (q.included load') := by
  have himport := import?_congr h
  rw [TokenRun.included, TokenRun.included]
  cases hr : r.import? with
  | none =>
      rw [hr, Option.map_none, eq_comm, Option.map_eq_none_iff] at himport
      rw [himport]
      exact Below.ok h
  | some p =>
      rw [hr, Option.map_some, eq_comm, Option.map_eq_some_iff] at himport
      obtain ⟨p', hq, hpath⟩ := himport
      rw [hq]
      simp only [hpath]
      exact hload _ _ _

theorem unclosed_congr {ts us : List Token} (h : SameLexemes ts us) (hts : Unclosed ts) :
    Unclosed us := by
  intro u hu
  have hmem : u.lexeme ∈ ts.map Token.lexeme := h ▸ List.mem_map_of_mem hu
  obtain ⟨t, ht, hlexeme⟩ := List.mem_map.mp hmem
  rw [← isEnd_congr hlexeme]
  exact hts t ht

/-- Splicing sees only lexemes. -/
theorem below_splice {load load' : Loader}
    (hload : ∀ t u path, Below limit SameLexemes (load t path).2 (load' u path).2)
    {ts us : List Token} (h : SameLexemes ts us) :
    Below limit SameLexemes (splice load (TokenRun.cut ts)).2
      (splice load' (TokenRun.cut us)).2 := by
  induction ts using run_induction generalizing us with
  | unclosed body hbody =>
      rw [TokenRun.cut_unclosed hbody, TokenRun.cut_unclosed (unclosed_congr h hbody),
        snd_splice_cons, snd_splice_cons]
      refine (below_included hload h).bind ?_
      intro ts us hus
      exact Below.ok (SameLexemes.append (SameLexemes.append hus rfl) rfl)
  | closed body close rest hbody hclose ih =>
      rw [SameLexemes, eq_comm, List.map_append, List.map_cons] at h
      obtain ⟨body', tail, rfl, hbody', htail⟩ := List.map_eq_append_iff.mp h
      obtain ⟨close', rest', rfl, hlexeme, hrest'⟩ := List.map_eq_cons_iff.mp htail
      have hsame : SameLexemes body body' := hbody'.symm
      have hclose' : close'.isEnd = true := (isEnd_congr hlexeme).trans hclose
      rw [TokenRun.cut_closed hbody hclose,
        TokenRun.cut_closed (unclosed_congr hsame hbody) hclose', snd_splice_cons,
        snd_splice_cons]
      refine Below.bind (R := SameLexemes) (below_included hload hsame) ?_
      intro ts us hus
      refine (ih hrest'.symm).bind ?_
      intro more more' hmore
      exact Below.ok ((hus.append (SameLexemes.cons hlexeme.symm rfl)).append hmore)

/-- Splicing goes on afresh after an end of statement. -/
theorem snd_splice_cut_append (load : Loader) (ts : List Token) {close : Token}
    (hclose : close.isEnd = true) (us : List Token) :
    (splice load (TokenRun.cut (ts ++ close :: us))).2 = (do
      let x ← (splice load (TokenRun.cut ts)).2
      let y ← (splice load (TokenRun.cut us)).2
      return x ++ close :: y) := by
  induction ts using run_induction with
  | unclosed body hbody =>
      have hincluded : TokenRun.included load ⟨body, none⟩
          = TokenRun.included load ⟨body, some close⟩ := rfl
      rw [TokenRun.cut_closed hbody hclose, TokenRun.cut_unclosed hbody, snd_splice_cons,
        snd_splice_cons, hincluded]
      cases TokenRun.included load ⟨body, some close⟩ with
      | error d => rfl
      | ok x =>
          change _ = ((splice load (TokenRun.cut us)).2 >>= fun y =>
            Except.ok (x ++ [] ++ [] ++ close :: y))
          rw [List.append_nil, List.append_nil]
          cases (splice load (TokenRun.cut us)).2 with
          | error d => rfl
          | ok y => exact congrArg Except.ok (List.append_assoc x [close] y)
  | closed body c rest hbody hc ih =>
      rw [List.append_assoc, List.cons_append, TokenRun.cut_closed hbody hc,
        TokenRun.cut_closed hbody hc, snd_splice_cons, snd_splice_cons, ih]
      cases TokenRun.included load ⟨body, some c⟩ with
      | error d => rfl
      | ok x =>
          cases (splice load (TokenRun.cut rest)).2 with
          | error d => rfl
          | ok y =>
              cases (splice load (TokenRun.cut us)).2 with
              | error d => rfl
              | ok z => exact congrArg Except.ok (List.append_assoc _ y (close :: z)).symm

theorem collapse_congr {ts us : List Token} (h : SameLexemes ts us) (blocked : Bool) :
    SameLexemes (collapse blocked ts) (collapse blocked us) := by
  induction ts generalizing us blocked with
  | nil =>
      obtain rfl := List.map_eq_nil_iff.mp h.symm
      exact SameLexemes.refl _
  | cons t ts ih =>
      obtain ⟨u, us, rfl, hlexeme, hus⟩ := List.map_eq_cons_iff.mp h.symm
      have hsame : SameLexemes ts us := hus.symm
      rw [collapse, collapse, isEnd_congr hlexeme]
      split
      · split
        · exact ih hsame true
        · exact SameLexemes.cons hlexeme.symm (ih hsame true)
      · exact SameLexemes.cons hlexeme.symm (ih hsame false)

theorem collapse_collapse (blocked : Bool) (ts us : List Token) :
    collapse blocked (collapse blocked ts ++ us) = collapse blocked (ts ++ us) := by
  induction ts generalizing blocked with
  | nil => rfl
  | cons t ts ih =>
      rw [List.cons_append, collapse, collapse]
      by_cases ht : t.isEnd = true
      · rw [if_pos ht, if_pos ht]
        cases blocked with
        | true => exact ih true
        | false =>
            simp only [Bool.false_eq_true, if_false]
            rw [List.cons_append, collapse, if_pos ht, if_neg Bool.false_ne_true, ih true]
      · rw [if_neg ht, if_neg ht, List.cons_append, collapse, if_neg ht, ih false]

/-- What follows an end of statement is collapsed by itself. -/
theorem collapse_append_end {e : Token} (he : e.isEnd = true) (blocked : Bool)
    (ts us : List Token) :
    collapse blocked (ts ++ e :: us) = collapse blocked (ts ++ [e]) ++ collapse true us := by
  induction ts generalizing blocked with
  | nil =>
      rw [List.nil_append, List.nil_append, collapse, collapse, if_pos he, if_pos he]
      split
      · rfl
      · rfl
  | cons t ts ih =>
      rw [List.cons_append, List.cons_append, collapse, collapse, ih, ih]
      split
      · split
        · rfl
        · rfl
      · rfl

/-- Whatever follows, the normal forms say the same. -/
def SameNormal (ts us : List Token) : Prop :=
  ∀ more more', SameLexemes more more' →
    SameLexemes (collapse true (ts ++ more)) (collapse true (us ++ more'))

theorem SameLexemes.sameNormal {ts us : List Token} (h : SameLexemes ts us) :
    SameNormal ts us :=
  fun _ _ hmore => collapse_congr (h.append hmore) true

theorem SameNormal.append_end {ts ts' us us' : List Token} {e e' : Token}
    (he : e.isEnd = true) (he' : e'.isEnd = true) (h : SameLexemes ts ts')
    (hus : SameNormal us us') : SameNormal (ts ++ e :: us) (ts' ++ e' :: us') := by
  have hlexeme : e.lexeme = e'.lexeme := lexeme_eq_of_isEnd he he'
  intro more more' hmore
  rw [List.append_assoc, List.append_assoc, List.cons_append, List.cons_append,
    collapse_append_end he, collapse_append_end he']
  apply SameLexemes.append
  · exact collapse_congr (h.append (SameLexemes.cons hlexeme rfl)) true
  · exact hus more more' hmore

/-- A file in normal form and an end of statement after it are as good as the file itself and one
end of statement. -/
theorem sameNormal_collapse {ts ts' us us' : List Token} {e e' last : Token}
    (he : e.isEnd = true) (he' : e'.isEnd = true) (hlast : last.isEnd = true)
    (h : SameLexemes ts ts') (hus : SameLexemes us us') :
    SameNormal (collapse true (ts ++ [last]) ++ e :: us) (ts' ++ e' :: us') := by
  have hlexeme : last.lexeme = e'.lexeme := lexeme_eq_of_isEnd hlast he'
  intro more more' hmore
  have hdouble : collapse true (collapse true (ts ++ [last]) ++ e :: us ++ more)
      = collapse true (ts ++ last :: (us ++ more)) := by
    rw [List.append_assoc, collapse_collapse, List.append_assoc, List.singleton_append,
      collapse_append_end hlast, List.cons_append, collapse, if_pos he, if_pos rfl,
      ← collapse_append_end hlast]
  rw [hdouble, List.append_assoc, List.cons_append]
  exact collapse_congr (h.append (SameLexemes.cons hlexeme (hus.append hmore))) true

variable {load load' : Loader} {s s' : Bytes}

theorem snd_finish_of_scans {ls : List Lexeme} (h : Scan.Scans s ls) (load : Loader)
    (file : Bytes) :
    ∃ ts last, ts.map Token.lexeme = ls ∧ last.isEnd = true ∧
      (tokenizeWithin.finish file s load).2 = (do
        let us ← (splice load (TokenRun.cut ts)).2
        return collapse true (us ++ [last])) := by
  obtain ⟨ts, last, hscan, hls⟩ := scan_eq_ok_iff.mpr h
  refine ⟨ts, { last with lexeme := .endOfStatement }, hls, rfl, ?_⟩
  rw [snd_finish, hscan]
  rfl

theorem snd_finish_of_not_scans (h : ¬ ∃ ls, Scan.Scans s ls) (load : Loader) (file : Bytes) :
    ∃ d, (tokenizeWithin.finish file s load).2 = .error d := by
  rw [snd_finish]
  cases hstop : (scan file s).2 with
  | error d => exact ⟨d, rfl⟩
  | ok last =>
      exact absurd ⟨_, scan_eq_ok_iff.mp ⟨(scan file s).1, last, Prod.ext rfl hstop, rfl⟩⟩ h

/-- Sources compare as their spliced tokens do. -/
theorem below_finish (file file' : Bytes)
    (hscan : (∃ ls, Scan.Scans s ls) ↔ ∃ ls, Scan.Scans s' ls)
    (hsplice : ∀ ts us, Scan.Scans s (ts.map Token.lexeme) →
      Scan.Scans s' (us.map Token.lexeme) →
      Below limit SameNormal (splice load (TokenRun.cut ts)).2
        (splice load' (TokenRun.cut us)).2) :
    Below limit SameLexemes (tokenizeWithin.finish file s load).2
      (tokenizeWithin.finish file' s' load').2 := by
  by_cases hs : ∃ ls, Scan.Scans s ls
  · obtain ⟨ls, hls⟩ := hs
    obtain ⟨ls', hls'⟩ := hscan.mp ⟨ls, hls⟩
    obtain ⟨ts, last, rfl, hlast, hfinish⟩ := snd_finish_of_scans hls load file
    obtain ⟨us, last', rfl, hlast', hfinish'⟩ := snd_finish_of_scans hls' load' file'
    have hlexeme : last.lexeme = last'.lexeme := lexeme_eq_of_isEnd hlast hlast'
    rw [hfinish, hfinish']
    refine (hsplice ts us hls hls').bind ?_
    intro x y hxy
    exact Below.ok (hxy [last] [last'] (SameLexemes.cons hlexeme rfl))
  · obtain ⟨d, hd⟩ := snd_finish_of_not_scans hs load file
    obtain ⟨d', hd'⟩ := snd_finish_of_not_scans (fun h => hs (hscan.mpr h)) load' file'
    rw [hd, hd']
    exact Below.error d d'

theorem Below.mono {x y : Except Diagnostic (List Token)} (h : Below limit R x y)
    (hRS : ∀ ts us, R ts us → S ts us) : Below limit S x y := by
  cases h with
  | nesting t path y => exact Below.nesting t path y
  | ok h => exact Below.ok (hRS _ _ h)
  | error d e => exact Below.error d e

/-- With more levels left, an import gives the same lexemes or no longer nests too deep. -/
theorem below_loader {read : FileReader} {left left' : Nat} (hle : left ≤ left')
    (t u : Token) (path : Bytes) :
    Below limit SameLexemes (loader read limit left t path).2
      (loader read limit left' u path).2 := by
  induction left generalizing left' t u path with
  | zero => exact Below.nesting t path _
  | succ left ih =>
      obtain ⟨left', rfl⟩ : ∃ m, left' = m + 1 := ⟨left' - 1, by omega⟩
      cases hread : read path with
      | error e =>
          rw [snd_loader_succ_error hread, snd_loader_succ_error hread]
          exact Below.error _ _
      | ok contents =>
          rw [snd_loader_succ hread, snd_loader_succ hread, tokenizeWithin_eq_finish,
            tokenizeWithin_eq_finish]
          apply below_finish path path Iff.rfl
          intro ts us hts hus
          have hsame : SameLexemes ts us := Scan.scans_unique hts hus
          have hsplice := below_splice (ih (Nat.le_of_succ_le_succ hle)) hsame
          exact hsplice.mono fun _ _ => SameLexemes.sameNormal

section Inclusion

variable {read : FileReader} {left : Nat} {path contents before : Bytes}

/-- An import statement as a source writes it. -/
def importText (path : Bytes) : Bytes := text "import " ++ stringLiteral path

theorem scans_importText (path : Bytes) :
    Scan.Scans (importText path) [.identifier (text "import"), .string path] := by
  have hword : Scan.Spells (text "import") (.identifier (text "import"))
      (0x20 :: stringLiteral path ++ []) :=
    Scan.spells_name (by decide) (Scan.bounded_cons (by decide) _)
  have hwrites := Scan.Writes.lexeme hword (Scan.spells_string path []).writes.space
  have hscans := hwrites.scans (Scan.Scans.done rfl)
  rw [List.append_nil, List.append_nil] at hscans
  exact hscans

theorem snd_splice_import {t u : Token} (ht : t.lexeme = .identifier (text "import"))
    (hu : u.lexeme = .string path) (load : Loader) :
    (splice load (TokenRun.cut [t, u])).2 = (load u path).2 := by
  have hunclosed : Unclosed [t, u] := by
    intro v hv
    simp only [List.mem_cons, List.not_mem_nil, or_false] at hv
    rcases hv with rfl | rfl
    · rw [Token.isEnd, ht]
      rfl
    · rw [Token.isEnd, hu]
      rfl
  have hincluded : TokenRun.included load ⟨[t, u], none⟩ = (load u path).2 := by
    simp [TokenRun.included, TokenRun.import?, ht, hu]
  rw [TokenRun.cut_unclosed hunclosed, snd_splice_cons, hincluded]
  cases (load u path).2 with
  | error d => rfl
  | ok us =>
      change Except.ok (us ++ [] ++ []) = Except.ok us
      rw [List.append_nil, List.append_nil]

/-- The tokens of an import compare with those of the file it names. -/
theorem below_splice_import (hread : read path = .ok contents) {cs bs : List Lexeme}
    (hcontents : Scan.Scans contents cs) {ts us : List Token}
    (hts : ts.map Token.lexeme
      = [.identifier (text "import"), .string path] ++ .endOfStatement :: bs)
    (hus : us.map Token.lexeme = cs ++ .endOfStatement :: bs) :
    Below limit SameNormal (splice (loader read limit left) (TokenRun.cut ts)).2
      (splice (loader read limit left) (TokenRun.cut us)).2 := by
  obtain ⟨t, ts₁, rfl, ht, hts₁⟩ := List.map_eq_cons_iff.mp hts
  obtain ⟨u, ts₂, rfl, hu, hts₂⟩ := List.map_eq_cons_iff.mp hts₁
  obtain ⟨e, ts₃, rfl, he, hts₃⟩ := List.map_eq_cons_iff.mp hts₂
  obtain ⟨file, tail, rfl, hfile, htail⟩ := List.map_eq_append_iff.mp hus
  obtain ⟨e', us₃, rfl, he', hus₃⟩ := List.map_eq_cons_iff.mp htail
  have hend : e.isEnd = true := isEnd_of_lexeme he
  have hend' : e'.isEnd = true := isEnd_of_lexeme he'
  have hrest : SameLexemes ts₃ us₃ := hts₃.trans hus₃.symm
  rw [show t :: u :: e :: ts₃ = [t, u] ++ e :: ts₃ from rfl,
    snd_splice_cut_append _ _ hend, snd_splice_cut_append _ _ hend', snd_splice_import ht hu]
  cases left with
  | zero => exact Below.nesting u path _
  | succ left =>
      obtain ⟨file', last, hfile', hlast, hfinish⟩ :=
        snd_finish_of_scans hcontents (loader read limit left) path
      have hsame : SameLexemes file' file := hfile'.trans hfile.symm
      rw [snd_loader_succ hread, tokenizeWithin_eq_finish, hfinish, bind_assoc]
      refine (below_splice (below_loader (Nat.le_succ left)) hsame).bind ?_
      intro x y hxy
      change Below limit SameNormal ((splice _ (TokenRun.cut ts₃)).2 >>= _) _
      refine (below_splice (below_loader (Nat.le_refl _)) hrest).bind ?_
      intro z w hzw
      exact Below.ok (sameNormal_collapse hend hend' hlast hxy hzw)

/-- Two texts compare when scanned and spliced, whatever their tokens' places. -/
def BelowSpliced (limit : Nat) (load : Loader) (s s' : Bytes) : Prop :=
  ((∃ ls, Scan.Scans s ls) ↔ ∃ ls, Scan.Scans s' ls) ∧
    ∀ ts us, Scan.Scans s (ts.map Token.lexeme) → Scan.Scans s' (us.map Token.lexeme) →
      Below limit SameNormal (splice load (TokenRun.cut ts)).2
        (splice load (TokenRun.cut us)).2

theorem exists_scans_append_newline_iff {ls : List Lexeme} (hs : Scan.Scans s ls) (x : Bytes) :
    (∃ ms, Scan.Scans (s ++ 0x0A :: x) ms) ↔ ∃ xs, Scan.Scans x xs := by
  constructor
  · rintro ⟨ms, hms⟩
    obtain ⟨xs, hxs, -⟩ := (Scan.scans_append_newline_iff hs).mp hms
    exact ⟨xs, hxs⟩
  · rintro ⟨xs, hxs⟩
    exact ⟨_, Scan.scans_append_newline hs hxs⟩

theorem belowSpliced_import (hread : read path = .ok contents) {cs : List Lexeme}
    (hcontents : Scan.Scans contents cs) (after : Bytes) :
    BelowSpliced limit (loader read limit left) (importText path ++ 0x0A :: after)
      (contents ++ 0x0A :: after) := by
  have himport := scans_importText path
  constructor
  · rw [exists_scans_append_newline_iff himport, exists_scans_append_newline_iff hcontents]
  · intro ts us hts hus
    obtain ⟨bs, hbs, hts⟩ := (Scan.scans_append_newline_iff himport).mp hts
    obtain ⟨bs', hbs', hus⟩ := (Scan.scans_append_newline_iff hcontents).mp hus
    obtain rfl := Scan.scans_unique hbs hbs'
    exact below_splice_import hread hcontents hts hus

/-- The comparison is not touched by what stands on the lines before. -/
theorem BelowSpliced.append {as : List Lexeme} (hbefore : Scan.Scans before as)
    (h : BelowSpliced limit (loader read limit left) s s') :
    BelowSpliced limit (loader read limit left) (before ++ 0x0A :: s)
      (before ++ 0x0A :: s') := by
  constructor
  · rw [exists_scans_append_newline_iff hbefore, exists_scans_append_newline_iff hbefore]
    exact h.1
  · intro ts us hts hus
    obtain ⟨bs, hbs, hts⟩ := (Scan.scans_append_newline_iff hbefore).mp hts
    obtain ⟨bs', hbs', hus⟩ := (Scan.scans_append_newline_iff hbefore).mp hus
    obtain ⟨x, tail, rfl, hx, htail⟩ := List.map_eq_append_iff.mp hts
    obtain ⟨e, y, rfl, he, rfl⟩ := List.map_eq_cons_iff.mp htail
    obtain ⟨x', tail', rfl, hx', htail'⟩ := List.map_eq_append_iff.mp hus
    obtain ⟨e', y', rfl, he', rfl⟩ := List.map_eq_cons_iff.mp htail'
    have hend : e.isEnd = true := isEnd_of_lexeme he
    have hend' : e'.isEnd = true := isEnd_of_lexeme he'
    have hsame : SameLexemes x x' := hx.trans hx'.symm
    rw [snd_splice_cut_append _ _ hend, snd_splice_cut_append _ _ hend']
    refine (below_splice (below_loader (Nat.le_refl left)) hsame).bind ?_
    intro z z' hz
    refine (h.2 y y' hbs hbs').bind ?_
    intro w w' hw
    exact Below.ok (SameNormal.append_end hend hend' hz hw)

/-- A source with an import compares with the one that holds the file in its place. -/
theorem below_inclusion (limit left : Nat) (file after : Bytes) (hread : read path = .ok contents)
    (hbefore : before = [] ∨ before.getLast? = some 0x0A)
    (hscan : ∃ as, Scan.Scans before as) (hcontents : ∃ cs, Scan.Scans contents cs) :
    Below limit SameLexemes
      (tokenizeWithin read limit left file
        (before ++ (importText path ++ 0x0A :: after))).2
      (tokenizeWithin read limit left file (before ++ (contents ++ 0x0A :: after))).2 := by
  obtain ⟨cs, hcs⟩ := hcontents
  have hspliced : BelowSpliced limit (loader read limit left)
      (before ++ (importText path ++ 0x0A :: after))
      (before ++ (contents ++ 0x0A :: after)) := by
    rcases hbefore with rfl | hlast
    · exact belowSpliced_import hread hcs after
    · obtain ⟨lines, rfl⟩ := List.getLast?_eq_some_iff.mp hlast
      obtain ⟨as, has⟩ := hscan
      obtain ⟨ls, hls⟩ := Scan.scans_of_newline_at_end has
      rw [List.append_assoc, List.append_assoc]
      exact BelowSpliced.append hls (belowSpliced_import hread hcs after)
  rw [tokenizeWithin_eq_finish, tokenizeWithin_eq_finish]
  exact below_finish file file hspliced.1 hspliced.2

theorem exists_scans_of_isOk {file source : Bytes} (h : (scan file source).2.isOk = true) :
    ∃ ls, Scan.Scans source ls := by
  cases hstop : (scan file source).2 with
  | error d =>
      rw [hstop] at h
      cases h
  | ok last => exact ⟨_, scan_eq_ok_iff.mp ⟨_, last, Prod.ext rfl hstop, rfl⟩⟩

/-- An import and the text of the file it names give the same lexemes, unless the import nests too
deep. -/
theorem tokenize_import_eq_inclusion (read : FileReader) (limit : Nat)
    (file path before contents after : Bytes) (hread : read path = .ok contents)
    (hbefore : before = [] ∨ before.getLast? = some 0x0A)
    (hscan : (scan file before).2.isOk = true)
    (hcontents : (scan path contents).2.isOk = true) :
    (∀ ts, (tokenize read limit file
        (before ++ importText path ++ [0x0A] ++ after)).2 = .ok ts →
      ∃ us, (tokenize read limit file (before ++ contents ++ [0x0A] ++ after)).2 = .ok us ∧
        us.map Token.lexeme = ts.map Token.lexeme) ∧
    (∀ us, (tokenize read limit file (before ++ contents ++ [0x0A] ++ after)).2 = .ok us →
      (∃ ts, (tokenize read limit file
          (before ++ importText path ++ [0x0A] ++ after)).2 = .ok ts ∧
        ts.map Token.lexeme = us.map Token.lexeme) ∨
      ∃ t nested, (tokenize read limit file
          (before ++ importText path ++ [0x0A] ++ after)).2
        = .error (nestingDiagnostic limit t nested)) := by
  have hbelow := below_inclusion limit limit file after hread hbefore
    (exists_scans_of_isOk hscan) (exists_scans_of_isOk hcontents)
  simp only [tokenize, List.append_assoc, List.singleton_append]
  constructor
  · intro ts hts
    obtain ⟨us, hus, hsame⟩ := hbelow.of_ok_left hts
    exact ⟨us, hus, hsame.symm⟩
  · intro us hus
    exact hbelow.of_ok_right hus

theorem isOk_of_scans {source : Bytes} {ls : List Lexeme} (h : Scan.Scans source ls)
    (file : Bytes) : (scan file source).2.isOk = true := by
  obtain ⟨ts, last, hscan, -⟩ := scan_eq_ok_iff.mpr h
  rw [hscan]
  rfl

theorem scans_ret : Scan.Scans (text "ret") [.mark .retWord] := by
  have hword : Scan.Spells (text "ret") (.mark .retWord) [] :=
    Scan.spells_word (b := 0x72) (r := text "et") (by decide) (by decide) (by simp [Scan.Bounded])
  exact hword.writes.scans (Scan.Scans.done rfl)

/-- A file that does not end in a newline, taken in after a line. -/
theorem tokenize_import_eq_inclusion_ret :
    (scan [] (text "ret\n")).2.isOk = true ∧ (scan (text "lib") (text "ret")).2.isOk = true ∧
    ∀ ts, (tokenize (fun _ => .ok (text "ret")) 64 []
        (text "ret\n" ++ importText (text "lib") ++ [0x0A] ++ text "x = 1")).2 = .ok ts →
      ∃ us, (tokenize (fun _ => .ok (text "ret")) 64 []
          (text "ret\n" ++ text "ret" ++ [0x0A] ++ text "x = 1")).2 = .ok us ∧
        us.map Token.lexeme = ts.map Token.lexeme := by
  have hbefore : (scan [] (text "ret\n")).2.isOk = true :=
    isOk_of_scans (Scan.scans_append_newline scans_ret (Scan.Scans.done rfl)) []
  have hcontents : (scan (text "lib") (text "ret")).2.isOk = true := isOk_of_scans scans_ret _
  exact ⟨hbefore, hcontents, (tokenize_import_eq_inclusion (fun _ => .ok (text "ret")) 64 []
    (text "lib") (text "ret\n") (text "ret") (text "x = 1") rfl (Or.inr rfl) hbefore
    hcontents).1⟩

end Inclusion

end JumpScript
