import JumpScript.Proofs.Statement.Grammar
import JumpScript.Proofs.Token.Lexemes
import JumpScript.Proofs.Token.Splicing

/-!
# Normal form

Tokenizing gives closed statements, one after another.  Each run of the source that is not empty
contributes to them: an import what tokenizing the file gives, any other run its own tokens with the
one that closes it, which for the last run may be made of the end of the file.  The end of statement
after an import goes, since what the file gives is closed already.

Since every statement is closed, parsing never finds one incomplete.
-/

namespace JumpScript

/-- Tokens in normal form: no end of file, no end of statement at the front or after another one,
and one at the end unless there are no tokens at all. -/
structure NormalForm (ts : List Token) : Prop where
  noEndOfFile : ∀ t ∈ ts, t.lexeme ≠ .endOfFile
  openFront : ∀ t ∈ ts.head?, t.isEnd = false
  neverTwice : ts.IsChain fun t u => t.isEnd = true → u.isEnd = false
  closedBack : ∀ t ∈ ts.getLast?, t.isEnd = true

/-- Closed statements, one after another. -/
inductive ClosedRuns : List Token → Prop where
  | nil : ClosedRuns []
  | cons {body rest : List Token} {close : Token} (hbody : Unclosed body) (hne : body ≠ [])
      (hclose : close.isEnd = true) (hrest : ClosedRuns rest) : ClosedRuns (body ++ close :: rest)

/-- What a run contributes to the tokens of its source, where `last` is the end of the file made an
end of statement and `output` tells what imported files give. -/
inductive TokenRun.Contributes (output : Bytes → List Token → Prop) (last : Token) :
    TokenRun → List Token → Prop where
  | statement {r : TokenRun} (himport : r.import? = none) :
      Contributes output last r (r.body ++ [r.close.getD last])
  | file {r : TokenRun} {t : Token} {path : Bytes} {ts : List Token}
      (himport : r.import? = some (t, path)) (houtput : output path ts) :
      Contributes output last r ts

/-- The runs of a source that are not empty, from its tokens. -/
def TokenRun.nonempty (raw : List Token) : List TokenRun :=
  (cut raw).filter fun r => !r.body.isEmpty

/-- What tokenizing the file at a path gives. -/
def FileOutput (read : FileReader) (limit : Nat) (path : Bytes) (ts : List Token) : Prop :=
  ∃ contents, read path = .ok contents ∧ (tokenize read limit path contents).2 = .ok ts

theorem collapse_closed {body : List Token} {close : Token} (hbody : Unclosed body)
    (hne : body ≠ []) (hclose : close.isEnd = true) (rest : List Token) :
    collapse true (body ++ close :: rest) = body ++ close :: collapse true rest := by
  rw [collapse_unclosed hbody hne]
  simp [collapse, hclose]

namespace ClosedRuns

variable {ts us : List Token}

theorem append (h : ClosedRuns ts) (h' : ClosedRuns us) : ClosedRuns (ts ++ us) := by
  induction h with
  | nil => exact h'
  | cons hbody hne hclose _ ih =>
      rw [List.append_assoc, List.cons_append]
      exact cons hbody hne hclose ih

theorem flatten {pieces : List (List Token)} (h : ∀ p ∈ pieces, ClosedRuns p) :
    ClosedRuns pieces.flatten := by
  induction pieces with
  | nil => exact nil
  | cons p pieces ih =>
      rw [List.flatten_cons]
      exact (h p List.mem_cons_self).append (ih fun q hq => h q (List.mem_cons_of_mem p hq))

/-- Nothing is dropped from closed statements, and an end of statement after them is. -/
theorem collapse_append (h : ClosedRuns ts) (us : List Token) :
    collapse true (ts ++ us) = ts ++ collapse true us := by
  induction h with
  | nil => rfl
  | cons hbody hne hclose _ ih =>
      rw [List.append_assoc, List.append_assoc, List.cons_append, List.cons_append,
        collapse_closed hbody hne hclose, ih]

theorem openFront (h : ClosedRuns ts) : ∀ t ∈ ts.head?, t.isEnd = false := by
  cases h with
  | nil => simp
  | @cons body rest close hbody hne _ _ =>
      obtain ⟨first, body, rfl⟩ := List.exists_cons_of_ne_nil hne
      simpa using hbody.head

theorem closedBack (h : ClosedRuns ts) : ∀ t ∈ ts.getLast?, t.isEnd = true := by
  induction h with
  | nil => simp
  | @cons body rest close _ _ hclose _ ih =>
      cases rest with
      | nil => simpa using hclose
      | cons t rest => simpa [List.getLast?_append, List.getLast?_cons_cons] using ih

theorem neverTwice (h : ClosedRuns ts) :
    ts.IsChain fun t u => t.isEnd = true → u.isEnd = false := by
  induction h with
  | nil => exact List.isChain_nil
  | @cons body rest close hbody _ _ hrest ih =>
      have hopen : ∀ t ∈ body, ¬ t.isEnd = true := by
        intro t ht
        simp [hbody t ht]
      rw [List.isChain_append]
      refine ⟨?_, ?_, ?_⟩
      · exact List.Pairwise.isChain (List.pairwise_of_forall_mem_list fun t ht _ _ hend =>
          absurd hend (hopen t ht))
      · rw [List.isChain_cons]
        exact ⟨fun t ht _ => hrest.openFront t ht, ih⟩
      · intro t ht _ _ hend
        exact absurd hend (hopen t (List.mem_of_mem_getLast? ht))

theorem normalForm (h : ClosedRuns ts) (hfile : ∀ t ∈ ts, t.lexeme ≠ .endOfFile) :
    NormalForm ts :=
  ⟨hfile, h.openFront, h.neverTwice, h.closedBack⟩

end ClosedRuns

namespace TokenRun

variable {output output' : Bytes → List Token → Prop} {last : Token} {r : TokenRun}
  {piece : List Token}

theorem Contributes.mono (h : Contributes output last r piece)
    (hle : ∀ path ts, output path ts → output' path ts) : Contributes output' last r piece := by
  cases h with
  | statement himport => exact Contributes.statement himport
  | file himport houtput => exact Contributes.file himport (hle _ _ houtput)

theorem nonempty_unclosed {body : List Token} (hbody : Unclosed body) (hne : body ≠ []) :
    nonempty body = [⟨body, none⟩] := by
  simp [nonempty, cut_unclosed hbody, hne]

theorem nonempty_closed {body : List Token} {close : Token} (hbody : Unclosed body)
    (hne : body ≠ []) (hclose : close.isEnd = true) (rest : List Token) :
    nonempty (body ++ close :: rest) = ⟨body, some close⟩ :: nonempty rest := by
  simp [nonempty, cut_closed hbody hclose, hne]

theorem nonempty_cons_of_isEnd {close : Token} (hclose : close.isEnd = true) (rest : List Token) :
    nonempty (close :: rest) = nonempty rest := by
  simp [nonempty, cut, hclose]

/-- What a run of a source contributes is closed, if what files give is. -/
theorem Contributes.closedRuns {raw : List Token} (hr : r ∈ nonempty raw)
    (hlast : last.isEnd = true) (houtput : ∀ path ts, output path ts → ClosedRuns ts)
    (h : Contributes output last r piece) : ClosedRuns piece := by
  obtain ⟨hmem, hne⟩ := List.mem_filter.mp hr
  obtain ⟨hbody, hclose⟩ := unclosed_of_mem_cut hmem
  cases h with
  | statement _ =>
      refine ClosedRuns.cons hbody (by simpa using hne) ?_ ClosedRuns.nil
      cases hr : r.close with
      | none => exact hlast
      | some close => exact hclose close hr
  | file _ hts => exact houtput _ _ hts

end TokenRun

section Assembling

variable {load : Loader} {last : Token} {ts us : List Token}

/-- What a loader gives for a path. -/
def LoaderOutput (load : Loader) (path : Bytes) (ts : List Token) : Prop :=
  ∃ t, (load t path).2 = .ok ts

/-- What stands for a run that is not empty is in normal form already, up to the end of statement
after it. -/
theorem exists_contributes (last : Token) (r : TokenRun)
    (hload : ∀ path ts, LoaderOutput load path ts → ClosedRuns ts) (hbody : Unclosed r.body)
    (hne : r.body ≠ []) (hend : (r.close.getD last).isEnd = true)
    (hus : r.included load = .ok us) (more : List Token) :
    ∃ piece, r.Contributes (LoaderOutput load) last piece ∧
      collapse true (us ++ r.close.getD last :: more) = piece ++ collapse true more := by
  rw [TokenRun.included] at hus
  split at hus
  · rename_i t path himport
    have hfile : LoaderOutput load path us := ⟨t, hus⟩
    refine ⟨us, .file himport hfile, ?_⟩
    rw [(hload path us hfile).collapse_append, collapse, if_pos hend, if_pos rfl]
  · rename_i himport
    obtain rfl := Except.ok.inj hus
    refine ⟨r.body ++ [r.close.getD last], .statement himport, ?_⟩
    rw [collapse_closed hbody hne hend, List.append_assoc, List.singleton_append]

/-- Spliced tokens in normal form are what the runs contribute. -/
theorem exists_pieces_of_splice (hlast : last.isEnd = true)
    (hload : ∀ path ts, LoaderOutput load path ts → ClosedRuns ts) {raw : List Token}
    (h : (splice load (TokenRun.cut raw)).2 = .ok us) :
    ∃ pieces,
      List.Forall₂ (TokenRun.Contributes (LoaderOutput load) last) (TokenRun.nonempty raw) pieces ∧
      collapse true (us ++ [last]) = pieces.flatten := by
  induction raw using run_induction generalizing us with
  | unclosed body hbody =>
      rw [TokenRun.cut_unclosed hbody, snd_splice_cons] at h
      obtain ⟨vs, hvs, h⟩ := bind_eq_ok_iff.mp h
      obtain rfl : vs ++ [] ++ [] = us := Except.ok.inj h
      rw [List.append_nil, List.append_nil]
      by_cases hne : body = []
      · subst hne
        obtain rfl : [] = vs := Except.ok.inj hvs
        exact ⟨[], .nil, by simp [collapse, hlast]⟩
      · obtain ⟨piece, hpiece, heq⟩ :=
          exists_contributes last ⟨body, none⟩ hload hbody hne hlast hvs []
        rw [TokenRun.nonempty_unclosed hbody hne]
        refine ⟨[piece], .cons hpiece .nil, heq.trans ?_⟩
        simp [collapse]
  | closed body close rest hbody hclose ih =>
      rw [TokenRun.cut_closed hbody hclose, snd_splice_cons] at h
      obtain ⟨vs, hvs, h⟩ := bind_eq_ok_iff.mp h
      obtain ⟨more, hmore, h⟩ := bind_eq_ok_iff.mp h
      obtain rfl : vs ++ [close] ++ more = us := Except.ok.inj h
      obtain ⟨pieces, hpieces, hrest⟩ := ih hmore
      rw [List.append_assoc, List.append_assoc, List.singleton_append]
      by_cases hne : body = []
      · subst hne
        obtain rfl : [] = vs := Except.ok.inj hvs
        rw [List.nil_append, TokenRun.nonempty_cons_of_isEnd hclose]
        exact ⟨pieces, hpieces, by simp [collapse, hclose, hrest]⟩
      · obtain ⟨piece, hpiece, heq⟩ :=
          exists_contributes last ⟨body, some close⟩ hload hbody hne hclose hvs (more ++ [last])
        rw [TokenRun.nonempty_closed hbody hne hclose]
        refine ⟨piece :: pieces, .cons hpiece hpieces, heq.trans ?_⟩
        rw [hrest, List.flatten_cons]

end Assembling

section Depth

variable {load load' : Loader} {read : FileReader} {limit left left' : Nat} {file source : Bytes}
  {ts : List Token}

/-- A file gives what its runs contribute. -/
theorem exists_pieces_of_finish (hload : ∀ path ts, LoaderOutput load path ts → ClosedRuns ts)
    (h : (tokenizeWithin.finish file source load).2 = .ok ts) :
    ∃ raw last pieces, scan file source = (raw, .ok last) ∧
      List.Forall₂
        (TokenRun.Contributes (LoaderOutput load) { last with lexeme := .endOfStatement })
        (TokenRun.nonempty raw) pieces ∧
      ts = pieces.flatten := by
  rw [snd_finish] at h
  obtain ⟨last, hlast, h⟩ := bind_eq_ok_iff.mp h
  obtain ⟨us, hus, h⟩ := bind_eq_ok_iff.mp h
  obtain rfl := Except.ok.inj h
  have hend : ({ last with lexeme := .endOfStatement } : Token).isEnd = true := rfl
  obtain ⟨pieces, hpieces, heq⟩ := exists_pieces_of_splice hend hload hus
  exact ⟨_, last, pieces, Prod.ext rfl hlast, hpieces, heq⟩

theorem closedRuns_finish (hload : ∀ path ts, LoaderOutput load path ts → ClosedRuns ts)
    (h : (tokenizeWithin.finish file source load).2 = .ok ts) : ClosedRuns ts := by
  obtain ⟨raw, last, pieces, -, hpieces, rfl⟩ := exists_pieces_of_finish hload h
  apply ClosedRuns.flatten
  intro p hp
  obtain ⟨r, hr, hcontributes⟩ := exists_of_forall₂ hpieces hp
  exact hcontributes.closedRuns hr rfl hload

/-- An imported file is loaded if it can be read and is tokenized with one level less. -/
theorem snd_loader_eq_ok_iff {t : Token} {path : Bytes} :
    (loader read limit left t path).2 = .ok ts ↔
      ∃ k contents, left = k + 1 ∧ read path = .ok contents ∧
        (tokenizeWithin read limit k path contents).2 = .ok ts := by
  cases left with
  | zero => simp [loader]
  | succ left =>
      cases hread : read path with
      | error e => simp [snd_loader_succ_error hread]
      | ok contents => simp [snd_loader_succ hread]

theorem closedRuns_tokenizeWithin
    (h : (tokenizeWithin read limit left file source).2 = .ok ts) : ClosedRuns ts := by
  induction left using Nat.strong_induction_on generalizing file source ts with
  | h left ih =>
      rw [tokenizeWithin_eq_finish] at h
      refine closedRuns_finish ?_ h
      rintro path ts ⟨t, hts⟩
      obtain ⟨k, contents, rfl, -, hts⟩ := snd_loader_eq_ok_iff.mp hts
      exact ih k (Nat.lt_succ_self k) hts

/-! What is tokenized with few levels left is tokenized alike with more. -/

theorem splice_mono {runs : List TokenRun}
    (hle : ∀ t path us, (load t path).2 = .ok us → (load' t path).2 = .ok us)
    (h : (splice load runs).2 = .ok ts) : (splice load' runs).2 = .ok ts := by
  induction runs generalizing ts with
  | nil => exact h
  | cons r rs ih =>
      rw [snd_splice_cons] at h
      obtain ⟨us, hus, h⟩ := bind_eq_ok_iff.mp h
      obtain ⟨more, hmore, h⟩ := bind_eq_ok_iff.mp h
      have hincluded : r.included load' = .ok us := by
        rw [TokenRun.included] at hus ⊢
        split at hus
        · exact hle _ _ us hus
        · exact hus
      rw [snd_splice_cons, hincluded, ok_bind, ih hmore]
      exact h

theorem finish_mono
    (hle : ∀ t path us, (load t path).2 = .ok us → (load' t path).2 = .ok us)
    (h : (tokenizeWithin.finish file source load).2 = .ok ts) :
    (tokenizeWithin.finish file source load').2 = .ok ts := by
  rw [snd_finish] at h ⊢
  obtain ⟨last, hlast, h⟩ := bind_eq_ok_iff.mp h
  obtain ⟨us, hus, h⟩ := bind_eq_ok_iff.mp h
  rw [hlast, ok_bind, splice_mono hle hus]
  exact h

theorem tokenizeWithin_mono (hle : left ≤ left')
    (h : (tokenizeWithin read limit left file source).2 = .ok ts) :
    (tokenizeWithin read limit left' file source).2 = .ok ts := by
  induction left using Nat.strong_induction_on generalizing left' file source ts with
  | h left ih =>
      rw [tokenizeWithin_eq_finish] at h ⊢
      refine finish_mono ?_ h
      intro t path us hus
      obtain ⟨k, contents, rfl, hread, hus⟩ := snd_loader_eq_ok_iff.mp hus
      exact snd_loader_eq_ok_iff.mpr
        ⟨left' - 1, contents, by omega, hread, ih k (Nat.lt_succ_self k) (by omega) hus⟩

end Depth

theorem word_ne_endOfFile (w : Bytes) : Scan.word w ≠ .endOfFile := by
  unfold Scan.word
  split_ifs <;> exact Lexeme.noConfusion

theorem ne_endOfFile_of_lexemeAt {b : UInt8} {r : Bytes} {l : Lexeme} {n : Nat}
    (h : Scan.lexemeAt b r = .ok (l, n)) : l ≠ .endOfFile := by
  rw [Scan.lexemeAt] at h
  split_ifs at h
  · obtain ⟨rfl, -⟩ := Prod.mk.inj (Except.ok.inj h)
    exact Lexeme.noConfusion
  · obtain ⟨-, hl⟩ := Scan.number_eq_ok h
    rw [Scan.NumberLexeme] at hl
    split at hl
    · obtain ⟨x, -, rfl⟩ := hl
      exact Lexeme.noConfusion
    · obtain ⟨k, -, rfl⟩ := hl
      exact Lexeme.noConfusion
  · obtain ⟨-, rfl⟩ := Scan.name_eq_ok h
    exact word_ne_endOfFile _
  · obtain ⟨u, rfl, -⟩ := Scan.string_eq_ok_iff.mp h
    exact Lexeme.noConfusion
  · obtain ⟨m, rfl, -⟩ := Scan.mark_eq_ok h
    exact Lexeme.noConfusion

theorem ne_endOfFile_of_scans {s : Bytes} {ls : List Lexeme} (h : Scan.Scans s ls) :
    ∀ l ∈ ls, l ≠ .endOfFile := by
  induction h with
  | done _ => simp
  | next _ hl _ ih => simpa using ⟨ne_endOfFile_of_lexemeAt hl, ih⟩

namespace Statement

variable {α β : Type} {close first : Token} {ts : List Token}

/-- A reading step that does not complain of an incomplete statement. -/
def Definite (x : Except Diagnostic α) : Prop :=
  ∀ d, x = .error d → d.message ≠ ShapeFault.incomplete.message

theorem Definite.ok (a : α) : Definite (.ok a) := by
  intro d hd
  cases hd

/-- The other complaints begin with another letter. -/
theorem message_ne_of_ne_incomplete {f : ShapeFault} (hf : f ≠ .incomplete) :
    f.message ≠ ShapeFault.incomplete.message := by
  intro heq
  have hhead : f.message.head? = some 0x69 := heq ▸ by decide
  cases f with
  | incomplete => exact hf rfl
  | unexpectedStart l =>
      rw [ShapeFault.message, List.append_assoc, List.head?_append_of_ne_nil _ (by decide)] at hhead
      exact absurd hhead (by decide)
  | expected k l =>
      rw [ShapeFault.message, List.append_assoc, List.append_assoc,
        List.head?_append_of_ne_nil _ (by decide)] at hhead
      exact absurd hhead (by decide)
  | expectedValue l =>
      rw [ShapeFault.message, List.head?_append_of_ne_nil _ (by decide)] at hhead
      exact absurd hhead (by decide)
  | expectedComparison l =>
      rw [ShapeFault.message, List.head?_append_of_ne_nil _ (by decide)] at hhead
      exact absurd hhead (by decide)

theorem Definite.refuse (t : Token) {f : ShapeFault} (hf : f ≠ .incomplete) :
    Definite (refuse t f : Except Diagnostic α) := by
  intro d hd
  obtain rfl := Except.error.inj hd
  exact message_ne_of_ne_incomplete hf

theorem Definite.bind {x : Except Diagnostic α} {f : α → Except Diagnostic β} (hx : Definite x)
    (hf : ∀ a, Definite (f a)) : Definite (x >>= f) := by
  intro d hd
  rcases bind_eq_error hd with hd | ⟨a, hd⟩
  · exact hx d hd
  · exact hf a d hd

theorem definite_expect (close : Token) (k : TokenKind) (ts : List Token) :
    Definite (expect close k ts) := by
  simp only [expect]
  split
  · exact Definite.ok _
  · exact Definite.refuse _ ShapeFault.noConfusion

theorem definite_takeName (close : Token) (ts : List Token) : Definite (takeName close ts) := by
  simp only [takeName]
  split
  · exact Definite.ok _
  · exact Definite.refuse _ ShapeFault.noConfusion

theorem definite_takeValue (close : Token) (ts : List Token) : Definite (takeValue close ts) := by
  simp only [takeValue]
  split
  · exact Definite.ok _
  · exact Definite.refuse _ ShapeFault.noConfusion

theorem definite_takeComparator (close : Token) (ts : List Token) :
    Definite (takeComparator close ts) := by
  simp only [takeComparator]
  split
  · exact Definite.ok _
  · exact Definite.refuse _ ShapeFault.noConfusion

theorem definite_takeEnd (close : Token) (ts : List Token) : Definite (takeEnd close ts) := by
  intro d hd
  exact definite_expect close _ ts d (map_eq_error_iff.mp hd)

theorem definite_takeValues (close : Token) (ts : List Token) :
    Definite (takeValues close ts) := by
  induction ts with
  | nil => exact Definite.ok _
  | cons t ts ih =>
      exact (definite_takeValue close _).bind fun _ => ih.bind fun _ => Definite.ok _

theorem definite_callTail (close : Token) (ts : List Token) : Definite (callTail close ts) :=
  (definite_expect close _ _).bind fun _ => (definite_takeName close _).bind fun _ =>
    (definite_expect close _ _).bind fun _ => (definite_takeName close _).bind fun _ =>
      (definite_takeValues close _).bind fun _ => Definite.ok _

theorem definite_parseGoto (close : Token) (ts : List Token) : Definite (parseGoto close ts) := by
  refine (definite_takeName close ts).bind ?_
  rintro ⟨label, rest⟩
  by_cases hempty : rest.isEmpty = true
  · simp only [hempty]
    exact Definite.ok _
  · simp only [hempty]
    exact (definite_expect close _ _).bind fun _ => (definite_takeValue close _).bind fun _ =>
      (definite_takeComparator close _).bind fun _ => (definite_takeValue close _).bind fun _ =>
        (definite_takeEnd close _).bind fun _ => Definite.ok _

theorem definite_parseAssign (close : Token) (name : Bytes) (ts : List Token) :
    Definite (parseAssign close name ts) := by
  refine (definite_expect close _ ts).bind ?_
  intro rest
  split
  · split
    · exact (definite_takeValue close _).bind fun _ => (definite_takeValue close _).bind fun _ =>
        (definite_takeEnd close _).bind fun _ => Definite.ok _
    · exact (definite_callTail close _).bind fun _ => Definite.ok _
  · exact (definite_takeValue close _).bind fun _ =>
      (definite_takeEnd close _).bind fun _ => Definite.ok _

theorem definite_ofTokens (close first : Token) (ts : List Token) :
    Definite (ofTokens close first ts) := by
  refine Definite.bind ?_ fun _ => Definite.ok _
  rw [parseAction]
  split
  · exact (definite_takeName close _).bind fun _ =>
      (definite_takeEnd close _).bind fun _ => Definite.ok _
  · exact (definite_callTail close _).bind fun _ => Definite.ok _
  · exact definite_parseGoto close ts
  · exact definite_parseAssign close _ ts
  · exact (definite_takeName close _).bind fun _ =>
      (definite_takeEnd close _).bind fun _ => Definite.ok _
  · exact (definite_takeEnd close _).bind fun _ => Definite.ok _
  · exact Definite.refuse _ ShapeFault.noConfusion

end Statement

/-- Where every statement is closed, none is incomplete. -/
theorem ClosedRuns.definite_parse {ts : List Token} (h : ClosedRuns ts) :
    Statement.Definite (parse ts) := by
  induction h with
  | nil =>
      rw [parse]
      exact Statement.Definite.ok _
  | @cons body rest close hbody hne hclose _ ih =>
      obtain ⟨first, body, rfl⟩ := List.exists_cons_of_ne_nil hne
      rw [parse_closed hbody hclose]
      exact (Statement.definite_ofTokens close first body).bind fun _ =>
        ih.bind fun _ => Statement.Definite.ok _

/-- What tokenizing gives is in normal form and loses no statement: it is made of what the runs of
the source that are not empty contribute, in order, an import contributing what tokenizing its file
gives.  Parsing it never finds a statement incomplete. -/
theorem tokenize_gives_closed_statements (read : FileReader) (limit : Nat) (file source : Bytes)
    (ts : List Token) (h : (tokenize read limit file source).2 = .ok ts) :
    NormalForm ts ∧
    (∃ raw last pieces, scan file source = (raw, .ok last) ∧
      List.Forall₂
        (TokenRun.Contributes (FileOutput read limit) { last with lexeme := .endOfStatement })
        (TokenRun.nonempty raw) pieces ∧
      ts = pieces.flatten) ∧
    ∀ d, parse ts = .error d → d.message ≠ text "incomplete statement" := by
  have hclosed : ClosedRuns ts := closedRuns_tokenizeWithin h
  have hfile : ∀ t ∈ ts, t.lexeme ≠ .endOfFile :=
    tokenizeWithin_forall Lexeme.noConfusion (fun _ _ => ne_endOfFile_of_scans) h
  refine ⟨hclosed.normalForm hfile, ?_, hclosed.definite_parse⟩
  rw [tokenize, tokenizeWithin_eq_finish] at h
  have hload : ∀ path us, LoaderOutput (loader read limit limit) path us → ClosedRuns us := by
    rintro path us ⟨t, hus⟩
    obtain ⟨k, contents, -, -, hus⟩ := snd_loader_eq_ok_iff.mp hus
    exact closedRuns_tokenizeWithin hus
  obtain ⟨raw, last, pieces, hscan, hpieces, rfl⟩ := exists_pieces_of_finish hload h
  refine ⟨raw, last, pieces, hscan, hpieces.imp ?_, rfl⟩
  intro r piece hpiece
  refine hpiece.mono ?_
  rintro path us ⟨t, hus⟩
  obtain ⟨k, contents, hk, hread, hus⟩ := snd_loader_eq_ok_iff.mp hus
  exact ⟨contents, hread, tokenizeWithin_mono (by omega) hus⟩

/-- Empty statements, an import that ends in two ends of statement, an import of an empty file, and
a statement that the end of the file closes. -/
theorem tokenize_gives_closed_statements_twoImports :
    let read : FileReader := fun path =>
      .ok (if path = text "lib" then text "# c\nx = 1 ; ;" else [])
    let source := text ";\nimport \"lib\"\n\nimport \"none\"\nret"
    let line := text "x = 1 ; ;"
    let ts : List Token :=
      [⟨.identifier (text "x"), 2, 1, 4, 1, text "lib", line⟩,
        ⟨.mark .equals, 2, 3, 6, 1, text "lib", line⟩, ⟨.int 1, 2, 5, 8, 1, text "lib", line⟩,
        ⟨.endOfStatement, 2, 7, 10, 1, text "lib", line⟩,
        ⟨.mark .retWord, 5, 1, 30, 3, text "main", text "ret"⟩,
        ⟨.endOfStatement, 5, 4, 33, 0, text "main", text "ret"⟩]
    (tokenize read 1 (text "main") source).2 = .ok ts ∧ NormalForm ts ∧
    (∃ raw last pieces, scan (text "main") source = (raw, .ok last) ∧
      List.Forall₂
        (TokenRun.Contributes (FileOutput read 1) { last with lexeme := .endOfStatement })
        (TokenRun.nonempty raw) pieces ∧
      ts = pieces.flatten) ∧
    ∀ d, parse ts = .error d → d.message ≠ text "incomplete statement" := by
  intro read source line ts
  have htokens : (tokenize read 1 (text "main") source).2 = .ok ts := by decide +kernel
  exact ⟨htokens, tokenize_gives_closed_statements read 1 (text "main") source ts htokens⟩

end JumpScript
