import JumpScript.Proofs.Token.Lines
import JumpScript.Proofs.Token.NormalForm

/-!
# Spans of statements

A statement spans the bytes from its first token to the end of the last of its tokens that begin on
the same line.  All its tokens were scanned in one file of the tree of imports.  The span stays
within the text of that line unless the last token is a string that goes on over the end of the
line: then all of the string counts, and the span runs past the text.
-/

namespace JumpScript

section Runs

variable {read : FileReader} {limit left : Nat} {file source : Bytes} {ts us : List Token}
  {body : List Token} {close : Token}

/-- A closed run of closed statements and what follows them is one of either. -/
theorem ClosedRuns.mem_cut_append {r : TokenRun} (h : ClosedRuns ts)
    (hr : r ∈ TokenRun.cut (ts ++ us)) : r ∈ TokenRun.cut ts ∨ r ∈ TokenRun.cut us := by
  induction h with
  | nil => exact Or.inr hr
  | cons hbody _ hclose _ ih =>
      rw [List.append_assoc, List.cons_append, TokenRun.cut_closed hbody hclose] at hr
      rw [TokenRun.cut_closed hbody hclose]
      rcases List.mem_cons.mp hr with rfl | hr
      · exact Or.inl List.mem_cons_self
      · exact (ih hr).imp_left (List.mem_cons_of_mem _)

theorem exists_piece_of_mem_cut {pieces : List (List Token)} {first : Token}
    (hclosed : ∀ p ∈ pieces, ClosedRuns p)
    (hr : ⟨first :: body, some close⟩ ∈ TokenRun.cut pieces.flatten) :
    ∃ p ∈ pieces, ⟨first :: body, some close⟩ ∈ TokenRun.cut p := by
  induction pieces with
  | nil => simp [TokenRun.cut] at hr
  | cons p pieces ih =>
      obtain ⟨hp, hpieces⟩ := List.forall_mem_cons.mp hclosed
      rw [List.flatten_cons] at hr
      rcases hp.mem_cut_append hr with hr | hr
      · exact ⟨p, List.mem_cons_self, hr⟩
      · obtain ⟨q, hq, hr⟩ := ih hpieces hr
        exact ⟨q, List.mem_cons_of_mem p hq, hr⟩

/-- The tokens of a statement are those of a run of one file. -/
theorem exists_file_of_mem_cut {first : Token}
    (h : (tokenizeWithin read limit left file source).2 = .ok ts)
    (hr : ⟨first :: body, some close⟩ ∈ TokenRun.cut ts) :
    ∃ depth f, InTree read ⟨file, source⟩ depth f ∧ f.Scannable ∧
      ∃ r ∈ f.runs, r.body = first :: body := by
  induction left using Nat.strong_induction_on generalizing file source ts with
  | h left ih =>
      rw [tokenizeWithin_eq_finish] at h
      have hload : ∀ path us, LoaderOutput (loader read limit left) path us → ClosedRuns us := by
        rintro path us ⟨t, hus⟩
        obtain ⟨k, contents, -, -, hus⟩ := snd_loader_eq_ok_iff.mp hus
        exact closedRuns_tokenizeWithin hus
      obtain ⟨raw, last, pieces, hscan, hpieces, rfl⟩ := exists_pieces_of_finish hload h
      have hclosed : ∀ p ∈ pieces, ClosedRuns p := by
        intro p hp
        obtain ⟨r, hr, hcontributes⟩ := exists_of_forall₂ hpieces hp
        exact hcontributes.closedRuns hr rfl hload
      obtain ⟨p, hp, hr⟩ := exists_piece_of_mem_cut hclosed hr
      obtain ⟨r, hmem, hcontributes⟩ := exists_of_forall₂ hpieces hp
      obtain ⟨hmem, -⟩ := List.mem_filter.mp hmem
      have hruns : r ∈ SourceFile.runs ⟨file, source⟩ := by
        rw [SourceFile.runs, hscan]
        exact hmem
      cases hcontributes with
      | statement _ =>
          obtain ⟨hbody, hclose⟩ := TokenRun.unclosed_of_mem_cut hmem
          have hend : (r.close.getD { last with lexeme := .endOfStatement }).isEnd = true := by
            cases hrclose : r.close with
            | none => rfl
            | some close => exact hclose close hrclose
          rw [TokenRun.cut_closed hbody hend, TokenRun.cut, List.mem_pair] at hr
          obtain heq | heq := hr
          · have hscannable : SourceFile.Scannable ⟨file, source⟩ := ⟨last, by rw [hscan]⟩
            exact ⟨0, _, InTree.root, hscannable, r, hruns, (TokenRun.mk.inj heq).1.symm⟩
          · cases heq
      | file himport houtput =>
          obtain ⟨t, hus⟩ := houtput
          obtain ⟨k, contents, rfl, hread, hus⟩ := snd_loader_eq_ok_iff.mp hus
          obtain ⟨depth, f, hf, hscannable, hbody⟩ := ih k (Nat.lt_succ_self k) hus hr
          have hpath := SourceFile.mem_imports.mpr ⟨r, hruns, _, himport⟩
          exact ⟨depth + 1, f, inTree_succ_iff.mpr ⟨_, hpath, contents, hread, hf⟩, hscannable,
            hbody⟩

end Runs

theorem takeWhile_eq_filter {α : Type} {p : α → Bool} {l : List α}
    (h : l.Pairwise fun a b => p b = true → p a = true) : l.takeWhile p = l.filter p := by
  induction l with
  | nil => rfl
  | cons a l ih =>
      obtain ⟨ha, hl⟩ := List.pairwise_cons.mp h
      by_cases hpa : p a = true
      · rw [List.takeWhile_cons_of_pos hpa, List.filter_cons_of_pos hpa, ih hl]
      · rw [List.takeWhile_cons_of_neg hpa, List.filter_cons_of_neg hpa, List.filter_eq_nil_iff.mpr]
        exact fun b hb hpb => hpa (ha b hb hpb)

namespace Statement

/-- A statement of a file spans its tokens on the line of the first one.  The last of these ends the
span, which stays within the text of the line unless that token is a string that goes on over the
end of the line. -/
structure Spans (f : SourceFile) (body : List Token) (last : Token) (st : Statement) : Prop where
  file_eq : st.head.file = f.path
  scanned : ∀ t ∈ st.head :: body, t ∈ (scan f.path f.contents).1
  placed : st.head.Placed f.contents
  last_eq : ((st.head :: body).filter (·.line == st.head.line)).getLast? = some last
  stop_eq : st.head.offset + st.width = last.stop
  fits_iff : st.head.column - 1 + st.width ≤ st.head.context.length ↔ 0x0A ∉ last.bytes f.contents
  string : 0x0A ∈ last.bytes f.contents → ∃ said, last.lexeme = .string said

/-- Tokens that stand one after another end on a line where the last one of them does that begins
on it. -/
theorem spanEnd_eq {source : Bytes} {first : Token} {body : List Token}
    (hplaced : ∀ t ∈ first :: body, t.Placed source)
    (horder : (first :: body).Pairwise fun t u => t.offset + t.width ≤ u.offset) :
    ∃ last, ((first :: body).filter (·.line == first.line)).getLast? = some last ∧
      spanEnd first body = last.stop := by
  obtain ⟨hfirst, hbody⟩ := List.forall_mem_cons.mp hplaced
  obtain ⟨hafter, horder⟩ := List.pairwise_cons.mp horder
  have hlines : body.Pairwise fun t u =>
      (u.line == first.line) = true → (t.line == first.line) = true := by
    refine horder.imp_of_mem fun {t u} ht hu hle hline => ?_
    -- the line of a token is between those of its neighbours
    have hge := hfirst.line_mono (hbody t ht) (by have := hafter t ht; omega)
    have hle' := (hbody t ht).line_mono (hbody u hu) (by omega)
    rw [beq_iff_eq] at hline ⊢
    omega
  refine ⟨(body.filter (·.line == first.line)).getLastD first, ?_, ?_⟩
  · rw [List.filter_cons_of_pos (by exact beq_self_eq_true first.line), List.getLast?_cons,
      List.getLastD_eq_getLast?]
  · rw [spanEnd, takeWhile_eq_filter hlines]
    rfl

end Statement

/-- Statements span bytes of one line, except for strings over the end of that line.  Every
statement of a program is made of a run of tokens of one file of the tree of imports, and its span
goes from its first token to the end of the last one that begins on the same line.  That is within
the text of the line, as its diagnostics quote it, exactly when no newline stands in the last token;
only a string can have one. -/
theorem statements_span_line_unless_string_goes_on (read : FileReader) (limit : Nat)
    (file source : Bytes) (ts : List Token) (program : List Statement)
    (htokens : (tokenize read limit file source).2 = .ok ts) (hparse : parse ts = .ok program) :
    ∀ st ∈ program, ∃ depth f body close last, InTree read ⟨file, source⟩ depth f ∧
      ⟨st.head :: body, some close⟩ ∈ TokenRun.cut ts ∧ st.Spans f body last := by
  intro st hst
  obtain ⟨body, close, hrun, hwidth⟩ := exists_run_of_parse hparse hst
  obtain ⟨depth, f, hf, hscannable, r, hr, hbody⟩ := exists_file_of_mem_cut htokens hrun
  obtain ⟨eof, hcovers⟩ := hscannable.covers
  have hsublist := SourceFile.sublist_of_mem_runs hr
  rw [hbody] at hsublist
  have hscanned : ∀ t ∈ st.head :: body, t ∈ (scan f.path f.contents).1 := fun t ht =>
    hsublist.subset ht
  have hplaced : ∀ t ∈ st.head :: body, t.Placed f.contents := fun t ht =>
    hcovers.placed t (List.mem_append_left _ (hscanned t ht))
  have horder := (List.pairwise_append.mp hcovers.pairwise).1.sublist hsublist
  obtain ⟨last, hlast, hspan⟩ := Statement.spanEnd_eq hplaced horder
  obtain ⟨hmem, hline⟩ := List.mem_filter.mp (List.mem_of_getLast? hlast)
  have hle : st.head.offset ≤ last.offset := by
    rcases List.mem_cons.mp hmem with rfl | hmem
    · exact Nat.le_refl _
    · exact (Nat.le_add_right _ _).trans ((List.pairwise_cons.mp horder).1 last hmem)
  have hlexed : last.Lexed f.contents := (Cursor.at_start f.contents).lexed (hscanned last hmem)
  have hopen : last.isEnd = false := by
    refine (TokenRun.unclosed_of_mem_cut hr).1 last ?_
    rwa [hbody]
  have hhead := hplaced st.head List.mem_cons_self
  have hstop : last.offset ≤ last.stop := Nat.le_add_right _ _
  rw [hspan] at hwidth
  refine ⟨depth, f, body, close, last, hf, hrun, file_of_mem_tokens (hscanned _ List.mem_cons_self),
    hscanned, hhead, hlast, by omega, ?_, (hlexed.ended hopen).newline⟩
  rw [hwidth]
  exact hhead.fits_iff (hplaced last hmem) hlexed hopen hle (eq_of_beq hline)

/-- An imported statement, and one with a string over two lines and more after it. -/
theorem statements_span_line_unless_string_goes_on_twoLines :
    let read : FileReader := fun path =>
      if path = text "lib" then .ok (text " y = 1 # one\n")
      else .error ⟨.opening, path, .notFound⟩
    let source := text "import \"lib\"\nx = \"a\nb\" + y\n"
    ∃ ts program, (tokenize read 1 (text "main") source).2 = .ok ts ∧ parse ts = .ok program ∧
      program.map (·.width) = [5, 9] ∧
      ∀ st ∈ program, ∃ depth f body close last, InTree read ⟨text "main", source⟩ depth f ∧
        ⟨st.head :: body, some close⟩ ∈ TokenRun.cut ts ∧ st.Spans f body last := by
  intro read source
  have hwidths : ((tokenize read 1 (text "main") source).2 >>= parse).map
      (fun program => program.map (·.width)) = .ok [5, 9] := by decide +kernel
  obtain ⟨program, hprogram, hwidths⟩ := map_eq_ok_iff.mp hwidths
  obtain ⟨ts, htokens, hparse⟩ := bind_eq_ok_iff.mp hprogram
  exact ⟨ts, program, htokens, hparse, hwidths,
    statements_span_line_unless_string_goes_on read 1 (text "main") source ts program htokens
      hparse⟩

/-- The span of a statement that ends in a string over two lines runs past its line. -/
theorem not_statements_always_span_line :
    ¬ ∀ (read : FileReader) (limit : Nat) (file source : Bytes) (ts : List Token)
      (program : List Statement), (tokenize read limit file source).2 = .ok ts →
      parse ts = .ok program →
      ∀ st ∈ program, st.head.column - 1 + st.width ≤ st.head.context.length := by
  intro h
  let read : FileReader := fun path => .error ⟨.opening, path, .notFound⟩
  have hplaces : ((tokenize read 1 (text "main") (text "x = \"a\nb\"")).2 >>= parse).map
      (fun program => program.map fun st => (st.head.column, st.width, st.head.context.length))
      = .ok [(1, 9, 6)] := by decide +kernel
  obtain ⟨program, hprogram, hplaces⟩ := map_eq_ok_iff.mp hplaces
  obtain ⟨ts, htokens, hparse⟩ := bind_eq_ok_iff.mp hprogram
  obtain ⟨st, rfl, hst⟩ := List.map_eq_singleton_iff.mp hplaces
  simp only [Prod.mk.injEq] at hst
  have hfits := h read 1 _ _ ts [st] htokens hparse st List.mem_cons_self
  omega

end JumpScript
