import JumpScript.Proofs.Token.ImportTree
import JumpScript.Proofs.Token.Places

/-!
# Places of faults

A scanning error is found at some distance from where its lexeme began, and the diagnostic adds that
distance to the offset and to the column of the beginning.  That is the place of the fault as long
as no newline stands in between.  Numbers and names have none, so only a string can have one: a bad
escape after a newline is reported on the line of the opening quote.

The failures of a whole tree of imports are those of its files, each reported under the path of the
file that it stands in.
-/

namespace JumpScript

/-- The bytes that a scanning fault is about. -/
def ScanFault.offender : ScanFault → Bytes
  | .unexpected b | .unexpectedInNumber b | .unexpectedInName b => [b]
  | .secondPoint => [0x2E]
  | .badFloat numeral | .intOutOfRange numeral => numeral
  | .unterminatedString => [0x22]
  | .badEscape b => [0x5C, b]

/-- A scanning error says where in a text the bytes of its fault stand, and only in a string it
stands on another line than the text begins on. -/
structure ScanError.Spots (s : Bytes) (e : ScanError) : Prop where
  offender : e.fault.offender <+: s.drop e.distance
  offender_ne_nil : e.fault.offender ≠ []
  width : e.width = e.fault.offender.length
  oneLine : 0x0A ∉ s.take e.distance ∨
    ∃ r c, s = 0x22 :: r ∧ e.fault = .badEscape c ∧ Scan.string r = .error e

theorem ScanError.Spots.distance_lt {s : Bytes} {e : ScanError} (h : e.Spots s) :
    e.distance < s.length := by
  by_contra hge
  have hprefix := h.offender
  rw [List.drop_eq_nil_of_le (Nat.not_lt.mp hge), List.prefix_nil] at hprefix
  exact h.offender_ne_nil hprefix

namespace Scan

variable {b c : UInt8} {r : Bytes} {e : ScanError}

/-- A text without newlines and carriage returns. -/
def Unbroken (s : Bytes) : Prop := ∀ c ∈ s, c ≠ 0x0A ∧ c ≠ 0x0D

theorem unbroken_cons (hb : b ≠ 0x0A ∧ b ≠ 0x0D) (hr : Unbroken r) : Unbroken (b :: r) :=
  List.forall_mem_cons.mpr ⟨hb, hr⟩

theorem isDigit_unbroken (h : Bytes.isDigit b = true) : b ≠ 0x0A ∧ b ≠ 0x0D :=
  ⟨Numeral.isDigit_ne h (by decide), Numeral.isDigit_ne h (by decide)⟩

theorem unbroken_take_numberSpan (pointSeen : Bool) (r : Bytes) :
    Unbroken (r.take (numberSpan pointSeen r).length) := by
  induction r generalizing pointSeen with
  | nil => simp [Unbroken]
  | cons c r ih =>
      rw [numberSpan]
      split
      next hdigit => exact unbroken_cons (isDigit_unbroken hdigit) (ih pointSeen)
      next =>
        split
        next => simp [Unbroken]
        next hpoint =>
          split
          next => simp [Unbroken]
          next =>
            rw [Bool.or_eq_true, not_or, bne_iff_ne, not_not] at hpoint
            exact unbroken_cons (hpoint.1 ▸ by decide) (ih true)

theorem newline_not_mem_numberSpan (pointSeen : Bool) (r : Bytes) :
    0x0A ∉ r.take (numberSpan pointSeen r).length :=
  fun hmem => absurd rfl (unbroken_take_numberSpan pointSeen r _ hmem).1

theorem point_of_secondPoint {pointSeen : Bool}
    (h : (numberSpan pointSeen r).secondPoint = true) :
    [0x2E] <+: r.drop (numberSpan pointSeen r).length := by
  induction r generalizing pointSeen with
  | nil => cases h
  | cons c r ih =>
      rw [numberSpan] at h ⊢
      split at h
      · rename_i hdigit
        rw [if_pos hdigit]
        exact ih h
      · rename_i hdigit
        rw [if_neg hdigit]
        split at h
        · cases h
        · rename_i hpoint
          rw [if_neg hpoint]
          split at h
          · rename_i hseen
            rw [Bool.or_eq_true, not_or, bne_iff_ne, not_not] at hpoint
            rw [if_pos hseen, hpoint.1]
            exact ⟨r, rfl⟩
          · rename_i hseen
            rw [if_neg hseen]
            exact ih h

theorem prefix_of_head? {s : Bytes} (h : s.head?.filter (!isBoundary ·) = some c) : [c] <+: s := by
  obtain ⟨hhead, -⟩ := Option.filter_eq_some_iff.mp h
  obtain ⟨s, rfl⟩ := List.head?_eq_some_iff.mp hhead
  exact ⟨s, rfl⟩

theorem spots_of_number (hb : b ≠ 0x0A) (h : number b r = .error e) : e.Spots (b :: r) := by
  have hline : 0x0A ∉ (b :: r).take ((numberSpan false r).length + 1) := by
    rw [List.take_succ_cons, List.mem_cons, not_or]
    exact ⟨hb.symm, newline_not_mem_numberSpan false r⟩
  have hnumeral : b :: r.take (numberSpan false r).length <+: b :: r :=
    List.cons_prefix_cons.mpr ⟨rfl, List.take_prefix _ _⟩
  revert h
  fun_cases number b r <;> intro h <;> cases h
  case case1 hsecond => exact ⟨point_of_secondPoint hsecond, List.cons_ne_nil _ _, rfl, .inl hline⟩
  case case2 hc => exact ⟨prefix_of_head? hc, List.cons_ne_nil _ _, rfl, .inl hline⟩
  case case4 => exact ⟨hnumeral, List.cons_ne_nil _ _, rfl, .inl List.not_mem_nil⟩
  case case6 => exact ⟨hnumeral, List.cons_ne_nil _ _, rfl, .inl List.not_mem_nil⟩

theorem spots_of_name (hb : b ≠ 0x0A) (h : name b r = .error e) : e.Spots (b :: r) := by
  let tail := r.takeWhile isNamePart
  have hsplit : (b :: tail) ++ r.dropWhile isNamePart = b :: r :=
    congrArg (b :: ·) List.takeWhile_append_dropWhile
  have hdrop : (b :: r).drop (tail.length + 1) = r.dropWhile isNamePart := by
    rw [← hsplit]
    exact List.drop_left' rfl
  have hline : 0x0A ∉ (b :: r).take (tail.length + 1) := by
    have htake : (b :: r).take (tail.length + 1) = b :: tail := by
      rw [← hsplit]
      exact List.take_left' rfl
    rw [htake, List.mem_cons, not_or]
    refine ⟨hb.symm, fun hmem => ?_⟩
    exact absurd (List.mem_takeWhile_imp hmem) (by decide)
  revert h
  fun_cases name b r <;> intro h <;> cases h
  case case1 c hc =>
    refine ⟨?_, List.cons_ne_nil _ _, rfl, .inl hline⟩
    rw [hdrop]
    exact prefix_of_head? hc

theorem shift_eq_error {n d : Nat} {x : Except (Option (Nat × UInt8)) (Bytes × Nat)}
    (h : stringBody.shift b n x = .error (some (d, c))) :
    ∃ k, x = .error (some (k, c)) ∧ d = k + n := by
  revert h
  fun_cases stringBody.shift b n x <;> intro h <;> cases h
  exact ⟨_, rfl, rfl⟩

theorem escape_of_stringBody {d : Nat} (h : stringBody r = .error (some (d, c))) :
    [0x5C, c] <+: r.drop d := by
  fun_induction stringBody r generalizing d with
  | case1 => cases h
  | case2 => cases h
  | case3 => cases h
  | case4 e r he =>
      cases h
      exact ⟨r, rfl⟩
  | case5 e r b he ih =>
      obtain ⟨k, hx, rfl⟩ := shift_eq_error h
      exact ih hx
  | case6 c r hquote hone hslash ih =>
      obtain ⟨k, hx, rfl⟩ := shift_eq_error h
      exact ih hx

theorem spots_of_string (h : string r = .error e) : e.Spots (0x22 :: r) := by
  have hagain := h
  revert h
  fun_cases string r <;> intro h <;> cases h
  case case2 =>
    exact ⟨⟨r, rfl⟩, List.cons_ne_nil _ _, rfl, .inl List.not_mem_nil⟩
  case case3 d c hbody =>
    have hescape : [0x5C, c] <+: r.drop d := escape_of_stringBody hbody
    exact ⟨hescape, List.cons_ne_nil _ _, rfl, .inr ⟨r, c, rfl, rfl, hagain⟩⟩

theorem spots_of_mark (h : mark b r = .error e) : e.Spots (b :: r) := by
  revert h
  fun_cases mark b r <;> intro h <;> cases h
  case case3 => exact ⟨⟨r, rfl⟩, List.cons_ne_nil _ _, rfl, .inl List.not_mem_nil⟩

/-- Where no lexeme is, the bytes that the fault is about stand where the error says. -/
theorem spots_of_lexemeAt (h : lexemeAt b r = .error e) : e.Spots (b :: r) := by
  revert h
  fun_cases lexemeAt b r <;> intro h
  case case1 => cases h
  case case2 hend _ => exact spots_of_number (by rintro rfl; exact hend rfl) h
  case case3 hend _ _ => exact spots_of_name (by rintro rfl; exact hend rfl) h
  case case4 hquote => exact eq_of_beq hquote ▸ spots_of_string h
  case case5 => exact spots_of_mark h

end Scan

namespace Diagnostic

/-- The line and the line text of a diagnostic are those of a place in a source, and its column
counts from the start of that line. -/
structure OnLineOf (source : Bytes) (place : Nat) (d : Diagnostic) : Prop where
  line_eq : d.line = 1 + (source.take place).count 0x0A
  column_eq : d.column = d.offset - lineStart source place + 1
  context_eq : d.context = lineText (source.drop (lineStart source place))

/-- The line, the column and the line text of a diagnostic are those of its offset. -/
def Placed (source : Bytes) (d : Diagnostic) : Prop :=
  ∃ offset : Nat, offset ≤ source.length ∧ d.offset = offset ∧ d.OnLineOf source offset

/-- A diagnostic reports a scanning fault whose bytes stand at an offset of a source. -/
structure Reports (source : Bytes) (offset : Nat) (fault : ScanFault) (d : Diagnostic) : Prop where
  offset_eq : d.offset = offset
  offender : fault.offender <+: source.drop offset
  width_eq : d.width = fault.offender.length
  message_eq : d.message = fault.message
  cause_eq : d.cause = none

/-- A diagnostic reports a bad escape of a string that began on an earlier line: it takes the line
and the line text from the opening quote. -/
def LeftBehind (source : Bytes) (offset : Nat) (fault : ScanFault) (d : Diagnostic) : Prop :=
  ∃ quote r c, quote < offset ∧ source.drop quote = 0x22 :: r ∧
    Scan.string r = .error ⟨offset - quote, 2, .badEscape c⟩ ∧ fault = .badEscape c ∧
    0x0A ∈ source.extract quote offset ∧ d.OnLineOf source quote

end Diagnostic

namespace Token

theorem Placed.diagnostic {source : Bytes} {t : Token} (h : t.Placed source)
    (hoffset : t.offset ≤ source.length) (stage : Stage) (message : Bytes) (cause : Option Fault) :
    (t.diagnostic stage message cause).Placed source := by
  refine ⟨t.offset, hoffset, rfl, ?_, ?_, h.context_eq⟩
  · exact congrArg Int.ofNat h.line_eq
  · have hle := lineStart_le source t.offset
    have hcolumn := h.column_eq
    change (t.column : Int) = t.offset - lineStart source t.offset + 1
    omega

end Token

namespace Cursor

variable {source : Bytes} {c : Cursor} {file : Bytes} {e : ScanError} {d : Diagnostic}

/-- As long as no newline is passed, only the offset and the column count on. -/
theorem pass_of_newline_not_mem {n : Nat} (hn : n ≤ c.rest.length) (hline : 0x0A ∉ c.rest.take n) :
    c.pass n = ⟨c.rest.drop n, c.offset + n, c.line, c.column + n, c.context⟩ := by
  induction n generalizing c with
  | zero => rfl
  | succ n ih =>
      cases hrest : c.rest with
      | nil =>
          rw [hrest] at hn
          cases hn
      | cons b r =>
          rw [hrest, List.take_succ_cons, List.mem_cons, not_or] at hline
          rw [hrest] at hn
          have hb : b ≠ 0x0A := fun h => hline.1 h.symm
          have hstep : c.step = ⟨r, c.offset + 1, c.line, c.column + 1, c.context⟩ := by
            rw [step, hrest]
            simp only [beq_iff_eq, hb, if_false]
          rw [pass, hstep, ih (Nat.le_of_succ_le_succ hn) hline.2, Nat.add_assoc, Nat.add_assoc,
            Nat.add_comm 1 n]
          rfl

theorem At.onLineOf (h : c.At source) (file : Bytes) (e : ScanError) :
    (c.diagnostic file e).OnLineOf source c.offset := by
  refine ⟨?_, ?_, h.context_eq⟩
  · exact congrArg Int.ofNat h.line_eq
  · have hle := lineStart_le source c.offset
    have hcolumn := h.column_eq
    change ((c.column + e.distance : Nat) : Int)
      = ((c.offset + e.distance : Nat) : Int) - lineStart source c.offset + 1
    omega

theorem At.reports (h : c.At source) (he : e.Spots c.rest) (file : Bytes) :
    (c.diagnostic file e).Reports source (c.offset + e.distance) e.fault := by
  refine ⟨rfl, ?_, congrArg Int.ofNat he.width, rfl, rfl⟩
  rw [← List.drop_drop, ← h.rest_eq]
  exact he.offender

/-- A fault on the line where its lexeme began is placed there. -/
theorem At.placed_or_leftBehind (h : c.At source) (he : e.Spots c.rest) (file : Bytes) :
    (c.diagnostic file e).Placed source ∨
      (c.diagnostic file e).LeftBehind source (c.offset + e.distance) e.fault := by
  have hlt := he.distance_lt
  by_cases hline : 0x0A ∈ c.rest.take e.distance
  · right
    obtain hnot | ⟨r, x, hrest, hfault, hstring⟩ := he.oneLine
    · exact absurd hline hnot
    · have hne : e.distance ≠ 0 := by
        intro hzero
        rw [hzero] at hline
        cases hline
      have he' : e = ⟨c.offset + e.distance - c.offset, 2, .badEscape x⟩ := by
        have hwidth := he.width
        rw [hfault] at hwidth
        rw [Nat.add_sub_cancel_left, ← hfault]
        exact congrArg (ScanError.mk e.distance · e.fault) hwidth
      refine ⟨c.offset, r, x, by omega, h.rest_eq.symm.trans hrest, he' ▸ hstring, hfault, ?_,
        h.onLineOf file e⟩
      rw [List.extract_eq_take_drop, Nat.add_sub_cancel_left, ← h.rest_eq]
      exact hline
  · left
    have hpass := h.pass e.distance
    rw [pass_of_newline_not_mem (Nat.le_of_lt hlt) hline] at hpass
    exact ⟨_, hpass.offset_le, rfl, hpass.onLineOf file ⟨0, e.width, e.fault⟩⟩

end Cursor

/-- A diagnostic reports a scanning fault of a file: it is placed at the bytes of the fault, or left
behind on the line where their string began. -/
def SourceFile.Faulty (f : SourceFile) (d : Diagnostic) : Prop :=
  ∃ offset fault, d.Reports f.contents offset fault ∧
    (d.Placed f.contents ∨ d.LeftBehind f.contents offset fault)

/-- A diagnostic reports an import of a file at the path literal: the import lies too deep, or what
it names cannot be read. -/
def SourceFile.Stuck (read : FileReader) (limit : Nat) (deepest : Bool) (f : SourceFile)
    (d : Diagnostic) : Prop :=
  ∃ r ∈ f.runs, ∃ t path, r.import? = some (t, path) ∧ t ∈ (scan f.path f.contents).1 ∧
    d.Placed f.contents ∧
    if deepest then d = nestingDiagnostic limit t path
    else ∃ e, read path = .error e ∧ d = importDiagnostic t path e

section Failures

variable {source file : Bytes} {d : Diagnostic} {t : Token}

theorem faulty_of_tokens {c : Cursor} {ts : List Token} (h : c.At source)
    (htokens : c.tokens file = (ts, .error d)) :
    d.file = file ∧ SourceFile.Faulty ⟨file, source⟩ d := by
  induction ts generalizing c with
  | nil =>
      obtain ⟨b, r, e, hrest, he, rfl⟩ := Cursor.fault_of_tokens htokens
      have hspots : e.Spots c.skip.rest := hrest ▸ Scan.spots_of_lexemeAt he
      exact ⟨rfl, _, e.fault, h.skip.reports hspots file, h.skip.placed_or_leftBehind hspots file⟩
  | cons t ts ih =>
      obtain ⟨b, r, l, n, -, -, -, hmore⟩ := Cursor.first_of_tokens htokens
      exact ih (h.skip.pass _) hmore

theorem file_of_mem_tokens {c : Cursor} (ht : t ∈ (c.tokens file).1) : t.file = file := by
  fun_induction Cursor.tokens file c with
  | case1 => cases ht
  | case2 => cases ht
  | case3 c b r hrest l n hl hlt ts stop hmore ih =>
      rw [hmore] at ih
      rcases List.mem_cons.mp ht with rfl | ht
      · rfl
      · exact ih ht

theorem TokenRun.mem_body_of_import? {r : TokenRun} {path : Bytes}
    (h : r.import? = some (t, path)) : t ∈ r.body := by
  revert h
  fun_cases TokenRun.import? r <;> intro h
  case case1 a b hbody word path' hb ha hword =>
    obtain ⟨rfl, -⟩ := Prod.mk.inj (Option.some.inj h)
    rw [hbody]
    exact List.mem_cons_of_mem _ List.mem_cons_self
  all_goals cases h

/-- The tokens of a run stand one after another in its file. -/
theorem SourceFile.sublist_of_mem_runs {f : SourceFile} {r : TokenRun} (hr : r ∈ f.runs) :
    r.body.Sublist (scan f.path f.contents).1 := by
  have hrun : r.tokens.Sublist
      ((TokenRun.cut (scan f.path f.contents).1).flatMap TokenRun.tokens) :=
    List.sublist_flatten_of_mem (List.mem_map_of_mem hr)
  rw [TokenRun.flatMap_tokens_cut] at hrun
  exact (List.sublist_append_left _ _).trans hrun

theorem SourceFile.mem_scan_of_mem_runs {f : SourceFile} {r : TokenRun} (hr : r ∈ f.runs)
    (ht : t ∈ r.body) : t ∈ (scan f.path f.contents).1 :=
  (SourceFile.sublist_of_mem_runs hr).subset ht

theorem SourceFile.Scannable.covers {f : SourceFile} (hf : f.Scannable) :
    ∃ last, Covers f.contents 0 (scan f.path f.contents).1 last := by
  obtain ⟨last, hlast⟩ := hf
  exact ⟨last, (Cursor.at_start f.contents).covers (Prod.ext rfl hlast)⟩

/-- What is reported at a token of a file that scans is placed there. -/
theorem SourceFile.Scannable.placed {f : SourceFile} (hf : f.Scannable)
    (ht : t ∈ (scan f.path f.contents).1) (message : Bytes) (cause : Option Fault) :
    (t.diagnostic .lexing message cause).file = f.path ∧
      (t.diagnostic .lexing message cause).Placed f.contents := by
  obtain ⟨last, hcovers⟩ := hf.covers
  obtain ⟨-, hend, hwidth⟩ := hcovers.last_eq
  have hle : t.offset + t.width ≤ last.offset :=
    (List.pairwise_append.mp hcovers.pairwise).2.2 t ht last List.mem_cons_self
  refine ⟨file_of_mem_tokens ht, ?_⟩
  exact (hcovers.placed t (List.mem_append_left _ ht)).diagnostic (by omega) _ _ _

/-- A tree fails in one of its files, and the diagnostic names that file. -/
theorem failure_of_tokenizeWithin {read : FileReader} {limit left : Nat}
    (h : (tokenizeWithin read limit left file source).2 = .error d) :
    ∃ depth f, InTree read ⟨file, source⟩ depth f ∧ depth ≤ left ∧ d.file = f.path ∧
      (f.Faulty d ∨ f.Stuck read limit (depth == left) d) := by
  induction left generalizing file source with
  | zero =>
      rw [tokenizeWithin_eq_finish] at h
      rcases finish_error_cases h with h | ⟨hscan, r, hr, t, path, himport, h⟩
      · obtain ⟨hfile, hfaulty⟩ := faulty_of_tokens (Cursor.at_start source) (Prod.ext rfl h)
        exact ⟨0, _, InTree.root, Nat.le_refl 0, hfile, Or.inl hfaulty⟩
      · obtain rfl := Except.error.inj h
        have ht := SourceFile.mem_scan_of_mem_runs hr (TokenRun.mem_body_of_import? himport)
        obtain ⟨hfile, hplaced⟩ := hscan.placed ht _ _
        exact ⟨0, _, InTree.root, Nat.le_refl 0, hfile,
          Or.inr ⟨r, hr, t, path, himport, ht, hplaced, rfl⟩⟩
  | succ left ih =>
      rw [tokenizeWithin_eq_finish] at h
      rcases finish_error_cases h with h | ⟨hscan, r, hr, t, path, himport, h⟩
      · obtain ⟨hfile, hfaulty⟩ := faulty_of_tokens (Cursor.at_start source) (Prod.ext rfl h)
        exact ⟨0, _, InTree.root, Nat.zero_le _, hfile, Or.inl hfaulty⟩
      · cases hread : read path with
        | error e =>
            rw [snd_loader_succ_error hread] at h
            obtain rfl := Except.error.inj h
            have ht := SourceFile.mem_scan_of_mem_runs hr (TokenRun.mem_body_of_import? himport)
            obtain ⟨hfile, hplaced⟩ := hscan.placed ht _ _
            exact ⟨0, _, InTree.root, Nat.zero_le _, hfile,
              Or.inr ⟨r, hr, t, path, himport, ht, hplaced, e, hread, rfl⟩⟩
        | ok contents =>
            rw [snd_loader_succ hread] at h
            obtain ⟨depth, f, hf, hle, hfile, hfailure⟩ := ih h
            have hpath := SourceFile.mem_imports.mpr ⟨r, hr, t, himport⟩
            refine ⟨depth + 1, f, inTree_succ_iff.mpr ⟨path, hpath, contents, hread, hf⟩,
              Nat.succ_le_succ hle, hfile, ?_⟩
            have hdeepest : (depth + 1 == left + 1) = (depth == left) := by
              rw [Bool.eq_iff_iff, beq_iff_eq, beq_iff_eq, Nat.succ_inj]
            rw [hdeepest]
            exact hfailure

end Failures

/-- Where tokenizing fails, the diagnostic names the file of the tree of imports in which the fault
stands, and it is placed there: at the bytes of a scanning fault, or at the path literal, if what is
imported lies too deep or cannot be read.  Its line, its column and its line text are those of its
offset, except for a bad escape in a string after a newline, which is left behind on the line of the
opening quote. -/
theorem tokenize_failures_placed_unless_left_behind (read : FileReader) (maxDepth : Int)
    (file source : Bytes) (d : Diagnostic)
    (h : (tokenize read (importLimit maxDepth) file source).2 = .error d) :
    ∃ depth f, InTree read ⟨file, source⟩ depth f ∧ depth ≤ importLimit maxDepth ∧
      d.file = f.path ∧
      (f.Faulty d ∨ f.Stuck read (importLimit maxDepth) (depth == importLimit maxDepth) d) :=
  failure_of_tokenizeWithin h

/-- An imported file with a number that runs into a letter on its second line. -/
theorem tokenize_failures_placed_unless_left_behind_imported :
    let read : FileReader := fun path =>
      if path = text "lib" then .ok (text "y = 1\nz = 12a") else .error ⟨.opening, path, .notFound⟩
    let d : Diagnostic :=
      ⟨.lexing, text "lib", 2, 7, 12, 1, text "unexpected character 'a' in numeric literal",
        text "z = 12a", none⟩
    (tokenize read (importLimit 0) (text "main") (text "import \"lib\"\n")).2 = .error d ∧
    ∃ depth f, InTree read ⟨text "main", text "import \"lib\"\n"⟩ depth f ∧ d.file = f.path ∧
      (f.Faulty d ∨ f.Stuck read (importLimit 0) (depth == importLimit 0) d) := by
  intro read d
  have hfail :
      (tokenize read (importLimit 0) (text "main") (text "import \"lib\"\n")).2 = .error d := by
    decide +kernel
  obtain ⟨depth, f, hf, -, hfile, hfailure⟩ :=
    tokenize_failures_placed_unless_left_behind read 0 _ _ d hfail
  exact ⟨hfail, depth, f, hf, hfile, hfailure⟩

/-- A bad escape at the head of the second line of a string is reported on its first line. -/
theorem not_tokenize_failures_always_placed :
    ¬ ∀ (read : FileReader) (maxDepth : Int) (file source : Bytes) (d : Diagnostic),
      (tokenize read (importLimit maxDepth) file source).2 = .error d →
      ∃ depth f, InTree read ⟨file, source⟩ depth f ∧ d.file = f.path ∧ d.Placed f.contents := by
  intro h
  obtain ⟨depth, f, hf, -, offset, -, hoffset, hline⟩ :=
    h (fun path => .error ⟨.opening, path, .notFound⟩) 0 (text "main") (text "\"a\n\\q\"")
      ⟨.lexing, text "main", 1, 4, 3, 2, text "invalid escape sequence \\q", text "\"a", none⟩
      (by decide +kernel)
  obtain rfl := hf.eq_root (by decide +kernel)
  obtain rfl : offset = 3 := Int.ofNat.inj hoffset.symm
  exact absurd hline.line_eq (by decide +kernel)

end JumpScript
