import JumpScript.Diagnostic
import JumpScript.Proofs.Number.Digits
import JumpScript.Proofs.Text.Pieces

/-!
# Rendered diagnostics

A rendering with colours says the same as one without: take the colour sequences away, and what is
left is the plain rendering.  That one has five lines.  The last two begin with a gutter of the same
width, so what stands in the caret line is below what stands in the source line.
-/

namespace JumpScript

namespace Colour

/-- Whether a byte may be a parameter of a colour sequence: a digit or a semicolon. -/
def isParameter (b : UInt8) : Bool := Bytes.isDigit b || b == 0x3B

/-- What follows the colour sequence that a text begins with: an escape byte, a bracket, parameters
and the letter `m`. -/
def behind? : Bytes → Option Bytes
  | 0x1B :: 0x5B :: r =>
    match r.dropWhile isParameter with
    | 0x6D :: t => some t
    | _ => none
  | _ => none

theorem length_lt_of_behind? {s t : Bytes} (h : behind? s = some t) : t.length < s.length := by
  unfold behind? at h
  split at h
  · rename_i r
    split at h
    · rename_i u hdrop
      obtain rfl := Option.some.inj h
      have hle := (List.dropWhile_sublist isParameter (l := r)).length_le
      rw [hdrop, List.length_cons] at hle
      simp only [List.length_cons]
      omega
    · cases h
  · cases h

/-- A text without its colour sequences. -/
def erased : Bytes → Bytes
  | [] => []
  | b :: r =>
    match h : behind? (b :: r) with
    | some t =>
      have := length_lt_of_behind? h
      erased t
    | none => b :: erased r
termination_by s => s.length
decreasing_by
  · assumption
  · exact Nat.lt_succ_self r.length

variable {s t code : Bytes}

theorem erased_of_behind? (h : behind? s = some t) : erased s = erased t := by
  cases s with
  | nil => cases h
  | cons b r =>
      rw [erased]
      split
      · rename_i u hu
        rw [h] at hu
        rw [Option.some.inj hu]
      · rename_i hnone
        rw [h] at hnone
        cases hnone

/-- Without an escape byte nothing is taken away. -/
theorem erased_append (hs : 0x1B ∉ s) (t : Bytes) : erased (s ++ t) = s ++ erased t := by
  induction s with
  | nil => rfl
  | cons b r ih =>
      rw [List.mem_cons, not_or] at hs
      have hbehind : behind? (b :: (r ++ t)) = none := by
        unfold behind?
        split
        · rename_i heq
          exact absurd (List.cons.inj heq).1.symm hs.1
        · rfl
      rw [List.cons_append, erased]
      split
      · rename_i u hu
        rw [hbehind] at hu
        cases hu
      · rw [ih hs.2, List.cons_append]

/-- A colour sequence is taken away. -/
theorem erased_sequence (hcode : code.all isParameter = true) (t : Bytes) :
    erased (text "\x1b[" ++ code ++ text "m" ++ t) = erased t := by
  apply erased_of_behind?
  have hdrop : (code ++ 0x6D :: t).dropWhile isParameter = 0x6D :: t := by
    rw [List.dropWhile_append_of_pos (List.all_eq_true.mp hcode)]
    rfl
  have htext : text "\x1b[" ++ code ++ text "m" ++ t = 0x1B :: 0x5B :: (code ++ 0x6D :: t) := by
    rw [List.append_assoc, List.append_assoc]
    rfl
  simp only [htext, behind?, hdrop]

end Colour

theorem Paint.isParameter_of_code? {p : Paint} {code : Bytes} (h : p.code? = some code) :
    code.all Colour.isParameter = true := by
  cases p <;> cases h <;> decide

namespace Span

theorem render_plain (s : Span) : s.render false = s.body := by
  rw [render]
  split <;> rfl

theorem erased_render {s : Span} (hs : 0x1B ∉ s.body) (t : Bytes) :
    Colour.erased (s.render true ++ t) = s.body ++ Colour.erased t := by
  rw [render]
  split
  · rename_i code hcode
    rw [if_pos rfl]
    have hreset : text "\x1b[0m" = text "\x1b[" ++ text "0" ++ text "m" := by decide
    have hparameters := Paint.isParameter_of_code? hcode
    rw [List.append_assoc, List.append_assoc, Colour.erased_sequence hparameters,
      Colour.erased_append hs, hreset, Colour.erased_sequence (by decide)]
  · exact Colour.erased_append hs t

theorem erased_flatMap_render {ss : List Span} (hss : ∀ s ∈ ss, 0x1B ∉ s.body) :
    Colour.erased (ss.flatMap (render true)) = ss.flatMap (render false) := by
  induction ss with
  | nil => rw [List.flatMap_nil, List.flatMap_nil, Colour.erased]
  | cons s ss ih =>
      obtain ⟨hs, hrest⟩ := List.forall_mem_cons.mp hss
      rw [List.flatMap_cons, List.flatMap_cons, erased_render hs, render_plain, ih hrest]

end Span

namespace Diagnostic

variable {d : Diagnostic} {b : UInt8}

/-- The lines of the plain rendering: heading, place, rule, source line and caret line.  The gutter
of the source line has the number of the line, the others have blanks in its place. -/
def lines (d : Diagnostic) : List Bytes :=
  let number := Bytes.ofInt d.line
  let blank := Bytes.fill number.length 0x20
  let indent := Bytes.fill (max d.column 1 - 1).toNat 0x20
  let carets := Bytes.fill (max d.width 1).toNat 0x5E
  [d.stage.name ++ text " error:",
    blank ++ text "--> " ++ d.file ++ text " " ++ number ++ text ":" ++ Bytes.ofInt d.column
      ++ text " (" ++ Bytes.ofInt d.offset ++ text ")",
    blank ++ text " |",
    number ++ text " | " ++ d.context,
    blank ++ text " | " ++ indent ++ carets ++ (text " " ++ d.message)]

theorem render_eq_join (d : Diagnostic) : d.render false = Bytes.join [0x0A] d.lines := by
  have hheading : text " error:\n" = text " error:" ++ [0x0A] := by decide
  have harrow : text "--> " = text "-->" ++ text " " := by decide
  have hplace : text ")\n" = text ")" ++ [0x0A] := by decide
  have hrule : text " |" = text " " ++ text "|" := by decide
  have hgutter : text " | " = text " " ++ text "|" ++ text " " := by decide
  have hnewline : text "\n" = [0x0A] := by decide
  simp only [render, spans, List.flatMap_cons, List.flatMap_nil, Span.render_plain, lines,
    Bytes.join, hheading, harrow, hplace, hrule, hgutter, hnewline, List.append_assoc,
    List.append_nil]

/-- A line has a newline or an escape byte only from the file, the source line or the message. -/
theorem notMem_lines (hb : b = 0x1B ∨ b = 0x0A) (h : ∀ s ∈ [d.file, d.context, d.message], b ∉ s) :
    ∀ l ∈ d.lines, b ∉ l := by
  have hname : b ∉ d.stage.name := by
    rcases hb with rfl | rfl <;> cases d.stage <;> decide
  have hnumber (n : Int) : b ∉ Bytes.ofInt n := by
    intro hmem
    have hdigit := Bytes.isDigit_of_mem_ofInt hmem
    rcases hb with rfl | rfl <;> exact absurd hdigit (by decide)
  have hfill {k : UInt8} (hk : b ≠ k) (n : Nat) : b ∉ Bytes.fill n k :=
    fun hmem => hk (List.eq_of_mem_replicate hmem)
  have hblank := hfill (k := 0x20) (by rcases hb with rfl | rfl <;> decide)
  have hcaret := hfill (k := 0x5E) (by rcases hb with rfl | rfl <;> decide)
  have hfixed : ∀ s ∈ [text " error:", text "--> ", text " ", text ":", text " (", text ")",
      text " |", text " | "], b ∉ s := by
    rcases hb with rfl | rfl <;> decide
  simp only [List.forall_mem_cons] at h hfixed
  simp only [lines, List.forall_mem_cons, List.mem_append, not_or]
  simp [h, hfixed, hname, hnumber, hblank, hcaret]

theorem escape_notMem_spans (h : ∀ s ∈ [d.file, d.context, d.message], 0x1B ∉ s) :
    ∀ s ∈ d.spans, 0x1B ∉ s.body := by
  have hlines := notMem_lines (.inl rfl) h
  have hrender : 0x1B ∉ d.render false := by
    rw [render_eq_join]
    intro hmem
    rcases Bytes.mem_join hmem with hnewline | ⟨l, hl, hin⟩
    · cases List.mem_singleton.mp hnewline
    · exact hlines l hl hin
  intro s hs hbody
  exact hrender (List.mem_flatMap.mpr ⟨s, hs, s.render_plain.symm ▸ hbody⟩)

/-- Behind a gutter and an indent stand the carets. -/
theorem getElem?_caret (blank message : Bytes) {indent carets i : Nat} (hi : i < carets) :
    (blank ++ Bytes.fill indent 0x20 ++ Bytes.fill carets 0x5E ++ message)[
      blank.length + (indent + i)]? = some 0x5E := by
  have hindent : (Bytes.fill indent 0x20).length ≤ indent + i := by
    rw [Bytes.fill, List.length_replicate]
    exact Nat.le_add_right indent i
  rw [List.append_assoc, List.append_assoc, List.getElem?_append_right (Nat.le_add_right _ _),
    Nat.add_sub_cancel_left, List.getElem?_append_right hindent]
  simp [Bytes.fill, List.getElem?_append_left, hi]

/-- Diagnostics render consistently.  If file, source line and message have no escape byte, then the
rendering with colours is the plain one once its colour sequences are taken away.  If they have no
newline, then the plain rendering has five lines.  The last two have gutters of the same width, one
with the number of the line and one with blanks in its place.  A column counts from one and a width
is at least one, whatever the diagnostic says, and each caret stands just below the byte of the
source line that it points at. -/
theorem rendering_is_consistent (d : Diagnostic) :
    ((∀ s ∈ [d.file, d.context, d.message], 0x1B ∉ s) →
      Colour.erased (d.render true) = d.render false) ∧
    ((∀ s ∈ [d.file, d.context, d.message], 0x0A ∉ s) →
      let gutter := Bytes.ofInt d.line ++ text " | "
      let blank := Bytes.fill (Bytes.ofInt d.line).length 0x20 ++ text " | "
      let source := gutter ++ d.context
      let pointer := blank ++ Bytes.fill (max d.column 1 - 1).toNat 0x20
        ++ Bytes.fill (max d.width 1).toNat 0x5E ++ (text " " ++ d.message)
      (∃ heading place rule,
        Bytes.splitOn [0x0A] (d.render false) = [heading, place, rule, source, pointer]) ∧
      gutter.length = blank.length ∧
      (1 ≤ d.column → ∀ i < (max d.width 1).toNat,
        pointer[blank.length + ((d.column - 1).toNat + i)]? = some 0x5E ∧
        source[gutter.length + ((d.column - 1).toNat + i)]?
          = d.context[(d.column - 1).toNat + i]?)) := by
  refine ⟨fun hescape => Span.erased_flatMap_render (escape_notMem_spans hescape), ?_⟩
  intro hnewline gutter blank source pointer
  have hsplit : Bytes.splitOn [0x0A] (d.render false) = d.lines := by
    rw [render_eq_join]
    exact Bytes.splitOn_join (notMem_lines (.inr rfl) hnewline) (List.cons_ne_nil _ _)
  refine ⟨⟨_, _, _, hsplit⟩, ?_, fun hcolumn i hi => ⟨?_, ?_⟩⟩
  · simp only [gutter, blank, Bytes.fill, List.length_append, List.length_replicate]
  · have hindent : (max d.column 1 - 1).toNat = (d.column - 1).toNat := by rw [max_eq_left hcolumn]
    rw [← hindent]
    exact getElem?_caret blank (text " " ++ d.message) hi
  · rw [List.getElem?_append_right (Nat.le_add_right _ _), Nat.add_sub_cancel_left]

/-- Brackets and letters of colour sequences without their escape byte, and a width that is too
small. -/
theorem rendering_is_consistent_bracketed :
    let d : Diagnostic :=
      ⟨.parsing, text "[1m.tl", 12, 3, 17, 0, text "m[0m", text "x [32m", none⟩
    d.render true ≠ d.render false ∧ Colour.erased (d.render true) = d.render false ∧
      (∃ heading place rule, Bytes.splitOn [0x0A] (d.render false)
        = [heading, place, rule, text "12 | x [32m", text "   |   ^ m[0m"]) ∧
      (text "   |   ^ m[0m")[7]? = some 0x5E ∧ (text "12 | x [32m")[7]? = d.context[2]? := by
  intro d
  obtain ⟨herased, hlines⟩ := rendering_is_consistent d
  obtain ⟨⟨heading, place, rule, hsplit⟩, -, hbelow⟩ := hlines (by decide)
  have hcaret := hbelow (by decide) 0 (by decide)
  have hnumber : Bytes.ofInt d.line = text "12" := by decide +kernel
  simp only [hnumber] at hsplit hcaret
  exact ⟨by decide +kernel, herased (by decide), ⟨heading, place, rule, hsplit⟩, hcaret⟩

end Diagnostic

end JumpScript
