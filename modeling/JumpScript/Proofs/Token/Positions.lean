import JumpScript.Proofs.Text.Position
import JumpScript.Proofs.Token.Faults
import JumpScript.Proofs.Token.NormalForm

/-!
# Scanning by positions

A cursor holds the text that is left to read.  A scanner that keeps the whole source and positions
in it looks at the bytes around its place, at those of the literal it reads and at its line.  `Head`
is such a scanner; every byte and every stretch that it looks at is taken out by position.

Each part of it is proved to give what the cursor gives.  So no position that it looks at is outside
the source, and it comes to an end.  What carries this through all scanning is that the line starts
before the place and the place is not beyond the source (`Head.Inside`).
-/

namespace JumpScript

open Position

/-- A source with a place in it, its line and column, and where that line starts. -/
structure Head where
  source : Bytes
  place : Nat := 0
  line : Nat := 1
  column : Nat := 1
  lineStart : Nat := 0

namespace Head

/-! ### Definitions -/

/-- A scanner before the first byte of a source, new or taken up again. -/
def start (source : Bytes) : Head := { source }

def advance (h : Head) (n : Nat) : Head := { h with place := h.place + n, column := h.column + n }

def newline (h : Head) : Head :=
  { h with place := h.place + 1, line := h.line + 1, column := 1, lineStart := h.place + 1 }

/-- The text of the line, without carriage returns at its end. -/
def currentLine (h : Head) : Option Bytes := do
  let rest ← slice h.source h.lineStart h.source.length
  let line ←
    match rest.idxOf? 0x0A with
    | none => slice h.source h.lineStart h.source.length
    | some n => slice h.source h.lineStart (h.lineStart + n)
  return Bytes.dropWhileEnd (· == 0x0D) line

def token (h : Head) (file : Bytes) (l : Lexeme) (i width : Nat) : Option Token := do
  let context ← h.currentLine
  return ⟨l, h.line, h.column + (i - h.place), i, width, file, context⟩

def fault (h : Head) (file : Bytes) (i width : Nat) (f : ScanFault) : Option Diagnostic := do
  let t ← h.token file .endOfFile i width
  return t.diagnostic .lexing f.message none

/-- The byte some way ahead, zero beyond the source. -/
def peek (h : Head) (n : Nat) : Option UInt8 :=
  if h.source.length ≤ h.place + n then some 0 else read h.source (h.place + n : Nat)

/-- Whether a number or a name may end before a position. -/
def boundaryAt (h : Head) (i : Nat) : Option Bool :=
  if h.source.length ≤ i then some true else (read h.source i).map Scan.isBoundary

/-- Where spaces and comments from a position on end.  A comment is followed by another look for
spaces, from further on. -/
def gapEnd (source : Bytes) (i : Nat) : Option Nat := do
  let j ← extent source Scan.isSpace i
  if source.length ≤ j then return j
  if (← read source j) != 0x23 then return j
  let k ← extent source (· != 0x0A) j
  if i ≤ j ∧ j < k then gapEnd source k else none
termination_by source.length - i

/-- Whether there is a point at a position. -/
def pointAt (source : Bytes) (i : Nat) : Option Bool :=
  if i < source.length then (read source i).map (· == 0x2E) else some false

/-- Where the digits of a number end, with at most one point among them, whether there is a point,
and whether they end at a second one. -/
def digitsEnd (source : Bytes) (pointSeen : Bool) (i : Nat) : Option (Nat × Bool × Bool) :=
  if i < source.length then do
    let b ← read source i
    if Bytes.isDigit b then digitsEnd source pointSeen (i + 1)
    else if b != 0x2E then return (i, pointSeen, false)
    else
      if ← pointAt source (i + 1) then return (i, pointSeen, false)
      else if pointSeen then return (i, pointSeen, true)
      else digitsEnd source true (i + 1)
  else return (i, pointSeen, false)
termination_by source.length - i

def number (h : Head) (file : Bytes) : Option (Head × Except Diagnostic Token) := do
  let first ← read h.source h.place
  let digits := if first == 0x2D then h.place + 1 else h.place
  let (stop, hasPoint, secondPoint) ← digitsEnd h.source false digits
  if secondPoint then return (h, .error (← h.fault file stop 1 .secondPoint))
  if ← (h.boundaryAt stop).map (!·) then
    let b ← read h.source stop
    return (h, .error (← h.fault file stop 1 (.unexpectedInNumber b)))
  let numeral ← slice h.source h.place stop
  let t ← h.token file .endOfFile h.place numeral.length
  if hasPoint then
    match Numeral.read numeral with
    | .ok x => return (h.advance numeral.length, .ok { t with lexeme := .float x })
    | .error _ => return (h, .error (← h.fault file h.place numeral.length (.badFloat numeral)))
  else
    match Integer.read numeral with
    | .ok k => return (h.advance numeral.length, .ok { t with lexeme := .int k })
    | .error _ =>
      return (h, .error (← h.fault file h.place numeral.length (.intOutOfRange numeral)))

def name (h : Head) (file : Bytes) : Option (Head × Except Diagnostic Token) := do
  let stop ← extent h.source Scan.isNamePart h.place
  if ← (h.boundaryAt stop).map (!·) then
    let b ← read h.source stop
    return (h, .error (← h.fault file stop 1 (.unexpectedInName b)))
  let literal ← slice h.source h.place stop
  let t ← h.token file (Scan.word literal) h.place literal.length
  return (h.advance literal.length, .ok t)

/-- What a string says that is read from a position on, after `said`, and the position after its
closing quote.  A bad escape is reported with its position and letter. -/
def stringEnd (source : Bytes) (said : Bytes) (i : Nat) :
    Option (Except (Option (Nat × UInt8)) (Bytes × Nat)) :=
  if i < source.length then do
    let b ← read source i
    if b == 0x22 then return .ok (said, i + 1)
    else if b == 0x5C then
      if source.length ≤ i + 1 then return .error none
      else
        match Scan.unescape? (← read source (i + 1 : Nat)) with
        | none => return .error (some (i, ← read source (i + 1 : Nat)))
        | some c => stringEnd source (said ++ [c]) (i + 2)
    else stringEnd source (said ++ [b]) (i + 1)
  else return .error none
termination_by source.length - i

/-- Moves up to a position, past newlines. -/
def moveTo (h : Head) (i : Nat) : Option Head :=
  if h.place < i then do
    if (← read h.source h.place) == 0x0A then moveTo h.newline i else moveTo (h.advance 1) i
  else return h
termination_by i - h.place
decreasing_by
  all_goals
    simp only [newline, advance]
    omega

def string (h : Head) (file : Bytes) : Option (Head × Except Diagnostic Token) := do
  let t ← h.token file .endOfFile h.place 0
  match ← stringEnd h.source [] (h.place + 1) with
  | .error none => return (h, .error (← h.fault file h.place 1 .unterminatedString))
  | .error (some (i, b)) => return (h, .error (← h.fault file i 2 (.badEscape b)))
  | .ok (said, stop) =>
    return (← h.moveTo stop, .ok { t with lexeme := .string said, width := stop - h.place })

/-- A token of some bytes of the line at the place. -/
def take (h : Head) (file : Bytes) (l : Lexeme) (n : Nat) :
    Option (Head × Except Diagnostic Token) := do
  let t ← h.token file l h.place n
  return (h.advance n, .ok t)

/-- The mark at the place, whose first byte is `b`. -/
def mark (h : Head) (file : Bytes) (b : UInt8) : Option (Head × Except Diagnostic Token) := do
  match Scan.doubleMark? b, (← h.peek 1) == 0x3D with
  | some m, true => h.take file (.mark m) 2
  | _, _ =>
    match Scan.singleMark? b with
    | some m => h.take file (.mark m) 1
    | none => return (h, .error (← h.fault file h.place 1 (.unexpected b)))

/-- The token at the place, whose first byte is `b`. -/
def lexeme (h : Head) (file : Bytes) (b : UInt8) : Option (Head × Except Diagnostic Token) := do
  if b == 0x0A then
    let t ← h.token file .endOfStatement h.place 1
    return (h.newline, .ok t)
  else if b == 0x3B then h.take file .endOfStatement 1
  else if b == 0x2D && Bytes.isDigit (← h.peek 1) then h.number file
  else if Bytes.isDigit b then h.number file
  else if Scan.isNameStart b then h.name file
  else if b == 0x22 then h.string file
  else h.mark file b

def next (h : Head) (file : Bytes) : Option (Head × Except Diagnostic Token) := do
  let h := h.advance ((← gapEnd h.source h.place) - h.place)
  if h.source.length ≤ h.place then
    let t ← h.token file .endOfFile h.place 0
    return (h, .ok t)
  else h.lexeme file (← read h.source h.place)

/-! ### Looking around -/

def cursor (h : Head) : Cursor :=
  ⟨h.source.drop h.place, h.place, h.line, h.column, lineText (h.source.drop h.lineStart)⟩

/-- The line starts before the place, and the place is not beyond the source. -/
structure Inside (h : Head) : Prop where
  lineStart_le : h.lineStart ≤ h.place
  place_le : h.place ≤ h.source.length

variable {h : Head} {r : Bytes} {b : UInt8}

theorem takeWhile_ne_eq (l : Bytes) (a : UInt8) :
    l.takeWhile (· != a) =
      match l.idxOf? a with
      | none => l
      | some n => l.take n := by
  induction l with
  | nil => rfl
  | cons c l ih =>
      by_cases hc : c = a
      · simp [List.idxOf?_cons, hc]
      · simp only [List.idxOf?_cons, List.takeWhile_cons, bne_iff_ne, ne_eq, hc, beq_iff_eq, ih,
          not_false_eq_true, if_true, if_false]
        cases l.idxOf? a with
        | none => rfl
        | some n => rfl

theorem currentLine_eq (hin : h.Inside) : h.currentLine = some h.cursor.context := by
  have hle := hin.lineStart_le.trans hin.place_le
  have hline := takeWhile_ne_eq (h.source.drop h.lineStart) 0x0A
  simp only [currentLine, slice_to_end hle, cursor, lineText, hline]
  cases hn : (h.source.drop h.lineStart).idxOf? 0x0A with
  | none => simp [hn]
  | some n =>
      have hlt : n < h.source.length - h.lineStart := by
        obtain ⟨hget, -⟩ := List.idxOf?_eq_some_iff.mp hn
        simpa using hget
      have hslice : slice h.source h.lineStart (h.lineStart + n : Nat)
          = some ((h.source.drop h.lineStart).take n) := by
        rw [slice_of_le (Nat.le_add_right _ _) (by omega), Nat.add_sub_cancel_left]
      rw [Int.natCast_add] at hslice
      simp [hn, hslice]

theorem token_eq (hin : h.Inside) (file : Bytes) (l : Lexeme) {i : Nat} (width : Nat) :
    h.token file l i width
      = some ⟨l, h.line, h.column + (i - h.place), i, width, file, h.cursor.context⟩ := by
  simp [token, currentLine_eq hin]

theorem token_at_place (hin : h.Inside) (file : Bytes) (l : Lexeme) (width : Nat) :
    h.token file l h.place width = some (h.cursor.token file l width) := by
  simp [token_eq hin, Cursor.token, cursor]

theorem fault_eq (hin : h.Inside) (file : Bytes) (e : ScanError) :
    h.fault file (h.place + e.distance) e.width e.fault = some (h.cursor.diagnostic file e) := by
  simp [fault, token_eq hin, Cursor.diagnostic, Token.diagnostic, cursor]

theorem peek_eq (hrest : h.source.drop h.place = b :: r) :
    h.peek 1 = some (r.head?.getD 0) := by
  have hnext : h.source.drop (h.place + 1) = r := drop_of_drop hrest 0
  have hlt := lt_of_drop hrest
  rw [peek]
  cases r with
  | nil =>
      have hend : h.source.length ≤ h.place + 1 := List.drop_eq_nil_iff.mp hnext
      simp [hend]
  | cons c r =>
      have hmore := lt_of_drop hnext
      rw [if_neg (by omega), read_of_drop hnext]
      rfl

theorem boundaryAt_eq (h : Head) (i : Nat) :
    h.boundaryAt i = some ((h.source.drop i).head?.all Scan.isBoundary) := by
  rw [boundaryAt]
  cases hdrop : h.source.drop i with
  | nil =>
      have hend : h.source.length ≤ i := List.drop_eq_nil_iff.mp hdrop
      simp [hend]
  | cons c r =>
      have hlt := lt_of_drop hdrop
      rw [if_neg (by omega), read_of_drop hdrop]
      rfl

/-! ### Moving -/

theorem cursor_advance {n : Nat} (hn : h.place + n ≤ h.source.length)
    (hline : 0x0A ∉ (h.source.drop h.place).take n) : (h.advance n).cursor = h.cursor.pass n := by
  have hle : n ≤ h.cursor.rest.length := by
    simp only [cursor, List.length_drop]
    omega
  rw [Cursor.pass_of_newline_not_mem hle hline]
  simp [cursor, advance]

theorem cursor_newline (hrest : h.source.drop h.place = 0x0A :: r) :
    h.newline.cursor = h.cursor.pass 1 := by
  have hnext : h.source.drop (h.place + 1) = r := drop_of_drop hrest 0
  simp [Cursor.pass, Cursor.step, cursor, newline, hrest, hnext]

theorem Inside.advance (hin : h.Inside) {n : Nat} (hn : h.place + n ≤ h.source.length) :
    (h.advance n).Inside :=
  ⟨hin.lineStart_le.trans (Nat.le_add_right _ _), hn⟩

theorem Inside.newline (hlt : h.place < h.source.length) : h.newline.Inside :=
  ⟨le_rfl, hlt⟩

theorem moveTo_eq (hin : h.Inside) {n : Nat} (hn : h.place + n ≤ h.source.length) :
    ∃ h', h.moveTo (h.place + n) = some h' ∧ h'.cursor = h.cursor.pass n ∧ h'.Inside := by
  induction n generalizing h with
  | zero =>
      refine ⟨h, ?_, rfl, hin⟩
      rw [moveTo, if_neg (by omega)]
      rfl
  | succ n ih =>
      obtain ⟨b, r, hrest⟩ : ∃ b r, h.source.drop h.place = b :: r :=
        List.exists_cons_of_ne_nil (by simp; omega)
      rw [moveTo, if_pos (by omega), read_of_drop hrest, Nat.add_comm n 1, ← Nat.add_assoc]
      by_cases hb : b = 0x0A
      · obtain ⟨h', hmove, hcursor, hin'⟩ := ih (.newline (h := h) (by omega)) (by
          simp only [Head.newline]
          omega)
        subst hb
        refine ⟨h', hmove, ?_, hin'⟩
        rw [hcursor, cursor_newline hrest, Cursor.pass_pass]
      · obtain ⟨h', hmove, hcursor, hin'⟩ := ih (hin.advance (n := 1) (by omega)) (by
          simp only [Head.advance]
          omega)
        have hline : 0x0A ∉ (h.source.drop h.place).take 1 := by
          simpa [hrest] using Ne.symm hb
        refine ⟨h', ?_, ?_, hin'⟩
        · simp only [Option.bind_eq_bind, Option.bind_some, beq_iff_eq, hb, if_false]
          exact hmove
        · rw [hcursor, cursor_advance (by omega) hline, Cursor.pass_pass]

/-! ### Extents -/

theorem gapEnd_of_head? {source : Bytes} {i : Nat}
    (hcomment : ((source.drop i).dropWhile Scan.isSpace).head? ≠ some 0x23) :
    gapEnd source i = some (i + ((source.drop i).takeWhile Scan.isSpace).length) := by
  have hdrop := drop_takeWhile source Scan.isSpace i
  rw [gapEnd, extent_eq]
  cases hafter : (source.drop i).dropWhile Scan.isSpace with
  | nil =>
      have hend := List.drop_eq_nil_iff.mp (hdrop.trans hafter)
      simp [hend]
  | cons b r =>
      have hread := read_of_drop (hdrop.trans hafter)
      have hb : b ≠ 0x23 := by simpa [hafter] using hcomment
      simp only [Int.natCast_add] at hread
      simp [hread, hb]

/-- A comment ends before a newline or with the source, and there the spaces and comments end. -/
theorem gapEnd_after_comment (source : Bytes) (i : Nat) :
    gapEnd source (i + ((source.drop i).takeWhile (· != 0x0A)).length)
      = some (i + ((source.drop i).takeWhile (· != 0x0A)).length) := by
  have hdrop := drop_takeWhile source (· != 0x0A) i
  obtain hnil | hnewline := Scan.head?_dropWhile_newline (source.drop i)
  · rw [gapEnd_of_head?] <;> simp [hdrop, hnil]
  · obtain ⟨r, hafter⟩ := List.head?_eq_some_iff.mp hnewline
    have hspace : Scan.isSpace 0x0A = false := by decide
    rw [gapEnd_of_head?] <;> simp [hdrop, hafter, hspace]

theorem gapEnd_eq (source : Bytes) (i : Nat) :
    gapEnd source i = some (i + (Scan.gap (source.drop i)).length) := by
  obtain ⟨j, hj⟩ : ∃ j, j = i + ((source.drop i).takeWhile Scan.isSpace).length := ⟨_, rfl⟩
  have hdrop : source.drop j = (source.drop i).dropWhile Scan.isSpace :=
    hj ▸ drop_takeWhile source Scan.isSpace i
  by_cases hcomment : ((source.drop i).dropWhile Scan.isSpace).head? = some 0x23
  · obtain ⟨r, hafter⟩ := List.head?_eq_some_iff.mp hcomment
    have hread := read_of_drop (hdrop.trans hafter)
    have hlt := lt_of_drop (hdrop.trans hafter)
    have hagain := gapEnd_after_comment source j
    rw [hdrop, hafter, List.takeWhile_cons_of_pos (by decide), List.length_cons] at hagain
    have hgap : Scan.gap (source.drop i)
        = (source.drop i).takeWhile Scan.isSpace ++ 0x23 :: r.takeWhile (· != 0x0A) := by
      simp only [Scan.gap, hafter]
    have hle : ¬ source.length ≤ j := Nat.not_le.mpr hlt
    have hmore : i ≤ j ∧ j < j + ((r.takeWhile (· != 0x0A)).length + 1) := by omega
    have hlength : j + ((r.takeWhile (· != 0x0A)).length + 1)
        = i + (Scan.gap (source.drop i)).length := by
      rw [hgap, List.length_append, List.length_cons, hj, Nat.add_assoc]
    rw [gapEnd, extent_eq, ← hj, ← hlength]
    simp [hle, hread, extent_eq, hdrop, hafter, hmore, hagain]
  · have hgap : Scan.gap (source.drop i) = (source.drop i).takeWhile Scan.isSpace := by
      rw [Scan.gap]
      split
      · rename_i r hafter
        simp [hafter] at hcomment
      · rfl
    rw [gapEnd_of_head? hcomment, hgap]

theorem pointAt_eq (source : Bytes) (i : Nat) :
    pointAt source i = some ((source.drop i).head? == some 0x2E) := by
  rw [pointAt]
  cases hdrop : source.drop i with
  | nil =>
      have hend := List.drop_eq_nil_iff.mp hdrop
      simp [Nat.not_lt.mpr hend]
  | cons b r => simp [lt_of_drop hdrop, read_of_drop hdrop]

theorem digitsEnd_eq (source : Bytes) (pointSeen : Bool) (i : Nat) :
    digitsEnd source pointSeen i
      = some (i + (Scan.numberSpan pointSeen (source.drop i)).length,
          (Scan.numberSpan pointSeen (source.drop i)).hasPoint,
          (Scan.numberSpan pointSeen (source.drop i)).secondPoint) := by
  induction hs : source.drop i generalizing i pointSeen with
  | nil =>
      have hend := List.drop_eq_nil_iff.mp hs
      rw [digitsEnd, if_neg (by omega)]
      rfl
  | cons b r ih =>
      have hnext : source.drop (i + 1) = r := drop_of_drop hs 0
      rw [digitsEnd, if_pos (lt_of_drop hs), read_of_drop hs, Scan.numberSpan]
      by_cases hdigit : Bytes.isDigit b = true
      · simp [hdigit, ih _ _ hnext]
        omega
      · by_cases hpoint : b = 0x2E
        · have hpeek := pointAt_eq source (i + 1)
          rw [hnext] at hpeek
          subst hpoint
          by_cases hagain : r.head? = some 0x2E
          · simp [hdigit, hpeek, hagain]
          · cases pointSeen with
            | true => simp [hdigit, hpeek, hagain]
            | false =>
                simp [hdigit, hpeek, hagain, ih _ _ hnext]
                omega
        · simp [hdigit, hpoint]

/-- A string that goes on from a position after what it has said. -/
def resumed (said : Bytes) (i : Nat) :
    Except (Option (Nat × UInt8)) (Bytes × Nat) → Except (Option (Nat × UInt8)) (Bytes × Nat)
  | .ok (s, n) => .ok (said ++ s, i + n)
  | .error none => .error none
  | .error (some (d, e)) => .error (some (i + d, e))

theorem resumed_shift (said : Bytes) (i : Nat) (b : UInt8) (n : Nat)
    (x : Except (Option (Nat × UInt8)) (Bytes × Nat)) :
    resumed said i (Scan.stringBody.shift b n x) = resumed (said ++ [b]) (i + n) x := by
  rcases x with (_ | ⟨d, e⟩) | ⟨s, k⟩
  · rfl
  · simp [Scan.stringBody.shift, resumed]
    omega
  · simp [Scan.stringBody.shift, resumed]
    omega

theorem stringEnd_eq (source said : Bytes) (i : Nat) :
    stringEnd source said i = some (resumed said i (Scan.stringBody (source.drop i))) := by
  generalize hs : source.drop i = s
  fun_induction Scan.stringBody s generalizing said i with
  | case1 =>
      have hend := List.drop_eq_nil_iff.mp hs
      rw [stringEnd, if_neg (by omega)]
      rfl
  | case2 r =>
      rw [stringEnd, if_pos (lt_of_drop hs), read_of_drop hs]
      simp [resumed]
  | case3 =>
      have hend : source.length ≤ i + 1 := List.drop_eq_nil_iff.mp (drop_of_drop hs 0)
      rw [stringEnd, if_pos (lt_of_drop hs), read_of_drop hs]
      simp [resumed, hend]
  | case4 e r he =>
      have hnext : source.drop (i + 1) = e :: r := drop_of_drop hs 0
      have hmore := lt_of_drop hnext
      have hread := read_of_drop hnext
      rw [stringEnd, if_pos (lt_of_drop hs), read_of_drop hs]
      push_cast at hread
      simp [resumed, hread, he, Nat.not_le.mpr hmore]
  | case5 e r b he ih =>
      have hnext : source.drop (i + 1) = e :: r := drop_of_drop hs 0
      have hmore := lt_of_drop hnext
      have hread := read_of_drop hnext
      rw [stringEnd, if_pos (lt_of_drop hs), read_of_drop hs]
      push_cast at hread
      simp [resumed_shift, hread, he, Nat.not_le.mpr hmore, ih _ _ (drop_of_drop hs 1)]
  | case6 c r hquote hone hslash ih =>
      have hplain : c ≠ 0x5C := by
        intro hc
        cases r with
        | nil => exact hone hc rfl
        | cons e r => exact hslash e r hc rfl
      have hclose : c ≠ 0x22 := hquote
      rw [stringEnd, if_pos (lt_of_drop hs), read_of_drop hs]
      simp [resumed_shift, hclose, hplain, ih _ _ (drop_of_drop hs 0)]

/-! ### Lexemes -/

/-- What a scanner gives is what a cursor makes of an answer: a token and the place after it, or a
diagnostic at the same place. -/
def Agrees (h : Head) (file : Bytes) (x : Option (Head × Except Diagnostic Token)) :
    Except ScanError (Lexeme × Nat) → Prop
  | .ok (l, n) =>
    ∃ h', x = some (h', .ok (h.cursor.token file l (n + 1))) ∧ h'.Inside ∧
      h'.cursor = h.cursor.pass (n + 1)
  | .error e => x = some (h, .error (h.cursor.diagnostic file e))

theorem fault_agrees (file : Bytes) (hin : h.Inside) (e : ScanError) :
    h.Agrees file ((h.fault file (h.place + e.distance) e.width e.fault).bind fun d =>
      some (h, .error d)) (.error e) := by
  rw [fault_eq hin]
  rfl

theorem advance_agrees (file : Bytes) (hin : h.Inside) {n : Nat} (l : Lexeme)
    (hn : h.place + (n + 1) ≤ h.source.length)
    (hline : 0x0A ∉ (h.source.drop h.place).take (n + 1)) :
    h.Agrees file (some (h.advance (n + 1), .ok (h.cursor.token file l (n + 1)))) (.ok (l, n)) :=
  ⟨h.advance (n + 1), rfl, hin.advance hn, cursor_advance hn hline⟩

theorem boundary_cases (h : Head) (i : Nat) :
    ((h.source.drop i).head?.filter (!Scan.isBoundary ·) = none ∧ h.boundaryAt i = some true) ∨
      ∃ c, (h.source.drop i).head?.filter (!Scan.isBoundary ·) = some c ∧
        h.boundaryAt i = some false ∧ read h.source i = some c := by
  cases hdrop : h.source.drop i with
  | nil => exact .inl ⟨rfl, by simp [boundaryAt_eq, hdrop]⟩
  | cons c r =>
      cases hc : Scan.isBoundary c with
      | true => exact .inl ⟨by simp [hc], by simp [boundaryAt_eq, hdrop, hc]⟩
      | false =>
          exact .inr ⟨c, by simp [hc], by simp [boundaryAt_eq, hdrop, hc], read_of_drop hdrop⟩

theorem digitsEnd_of_number (hrest : h.source.drop h.place = b :: r)
    (hb : Bytes.isDigit b = true ∨ b = 0x2D) :
    digitsEnd h.source false (if b == 0x2D then h.place + 1 else h.place)
      = some (h.place + ((Scan.numberSpan false r).length + 1),
          (Scan.numberSpan false r).hasPoint, (Scan.numberSpan false r).secondPoint) := by
  rw [digitsEnd_eq]
  by_cases hminus : b = 0x2D
  · have hnext : h.source.drop (h.place + 1) = r := drop_of_drop hrest 0
    simp [hminus, hnext]
    omega
  · have hdigit := hb.resolve_right hminus
    simp [hminus, hrest, Scan.numberSpan, hdigit]

theorem number_agrees (file : Bytes) (hin : h.Inside) (hrest : h.source.drop h.place = b :: r)
    (hb : Bytes.isDigit b = true ∨ b = 0x2D) :
    h.Agrees file (h.number file) (Scan.number b r) := by
  have hend := digitsEnd_of_number hrest hb
  obtain ⟨n, hn⟩ : ∃ n, n = Scan.numberSpan false r := ⟨_, rfl⟩
  rw [← hn] at hend
  have hdrop := drop_of_drop hrest n.length
  have hspan : n.length ≤ r.length := hn ▸ Scan.length_numberSpan_le false r
  have hle := le_of_drop hrest hspan
  have hline : 0x0A ∉ (h.source.drop h.place).take (n.length + 1) := by
    have hne : b ≠ 0x0A := by
      rintro rfl
      exact absurd hb (by decide)
    have htail := Scan.newline_not_mem_numberSpan false r
    rw [← hn] at htail
    simpa [hrest, Ne.symm hne] using htail
  have hnumeral := slice_of_drop hrest hspan
  have hlength : (b :: r.take n.length).length = n.length + 1 := by
    rw [List.length_cons, List.length_take_of_le hspan]
  have htoken := token_at_place hin file .endOfFile (n.length + 1)
  unfold number Scan.number
  rw [read_of_drop hrest, ← hn]
  simp only [Option.bind_eq_bind, Option.bind_some, hend, hnumeral, hlength, htoken]
  by_cases hsecond : n.secondPoint = true
  · simp only [hsecond, if_true]
    exact fault_agrees file hin ⟨n.length + 1, 1, .secondPoint⟩
  · have hboundary := boundary_cases h (h.place + (n.length + 1))
    rw [hdrop] at hboundary
    obtain ⟨hnone, hbound⟩ | ⟨c, hsome, hbound, hread⟩ := hboundary
    · simp only [hsecond, hnone, hbound]
      by_cases hpoint : n.hasPoint = true
      · cases hvalue : Numeral.read (b :: r.take n.length) with
        | ok x =>
            simp only [hpoint]
            exact advance_agrees file hin (.float x) hle hline
        | error _ =>
            simp only [hpoint]
            exact fault_agrees file hin ⟨0, n.length + 1, .badFloat (b :: r.take n.length)⟩
      · cases hvalue : Integer.read (b :: r.take n.length) with
        | ok k =>
            simp only [hpoint]
            exact advance_agrees file hin (.int k) hle hline
        | error _ =>
            simp only [hpoint]
            exact fault_agrees file hin ⟨0, n.length + 1, .intOutOfRange (b :: r.take n.length)⟩
    · simp only [hsecond, hsome, hbound, hread]
      exact fault_agrees file hin ⟨n.length + 1, 1, .unexpectedInNumber c⟩

theorem name_agrees (file : Bytes) (hin : h.Inside) (hrest : h.source.drop h.place = b :: r)
    (hb : Scan.isNameStart b = true) : h.Agrees file (h.name file) (Scan.name b r) := by
  obtain ⟨tail, htail⟩ : ∃ tail, tail = r.takeWhile Scan.isNamePart := ⟨_, rfl⟩
  have hpart : Scan.isNamePart b = true := by simp [Scan.isNamePart, hb]
  have hend : extent h.source Scan.isNamePart h.place = some (h.place + (tail.length + 1)) := by
    rw [extent_eq, hrest, List.takeWhile_cons_of_pos hpart, htail, List.length_cons]
  have hdrop : h.source.drop (h.place + (tail.length + 1)) = r.dropWhile Scan.isNamePart := by
    have hsplit := drop_takeWhile h.source Scan.isNamePart h.place
    rwa [hrest, List.takeWhile_cons_of_pos hpart, ← htail, List.length_cons,
      List.dropWhile_cons_of_pos hpart] at hsplit
  have htake : r.take tail.length = tail :=
    htail ▸ (List.prefix_iff_eq_take.mp (List.takeWhile_prefix Scan.isNamePart)).symm
  have hspan : tail.length ≤ r.length := htail ▸ (List.takeWhile_sublist _).length_le
  have hle := le_of_drop hrest hspan
  have hline : 0x0A ∉ (h.source.drop h.place).take (tail.length + 1) := by
    have hall : (b :: tail).all Scan.isNamePart = true := by
      rw [List.all_cons, hpart, htail, List.all_takeWhile]
      rfl
    rw [hrest, List.take_succ_cons, htake]
    intro hmem
    exact absurd (List.all_eq_true.mp hall _ hmem) (by decide)
  have hliteral := slice_of_drop hrest hspan
  rw [htake] at hliteral
  have htoken := token_at_place hin file (Scan.word (b :: tail)) (tail.length + 1)
  have hboundary := boundary_cases h (h.place + (tail.length + 1))
  rw [hdrop] at hboundary
  unfold name Scan.name
  rw [← htail]
  simp only [Option.bind_eq_bind, Option.bind_some, hend, hliteral, List.length_cons, htoken]
  obtain ⟨hnone, hbound⟩ | ⟨c, hsome, hbound, hread⟩ := hboundary
  · simp only [hnone, hbound]
    exact advance_agrees file hin _ hle hline
  · simp only [hsome, hbound, hread]
    exact fault_agrees file hin ⟨tail.length + 1, 1, .unexpectedInName c⟩

theorem string_agrees (file : Bytes) (hin : h.Inside) (hrest : h.source.drop h.place = 0x22 :: r) :
    h.Agrees file (h.string file) (Scan.string r) := by
  have hend := stringEnd_eq h.source [] (h.place + 1)
  rw [drop_of_drop hrest 0, List.drop_zero] at hend
  have htoken := token_at_place hin file .endOfFile 0
  unfold string Scan.string
  simp only [Option.bind_eq_bind, Option.bind_some, htoken, hend]
  rcases hbody : Scan.stringBody r with (_ | ⟨d, e⟩) | ⟨s, n⟩
  · exact fault_agrees file hin ⟨0, 1, .unterminatedString⟩
  · simp only [resumed, Nat.add_assoc, Nat.add_comm 1 d]
    exact fault_agrees file hin ⟨d + 1, 2, .badEscape e⟩
  · have hle := le_of_drop hrest (Scan.quoted_of_stringBody hbody).le_length
    obtain ⟨h', hmove, hcursor, hin'⟩ := moveTo_eq hin hle
    refine ⟨h', ?_, hin', hcursor⟩
    simp only [resumed, Nat.add_assoc, Nat.add_comm 1 n, hmove, Option.bind_some,
      Nat.add_sub_cancel_left]
    rfl

theorem take_eq (hin : h.Inside) (file : Bytes) (l : Lexeme) (n : Nat) :
    h.take file l n = some (h.advance n, .ok (h.cursor.token file l n)) := by
  simp [take, token_at_place hin]

theorem mark_agrees (file : Bytes) (hin : h.Inside) (hrest : h.source.drop h.place = b :: r)
    (hb : b ≠ 0x0A) : h.Agrees file (h.mark file b) (Scan.mark b r) := by
  have hequals : (r.head?.getD 0 == 0x3D) = (r.head? == some 0x3D) := by
    cases r <;> rfl
  have hsingle : h.Agrees file
      (match Scan.singleMark? b with
      | some m => h.take file (.mark m) 1
      | none => (h.fault file h.place 1 (.unexpected b)).bind fun d => pure (h, .error d))
      (match Scan.singleMark? b with
      | some m => .ok (.mark m, 0)
      | none => .error ⟨0, 1, .unexpected b⟩) := by
    cases Scan.singleMark? b with
    | some m =>
        simp only [take_eq hin]
        exact advance_agrees file hin _ (lt_of_drop hrest) (by simpa [hrest] using hb.symm)
    | none => exact fault_agrees file hin ⟨0, 1, .unexpected b⟩
  unfold mark Scan.mark
  simp only [Option.bind_eq_bind, Option.bind_some, peek_eq hrest, hequals]
  cases Scan.doubleMark? b with
  | none => exact hsingle
  | some m =>
      cases hhead : r.head? == some 0x3D with
      | false => exact hsingle
      | true =>
          obtain ⟨s, rfl⟩ := List.head?_eq_some_iff.mp (eq_of_beq hhead)
          simp only [take_eq hin]
          exact advance_agrees file hin _ (le_of_drop hrest (Nat.succ_le_succ (Nat.zero_le _)))
            (by simpa [hrest] using hb.symm)

theorem lexeme_agrees (file : Bytes) (hin : h.Inside) (hrest : h.source.drop h.place = b :: r) :
    h.Agrees file (h.lexeme file b) (Scan.lexemeAt b r) := by
  have hlt := lt_of_drop hrest
  have hdigits : Bytes.isDigit (r.head?.getD 0) = r.head?.any Bytes.isDigit := by
    cases r <;> rfl
  unfold lexeme Scan.lexemeAt
  simp only [Option.bind_eq_bind, Option.bind_some, peek_eq hrest, hdigits]
  by_cases hnewline : b = 0x0A
  · subst hnewline
    refine ⟨h.newline, ?_, .newline hlt, cursor_newline hrest⟩
    simp [token_at_place hin]
  by_cases hsemicolon : b = 0x3B
  · subst hsemicolon
    have hnext : 0x0A ∉ (h.source.drop h.place).take 1 := by simp [hrest]
    simpa [take_eq hin] using advance_agrees file hin .endOfStatement hlt hnext
  by_cases hminus : (b == 0x2D && r.head?.any Bytes.isDigit) = true
  · have hb : b = 0x2D := by simp_all
    simpa [hnewline, hsemicolon, hminus] using number_agrees file hin hrest (.inr hb)
  by_cases hdigit : Bytes.isDigit b = true
  · have hnumber := number_agrees file hin hrest (.inl hdigit)
    simpa [hnewline, hsemicolon, hminus, hdigit] using hnumber
  by_cases hname : Scan.isNameStart b = true
  · have hword := name_agrees file hin hrest hname
    simpa [hnewline, hsemicolon, hminus, hdigit, hname] using hword
  by_cases hquote : b = 0x22
  · subst hquote
    have hstring := string_agrees file hin hrest
    simpa [hdigit, hname] using hstring
  · have hmark := mark_agrees file hin hrest hnewline
    simpa [hnewline, hsemicolon, hminus, hdigit, hname, hquote] using hmark

theorem newline_not_mem_gap (s : Bytes) : 0x0A ∉ Scan.gap s := by
  obtain ⟨blank, comment, hgap, hblank, hcomment⟩ := Scan.isGap_gap s
  rw [hgap, List.mem_append, not_or]
  refine ⟨fun hmem => absurd (hblank _ hmem) (by decide), ?_⟩
  obtain rfl | ⟨words, rfl, hwords, -⟩ := hcomment
  · exact List.not_mem_nil
  · simpa using hwords

/-- The next token is the cursor's, and the scanner after it is where the cursor is. -/
theorem next_eq (file : Bytes) (hin : h.Inside) :
    ∃ h', h.next file = some (h', (h.cursor.next file).2) ∧ h'.Inside ∧
      h'.cursor = (h.cursor.next file).1 := by
  obtain ⟨g, n, hg, hn⟩ : ∃ g n, g = h.advance n ∧ n = (Scan.gap (h.source.drop h.place)).length :=
    ⟨_, _, rfl, rfl⟩
  have hle : h.place + n ≤ h.source.length := by
    have hlength := Scan.length_gap_le (h.source.drop h.place)
    have hplace := hin.place_le
    rw [List.length_drop, ← hn] at hlength
    omega
  have hline : 0x0A ∉ (h.source.drop h.place).take n := by
    rw [← Scan.gap_append_afterGap (h.source.drop h.place), List.take_left' hn.symm]
    exact newline_not_mem_gap _
  have hskip : h.cursor.skip = g.cursor := by
    rw [hg, cursor_advance hle hline, hn]
    rfl
  have hin' : g.Inside := hg ▸ hin.advance hle
  have hnext : h.next file = if g.source.length ≤ g.place then
        (g.token file .endOfFile g.place 0).bind fun t => pure (g, .ok t)
      else (read g.source g.place).bind (g.lexeme file) := by
    rw [hg, next, gapEnd_eq, Option.bind_eq_bind, Option.bind_some, Nat.add_sub_cancel_left, ← hn]
    rfl
  rw [hnext, Cursor.next, hskip]
  cases hrest : g.source.drop g.place with
  | nil =>
      have hend : g.source.length ≤ g.place := List.drop_eq_nil_iff.mp hrest
      refine ⟨g, ?_, hin', ?_⟩
      · simp [hend, token_at_place hin', cursor, hrest]
      · simp [cursor, hrest]
  | cons b r =>
      have hmore := Nat.not_le.mpr (lt_of_drop hrest)
      have hagrees := lexeme_agrees file hin' hrest
      have hcursor : g.cursor.rest = b :: r := hrest
      simp only [hmore, read_of_drop hrest, hcursor]
      rcases hl : Scan.lexemeAt b r with e | ⟨l, k⟩
      · rw [hl] at hagrees
        exact ⟨g, hagrees, hin', rfl⟩
      · rw [hl] at hagrees
        exact hagrees

/-! ### Runs -/

/-- The states that a scanner gets into: before a source, new or taken up again, and after a token
or a diagnostic. -/
inductive Reachable : Head → Prop where
  | start (source : Bytes) : Reachable (start source)
  | next {h h' : Head} {file : Bytes} {answer : Except Diagnostic Token} (hh : Reachable h)
      (hnext : h.next file = some (h', answer)) : Reachable h'

theorem Reachable.inside (hh : h.Reachable) : h.Inside := by
  induction hh with
  | start source => exact ⟨le_rfl, Nat.zero_le _⟩
  | @next h h' file answer _ hnext hin =>
      obtain ⟨g, hg, hin', -⟩ := next_eq file hin
      rw [hnext] at hg
      exact (Prod.mk.inj (Option.some.inj hg)).1 ▸ hin'

/-- One token after another is scanned until the source ends or there is a fault. -/
inductive Scans (file : Bytes) : Head → List Token → Except Diagnostic Token → Prop where
  | done {h h' : Head} {t : Token} (hnext : h.next file = some (h', .ok t))
      (ht : t.lexeme = .endOfFile) : Scans file h [] (.ok t)
  | fault {h h' : Head} {d : Diagnostic} (hnext : h.next file = some (h', .error d)) :
      Scans file h [] (.error d)
  | more {h h' : Head} {t : Token} {ts : List Token} {stop : Except Diagnostic Token}
      (hnext : h.next file = some (h', .ok t)) (ht : t.lexeme ≠ .endOfFile)
      (hmore : Scans file h' ts stop) : Scans file h (t :: ts) stop

theorem scans_of_inside (file : Bytes) (hin : h.Inside) :
    h.Scans file (h.cursor.tokens file).1 (h.cursor.tokens file).2 := by
  generalize hc : h.cursor = c
  fun_induction Cursor.tokens file c generalizing h with
  | case1 c hrest =>
      obtain ⟨h', hnext, -, -⟩ := next_eq file hin
      simp only [hc, Cursor.next, hrest] at hnext
      exact .done hnext rfl
  | case2 c b r hrest e he =>
      obtain ⟨h', hnext, -, -⟩ := next_eq file hin
      simp only [hc, Cursor.next, hrest, he] at hnext
      exact .fault hnext
  | case3 c b r hrest l n hl hlt ts stop htokens ih =>
      obtain ⟨h', hnext, hin', hcursor⟩ := next_eq file hin
      simp only [hc, Cursor.next, hrest, hl] at hnext hcursor
      have hmore := ih hin' hcursor
      rw [htokens] at hmore
      exact .more hnext (ne_endOfFile_of_lexemeAt hl) hmore

/-- The tokens of a source are those that a scanner gives which looks at positions. -/
theorem scans_start (file source : Bytes) :
    (start source).Scans file (scan file source).1 (scan file source).2 :=
  scans_of_inside file (Reachable.start source).inside

end Head

end JumpScript
