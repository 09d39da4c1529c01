import JumpScript.Proofs.Token.Positions

/-!
# Parsing by positions

A parser that takes tokens off the head of a list never asks where they stand.  Here the statements
are read at fixed positions of the tokens up to the next end of statement, and a position that is
not there is a failure.

A position beyond the statement stands for its last token, which closes it.  So a check that has
found another token than an end of statement has found it inside, and the position after it exists.
On this rest all looks that are not checked by themselves.
-/

namespace JumpScript

/-- A token list is read at positions: what is found is a result, a diagnostic, or a position that
is not there. -/
abbrev Look (α : Type) := ExceptT Diagnostic Option α

namespace Shape

open Position Statement

variable {α β γ : Type}

/-! ### Definitions -/

/-- A result that no position was looked at for. -/
def settled (x : Except Diagnostic α) : Look α := ExceptT.mk (some x)

/-- What stands at positions, if they are there. -/
def inRange (x : Option α) : Look α := ExceptT.mk (x.map .ok)

def look (ts : List Token) (i : Nat) : Look Token := inRange (read ts i)

/-- The token at a position of a statement, or the last one for positions beyond it. -/
def tokenAt (stmt : List Token) (i : Nat) : Look Token :=
  if stmt.length ≤ i then inRange (read stmt ((stmt.length : Int) - 1)) else look stmt i

/-- Checks the class of a token. -/
def expect (stmt : List Token) (i : Nat) (k : TokenKind) : Look Unit := do
  let t ← tokenAt stmt i
  if t.kind == k then return () else settled (refuse t (.expected k t.lexeme))

def expectAll (stmt : List Token) (i : Nat) : List TokenKind → Look Unit
  | [] => return ()
  | k :: ks => do
    expect stmt i k
    expectAll stmt (i + 1) ks

def value (stmt : List Token) (i : Nat) : Look (Operand × Nat) := do
  let t ← tokenAt stmt i
  match t.lexeme.operand? with
  | some v => return (v, t.offset)
  | none => settled (refuse t (.expectedValue t.lexeme))

def comparator (stmt : List Token) (i : Nat) : Look Comparator := do
  let t ← tokenAt stmt i
  match t.lexeme.comparator? with
  | some op => return op
  | none => settled (refuse t (.expectedComparison t.lexeme))

/-- The operands from a position on, up to the last token. -/
def values (stmt : List Token) (i : Nat) : Look (List (Operand × Nat)) :=
  if (i : Int) < stmt.length - 1 then do
    let v ← value stmt i
    let vs ← values stmt (i + 1)
    return v :: vs
  else return []
termination_by stmt.length - i

def textOf (t : Token) : Bytes :=
  match t.lexeme with
  | .identifier name => name
  | .string s => s
  | _ => []

/-- `@ MODULE : FUNCTION VALUE*` from a position on. -/
def callTail (stmt : List Token) (i : Nat) : Look (CallTarget × List (Operand × Nat)) := do
  expectAll stmt i [.mark .atSign, .identifier, .mark .colon, .identifier]
  let module ← look stmt (i + 1)
  let function ← look stmt (i + 3)
  inRange (room (stmt.length - 1 - (i + 4 : Nat)))
  let args ← values stmt (i + 4)
  return (⟨textOf module, textOf function⟩, args)

/-- `~ LABEL` -/
def label (stmt : List Token) : Look Parsed := do
  expectAll stmt 0 [.mark .tilde, .identifier, .endOfStatement]
  let name ← look stmt 1
  return (.label (textOf name), [])

/-- `@ MODULE : FUNCTION VALUE*` -/
def call (stmt : List Token) : Look Parsed := do
  let (target, args) ← callTail stmt 0
  return (.call target (args.map (·.1)), args.map (·.2))

/-- `goto LABEL` and `goto LABEL if VALUE CMP VALUE` -/
def goto (stmt : List Token) : Look Parsed := do
  expect stmt 1 .identifier
  let name ← look stmt 1
  if (← look stmt 2).isEnd then return (.goto (textOf name), [])
  expect stmt 2 (.mark .ifWord)
  let lhs ← value stmt 3
  let op ← comparator stmt 4
  let rhs ← value stmt 5
  expect stmt 6 .endOfStatement
  return (.gotoIf (textOf name) op lhs.1 rhs.1, [lhs.2, rhs.2])

/-- `NAME = VALUE`, `NAME = VALUE OP VALUE` and `NAME = @ MODULE : FUNCTION VALUE*` -/
def assign (stmt : List Token) : Look Parsed := do
  expect stmt 1 (.mark .equals)
  let name ← look stmt 0
  if stmt.length ≤ 4 then
    let v ← value stmt 2
    expect stmt 3 .endOfStatement
    return (.assign (textOf name) v.1, [v.2])
  match (← look stmt 3).lexeme.operator? with
  | some op =>
    let lhs ← value stmt 2
    let rhs ← value stmt 4
    expect stmt 5 .endOfStatement
    return (.compute (textOf name) op lhs.1 rhs.1, [lhs.2, rhs.2])
  | none =>
    let (target, args) ← callTail stmt 2
    return (.assignCall (textOf name) target (args.map (·.1)), args.map (·.2))

/-- `call LABEL` -/
def callLabel (stmt : List Token) : Look Parsed := do
  expectAll stmt 0 [.mark .callWord, .identifier, .endOfStatement]
  let name ← look stmt 1
  return (.callLabel (textOf name), [])

/-- `ret` -/
def ret (stmt : List Token) : Look Parsed := do
  expectAll stmt 0 [.mark .retWord, .endOfStatement]
  return (.ret, [])

/-- The shape that the first token decides on. -/
def action (stmt : List Token) : Look Parsed := do
  let first ← look stmt 0
  match first.lexeme with
  | .mark .tilde => label stmt
  | .mark .atSign => call stmt
  | .mark .gotoWord => goto stmt
  | .identifier _ => assign stmt
  | .mark .callWord => callLabel stmt
  | .mark .retWord => ret stmt
  | l => settled (refuse first (.unexpectedStart l))

/-- Where the tokens end that stand on a line before the end of the statement. -/
def lineEnd (line stop : Nat) : List Token → Nat
  | [] => stop
  | t :: ts => if t.isEnd || t.line != line then stop else lineEnd line (t.offset + t.width) ts

/-- The first token and the bytes that the statement spans on its line. -/
def source (stmt : List Token) : Look (Token × Nat) := do
  let first ← look stmt 0
  let rest ← inRange (slice stmt 1 stmt.length)
  return (first, lineEnd first.line (first.offset + first.width) rest - first.offset)

/-- The first position from some position on at which a statement is closed. -/
def closing (ts : List Token) (i : Nat) : Look (Option Nat) :=
  if i < ts.length then do
    if (← look ts i).isEnd then return some i else closing ts (i + 1)
  else return none
termination_by ts.length - i

/-- The tokens from a position up to the next end of statement. -/
def statement (ts : List Token) (current : Nat) : Look (List Token) := do
  match ← closing ts current with
  | some i => inRange (slice ts current (i + 1))
  | none => settled (refuse (← look ts current) .incomplete)

/-- The program from a position on.  A statement without tokens would not be passed, and counts as
a position that is not there. -/
def program (ts : List Token) (current : Nat) : Look (List Statement) :=
  if current < ts.length then do
    if (← look ts current).isEnd then program ts (current + 1)
    else
      let stmt ← statement ts current
      let (action, offsets) ← action stmt
      let (head, width) ← source stmt
      if 0 < stmt.length then
        let more ← program ts (current + stmt.length)
        return ⟨head, width, action, offsets⟩ :: more
      else inRange none
  else return []
termination_by ts.length - current

/-! ### Looking inside a statement -/

@[simp]
theorem settled_ok (a : α) : settled (.ok a) = pure a := rfl

@[simp]
theorem inRange_some (a : α) : inRange (some a) = pure a := rfl

/-- Where a reading step fails, both ways of reading end; else both go on from what it gives. -/
theorem settled_bind {x : Except Diagnostic α} {f : α → Except Diagnostic γ} {g : α → β}
    {k : β → Look γ} (h : ∀ a, x = .ok a → k (g a) = settled (f a)) :
    (settled (x.map g) >>= k) = settled (x >>= f) := by
  cases x with
  | error d => rfl
  | ok a => exact h a rfl

section Inside

variable (body : List Token) (close : Token) (i : Nat)

theorem look_eq (hi : i ≤ body.length) :
    look (body ++ [close]) i = pure (peek close (body.drop i)) := by
  have hdrop : (body ++ [close]).drop i = body.drop i ++ [close] :=
    List.drop_append_of_le_length hi
  cases hrest : body.drop i with
  | nil =>
      rw [hrest] at hdrop
      rw [look, read_of_drop hdrop]
      rfl
  | cons t ts =>
      rw [hrest] at hdrop
      rw [look, read_of_drop hdrop]
      rfl

theorem tokenAt_eq : tokenAt (body ++ [close]) i = pure (peek close (body.drop i)) := by
  have hlength : (body ++ [close]).length = body.length + 1 := by simp
  rw [tokenAt]
  by_cases hi : i ≤ body.length
  · rw [if_neg (by omega), look_eq body close i hi]
  · have hlast : ((body ++ [close]).length : Int) - 1 = body.length := by omega
    have hend := look_eq body close body.length le_rfl
    rw [if_pos (by omega), hlast, List.drop_of_length_le (by omega)]
    simpa [look] using hend

theorem expect_eq (k : TokenKind) :
    expect (body ++ [close]) i k
      = settled ((Statement.expect close k (body.drop i)).map fun _ => ()) := by
  simp only [expect, tokenAt_eq, Statement.expect, pure_bind]
  split <;> rfl

theorem expect_name_eq :
    expect (body ++ [close]) i .identifier
      = settled ((takeName close (body.drop i)).map fun _ => ()) := by
  simp only [expect, tokenAt_eq, takeName, pure_bind]
  generalize peek close (body.drop i) = t
  rcases t with ⟨l, -⟩
  cases l <;> rfl

theorem value_eq :
    value (body ++ [close]) i = settled ((takeValue close (body.drop i)).map (·.1)) := by
  simp only [value, tokenAt_eq, takeValue, pure_bind]
  cases (peek close (body.drop i)).lexeme.operand? <;> rfl

theorem comparator_eq :
    comparator (body ++ [close]) i
      = settled ((takeComparator close (body.drop i)).map (·.1)) := by
  simp only [comparator, tokenAt_eq, takeComparator, pure_bind]
  cases (peek close (body.drop i)).lexeme.comparator? <;> rfl

theorem expect_end_bind (a : α) :
    (expect (body ++ [close]) i .endOfStatement >>= fun _ => pure a)
      = settled (takeEnd close (body.drop i) >>= fun _ => pure a) := by
  rw [expect_eq, takeEnd]
  cases Statement.expect close .endOfStatement (body.drop i) <;> rfl

variable {body close i}

theorem rest_of_expect {k : TokenKind} {ts : List Token}
    (h : Statement.expect close k (body.drop i) = .ok ts) : ts = body.drop (i + 1) := by
  simp only [Statement.expect, List.tail_drop] at h
  split at h
  · exact (Except.ok.inj h).symm
  · cases h

theorem rest_of_takeValue {v : Operand × Nat} {ts : List Token}
    (h : takeValue close (body.drop i) = .ok (v, ts)) : ts = body.drop (i + 1) := by
  simp only [takeValue, List.tail_drop] at h
  split at h
  · exact (Prod.mk.inj (Except.ok.inj h)).2.symm
  · cases h

theorem rest_of_takeComparator {op : Comparator} {ts : List Token}
    (h : takeComparator close (body.drop i) = .ok (op, ts)) : ts = body.drop (i + 1) := by
  simp only [takeComparator, List.tail_drop] at h
  split at h
  · exact (Prod.mk.inj (Except.ok.inj h)).2.symm
  · cases h

/-- A token that does not close the statement is found before its end. -/
theorem lt_of_peek (hclose : close.isEnd = true)
    (h : (peek close (body.drop i)).isEnd = false) : i < body.length := by
  by_contra hge
  rw [List.drop_of_length_le (Nat.not_lt.mp hge)] at h
  exact absurd (hclose.symm.trans h) (by decide)

/-- Where a name has been taken, a look finds it. -/
theorem look_of_takeName (hclose : close.isEnd = true) {name : Bytes} {ts : List Token}
    (h : takeName close (body.drop i) = .ok (name, ts)) :
    ts = body.drop (i + 1) ∧ i < body.length ∧
      ∃ t, look (body ++ [close]) i = pure t ∧ textOf t = name := by
  simp only [takeName, List.tail_drop] at h
  split at h
  · rename_i name' hl
    obtain ⟨rfl, rfl⟩ := Prod.mk.inj (Except.ok.inj h)
    have hlt : i < body.length := lt_of_peek hclose (by rw [Token.isEnd, hl]; rfl)
    exact ⟨rfl, hlt, _, look_eq body close i hlt.le, by rw [textOf, hl]⟩
  · cases h

theorem values_eq (hi : i ≤ body.length) :
    values (body ++ [close]) i = settled (takeValues close (body.drop i)) := by
  have hlength : ((body ++ [close]).length : Int) - 1 = body.length := by simp
  induction hrest : body.drop i generalizing i with
  | nil =>
      have hend := List.drop_eq_nil_iff.mp hrest
      rw [values, hlength, if_neg (by omega)]
      rfl
  | cons t ts ih =>
      have hlt : i < body.length := lt_of_drop hrest
      have hnext : body.drop (i + 1) = ts := drop_of_drop hrest 0
      rw [values, hlength, if_pos (by omega), takeValues, value_eq, hrest]
      refine settled_bind fun v _ => ?_
      rw [ih hlt hnext]
      cases takeValues close ts <;> rfl

/-! ### Shapes -/

variable (hclose : close.isEnd = true)
include hclose

theorem callTail_eq (body : List Token) (i : Nat) :
    callTail (body ++ [close]) i = settled (Statement.callTail close (body.drop i)) := by
  simp only [callTail, Statement.callTail, expectAll, Nat.add_assoc, Nat.reduceAdd, bind_assoc,
    pure_bind]
  rw [expect_eq]
  refine settled_bind fun ts hts => ?_
  obtain rfl := rest_of_expect hts
  rw [expect_name_eq]
  refine settled_bind ?_
  rintro ⟨name, ts⟩ hts
  obtain ⟨rfl, -, module, hmodule, rfl⟩ := look_of_takeName hclose hts
  rw [expect_eq]
  refine settled_bind fun ts hts => ?_
  obtain rfl := rest_of_expect hts
  rw [expect_name_eq]
  refine settled_bind ?_
  rintro ⟨name, ts⟩ hts
  obtain ⟨rfl, hlt, function, hfunction, rfl⟩ := look_of_takeName hclose hts
  -- the second name stands before the closing token, so the room for operands is not negative
  have hroom : room (((body ++ [close]).length : Int) - 1 - (i + 4 : Nat)) = some () := by
    rw [room, if_pos]
    rw [List.length_append, List.length_singleton]
    omega
  simp only [hmodule, hfunction, hroom, inRange_some, pure_bind, Nat.add_assoc, Nat.reduceAdd]
  rw [values_eq (i := i + 4) hlt]
  cases takeValues close (body.drop (i + 4)) <;> rfl

theorem call_eq : call (body ++ [close]) = settled (parseCall close body) := by
  have htail := callTail_eq hclose body 0
  rw [List.drop_zero] at htail
  rw [call, parseCall, htail]
  cases Statement.callTail close body <;> rfl

theorem goto_eq (hbody : Unclosed body) :
    goto (body ++ [close]) = settled (parseGoto close (body.drop 1)) := by
  rw [goto, parseGoto, expect_name_eq]
  refine settled_bind ?_
  rintro ⟨label, ts⟩ hts
  obtain ⟨rfl, hlt, name, hname, rfl⟩ := look_of_takeName hclose hts
  rw [hname, pure_bind, look_eq body close 2 hlt, pure_bind]
  -- the closing token stands at position two exactly if nothing follows the label
  cases hrest : body.drop (1 + 1) with
  | nil =>
      simp only [peek, List.headD_nil, hclose, if_true, List.isEmpty_nil]
      rfl
  | cons t ts =>
      have hopen : t.isEnd = false :=
        hbody t (List.mem_of_mem_drop (hrest ▸ List.mem_cons_self))
      simp only [peek, List.headD_cons, hopen, List.isEmpty_cons, Bool.false_eq_true, if_false]
      rw [← hrest, expect_eq]
      refine settled_bind fun ts hts => ?_
      obtain rfl := rest_of_expect hts
      rw [value_eq]
      refine settled_bind ?_
      rintro ⟨lhs, ts⟩ hts
      obtain rfl := rest_of_takeValue hts
      rw [comparator_eq]
      refine settled_bind ?_
      rintro ⟨op, ts⟩ hts
      obtain rfl := rest_of_takeComparator hts
      rw [value_eq]
      refine settled_bind ?_
      rintro ⟨rhs, ts⟩ hts
      obtain rfl := rest_of_takeValue hts
      exact expect_end_bind body close 6 _

end Inside

section Heads

variable {first close : Token} {ts : List Token}

theorem expect_head (close : Token) (ts : List Token) {k : TokenKind} (hfirst : first.kind = k) :
    expect (first :: ts ++ [close]) 0 k = pure () := by
  have hhead := expect_eq (first :: ts) close 0 k
  simpa [Statement.expect, peek, hfirst, Except.map] using hhead

/-- A word and a name, and nothing after them. -/
theorem wordThenName_eq (hclose : close.isEnd = true) {k : TokenKind} (hfirst : first.kind = k)
    (f : Bytes → Parsed) :
    (do
      expectAll (first :: ts ++ [close]) 0 [k, .identifier, .endOfStatement]
      let name ← look (first :: ts ++ [close]) 1
      return f (textOf name))
      = settled (do
        let (name, ts) ← takeName close ts
        takeEnd close ts
        return f name) := by
  simp only [expectAll, bind_assoc, expect_head close ts hfirst, pure_bind, Nat.zero_add]
  rw [expect_name_eq]
  refine settled_bind ?_
  rintro ⟨label, rest⟩ hrest
  obtain ⟨rfl, -, name, hname, rfl⟩ := look_of_takeName hclose hrest
  rw [hname]
  simp only [pure_bind]
  exact expect_end_bind (first :: ts) close 2 _

theorem ret_eq (hfirst : first.kind = .mark .retWord) :
    ret (first :: ts ++ [close]) = settled (parseRet close ts) := by
  simp only [ret, expectAll, bind_assoc, expect_head close ts hfirst, pure_bind, Nat.zero_add]
  exact expect_end_bind (first :: ts) close 1 _

/-- `VALUE` from position two on. -/
theorem literal_eq (body : List Token) (close : Token) (name : Bytes) :
    (do
      let v ← value (body ++ [close]) 2
      expect (body ++ [close]) 3 .endOfStatement
      return (Action.assign name v.1, [v.2]))
      = settled (do
        let (v, ts) ← takeValue close (body.drop 2)
        takeEnd close ts
        return (.assign name v.1, [v.2])) := by
  rw [value_eq]
  refine settled_bind ?_
  rintro ⟨v, rest⟩ hrest
  obtain rfl := rest_of_takeValue hrest
  exact expect_end_bind body close 3 _

/-- `VALUE OP VALUE` from position two on. -/
theorem compute_eq (body : List Token) (close : Token) (name : Bytes) (op : Operator) :
    (do
      let lhs ← value (body ++ [close]) 2
      let rhs ← value (body ++ [close]) 4
      expect (body ++ [close]) 5 .endOfStatement
      return (Action.compute name op lhs.1 rhs.1, [lhs.2, rhs.2]))
      = settled (do
        let (lhs, _) ← takeValue close (body.drop 2)
        let (rhs, ts) ← takeValue close (body.drop 4)
        takeEnd close ts
        return (.compute name op lhs.1 rhs.1, [lhs.2, rhs.2])) := by
  rw [value_eq]
  refine settled_bind ?_
  rintro ⟨lhs, _⟩ _
  rw [value_eq]
  refine settled_bind ?_
  rintro ⟨rhs, rest⟩ hrest
  obtain rfl := rest_of_takeValue hrest
  exact expect_end_bind body close 5 _

theorem assign_eq (hclose : close.isEnd = true) {name : Bytes}
    (hfirst : first.lexeme = .identifier name) :
    assign (first :: ts ++ [close]) = settled (parseAssign close name ts) := by
  have hname : textOf first = name := by rw [textOf, hfirst]
  have hhead : look (first :: ts ++ [close]) 0 = pure first :=
    look_eq (first :: ts) close 0 (Nat.zero_le _)
  have hliteral := literal_eq (first :: ts) close name
  rw [assign, parseAssign, expect_eq]
  refine settled_bind fun rest hrest => ?_
  obtain rfl := rest_of_expect hrest
  have hlength : (first :: ts ++ [close]).length = ts.length + 2 := by simp
  have hcount : ((first :: ts).drop (1 + 1)).length = ts.length - 1 := by simp
  rw [hhead, hlength]
  simp only [pure_bind, hname]
  rcases hmore : (first :: ts).drop (1 + 1) with _ | ⟨t, _ | ⟨u, more⟩⟩
  · rw [hmore, List.length_nil] at hcount
    rw [hmore] at hliteral
    rw [if_pos (by omega)]
    exact hliteral
  · rw [hmore, List.length_singleton] at hcount
    rw [hmore] at hliteral
    rw [if_pos (by omega)]
    exact hliteral
  · rw [hmore, List.length_cons, List.length_cons] at hcount
    have hle : 3 ≤ (first :: ts).length := by
      rw [List.length_cons]
      omega
    have hthird := look_eq (first :: ts) close 3 hle
    have hfourth : (first :: ts).drop 3 = u :: more := drop_of_drop hmore 0
    have hfifth : (first :: ts).drop 4 = more := drop_of_drop hfourth 0
    have hcompute := compute_eq (first :: ts) close name
    have htail := callTail_eq hclose (first :: ts) 2
    rw [hfourth] at hthird
    rw [hmore] at htail hcompute
    rw [hfifth] at hcompute
    rw [if_neg (by omega), hthird]
    simp only [pure_bind, peek, List.headD_cons]
    cases hop : u.lexeme.operator? with
    | some op => exact hcompute op
    | none =>
        rw [htail]
        cases Statement.callTail close (t :: u :: more) <;> rfl

/-- The shape that the first token decides on is read alike. -/
theorem action_eq (hclose : close.isEnd = true) (hbody : Unclosed (first :: ts)) :
    action (first :: ts ++ [close]) = settled (parseAction close first ts) := by
  have hhead : look (first :: ts ++ [close]) 0 = pure first :=
    look_eq (first :: ts) close 0 (Nat.zero_le _)
  have hkind {l : Lexeme} (hl : first.lexeme = l) : first.kind = l.kind := congrArg Lexeme.kind hl
  rw [action, parseAction, hhead]
  simp only [pure_bind]
  cases hl : first.lexeme with
  | identifier name => exact assign_eq hclose hl
  | mark m =>
      cases m with
      | tilde => exact wordThenName_eq hclose (hkind hl) fun name => (.label name, [])
      | atSign => exact call_eq hclose
      | gotoWord => exact goto_eq hclose hbody
      | callWord => exact wordThenName_eq hclose (hkind hl) fun name => (.callLabel name, [])
      | retWord => exact ret_eq (hkind hl)
      | _ => rfl
  | _ => rfl

theorem lineEnd_eq (hclose : close.isEnd = true) (hts : Unclosed ts) (first : Token) (line : Nat) :
    lineEnd line (first.offset + first.width) (ts ++ [close])
      = ((ts.takeWhile (·.line == line)).getLastD first).offset
        + ((ts.takeWhile (·.line == line)).getLastD first).width := by
  induction ts generalizing first with
  | nil => simp [lineEnd, hclose]
  | cons t ts ih =>
      by_cases hline : t.line = line
      · simp [lineEnd, hts.head, hline, ih hts.tail, List.getLast?_cons]
      · simp [lineEnd, hline]

theorem source_eq (hclose : close.isEnd = true) (hts : Unclosed ts) :
    source (first :: ts ++ [close]) = pure (first, spanEnd first ts - first.offset) := by
  have hhead := look_eq (first :: ts) close 0 (Nat.zero_le _)
  have hslice : slice (first :: ts ++ [close]) 1 (first :: ts ++ [close]).length
      = some (ts ++ [close]) := slice_to_end (i := 1) (Nat.succ_le_succ (Nat.zero_le _))
  rw [source, hhead]
  simp only [pure_bind, hslice, inRange_some, List.drop_zero, peek, List.headD_cons,
    lineEnd_eq hclose hts, spanEnd]

end Heads

/-! ### Programs -/

section Programs

variable {tokens body rest : List Token} {close : Token} {i : Nat}

theorem closing_unclosed (hbody : Unclosed body) (hdrop : tokens.drop i = body) :
    closing tokens i = pure none := by
  induction body generalizing i with
  | nil =>
      have hend := List.drop_eq_nil_iff.mp hdrop
      rw [closing, if_neg (by omega)]
  | cons t body ih =>
      have hread := read_of_drop hdrop
      rw [closing, if_pos (lt_of_drop hdrop), look, hread, inRange_some]
      simp [hbody.head, ih hbody.tail (drop_of_drop hdrop 0)]

theorem closing_closed (hbody : Unclosed body) (hclose : close.isEnd = true)
    (hdrop : tokens.drop i = body ++ close :: rest) :
    closing tokens i = pure (some (i + body.length)) := by
  induction body generalizing i with
  | nil =>
      have hread := read_of_drop hdrop
      rw [closing, if_pos (lt_of_drop hdrop), look, hread, inRange_some]
      simp [hclose]
  | cons t body ih =>
      have hread := read_of_drop hdrop
      rw [closing, if_pos (lt_of_drop hdrop), look, hread, inRange_some]
      simp [hbody.head, ih hbody.tail (drop_of_drop hdrop 0), Nat.add_assoc, Nat.add_comm 1]

theorem statement_closed (hbody : Unclosed body) (hclose : close.isEnd = true)
    (hdrop : tokens.drop i = body ++ close :: rest) :
    statement tokens i = pure (body ++ [close]) := by
  have hslice : slice tokens i (i + body.length + 1 : Nat) = some (body ++ [close]) := by
    have hlength := congrArg List.length hdrop
    rw [List.length_drop, List.length_append, List.length_cons] at hlength
    rw [slice_of_le (by omega) (by omega), hdrop, Nat.add_assoc, Nat.add_sub_cancel_left,
      List.append_cons]
    exact congrArg some (List.take_left' (by simp))
  push_cast at hslice
  simp [statement, closing_closed hbody hclose hdrop, hslice]

theorem program_eq (tokens : List Token) (i : Nat) :
    program tokens i = settled (parse (tokens.drop i)) := by
  generalize hdrop : tokens.drop i = ts
  induction ts using run_induction generalizing i with
  | unclosed body hbody =>
      cases body with
      | nil =>
          have hend := List.drop_eq_nil_iff.mp hdrop
          rw [program, if_neg (by omega), parse]
          rfl
      | cons first body =>
          have hlook : look tokens i = pure first := by rw [look, read_of_drop hdrop, inRange_some]
          rw [program, if_pos (lt_of_drop hdrop), hlook, parse_unclosed hbody]
          simp only [statement, closing_unclosed hbody hdrop, hlook, pure_bind, hbody.head,
            Bool.false_eq_true, if_false]
          rfl
  | closed body close rest hbody hclose ih =>
      cases body with
      | nil =>
          have hlook : look tokens i = pure close := by rw [look, read_of_drop hdrop, inRange_some]
          rw [program, if_pos (lt_of_drop hdrop), hlook]
          simp [hclose, ih _ (drop_of_drop hdrop 0), parse_cons_of_isEnd hclose]
      | cons first body =>
          have hlook : look tokens i = pure first := by rw [look, read_of_drop hdrop, inRange_some]
          have hstatement := statement_closed hbody hclose hdrop
          have hafter : tokens.drop (i + (first :: body ++ [close]).length) = rest := by
            rw [← List.drop_drop, hdrop, List.append_cons (first :: body) close rest]
            exact List.drop_left' rfl
          have hmore := ih _ hafter
          have hpositive : 0 < (first :: body ++ [close]).length := by simp
          rw [program, if_pos (lt_of_drop hdrop), hlook, parse_closed hbody hclose, pure_bind,
            if_neg hbody.not_isEnd, hstatement, pure_bind, action_eq hclose hbody, ofTokens]
          cases parseAction close first body with
          | error d => rfl
          | ok parsed =>
              simp only [settled_ok, pure_bind, source_eq hclose hbody.tail, hpositive, hmore,
                ok_bind]
              cases parse rest <;> rfl

/-- All tokens are read as parsing reads them, and no position is looked at that is not there. -/
theorem program_zero (tokens : List Token) : (program tokens 0).run = some (parse tokens) :=
  congrArg ExceptT.run (program_eq tokens 0)

end Programs

end Shape

/-- The name of the class with a given code, taken out of the list of classes by position. -/
def TokenKind.nameAt (n : Nat) : Option Bytes :=
  if n < all.length then (Position.read all n).map name
  else some (text "Kind(" ++ Bytes.ofNat n ++ text ")")

theorem TokenKind.nameAt_eq (n : Nat) : nameAt n = some (nameOfCode n) := by
  rw [nameAt, nameOfCode]
  by_cases hn : n < all.length
  · simp [hn, Position.read]
  · simp [hn]

/-- No position is looked at that is not there.  Scanning by positions gives, in every state that a
scanner gets into, what the cursor at its place gives, so it gives the tokens of every source.
Reading statements at positions gives, for every list of tokens, what parsing gives.  The name of a
class is found for every code. -/
theorem front_end_looks_only_inside :
    (∀ source : Bytes, (Head.start source).cursor = Cursor.start source) ∧
    (∀ (h : Head) (file : Bytes), h.Reachable →
      ∃ h', h.next file = some (h', (h.cursor.next file).2) ∧
        h'.cursor = (h.cursor.next file).1) ∧
    (∀ file source : Bytes,
      (Head.start source).Scans file (scan file source).1 (scan file source).2) ∧
    (∀ tokens : List Token, (Shape.program tokens 0).run = some (parse tokens)) ∧
    (∀ n : Nat, TokenKind.nameAt n = some (TokenKind.nameOfCode n)) := by
  refine ⟨fun _ => rfl, ?_, Head.scans_start, Shape.program_zero, TokenKind.nameAt_eq⟩
  intro h file hh
  obtain ⟨h', hnext, -, hcursor⟩ := Head.next_eq file hh.inside
  exact ⟨h', hnext, hcursor⟩

/-- After a string over two lines, a number that runs into a letter. -/
theorem front_end_looks_only_inside_afterString :
    ∃ h : Head, h.Reachable ∧
      h.cursor = ⟨text " 12x", 5, 2, 3, text "b\" 12x"⟩ ∧
      ∃ h' d, h.next (text "main") = some (h', .error d) ∧
        d.message = text "unexpected character 'x' in numeric literal" ∧ d.offset = 8 := by
  obtain ⟨h, hnext, -, hcursor⟩ :=
    Head.next_eq (text "main") (Head.Reachable.start (text "\"a\nb\" 12x")).inside
  have hreachable : h.Reachable := .next (.start _) hnext
  have hplace : h.cursor = ⟨text " 12x", 5, 2, 3, text "b\" 12x"⟩ := by
    rw [hcursor]
    decide +kernel
  obtain ⟨h', hfault, -⟩ := front_end_looks_only_inside.2.1 h (text "main") hreachable
  rw [hplace] at hfault
  exact ⟨h, hreachable, hplace, h', _, hfault, by decide +kernel, by decide +kernel⟩

end JumpScript
