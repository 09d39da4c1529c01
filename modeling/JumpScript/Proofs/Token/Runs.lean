import JumpScript.Token.Import

/-!
# Runs of tokens

A token list is an open run, or a closed run followed by a token list.  Cutting follows this
reading, and facts about cut lists are proved along it.
-/

namespace JumpScript

theorem isEnd_of_lexeme {t : Token} (h : t.lexeme = .endOfStatement) : t.isEnd = true := by
  rw [Token.isEnd, h]
  rfl

theorem lexeme_eq_of_isEnd {t u : Token} (ht : t.isEnd = true) (hu : u.isEnd = true) :
    t.lexeme = u.lexeme :=
  (eq_of_beq ht).trans (eq_of_beq hu).symm

/-- No token of a list closes a statement. -/
def Unclosed (ts : List Token) : Prop := ∀ t ∈ ts, t.isEnd = false

theorem unclosed_nil : Unclosed [] := by
  intro t ht
  cases ht

theorem Unclosed.cons {t : Token} {ts : List Token} (ht : t.isEnd = false)
    (hts : Unclosed ts) : Unclosed (t :: ts) := by
  intro u hu
  rcases List.mem_cons.mp hu with rfl | hu
  · exact ht
  · exact hts u hu

theorem Unclosed.head {t : Token} {ts : List Token} (h : Unclosed (t :: ts)) :
    t.isEnd = false :=
  h t List.mem_cons_self

theorem Unclosed.not_isEnd {t : Token} {ts : List Token} (h : Unclosed (t :: ts)) :
    ¬ t.isEnd = true := by
  rw [h.head]
  exact Bool.false_ne_true

theorem Unclosed.tail {t : Token} {ts : List Token} (h : Unclosed (t :: ts)) :
    Unclosed ts :=
  fun u hu => h u (List.mem_cons_of_mem t hu)

/-- Every token list is an open run, or a closed run followed by a token list. -/
theorem unclosed_or_closed (ts : List Token) :
    Unclosed ts ∨ ∃ body close rest,
      ts = body ++ close :: rest ∧ Unclosed body ∧ close.isEnd = true := by
  induction ts with
  | nil => exact Or.inl unclosed_nil
  | cons t ts ih =>
      by_cases ht : t.isEnd = true
      · exact Or.inr ⟨[], t, ts, rfl, unclosed_nil, ht⟩
      · have hopen : t.isEnd = false := by simpa using ht
        rcases ih with hts | ⟨body, close, rest, rfl, hbody, hclose⟩
        · exact Or.inl (hts.cons hopen)
        · exact Or.inr ⟨t :: body, close, rest, rfl, hbody.cons hopen, hclose⟩

/-- Induction along the runs of a token list. -/
@[elab_as_elim]
theorem run_induction {motive : List Token → Prop}
    (unclosed : ∀ body, Unclosed body → motive body)
    (closed : ∀ body close rest, Unclosed body → close.isEnd = true → motive rest →
      motive (body ++ close :: rest))
    (ts : List Token) : motive ts := by
  rcases unclosed_or_closed ts with hts | ⟨body, close, rest, hcons, hbody, hclose⟩
  · exact unclosed ts hts
  · have hlt : rest.length < ts.length := by
      rw [hcons, List.length_append, List.length_cons]
      omega
    rw [hcons]
    exact closed body close rest hbody hclose (run_induction unclosed closed rest)
termination_by ts.length

namespace TokenRun

theorem cut_unclosed {body : List Token} (hbody : Unclosed body) :
    cut body = [⟨body, none⟩] := by
  induction body with
  | nil => rfl
  | cons t ts ih =>
      rw [cut, if_neg hbody.not_isEnd, ih hbody.tail]

theorem cut_closed {body : List Token} {close : Token} (hbody : Unclosed body)
    (hclose : close.isEnd = true) (rest : List Token) :
    cut (body ++ close :: rest) = ⟨body, some close⟩ :: cut rest := by
  induction body with
  | nil => rw [List.nil_append, cut, if_pos hclose]
  | cons t ts ih =>
      rw [List.cons_append, cut, if_neg hbody.not_isEnd,
        ih hbody.tail]

/-- The tokens of a run with the one that closes it. -/
def tokens (r : TokenRun) : List Token := r.body ++ r.close.toList

/-- Cutting drops no token and moves none. -/
theorem flatMap_tokens_cut (ts : List Token) : (cut ts).flatMap tokens = ts := by
  induction ts using run_induction with
  | unclosed body hbody => simp [cut_unclosed hbody, tokens]
  | closed body close rest hbody hclose ih => simp [cut_closed hbody hclose, ih, tokens]

/-- A run of a cut list is closed by an end of statement, if at all, and holds no other. -/
theorem unclosed_of_mem_cut {ts : List Token} {r : TokenRun} (hr : r ∈ cut ts) :
    Unclosed r.body ∧ ∀ t ∈ r.close, t.isEnd = true := by
  induction ts using run_induction with
  | unclosed body hbody =>
      rw [cut_unclosed hbody, List.mem_singleton] at hr
      subst hr
      exact ⟨hbody, by simp⟩
  | closed body close rest hbody hclose ih =>
      rw [cut_closed hbody hclose] at hr
      rcases List.mem_cons.mp hr with rfl | hr
      · exact ⟨hbody, by simpa using hclose⟩
      · exact ih hr

end TokenRun

end JumpScript
