import Mathlib.Logic.ExistsUnique
import JumpScript.Library.Native
import JumpScript.Proofs.Outcomes
import JumpScript.Proofs.Text.Pieces

/-!
# Formats

A format is cut at its placeholders, from the left, into the texts around them.  That can be done in
one way only, and it decides what formatting gives: the placeholders are replaced one by one, those
left over stay, and arguments left over are refused.  What a replacement says plays no part in it.

The recursion takes a placeholder and an argument at a time.  `fillPlaceholders_written` follows it
down the pieces, for any number of either.
-/

namespace JumpScript

/-- A format in pieces: the text before the first placeholder and the text after each one, with no
placeholder in any of them. -/
@[ext]
structure Format where
  first : Bytes
  rest : List Bytes
  bare : ∀ p ∈ first :: rest, ¬ placeholder <:+: p

/-- A format written out of its pieces. -/
def written (first : Bytes) (rest : List Bytes) : Bytes :=
  first ++ (rest.map (placeholder ++ ·)).flatten

/-- A format with its placeholders replaced from the left; those left over stay. -/
def replaced (first : Bytes) (rest : List Bytes) (texts : List Bytes) : Bytes :=
  first ++ (List.zipWith (· ++ ·) texts rest).flatten
    ++ ((rest.drop texts.length).map (placeholder ++ ·)).flatten

variable {p q : Bytes} {first : Bytes} {rest : List Bytes}

theorem placeholder_eq : placeholder = [0x7B, 0x7D] := by
  decide

theorem written_cons (first q : Bytes) (rest : List Bytes) :
    written first (q :: rest) = first ++ placeholder ++ written q rest := by
  simp [written]

/-- A placeholder does not begin inside a text that has none and stands before another one. -/
theorem cut?_placeholder (hp : ¬ placeholder <:+: p) (t : Bytes) :
    Bytes.cut? placeholder (p ++ placeholder ++ t) = some (p, t) := by
  induction p with
  | nil => rfl
  | cons c p ih =>
      rw [List.infix_cons_iff, not_or] at hp
      have hhead : placeholder.isPrefixOf (c :: (p ++ placeholder ++ t)) = false := by
        rw [← Bool.not_eq_true, List.isPrefixOf_iff_prefix]
        -- its second byte is that of the text, or the first one of the other placeholder
        cases p with
        | nil => simp [placeholder_eq]
        | cons d p => simpa [placeholder_eq] using hp.1
      rw [List.cons_append, List.cons_append, Bytes.cut?, hhead, ih hp.2]
      rfl

theorem cut?_written_nil (h : ¬ placeholder <:+: first) :
    Bytes.cut? placeholder (written first []) = none := by
  have hwritten : written first [] = first := by simp [written]
  rw [hwritten, Bytes.cut?_eq_none_iff]
  exact h

theorem cut?_written_cons (h : ¬ placeholder <:+: first) (q : Bytes) (rest : List Bytes) :
    Bytes.cut? placeholder (written first (q :: rest)) = some (first, written q rest) := by
  rw [written_cons, cut?_placeholder h]

/-- Pieces without placeholders are found again. -/
theorem written_injective {first' : Bytes} {rest' : List Bytes}
    (h : ∀ p ∈ first :: rest, ¬ placeholder <:+: p)
    (h' : ∀ p ∈ first' :: rest', ¬ placeholder <:+: p)
    (heq : written first rest = written first' rest') : first = first' ∧ rest = rest' := by
  rw [List.forall_mem_cons] at h h'
  induction rest generalizing first first' rest' with
  | nil =>
      cases rest' with
      | nil => exact ⟨by simpa [written] using heq, rfl⟩
      | cons q' rest' =>
          have hcut := cut?_written_cons h'.1 q' rest'
          rw [← heq, cut?_written_nil h.1] at hcut
          cases hcut
  | cons q rest ih =>
      have hcut := cut?_written_cons h.1 q rest
      cases rest' with
      | nil =>
          rw [heq, cut?_written_nil h'.1] at hcut
          cases hcut
      | cons q' rest' =>
          rw [heq, cut?_written_cons h'.1] at hcut
          obtain ⟨rfl, htail⟩ := Prod.mk.inj (Option.some.inj hcut)
          obtain ⟨rfl, rfl⟩ := ih (List.forall_mem_cons.mp h.2) (List.forall_mem_cons.mp h'.2)
            htail.symm
          exact ⟨rfl, rfl⟩

theorem exists_written (format : Bytes) : ∃ first rest,
    (∀ p ∈ first :: rest, ¬ placeholder <:+: p) ∧ written first rest = format := by
  cases hcut : Bytes.cut? placeholder format with
  | none =>
      refine ⟨format, [], ?_, by simp [written]⟩
      exact List.forall_mem_singleton.mpr (Bytes.cut?_eq_none_iff.mp hcut)
  | some sides =>
      obtain ⟨a, b⟩ := sides
      have hne : placeholder ≠ [] := by decide
      have hlt : b.length < format.length := Bytes.length_lt_of_cut? hne hcut
      obtain ⟨q, rest, hbare, hb⟩ := exists_written b
      refine ⟨a, q :: rest, List.forall_mem_cons.mpr ⟨Bytes.not_infix_of_cut? hne hcut, hbare⟩, ?_⟩
      rw [written_cons, hb, ← Bytes.eq_of_cut? hcut]
termination_by format.length

/-- Every format is written out of pieces, and of no others. -/
theorem Format.existsUnique (format : Bytes) :
    ∃! f : Format, written f.first f.rest = format := by
  obtain ⟨first, rest, hbare, hwritten⟩ := exists_written format
  refine ⟨⟨first, rest, hbare⟩, hwritten, fun f hf => ?_⟩
  obtain ⟨hfirst, hrest⟩ := written_injective f.bare hbare (hf.trans hwritten.symm)
  exact Format.ext hfirst hrest

theorem replaced_cons (first q a : Bytes) (rest as : List Bytes) :
    replaced first (q :: rest) (a :: as) = first ++ a ++ replaced q rest as := by
  simp [replaced]

/-- Placeholders and texts are used up side by side. -/
theorem fillPlaceholders_written (h : ∀ p ∈ first :: rest, ¬ placeholder <:+: p)
    (texts : List Bytes) :
    fillPlaceholders (written first rest) texts
      = (replaced first rest texts, texts.length - rest.length) := by
  rw [List.forall_mem_cons] at h
  induction texts generalizing first rest with
  | nil => simp [fillPlaceholders, written, replaced]
  | cons a as ih =>
      cases rest with
      | nil =>
          rw [fillPlaceholders, cut?_written_nil h.1]
          simp [written, replaced]
      | cons q rest =>
          rw [fillPlaceholders, cut?_written_cons h.1]
          simp only [ih (List.forall_mem_cons.mp h.2), replaced_cons, List.length_cons,
            Nat.add_sub_add_right]

namespace StreamFunction

/-- A format takes as many arguments as it has placeholders, or fewer. -/
theorem formatted_written (f : Format) (σ : Heap) (args : List Value) :
    formatted σ (.str (written f.first f.rest) :: args) =
      if args.length ≤ f.rest.length then .ok (replaced f.first f.rest (args.map σ.text))
      else .error (.unusedArguments (args.length - f.rest.length)) := by
  have hfill := fillPlaceholders_written f.bare (args.map σ.text)
  rw [List.length_map] at hfill
  simp only [formatted, Value.asString, ok_bind, hfill]
  by_cases hle : args.length ≤ f.rest.length
  · rw [if_pos hle, Nat.sub_eq_zero_of_le hle]
    rfl
  · obtain ⟨n, hn⟩ : ∃ n, args.length - f.rest.length = n + 1 :=
      ⟨args.length - f.rest.length - 1, by omega⟩
    rw [if_neg hle, hn]
    rfl

end StreamFunction

namespace Machine

variable {ν : Type}

theorem printed_print (m : Machine ν) (s : Bytes) : (m.print s).printed = m.printed ++ s := by
  simp [print, printed]

end Machine

namespace Native

open StreamFunction (formatted)

variable {ν : Type} (caller : Caller ν) (names : List Bytes) (m : Machine ν)

theorem run_showFormat (args : List Value) :
    run caller (.stream .showFormat) names args m
      = (m, ((formatted m.heap args).map .str).mapError .fault) := by
  change onMachine m (do return (m, .str (← formatted m.heap args))) = _
  cases formatted m.heap args <;> rfl

/-- Printing a format prints what showing it gives, and fails just when that does. -/
theorem run_printFormat_cases (args : List Value) :
    (∃ s, formatted m.heap args = .ok s ∧
      run caller (.stream .printFormat) names args m = (m.print s, .ok .void)) ∨
    ∃ e, formatted m.heap args = .error e ∧
      run caller (.stream .printFormat) names args m = (m, .error (.fault e)) := by
  have hrun : run caller (.stream .printFormat) names args m
      = onMachine m (do return (m.print (← formatted m.heap args), .void)) := rfl
  rw [hrun]
  cases formatted m.heap args with
  | ok s => exact .inl ⟨s, rfl, rfl⟩
  | error e => exact .inr ⟨e, rfl, rfl⟩

/-- Formatting is exact.  A format is written out of pieces around its placeholders in one way only.
With no more arguments than placeholders the text of each argument takes the place of one, from the
left, and all else stays as it is, placeholders in these texts included; with more arguments
formatting fails and tells how many were left over.  Printing a format appends just what is shown
for the same arguments, whatever they are, and where nothing is shown it fails in the same way and
changes nothing. -/
theorem formatting_is_exact (format : Bytes) :
    (∃! f : Format, written f.first f.rest = format) ∧
    (∀ f : Format, written f.first f.rest = format → ∀ args : List Value,
      (args.length ≤ f.rest.length →
        run caller (.stream .showFormat) names (.str format :: args) m
          = (m, .ok (.str (replaced f.first f.rest (args.map m.heap.text))))) ∧
      (f.rest.length < args.length →
        run caller (.stream .showFormat) names (.str format :: args) m
          = (m, .error (.fault (.unusedArguments (args.length - f.rest.length)))))) ∧
    (∀ args : List Value,
      (∃ s, run caller (.stream .showFormat) names args m = (m, .ok (.str s)) ∧
        run caller (.stream .printFormat) names args m = (m.print s, .ok .void) ∧
        (m.print s).printed = m.printed ++ s) ∨
      ∃ e, run caller (.stream .showFormat) names args m = (m, .error e) ∧
        run caller (.stream .printFormat) names args m = (m, .error e)) := by
  refine ⟨Format.existsUnique format, ?_, fun args => ?_⟩
  · rintro f rfl args
    rw [run_showFormat, StreamFunction.formatted_written]
    refine ⟨fun hle => ?_, fun hlt => ?_⟩
    · rw [if_pos hle]
      rfl
    · rw [if_neg (Nat.not_le_of_gt hlt)]
      rfl
  · rw [run_showFormat]
    obtain ⟨s, hs, hprint⟩ | ⟨e, he, hprint⟩ := run_printFormat_cases caller names m args
    · exact .inl ⟨s, by rw [hs]; rfl, hprint, m.printed_print s⟩
    · exact .inr ⟨.fault e, by rw [he]; rfl, hprint⟩

def braced : Format where
  first := text "\x7b"
  rest := [text "\x7d", text ""]
  bare := by decide

def prompting : Machine Native := { program := #[], output := [text "> "] }

theorem formatting_is_exact_braced :
    written braced.first braced.rest = text "\x7b\x7b\x7d\x7d\x7b\x7d" ∧
      (∃ m, run (Machine.call host) (.stream .printFormat) []
          [.str (text "\x7b\x7b\x7d\x7d\x7b\x7d"), .str (text "\x7b\x7d"), .int 7] prompting
            = (m, .ok .void) ∧
        m.printed = text "> \x7b\x7b\x7d\x7d7") ∧
      run (Machine.call host) (.stream .printFormat) []
          [.str (text "\x7b\x7b\x7d\x7d\x7b\x7d"), .int 1, .int 2, .int 3, .int 4] prompting
        = (prompting, .error (.fault (.unusedArguments 2))) := by
  have hwritten : written braced.first braced.rest = text "\x7b\x7b\x7d\x7d\x7b\x7d" := by decide
  obtain ⟨-, hshow, hprint⟩ := formatting_is_exact (Machine.call host) [] prompting
    (text "\x7b\x7b\x7d\x7d\x7b\x7d")
  refine ⟨hwritten, ?_, ?_⟩
  · have hfits := (hshow braced hwritten [.str (text "\x7b\x7d"), .int 7]).1 (by decide)
    obtain ⟨s, hs, hrun, hprinted⟩ | ⟨e, he, -⟩ :=
      hprint [.str (text "\x7b\x7b\x7d\x7d\x7b\x7d"), .str (text "\x7b\x7d"), .int 7]
    · rw [hfits] at hs
      cases hs
      exact ⟨_, hrun, hprinted.trans (by decide +kernel)⟩
    · rw [hfits] at he
      cases he
  · have hfails := (hshow braced hwritten [.int 1, .int 2, .int 3, .int 4]).2 (by decide)
    obtain ⟨s, hs, -⟩ | ⟨e, he, hrun⟩ :=
      hprint [.str (text "\x7b\x7b\x7d\x7d\x7b\x7d"), .int 1, .int 2, .int 3, .int 4]
    · rw [hfails] at hs
      cases hs
    · rw [hfails] at he
      cases he
      exact hrun

end Native

end JumpScript
