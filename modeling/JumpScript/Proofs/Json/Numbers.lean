import Mathlib.Data.List.TakeDrop
import Mathlib.Data.List.TakeWhile
import JumpScript.Json.Read
import JumpScript.Proofs.Number.Digits
import JumpScript.Proofs.Text.Utf8

/-!
# Numbers in documents

A number is read up to the first code point that does not continue it, and keeps its spelling.  So a
numeral that is read as itself is read as itself in front of whatever does not continue a number.
The numerals of integers are of that kind.
-/

namespace JumpScript.Json

variable {s r rest ds : Points} {n : Bytes}

/-- A text that does not go on with a number. -/
def Ends (rest : Points) : Prop :=
  ∀ c ∈ rest.head?, isDigit c = false ∧ c ≠ 0x2E ∧ c ≠ 0x65 ∧ c ≠ 0x45

theorem ends_nil : Ends [] := by simp [Ends]

theorem span_append_of_ends (hrest : Ends rest) (s : Points) :
    (s ++ rest).span isDigit = ((s.span isDigit).1, (s.span isDigit).2 ++ rest) := by
  simp only [List.span_eq_takeWhile_dropWhile]
  induction s with
  | nil =>
      cases rest with
      | nil => rfl
      | cons c rest =>
          have hc := (hrest c rfl).1
          simp [hc]
  | cons c s ih =>
      rw [Prod.mk.injEq] at ih
      rw [List.cons_append, List.takeWhile_cons, List.dropWhile_cons, List.takeWhile_cons,
        List.dropWhile_cons, ih.1, ih.2]
      split <;> rfl

theorem readDigits_append (hrest : Ends rest) (h : readDigits s = some (ds, r)) :
    readDigits (s ++ rest) = some (ds, r ++ rest) := by
  rw [readDigits] at h ⊢
  rw [span_append_of_ends hrest]
  split at h
  next => cases h
  next p hne =>
    have hp : s.span isDigit = (ds, r) := Option.some.inj h
    rw [hp] at hne ⊢
    split
    next heq =>
      have hnil : ds = [] := congrArg Prod.fst heq
      exact absurd (by rw [hnil]) (hne r)
    next => rfl

theorem readWhole_append (hrest : Ends rest) (h : readWhole s = some (ds, r)) :
    readWhole (s ++ rest) = some (ds, r ++ rest) := by
  unfold readWhole at h
  split at h
  next r' =>
    cases h
    rfl
  next hzero =>
    rw [readWhole]
    · exact readDigits_append hrest h
    · intro r' heq
      cases s with
      | nil => cases h
      | cons c s => exact hzero s (by rw [(List.cons.inj heq).1])

theorem readFraction_append (hrest : Ends rest) (h : readFraction s = some (ds, r)) :
    readFraction (s ++ rest) = some (ds, r ++ rest) := by
  unfold readFraction at h
  split at h
  next t =>
    obtain ⟨⟨es, r'⟩, hdigits, heq⟩ := Option.bind_eq_some_iff.mp h
    cases heq
    change (readDigits (t ++ rest)).bind _ = _
    rw [readDigits_append hrest hdigits]
    rfl
  next hpoint =>
    cases h
    rw [readFraction]
    intro t heq
    cases s with
    | nil => exact (hrest 0x2E (by simp at heq; simp [heq])).2.1 rfl
    | cons c s => exact hpoint s (by rw [(List.cons.inj heq).1])

theorem readExponent_append (hrest : Ends rest) (h : readExponent s = some (ds, r)) :
    readExponent (s ++ rest) = some (ds, r ++ rest) := by
  cases s with
  | nil =>
      cases h
      cases rest with
      | nil => rfl
      | cons c rest =>
          have hc := (hrest c rfl).2.2
          simp [readExponent, hc]
  | cons e s =>
      rw [List.cons_append]
      unfold readExponent at h ⊢
      dsimp only at h ⊢
      split at h
      next hexp =>
        rw [if_pos hexp]
        cases s with
        | nil => cases h
        | cons sign t =>
            dsimp only [List.cons_append] at h ⊢
            split at h
            next hsign =>
              rw [if_pos hsign]
              obtain ⟨⟨es, r'⟩, hdigits, heq⟩ := Option.bind_eq_some_iff.mp h
              cases heq
              rw [readDigits_append hrest hdigits]
              rfl
            next hsign =>
              rw [if_neg hsign]
              obtain ⟨⟨es, r'⟩, hdigits, heq⟩ := Option.bind_eq_some_iff.mp h
              cases heq
              rw [← List.cons_append, readDigits_append hrest hdigits]
              rfl
      next hexp =>
        cases h
        rw [if_neg hexp]
        rfl

/-- The sign of a number and what follows it. -/
def signed (s : Points) : Points × Points :=
  match s with
  | 0x2D :: r => ([0x2D], r)
  | _ => ([], s)

theorem signed_of_ne {c : Nat} (hc : c ≠ 0x2D) (s : Points) : signed (c :: s) = ([], c :: s) := by
  unfold signed
  split
  next heq => exact absurd (List.cons.inj heq).1 hc
  next => rfl

theorem readNumber_eq (s : Points) :
    readNumber s = (readWhole (signed s).2).bind fun whole =>
      (readFraction whole.2).bind fun fraction => (readExponent fraction.2).bind fun exponent =>
        some (((signed s).1 ++ whole.1 ++ fraction.1 ++ exponent.1).map UInt8.ofNat, exponent.2) :=
  rfl

theorem readNumber_append (hrest : Ends rest) (h : readNumber s = some (n, r)) :
    readNumber (s ++ rest) = some (n, r ++ rest) := by
  rw [readNumber_eq] at h ⊢
  obtain ⟨⟨whole, u⟩, hwhole, h⟩ := Option.bind_eq_some_iff.mp h
  obtain ⟨⟨fraction, v⟩, hfraction, h⟩ := Option.bind_eq_some_iff.mp h
  obtain ⟨⟨exponent, w⟩, hexponent, h⟩ := Option.bind_eq_some_iff.mp h
  cases h
  have hsigned : signed (s ++ rest) = ((signed s).1, (signed s).2 ++ rest) := by
    cases s with
    | nil => cases hwhole
    | cons c s =>
        by_cases hc : c = 0x2D
        · subst hc
          rfl
        · rw [List.cons_append, signed_of_ne hc, signed_of_ne hc]
          rfl
  rw [hsigned, readWhole_append hrest hwhole, Option.bind_some, readFraction_append hrest hfraction,
    Option.bind_some, readExponent_append hrest hexponent]
  rfl

/-- An ASCII text that is read as a number and nothing else. -/
structure IsNumeral (n : Bytes) : Prop where
  isAscii : Utf8.IsAscii n
  reads : readNumber (n.map UInt8.toNat) = some (n, [])

theorem IsNumeral.readNumber_append (h : IsNumeral n) (hrest : Ends rest) :
    readNumber (n.map UInt8.toNat ++ rest) = some (n, rest) :=
  Json.readNumber_append hrest h.reads

theorem isDigit_of_readDigits {c : Nat} {p : Points × Points}
    (h : readDigits (c :: s) = some p) : isDigit c = true := by
  rw [readDigits, List.span_eq_takeWhile_dropWhile, List.takeWhile_cons] at h
  by_contra hc
  rw [if_neg hc] at h
  cases h

theorem isDigit_iff {c : Nat} : isDigit c = true ↔ 0x30 ≤ c ∧ c ≤ 0x39 := by
  simp [isDigit]

/-- A number begins with a digit or a minus sign. -/
theorem IsNumeral.exists_eq_cons (h : IsNumeral n) :
    ∃ c s, n.map UInt8.toNat = c :: s ∧ (c = 0x2D ∨ 0x30 ≤ c ∧ c ≤ 0x39) := by
  have hreads := h.reads
  rw [readNumber_eq] at hreads
  obtain ⟨whole, hwhole, -⟩ := Option.bind_eq_some_iff.mp hreads
  cases hs : n.map UInt8.toNat with
  | nil =>
      rw [hs] at hwhole
      cases hwhole
  | cons c s =>
      refine ⟨c, s, rfl, ?_⟩
      by_cases hc : c = 0x2D
      · exact Or.inl hc
      · rw [hs, signed_of_ne hc] at hwhole
        unfold readWhole at hwhole
        split at hwhole
        next heq =>
          rw [(List.cons.inj heq).1]
          exact Or.inr (by decide)
        next => exact Or.inr (isDigit_iff.mp (isDigit_of_readDigits hwhole))

theorem isDigit_toNat {b : UInt8} (h : Bytes.isDigit b = true) :
    isDigit b.toNat = true ∧ b.toNat < 0x80 := by
  have hbounds : 0x30 ≤ b.toNat ∧ b.toNat ≤ 0x39 := Bytes.isDigit_iff.mp h
  exact ⟨isDigit_iff.mpr hbounds, by omega⟩

theorem digit_ne {m : Nat} (hlt : m < 10) (hm : m ≠ 0) : Bytes.digit m ≠ 0x30 := by
  decide +revert

theorem head_ofNat_ne {m : Nat} (hm : m ≠ 0) : ∀ b ∈ (Bytes.ofNat m).head?, b ≠ 0x30 := by
  induction m using Nat.strong_induction_on with
  | h m ih =>
      rw [Bytes.ofNat]
      split
      next hlt =>
        rintro b hb rfl
        exact digit_ne hlt hm (Option.some.inj hb)
      next hge =>
        obtain ⟨b, t, heq⟩ := List.exists_cons_of_ne_nil (Bytes.ofNat_ne_nil (m / 10))
        have hrest := ih (m / 10) (by omega) (by omega)
        rw [heq] at hrest ⊢
        exact hrest

theorem readDigits_of_isDigit_append {u : Points} (hne : ds ≠ [])
    (hds : ∀ c ∈ ds, isDigit c = true) (hu : ∀ c ∈ u.head?, isDigit c = false) :
    readDigits (ds ++ u) = some (ds, u) := by
  have hspan : (ds ++ u).span isDigit = (ds, u) := by
    rw [List.span_eq_takeWhile_dropWhile, List.takeWhile_append_of_pos hds,
      List.dropWhile_append_of_pos hds]
    cases u with
    | nil => simp
    | cons c u =>
        have hc := hu c rfl
        simp [hc]
  rw [readDigits, hspan]
  split
  next heq => exact absurd (congrArg Prod.fst heq) hne
  next => rfl

theorem readDigits_of_isDigit (hne : ds ≠ []) (h : ∀ c ∈ ds, isDigit c = true) :
    readDigits ds = some (ds, []) := by
  have hread := readDigits_of_isDigit_append hne h (u := []) (by simp)
  rwa [List.append_nil] at hread

theorem readWhole_ofNat (m : Nat) :
    readWhole ((Bytes.ofNat m).map UInt8.toNat) = some ((Bytes.ofNat m).map UInt8.toNat, []) := by
  have hne := Bytes.ofNat_ne_nil m
  have hdigits : ∀ c ∈ (Bytes.ofNat m).map UInt8.toNat, isDigit c = true := by
    intro c hc
    obtain ⟨b, hb, rfl⟩ := List.mem_map.mp hc
    exact (isDigit_toNat (Bytes.isDigit_of_mem_ofNat hb)).1
  by_cases hm : m = 0
  · subst hm
    have hzero : Bytes.ofNat 0 = [0x30] := by
      rw [Bytes.ofNat]
      rfl
    rw [hzero]
    rfl
  · rw [readWhole]
    · exact readDigits_of_isDigit (by simpa using hne) hdigits
    · intro r heq
      obtain ⟨b, t, hb⟩ := List.exists_cons_of_ne_nil hne
      rw [hb] at heq
      refine head_ofNat_ne hm b (by rw [hb]; rfl) ?_
      exact UInt8.toNat_inj.mp (List.cons.inj heq).1

theorem isNumeral_ofInt (k : Int) : IsNumeral (Bytes.ofInt k) := by
  have hdigits : ∀ b ∈ Bytes.ofNat k.natAbs, isDigit b.toNat = true ∧ b.toNat < 0x80 :=
    fun b hb => isDigit_toNat (Bytes.isDigit_of_mem_ofNat hb)
  have hback (ds : Bytes) : (ds.map UInt8.toNat).map UInt8.ofNat = ds := by
    simp [Function.comp_def]
  rw [Bytes.ofInt]
  split
  next =>
    refine ⟨List.forall_mem_cons.mpr ⟨by decide, fun b hb => (hdigits b hb).2⟩, ?_⟩
    have hsigned : signed ((0x2D :: Bytes.ofNat k.natAbs).map UInt8.toNat)
        = ([0x2D], (Bytes.ofNat k.natAbs).map UInt8.toNat) := rfl
    rw [readNumber_eq, hsigned, readWhole_ofNat]
    exact congrArg (fun ds => some (0x2D :: ds, [])) (by simpa using hback _)
  next =>
    refine ⟨fun b hb => (hdigits b hb).2, ?_⟩
    have hsigned : signed ((Bytes.ofNat k.natAbs).map UInt8.toNat)
        = ([], (Bytes.ofNat k.natAbs).map UInt8.toNat) := by
      obtain ⟨b, t, hb⟩ := List.exists_cons_of_ne_nil (Bytes.ofNat_ne_nil k.natAbs)
      have hdigit := (hdigits b (by rw [hb]; exact List.mem_cons_self)).1
      rw [hb]
      refine signed_of_ne ?_ _
      rintro hminus
      rw [hminus] at hdigit
      exact absurd hdigit (by decide)
    rw [readNumber_eq, hsigned, readWhole_ofNat]
    exact congrArg (fun ds => some (ds, [])) (by simpa using hback _)

end JumpScript.Json
