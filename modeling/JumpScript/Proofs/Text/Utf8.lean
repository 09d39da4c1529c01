import Mathlib.Tactic.SplitIfs
import JumpScript.Text.Utf8

/-!
# Spelling code points

A code point that is no surrogate has one spelling, and what a text is found to begin with is the
spelling of such a code point.  So the symbols of a valid text are the code points that it was
spelled from, whatever follows.
-/

namespace JumpScript.Utf8

variable {p n : Nat} {ps : List Nat} {s t : Bytes}

/-- A code point that has a spelling: anything but a surrogate. -/
def IsScalar (c : Nat) : Prop := c < 0xD800 ∨ 0xE000 ≤ c ∧ c ≤ 0x10FFFF

instance (c : Nat) : Decidable (IsScalar c) := inferInstanceAs (Decidable (_ ∨ _))

theorem isTail_iff {b : UInt8} : isTail b = true ↔ 0x80 ≤ b.toNat ∧ b.toNat ≤ 0xBF := by
  simp [isTail, UInt8.le_iff_toNat_le]

theorem isSecond_iff {a b : UInt8} :
    isSecond a b = true ↔ (0x80 ≤ b.toNat ∧ b.toNat ≤ 0xBF) ∧
      (a.toNat = 0xE0 → 0xA0 ≤ b.toNat) ∧ (a.toNat = 0xED → b.toNat ≤ 0x9F) ∧
      (a.toNat = 0xF0 → 0x90 ≤ b.toNat) ∧ (a.toNat = 0xF4 → b.toNat ≤ 0x8F) := by
  have hbyte (k : UInt8) : (a == k) = true ↔ a.toNat = k.toNat := by
    rw [beq_iff_eq, UInt8.toNat_inj]
  have he0 := hbyte 0xE0
  have hed := hbyte 0xED
  have hf0 := hbyte 0xF0
  have hf4 := hbyte 0xF4
  simp only [UInt8.reduceToNat] at he0 hed hf0 hf4
  unfold isSecond secondRange
  simp only [he0, hed, hf0, hf4]
  split_ifs <;>
    simp only [Bool.and_eq_true, decide_eq_true_iff, UInt8.le_iff_toNat_le, UInt8.reduceToNat] <;>
    omega

theorem toNat_ofNat_of_lt {m : Nat} (h : m < 256) : (UInt8.ofNat m).toNat = m :=
  UInt8.toNat_ofNat_of_lt h

theorem ofNat_eq {m : Nat} {b : UInt8} (h : m = b.toNat) : UInt8.ofNat m = b := by
  rw [h, UInt8.ofNat_toNat]

/-- A text begins with a spelling of a code point that has a number of bytes after the first. -/
inductive Leads (p : Nat) : Bytes → Nat → Prop where
  | one {a : UInt8} {t : Bytes} (ha : a.toNat < 0x80) (hp : p = a.toNat) : Leads p (a :: t) 0
  | two {a b : UInt8} {t : Bytes} (ha : 0xC2 ≤ a.toNat ∧ a.toNat < 0xE0) (hb : isTail b = true)
      (hp : p = a.toNat % 32 * 64 + b.toNat % 64) : Leads p (a :: b :: t) 1
  | three {a b c : UInt8} {t : Bytes} (ha : 0xE0 ≤ a.toNat ∧ a.toNat < 0xF0)
      (hb : isSecond a b = true) (hc : isTail c = true)
      (hp : p = a.toNat % 16 * 4096 + b.toNat % 64 * 64 + c.toNat % 64) :
      Leads p (a :: b :: c :: t) 2
  | four {a b c d : UInt8} {t : Bytes} (ha : 0xF0 ≤ a.toNat ∧ a.toNat < 0xF5)
      (hb : isSecond a b = true) (hc : isTail c = true) (hd : isTail d = true)
      (hp : p = a.toNat % 8 * 262144 + b.toNat % 64 * 4096 + c.toNat % 64 * 64 + d.toNat % 64) :
      Leads p (a :: b :: c :: d :: t) 3

theorem Leads.leading?_eq (h : Leads p s n) : leading? s = some (p, n) := by
  cases h with
  | one ha hp => simp only [leading?, UInt8.lt_iff_toNat_lt, UInt8.reduceToNat, if_pos ha, hp]
  | two ha hb hp =>
      simp only [leading?, UInt8.lt_iff_toNat_lt, UInt8.reduceToNat]
      rw [if_neg (by omega), if_neg (by omega), if_pos ha.2, if_pos hb, hp]
  | three ha hb hc hp =>
      simp only [leading?, UInt8.lt_iff_toNat_lt, UInt8.reduceToNat]
      rw [if_neg (by omega), if_neg (by omega), if_neg (by omega), if_pos ha.2,
        if_pos (by simp [hb, hc]), hp]
  | four ha hb hc hd hp =>
      simp only [leading?, UInt8.lt_iff_toNat_lt, UInt8.reduceToNat]
      rw [if_neg (by omega), if_neg (by omega), if_neg (by omega), if_neg (by omega), if_pos ha.2,
        if_pos (by simp [hb, hc, hd]), hp]

theorem leads_of_leading? (h : leading? s = some (p, n)) : Leads p s n := by
  unfold leading? at h
  simp only [UInt8.lt_iff_toNat_lt, UInt8.reduceToNat] at h
  split at h
  next => cases h
  next a r =>
    split_ifs at h with h1 h2 h3 h4 h5
    · cases h
      exact .one h1 rfl
    · split at h
      next b t =>
        split_ifs at h with hb
        cases h
        exact .two ⟨by omega, h3⟩ hb rfl
      next => cases h
    · split at h
      next b c t =>
        split_ifs at h with hb
        cases h
        rw [Bool.and_eq_true] at hb
        exact .three ⟨by omega, h4⟩ hb.1 hb.2 rfl
      next => cases h
    · split at h
      next b c d t =>
        split_ifs at h with hb
        cases h
        simp only [Bool.and_eq_true] at hb
        exact .four ⟨by omega, h5⟩ hb.1.1 hb.1.2 hb.2 rfl
      next => cases h

theorem leads_encode (hp : IsScalar p) (t : Bytes) :
    Leads p (encode p ++ t) ((encode p).length - 1) := by
  unfold IsScalar at hp
  unfold encode
  split_ifs with h1 h2 h3 h4
  · have ha := toNat_ofNat_of_lt (show p < 256 by omega)
    exact .one (by omega) ha.symm
  · have ha := toNat_ofNat_of_lt (show 0xC0 + p / 64 < 256 by omega)
    have hb := toNat_ofNat_of_lt (show 0x80 + p % 64 < 256 by omega)
    refine .two ?_ (isTail_iff.mpr ?_) ?_ <;> omega
  · simp at h3
    omega
  · have ha := toNat_ofNat_of_lt (show 0xE0 + p / 4096 < 256 by omega)
    have hb := toNat_ofNat_of_lt (show 0x80 + p / 64 % 64 < 256 by omega)
    have hc := toNat_ofNat_of_lt (show 0x80 + p % 64 < 256 by omega)
    refine .three ?_ (isSecond_iff.mpr ?_) (isTail_iff.mpr ?_) ?_ <;> omega
  · have ha := toNat_ofNat_of_lt (show 0xF0 + p / 262144 < 256 by omega)
    have hb := toNat_ofNat_of_lt (show 0x80 + p / 4096 % 64 < 256 by omega)
    have hc := toNat_ofNat_of_lt (show 0x80 + p / 64 % 64 < 256 by omega)
    have hd := toNat_ofNat_of_lt (show 0x80 + p % 64 < 256 by omega)
    refine .four ?_ (isSecond_iff.mpr ?_) (isTail_iff.mpr ?_) (isTail_iff.mpr ?_) ?_ <;> omega

/-- What a text is found to begin with is a scalar, and it begins with its spelling. -/
theorem Leads.exists_eq (h : Leads p s n) :
    IsScalar p ∧ n + 1 = (encode p).length ∧ ∃ t, s = encode p ++ t := by
  unfold IsScalar
  cases h with
  | @one a t ha hp =>
      have hspelled : encode p = [a] := by
        unfold encode
        rw [if_pos (by omega), ofNat_eq hp]
      exact ⟨by omega, by rw [hspelled]; rfl, t, by rw [hspelled]; rfl⟩
  | @two a b t ha hb hp =>
      rw [isTail_iff] at hb
      have hspelled : encode p = [a, b] := by
        unfold encode
        rw [if_neg (by omega), if_pos (by omega), @ofNat_eq _ a (by omega),
          @ofNat_eq _ b (by omega)]
      exact ⟨by omega, by rw [hspelled]; rfl, t, by rw [hspelled]; rfl⟩
  | @three a b c t ha hb hc hp =>
      rw [isSecond_iff] at hb
      rw [isTail_iff] at hc
      have hspelled : encode p = [a, b, c] := by
        unfold encode
        rw [if_neg (by omega), if_neg (by omega), if_neg (by simp; omega), if_pos (by omega),
          @ofNat_eq _ a (by omega), @ofNat_eq _ b (by omega), @ofNat_eq _ c (by omega)]
      exact ⟨by omega, by rw [hspelled]; rfl, t, by rw [hspelled]; rfl⟩
  | @four a b c d t ha hb hc hd hp =>
      rw [isSecond_iff] at hb
      rw [isTail_iff] at hc hd
      have hspelled : encode p = [a, b, c, d] := by
        unfold encode
        rw [if_neg (by omega), if_neg (by omega), if_neg (by simp; omega), if_neg (by omega),
          @ofNat_eq _ a (by omega), @ofNat_eq _ b (by omega), @ofNat_eq _ c (by omega),
          @ofNat_eq _ d (by omega)]
      exact ⟨by omega, by rw [hspelled]; rfl, t, by rw [hspelled]; rfl⟩

theorem encode_ne_nil (p : Nat) : encode p ≠ [] := by
  unfold encode
  split_ifs <;> exact List.cons_ne_nil _ _

theorem symbols_encode_append (hp : IsScalar p) (t : Bytes) :
    symbols (encode p ++ t) = .spelled p (encode p) :: symbols t := by
  have hlead := (leads_encode hp t).leading?_eq
  obtain ⟨a, r, hspelled⟩ := List.exists_cons_of_ne_nil (encode_ne_nil p)
  rw [hspelled, List.cons_append] at hlead ⊢
  rw [symbols, hlead]
  simp

theorem symbols_flatMap_encode (hps : ∀ p ∈ ps, IsScalar p) (t : Bytes) :
    symbols (ps.flatMap encode ++ t) = ps.map (fun p => .spelled p (encode p)) ++ symbols t := by
  induction ps with
  | nil => rfl
  | cons p ps ih =>
      obtain ⟨hp, hrest⟩ := List.forall_mem_cons.mp hps
      rw [List.flatMap_cons, List.append_assoc, symbols_encode_append hp, ih hrest]
      rfl

/-- A symbol that spells a code point is the spelling of a scalar. -/
theorem isScalar_of_mem_symbols {u : Symbol} (hu : u ∈ symbols s) (hp : u.point = some p) :
    IsScalar p := by
  fun_induction symbols s with
  | case1 => cases hu
  | case2 a r c n hlead ih =>
      rcases List.mem_cons.mp hu with rfl | hu
      · cases hp
        exact (leads_of_leading? hlead).exists_eq.1
      · exact ih hu
  | case3 a r _ ih =>
      rcases List.mem_cons.mp hu with rfl | hu
      · cases hp
      · exact ih hu

/-- A valid text is spelled from scalars. -/
theorem exists_scalars_of_isValid (h : isValid s = true) :
    ∃ ps : List Nat, (∀ p ∈ ps, IsScalar p) ∧ s = ps.flatMap encode := by
  rw [isValid] at h
  revert h
  fun_induction symbols s with
  | case1 => exact fun _ => ⟨[], by simp, rfl⟩
  | case2 a r c n hlead ih =>
      intro h
      obtain ⟨hscalar, hlength, t, ht⟩ := (leads_of_leading? hlead).exists_eq
      rw [List.all_cons, Bool.and_eq_true] at h
      obtain ⟨ps, hps, hrest⟩ := ih h.2
      refine ⟨c :: ps, List.forall_mem_cons.mpr ⟨hscalar, hps⟩, ?_⟩
      -- the rest begins where the spelling ends
      have hdrop : r.drop n = t := by
        calc r.drop n = (a :: r).drop (n + 1) := rfl
          _ = t := by rw [ht, hlength, List.drop_left]
      rw [List.flatMap_cons, ← hrest, hdrop, ht]
  | case3 a r _ ih => exact fun h => by cases h

theorem isValid_flatMap_encode (hps : ∀ p ∈ ps, IsScalar p) :
    isValid (ps.flatMap encode) = true := by
  have hsymbols := symbols_flatMap_encode hps []
  rw [List.append_nil] at hsymbols
  rw [isValid, hsymbols]
  simp [symbols, Symbol.point]

/-- A valid text is cut into the same symbols whatever follows. -/
theorem symbols_append_of_isValid (h : isValid s = true) (t : Bytes) :
    symbols (s ++ t) = symbols s ++ symbols t := by
  obtain ⟨ps, hps, rfl⟩ := exists_scalars_of_isValid h
  have hself := symbols_flatMap_encode hps []
  rw [List.append_nil] at hself
  rw [symbols_flatMap_encode hps, hself]
  simp [symbols]

theorem isValid_append (hs : isValid s = true) (ht : isValid t = true) :
    isValid (s ++ t) = true := by
  rw [isValid, symbols_append_of_isValid hs, List.all_append, Bool.and_eq_true]
  exact ⟨hs, ht⟩

/-- A text of bytes below `80`. -/
def IsAscii (s : Bytes) : Prop := ∀ b ∈ s, b.toNat < 0x80

instance (s : Bytes) : Decidable (IsAscii s) := List.decidableBAll _ s

theorem IsAscii.isScalar (h : IsAscii s) : ∀ p ∈ s.map UInt8.toNat, IsScalar p := by
  intro p hp
  obtain ⟨b, hb, rfl⟩ := List.mem_map.mp hp
  have hlt := h b hb
  exact Or.inl (by omega)

/-- An ASCII text is spelled byte by byte. -/
theorem IsAscii.flatMap_encode (h : IsAscii s) : (s.map UInt8.toNat).flatMap encode = s := by
  induction s with
  | nil => rfl
  | cons b s ih =>
      obtain ⟨hb, hrest⟩ := List.forall_mem_cons.mp h
      have hspelled : encode b.toNat = [b] := by rw [encode, if_pos hb, UInt8.ofNat_toNat]
      rw [List.map_cons, List.flatMap_cons, hspelled, ih hrest]
      rfl

theorem IsAscii.isValid (h : IsAscii s) : isValid s = true := by
  rw [← h.flatMap_encode]
  exact isValid_flatMap_encode h.isScalar

/-- The symbols of an ASCII text are its bytes. -/
theorem IsAscii.symbols_eq (h : IsAscii s) :
    symbols s = s.map fun b => .spelled b.toNat [b] := by
  induction s with
  | nil => rw [symbols, List.map_nil]
  | cons b s ih =>
      obtain ⟨hb, hrest⟩ := List.forall_mem_cons.mp h
      rw [symbols, (Leads.one hb rfl).leading?_eq]
      exact congrArg _ (ih hrest)

end JumpScript.Utf8
