import JumpScript.Json.Read
import JumpScript.Proofs.Text.Utf8

/-!
# Strings in documents

A string is written code point by code point, each as itself or as an escape, and is read back code
point by code point.  Reading undoes writing, so that a valid text comes back as it was; a stray
byte comes back as the replacement.
-/

namespace JumpScript.Json

open Utf8 (IsAscii IsScalar encode isValid)

variable {c : Nat} {ps : Points} {s t : Bytes}

theorem points_append_of_isValid (h : isValid s = true) (t : Bytes) :
    points (s ++ t) = points s ++ points t := by
  simp only [points, Utf8.symbols_append_of_isValid h, List.map_append]

theorem points_flatMap_encode (hps : ∀ p ∈ ps, IsScalar p) : points (ps.flatMap encode) = ps := by
  have hsymbols := Utf8.symbols_flatMap_encode hps []
  rw [List.append_nil, Utf8.symbols, List.append_nil] at hsymbols
  rw [points, hsymbols, List.map_map]
  exact List.map_id ps

theorem isScalar_of_mem_points (hc : c ∈ points s) : IsScalar c := by
  obtain ⟨u, hu, rfl⟩ := List.mem_map.mp hc
  cases hpoint : u.point with
  | none => decide
  | some c => exact Utf8.isScalar_of_mem_symbols hu hpoint

theorem flatMap_encode_points (h : isValid s = true) : (points s).flatMap encode = s := by
  obtain ⟨ps, hps, rfl⟩ := Utf8.exists_scalars_of_isValid h
  rw [points_flatMap_encode hps]

theorem points_of_isAscii (h : IsAscii s) : points s = s.map UInt8.toNat := by
  have hpoints := points_flatMap_encode h.isScalar
  rwa [h.flatMap_encode] at hpoints

/-- The letter that stands for a code point after a backslash. -/
def letter? (c : Nat) : Option Nat :=
  if c == 0x22 || c == 0x5C then some c
  else if c == 0x08 then some 0x62
  else if c == 0x0C then some 0x66
  else if c == 0x0A then some 0x6E
  else if c == 0x0D then some 0x72
  else if c == 0x09 then some 0x74
  else none

/-- Whether a code point without a letter is escaped by its number. -/
def isNumbered (c : Nat) : Bool :=
  c < 0x20 || c == 0x3C || c == 0x3E || c == 0x26 || c == 0x2028 || c == 0x2029

/-- The code points that a code point is written with in a string. -/
def escape (c : Nat) : Points :=
  match letter? c with
  | some l => [0x5C, l]
  | none => if isNumbered c then 0x5C :: 0x75 :: (Bytes.hex 4 c).map UInt8.toNat else [c]

theorem escaped?_of_letter? {l : Nat} (h : letter? c = some l) :
    escaped? l = some c ∧ l ≠ 0x75 ∧ IsScalar l := by
  unfold letter? at h
  split_ifs at h with h1 h2 h3 h4 h5 h6
  · cases h
    rw [Bool.or_eq_true, beq_iff_eq, beq_iff_eq] at h1
    rcases h1 with rfl | rfl <;> decide
  all_goals
    cases h
    simp only [beq_iff_eq] at *
    subst c
    decide

theorem hexDigit_lt {n : Nat} (h : n < 16) : (Bytes.hexDigit n).toNat < 0x80 := by
  decide +revert

theorem hexDigit?_hexDigit {n : Nat} (h : n < 16) :
    hexDigit? (Bytes.hexDigit n).toNat = some n := by
  decide +revert

theorem isAscii_hex (w n : Nat) : IsAscii (Bytes.hex w n) := by
  induction w generalizing n with
  | zero => simp [Bytes.hex, IsAscii]
  | succ w ih =>
      refine List.forall_mem_append.mpr ⟨ih (n / 16), List.forall_mem_singleton.mpr ?_⟩
      exact hexDigit_lt (Nat.mod_lt n (by decide))

theorem escapePoint_of_letter? {l : Nat} (h : letter? c = some l) :
    escapePoint c = 0x5C :: encode l := by
  unfold letter? at h
  unfold escapePoint
  split_ifs at h ⊢ <;> cases h <;> rfl

theorem escapePoint_of_letter?_eq_none (h : letter? c = none) :
    escapePoint c = if isNumbered c then escapeByNumber c else encode c := by
  unfold letter? at h
  unfold escapePoint isNumbered
  split_ifs at h ⊢ <;> rfl

theorem escapePoint_eq (c : Nat) : escapePoint c = (escape c).flatMap encode := by
  unfold escape
  cases hletter : letter? c with
  | some l =>
      rw [escapePoint_of_letter? hletter]
      simp [encode]
  | none =>
      rw [escapePoint_of_letter?_eq_none hletter]
      dsimp only
      split
      next =>
        rw [List.flatMap_cons, List.flatMap_cons, (isAscii_hex 4 c).flatMap_encode]
        rfl
      next => simp

theorem isScalar_of_mem_escape (hc : IsScalar c) : ∀ p ∈ escape c, IsScalar p := by
  unfold escape
  split
  next l hletter => simp [(escaped?_of_letter? hletter).2.2, show IsScalar 0x5C by decide]
  next =>
    split
    next =>
      simp only [List.forall_mem_cons]
      exact ⟨by decide, by decide, (isAscii_hex 4 c).isScalar⟩
    next => simpa using hc

theorem readString_number {c : Nat} (hc : c < 0x10000) (r : Points) :
    readString (0x5C :: 0x75 :: (Bytes.hex 4 c).map UInt8.toNat ++ r)
      = (readString r).map fun p => (c :: p.1, p.2) := by
  have hdigit (n : Nat) := hexDigit?_hexDigit (Nat.mod_lt n (show 16 > 0 by decide))
  have hsum : 4096 * (c / 16 / 16 / 16 % 16) + 256 * (c / 16 / 16 % 16) + 16 * (c / 16 % 16)
      + c % 16 = c := by omega
  simp only [Bytes.hex, List.nil_append, List.cons_append, List.map_cons, List.map_nil, readString,
    hdigit, Option.bind_eq_bind, Option.bind_some, hsum]
  cases readString r <;> rfl

theorem readString_letter {l : Nat} (hl : escaped? l = some c) (hne : l ≠ 0x75) (r : Points) :
    readString (0x5C :: l :: r) = (readString r).map fun p => (c :: p.1, p.2) := by
  rw [readString, hl]
  · cases readString r <;> rfl
  · exact fun _ _ _ _ _ h _ => hne h

theorem readString_plain (hletter : letter? c = none) (hnumbered : isNumbered c = false)
    (r : Points) : readString (c :: r) = (readString r).map fun p => (c :: p.1, p.2) := by
  have hquote : (c == 0x22) = false ∧ (c == 0x5C) = false := by
    rw [← Bool.or_eq_false_iff, ← Bool.not_eq_true]
    intro h
    rw [letter?, if_pos h] at hletter
    cases hletter
  have hcontrol : ¬ c < 0x20 := by
    simp [isNumbered] at hnumbered
    omega
  have hbackslash : c ≠ 0x5C := by simpa using hquote.2
  rw [readString, hquote.1, hquote.2]
  · simp only [hcontrol]
    cases readString r <;> rfl
  · exact fun _ _ _ _ _ h _ => hbackslash h
  · exact fun _ _ h _ => hbackslash h

theorem readString_escape (c : Nat) (r : Points) :
    readString (escape c ++ r) = (readString r).map fun p => (c :: p.1, p.2) := by
  unfold escape
  cases hletter : letter? c with
  | some l =>
      obtain ⟨hl, hne, -⟩ := escaped?_of_letter? hletter
      exact readString_letter hl hne r
  | none =>
      cases hnumbered : isNumbered c with
      | true =>
          have hlt : c < 0x10000 := by
            simp [isNumbered] at hnumbered
            omega
          exact readString_number hlt r
      | false => exact readString_plain hletter hnumbered r

theorem readString_body (ps r : Points) :
    readString (ps.flatMap escape ++ 0x22 :: r) = some (ps, r) := by
  induction ps with
  | nil => simp [readString]
  | cons p ps ih =>
      rw [List.flatMap_cons, List.append_assoc, readString_escape, ih]
      rfl

/-- A quoted text is spelled from quotes and the escapes of the code points of the text. -/
theorem quoted_eq (s : Bytes) :
    quoted s = (0x22 :: ((points s).flatMap escape ++ [0x22])).flatMap encode := by
  have hbody : quoted s = [0x22] ++ ((Utf8.symbols s).flatMap fun u =>
      (escape (u.point.getD Utf8.replacement)).flatMap encode) ++ [0x22] := by
    refine congrArg (fun f => [0x22] ++ (Utf8.symbols s).flatMap f ++ [0x22]) (funext fun u => ?_)
    rw [← escapePoint_eq]
    cases u.point <;> rfl
  rw [hbody, List.flatMap_cons, List.flatMap_append, List.flatMap_assoc, points, List.flatMap_map,
    List.append_assoc]
  rfl

theorem isScalar_of_mem_quoted (s : Bytes) :
    ∀ p ∈ 0x22 :: ((points s).flatMap escape ++ [0x22]), IsScalar p := by
  have hquote : IsScalar 0x22 := by decide
  refine List.forall_mem_cons.mpr ⟨hquote, List.forall_mem_append.mpr ⟨?_, by simpa using hquote⟩⟩
  intro p hp
  obtain ⟨c, hc, hp⟩ := List.mem_flatMap.mp hp
  exact isScalar_of_mem_escape (isScalar_of_mem_points hc) p hp

theorem isValid_quoted (s : Bytes) : isValid (quoted s) = true := by
  rw [quoted_eq]
  exact Utf8.isValid_flatMap_encode (isScalar_of_mem_quoted s)

theorem points_quoted (s : Bytes) :
    points (quoted s) = 0x22 :: ((points s).flatMap escape ++ [0x22]) := by
  rw [quoted_eq]
  exact points_flatMap_encode (isScalar_of_mem_quoted s)

theorem isHigh_eq_false (hc : IsScalar c) : isHigh c = false := by
  unfold IsScalar at hc
  simp [isHigh]
  omega

theorem spell_of_isScalar (hps : ∀ p ∈ ps, IsScalar p) : spell ps = ps.flatMap encode := by
  fun_induction spell ps with
  | case1 => rfl
  | case2 h l r hhalves ih =>
      rw [isHigh_eq_false (hps h List.mem_cons_self)] at hhalves
      cases hhalves
  | case3 h l r _ ih =>
      rw [ih (List.forall_mem_cons.mp hps).2]
      rfl
  | case4 c => simp

/-- A valid text is spelled by its code points. -/
theorem spell_points (h : isValid s = true) : spell (points s) = s := by
  rw [spell_of_isScalar fun p => isScalar_of_mem_points, flatMap_encode_points h]

end JumpScript.Json
