import JumpScript.Library.Documents
import JumpScript.Proofs.Json.RoundTrip
import JumpScript.Proofs.Machine.Labels
import JumpScript.Proofs.Machine.Relations

/-!
# Every document that is read is tidy

What is read from a text has numerals for its numbers, valid texts for its strings and keys, and
every key of an object once, whatever the text spells them with.  So it is read back from its
written form, in which the members of objects are in the order of their keys; written once more, it
is written the same.
-/

namespace JumpScript

namespace Table

variable {α β : Type} {t u : Table α} {name : Bytes} {v : α} {b : Bytes × α}

theorem mem_of_mem_insert (h : b ∈ t.insert name v) : b = (name, v) ∨ b ∈ t := by
  induction t with
  | nil => exact Or.inl (List.mem_singleton.mp h)
  | cons c t ih =>
      rw [insert] at h
      split at h
      next =>
        rcases List.mem_cons.mp h with h | h
        · exact Or.inl h
        · exact Or.inr (List.mem_cons_of_mem c h)
      next =>
        rcases List.mem_cons.mp h with h | h
        · exact Or.inr (List.mem_cons.mpr (Or.inl h))
        · exact (ih h).imp id (List.mem_cons_of_mem c)

theorem mem_of_mem_merge (h : b ∈ t.merge u) : b ∈ t ∨ b ∈ u := by
  induction u generalizing t with
  | nil => exact Or.inl h
  | cons c u ih =>
      rcases ih (t := t.insert c.1 c.2) h with h | h
      · rcases mem_of_mem_insert h with rfl | h
        · exact Or.inr List.mem_cons_self
        · exact Or.inl h
      · exact Or.inr (List.mem_cons_of_mem c h)

theorem nodup_names_merge (h : t.names.Nodup) (u : Table α) : (t.merge u).names.Nodup := by
  induction u generalizing t with
  | nil => exact h
  | cons c u ih => exact ih (nodup_names_insert h c.1 c.2)

theorem mem_of_get? (h : t.get? name = some v) : (name, v) ∈ t := by
  induction t with
  | nil => cases h
  | cons c t ih =>
      rw [get?] at h
      split at h
      next heq =>
        cases h
        exact heq ▸ List.mem_cons_self
      next => exact List.mem_cons_of_mem c (ih h)

theorem get?_of_mem (hnodup : t.names.Nodup) (h : (name, v) ∈ t) : t.get? name = some v := by
  induction t with
  | nil => cases h
  | cons c t ih =>
      obtain ⟨hc, ht⟩ := List.nodup_cons.mp hnodup
      rcases List.mem_cons.mp h with rfl | h
      · rw [get?, if_pos rfl]
      · have hname : name ∈ Table.names t := List.mem_map_of_mem h
        rw [get?, if_neg, ih ht h]
        rintro rfl
        exact hc hname

/-- The order of a table without a name twice does not matter. -/
theorem get?_perm (hperm : t.Perm u) (hnodup : t.names.Nodup) (name : Bytes) :
    t.get? name = u.get? name := by
  have hnodup' : u.names.Nodup := (hperm.map Prod.fst).nodup_iff.mp hnodup
  refine Option.ext fun v => ⟨fun h => ?_, fun h => ?_⟩
  · exact get?_of_mem hnodup' (hperm.mem_iff.mp (mem_of_get? h))
  · exact get?_of_mem hnodup (hperm.mem_iff.mpr (mem_of_get? h))

theorem get?_map (f : α → β) (t : Table α) (name : Bytes) :
    Table.get? (t.map fun b => (b.1, f b.2)) name = (t.get? name).map f := by
  induction t with
  | nil => rfl
  | cons c t ih =>
      rw [List.map_cons, get?, get?, ih]
      split <;> rfl

end Table

namespace Json

open Utf8 (IsScalar encode isValid)

variable {n fuel levels : Nat} {s t r rest ds : Points} {j : Json}

/-- What is no code point is spelled as one all the same: as the replacement. -/
theorem isValid_encode (c : Nat) : isValid (encode c) = true := by
  obtain ⟨p, hp, heq⟩ : ∃ p, IsScalar p ∧ encode c = encode p := by
    by_cases hc : IsScalar c
    · exact ⟨c, hc, rfl⟩
    · refine ⟨Utf8.replacement, by decide, ?_⟩
      unfold IsScalar at hc
      rw [encode, if_neg (by omega), if_neg (by omega), if_pos (by simp; omega)]
      rfl
  have hvalid := Utf8.isValid_flatMap_encode (List.forall_mem_singleton.mpr hp)
  rwa [List.flatMap_singleton, ← heq] at hvalid

theorem isValid_spell (cs : Points) : isValid (spell cs) = true := by
  fun_induction spell cs with
  | case1 => exact (show Utf8.IsAscii [] by decide).isValid
  | case2 h l r _ ih => exact Utf8.isValid_append (isValid_encode _) ih
  | case3 h l r _ ih => exact Utf8.isValid_append (isValid_encode h) ih
  | case4 c => exact isValid_encode c

/-- A reader takes an ASCII text off the front, and takes the same when what follows is cut
short. -/
structure Takes (read : Points → Option (Points × Points)) (s ds r : Points) : Prop where
  eq_append : s = ds ++ r
  ascii : ∀ d ∈ ds, d < 0x80
  again : ∀ u, u <+: r → read (ds ++ u) = some (ds, u)

theorem not_isDigit_of_stop {u : Points} (hu : u <+: s.dropWhile isDigit) :
    ∀ c ∈ u.head?, isDigit c = false := by
  intro c hc
  obtain ⟨v, hv⟩ := hu
  have hhead : (s.dropWhile isDigit).head? = some c := by
    rw [← hv, List.head?_append, Option.mem_def.mp hc]
    rfl
  have hstops := List.head?_dropWhile_not isDigit s
  rwa [hhead] at hstops

theorem takes_readDigits (h : readDigits s = some (ds, r)) : Takes readDigits s ds r := by
  obtain ⟨hspan, hne⟩ : s.span isDigit = (ds, r) ∧ ds ≠ [] := by
    rw [readDigits] at h
    split at h
    next => cases h
    next hne =>
      have heq := Option.some.inj h
      exact ⟨heq, fun hnil => hne r (by rw [heq, hnil])⟩
  rw [List.span_eq_takeWhile_dropWhile, Prod.mk.injEq] at hspan
  obtain ⟨rfl, rfl⟩ := hspan
  have hdigits : ∀ c ∈ s.takeWhile isDigit, isDigit c = true := fun c => List.mem_takeWhile_imp
  refine ⟨List.takeWhile_append_dropWhile.symm, fun d hd => ?_, fun u hu => ?_⟩
  · have hbounds := isDigit_iff.mp (hdigits d hd)
    omega
  · exact readDigits_of_isDigit_append hne hdigits (not_isDigit_of_stop hu)

/-- Marks in front of what a reader takes. -/
theorem Takes.marked {read read' : Points → Option (Points × Points)} (h : Takes read s ds r)
    {m : Points} (hm : ∀ c ∈ m, c < 0x80)
    (hread : ∀ {v ds u}, read v = some (ds, u) → read' (m ++ v) = some (m ++ ds, u)) :
    Takes read' (m ++ s) (m ++ ds) r where
  eq_append := by rw [h.eq_append, List.append_assoc]
  ascii := List.forall_mem_append.mpr ⟨hm, h.ascii⟩
  again u hu := by rw [List.append_assoc, hread (h.again u hu)]

theorem takes_readWhole (h : readWhole s = some (ds, r)) : Takes readWhole s ds r := by
  unfold readWhole at h
  split at h
  next r' =>
    cases h
    exact ⟨rfl, by decide, fun u _ => rfl⟩
  next hzero =>
    have htakes := takes_readDigits h
    refine ⟨htakes.eq_append, htakes.ascii, fun u hu => ?_⟩
    rw [readWhole]
    · exact htakes.again u hu
    · -- a zero in front would be one in front of the whole text
      intro v heq
      obtain ⟨w, rfl⟩ := hu
      exact hzero (v ++ w) (by rw [htakes.eq_append, ← List.append_assoc, heq, List.cons_append])

theorem takes_readFraction (h : readFraction s = some (ds, r)) : Takes readFraction s ds r := by
  unfold readFraction at h
  split at h
  next t =>
    obtain ⟨⟨es, r'⟩, hdigits, heq⟩ := Option.bind_eq_some_iff.mp h
    cases heq
    refine (takes_readDigits hdigits).marked (m := [0x2E]) (by decide) fun {v ds u} hv => ?_
    rw [List.singleton_append, readFraction, hv]
    rfl
  next hpoint =>
    cases h
    refine ⟨rfl, by simp, fun u hu => ?_⟩
    obtain ⟨w, rfl⟩ := hu
    rw [List.nil_append, readFraction]
    exact fun v heq => hpoint (v ++ w) (by rw [heq, List.cons_append])

theorem readExponent_signed {e sign : Nat} (he : (e == 0x65 || e == 0x45) = true)
    (hsign : (sign == 0x2B || sign == 0x2D) = true) (h : readDigits t = some (ds, r)) :
    readExponent (e :: sign :: t) = some (e :: sign :: ds, r) := by
  rw [readExponent.eq_def]
  dsimp only
  rw [if_pos he, if_pos hsign, h]
  rfl

theorem readExponent_unsigned {e : Nat} (he : (e == 0x65 || e == 0x45) = true)
    (h : readDigits t = some (ds, r)) : readExponent (e :: t) = some (e :: ds, r) := by
  cases t with
  | nil => cases h
  | cons c t =>
      have hsign : (c == 0x2B || c == 0x2D) = false := by
        have hbounds := isDigit_iff.mp (isDigit_of_readDigits h)
        simp
        omega
      rw [readExponent.eq_def]
      dsimp only
      rw [if_pos he, hsign, h]
      rfl

theorem takes_readExponent (h : readExponent s = some (ds, r)) : Takes readExponent s ds r := by
  unfold readExponent at h
  split at h
  next e t =>
    split at h
    next he =>
      have hletter : e < 0x80 := by
        simp at he
        omega
      split at h
      next sign t =>
        split at h
        next hsign =>
          have hmark : sign < 0x80 := by
            simp at hsign
            omega
          obtain ⟨⟨es, r'⟩, hdigits, heq⟩ := Option.bind_eq_some_iff.mp h
          cases heq
          exact (takes_readDigits hdigits).marked (m := [e, sign])
            (by simpa using ⟨hletter, hmark⟩) (readExponent_signed he hsign)
        next =>
          obtain ⟨⟨es, r'⟩, hdigits, heq⟩ := Option.bind_eq_some_iff.mp h
          cases heq
          exact (takes_readDigits hdigits).marked (m := [e]) (by simpa using hletter)
            (readExponent_unsigned he)
      next => cases h
    next he =>
      cases h
      refine ⟨rfl, by simp, fun u hu => ?_⟩
      cases u with
      | nil => rfl
      | cons c u =>
          obtain ⟨rfl, -⟩ := List.cons_prefix_cons.mp hu
          rw [List.nil_append, readExponent.eq_def]
          exact if_neg he
  next =>
    cases h
    refine ⟨rfl, by simp, fun u hu => ?_⟩
    rw [List.prefix_nil.mp hu]
    rfl

theorem takes_signed (s : Points) :
    Takes (fun v => some (signed v)) s (signed s).1 (signed s).2 := by
  cases s with
  | nil => exact ⟨rfl, by simp [signed], fun u hu => by rw [List.prefix_nil.mp hu]; rfl⟩
  | cons c s =>
      by_cases hc : c = 0x2D
      · subst hc
        exact ⟨rfl, by simp [signed], fun u _ => rfl⟩
      · rw [signed_of_ne hc]
        refine ⟨rfl, by simp, fun u hu => ?_⟩
        cases u with
        | nil => rfl
        | cons d u =>
            obtain ⟨rfl, -⟩ := List.cons_prefix_cons.mp hu
            exact congrArg some (signed_of_ne hc u)

theorem map_toNat_map_ofNat (h : ∀ c ∈ s, c < 0x80) :
    (s.map UInt8.ofNat).map UInt8.toNat = s := by
  rw [List.map_map]
  refine (List.map_congr_left fun c hc => ?_).trans (List.map_id s)
  have hlt := h c hc
  exact Utf8.toNat_ofNat_of_lt (by omega)

theorem isAscii_map_ofNat (h : ∀ c ∈ s, c < 0x80) : Utf8.IsAscii (s.map UInt8.ofNat) := by
  intro b hb
  have hmem := List.mem_map_of_mem (f := UInt8.toNat) hb
  rw [map_toNat_map_ofNat h] at hmem
  exact h _ hmem

/-- The spelling of a number that is read is a numeral. -/
theorem isNumeral_of_readNumber {numeral : Bytes} (h : readNumber s = some (numeral, rest)) :
    IsNumeral numeral := by
  rw [readNumber_eq] at h
  obtain ⟨⟨whole, u⟩, hwhole, h⟩ := Option.bind_eq_some_iff.mp h
  obtain ⟨⟨fraction, v⟩, hfraction, h⟩ := Option.bind_eq_some_iff.mp h
  obtain ⟨⟨exponent, w⟩, hexponent, h⟩ := Option.bind_eq_some_iff.mp h
  cases h
  have hsign := takes_signed s
  have hwhole : Takes readWhole (signed s).2 whole u := takes_readWhole hwhole
  have hfraction : Takes readFraction u fraction v := takes_readFraction hfraction
  have hexponent : Takes readExponent v exponent w := takes_readExponent hexponent
  generalize (signed s).1 = sign, (signed s).2 = unsigned at hsign hwhole ⊢
  have hascii : ∀ c ∈ sign ++ whole ++ fraction ++ exponent, c < 0x80 := by
    simp only [List.forall_mem_append]
    exact ⟨⟨⟨hsign.ascii, hwhole.ascii⟩, hfraction.ascii⟩, hexponent.ascii⟩
  refine ⟨isAscii_map_ofNat hascii, ?_⟩
  -- each part is read again in front of the parts after it, without the rest of the text
  have hexponent' := hexponent.again [] List.nil_prefix
  have hfraction' := hfraction.again exponent ⟨w, hexponent.eq_append.symm⟩
  have hwhole' := hwhole.again (fraction ++ exponent) ⟨w, by
    rw [hfraction.eq_append, hexponent.eq_append, List.append_assoc]⟩
  have hsign' := hsign.again (whole ++ (fraction ++ exponent)) ⟨w, by
    rw [hwhole.eq_append, hfraction.eq_append, hexponent.eq_append]
    simp only [List.append_assoc]⟩
  rw [List.append_nil] at hexponent'
  have hsigned : signed (sign ++ whole ++ fraction ++ exponent)
      = (sign, whole ++ (fraction ++ exponent)) := by
    rw [List.append_assoc, List.append_assoc]
    exact Option.some.inj hsign'
  rw [map_toNat_map_ofNat hascii, readNumber_eq, hsigned]
  dsimp only
  rw [hwhole', Option.bind_some, hfraction', Option.bind_some, hexponent']
  rfl

theorem tidy_of_readScalar (h : readScalar s = some (j, rest)) : Tidy n j := by
  simp only [readScalar, Option.orElse_eq_some, Option.map_eq_some_iff, Prod.mk.injEq] at h
  rcases h with ⟨_, _, rfl, _⟩ | ⟨_, ⟨_, _, rfl, _⟩ | ⟨_, ⟨_, _, rfl, _⟩ |
    ⟨_, ⟨numeral, r⟩, hread, rfl, _⟩⟩⟩
  · exact .null
  · exact .bool true
  · exact .bool false
  · exact .number (isNumeral_of_readNumber hread)

theorem tidy_of_readItems {value : Reader} {js : List Json}
    (hvalue : ∀ {s j rest}, value s = some (j, rest) → Tidy n j)
    (h : readItems value fuel s = some (js, rest)) : ∀ j ∈ js, Tidy n j := by
  induction fuel generalizing s js rest with
  | zero => cases h
  | succ fuel ih =>
      rw [readItems] at h
      obtain ⟨⟨j, t⟩, hj, h⟩ := Option.bind_eq_some_iff.mp h
      dsimp only at h
      split at h
      next r heq =>
        obtain ⟨⟨js', rest'⟩, hjs, heq⟩ := Option.bind_eq_some_iff.mp h
        cases heq
        exact List.forall_mem_cons.mpr ⟨hvalue hj, ih hjs⟩
      next =>
        cases h
        exact List.forall_mem_singleton.mpr (hvalue hj)
      next => cases h

theorem tidy_of_readMembers {value : Reader} {ms : List (Bytes × Json)}
    (hvalue : ∀ {s j rest}, value s = some (j, rest) → Tidy n j)
    (h : readMembers value fuel s = some (ms, rest)) :
    ∀ m ∈ ms, isValid m.1 = true ∧ Tidy n m.2 := by
  induction fuel generalizing s ms rest with
  | zero => cases h
  | succ fuel ih =>
      rw [readMembers] at h
      split at h
      next =>
        obtain ⟨⟨key, t⟩, hkey, h⟩ := Option.bind_eq_some_iff.mp h
        dsimp only at h
        split at h
        next =>
          obtain ⟨⟨j, t⟩, hj, h⟩ := Option.bind_eq_some_iff.mp h
          dsimp only at h
          have hmember := And.intro (isValid_spell key) (hvalue hj)
          split at h
          next =>
            obtain ⟨⟨ms', rest'⟩, hms, heq⟩ := Option.bind_eq_some_iff.mp h
            cases heq
            exact List.forall_mem_cons.mpr ⟨hmember, ih hms⟩
          next =>
            cases h
            exact List.forall_mem_singleton.mpr hmember
          next => cases h
        next => cases h
      next => cases h

/-- An object gets every key once, whatever members it is spelled with. -/
theorem tidy_object_merge {ms : List (Bytes × Json)}
    (h : ∀ m ∈ ms, isValid m.1 = true ∧ Tidy n m.2) :
    Tidy (n + 1) (.object (Table.merge [] ms)) := by
  have hmerged : ∀ m ∈ Table.merge [] ms, m ∈ ms := fun m hm =>
    (Table.mem_of_mem_merge hm).resolve_left List.not_mem_nil
  have hnodup : (Table.names ([] : Table Json)).Nodup := List.nodup_nil
  exact .object (fun m hm => (h m (hmerged m hm)).1) (Table.nodup_names_merge hnodup ms)
    fun m hm => (h m (hmerged m hm)).2

theorem tidy_object_nil : Tidy (n + 1) (.object []) := .object (by simp) (by simp) (by simp)

/-- Every document that is read is tidy. -/
theorem tidy_of_readValue (h : readValue fuel levels s = some (j, rest)) : Tidy levels j := by
  induction levels generalizing s j rest with
  | zero =>
      unfold readValue at h
      split at h
      next =>
        obtain ⟨⟨cs, r⟩, -, heq⟩ := Option.map_eq_some_iff.mp h
        cases heq
        exact .string (isValid_spell cs)
      next hzero => cases hzero
      next hzero => cases hzero
      next => exact tidy_of_readScalar h
  | succ levels ih =>
      unfold readValue at h
      split at h
      next =>
        obtain ⟨⟨cs, r⟩, -, heq⟩ := Option.map_eq_some_iff.mp h
        cases heq
        exact .string (isValid_spell cs)
      next l _ hlevels =>
        obtain rfl : levels = l := Nat.succ.inj hlevels
        split at h
        next =>
          cases h
          exact .array (by simp)
        next =>
          obtain ⟨⟨js, r⟩, hjs, heq⟩ := Option.map_eq_some_iff.mp h
          cases heq
          exact .array (tidy_of_readItems ih hjs)
      next l _ hlevels =>
        obtain rfl : levels = l := Nat.succ.inj hlevels
        split at h
        next =>
          cases h
          exact tidy_object_nil
        next =>
          obtain ⟨⟨ms, r⟩, hms, heq⟩ := Option.map_eq_some_iff.mp h
          cases heq
          exact tidy_object_merge (tidy_of_readMembers ih hms)
      next => exact tidy_of_readScalar h

theorem tidy_of_readObject? {doc : Bytes} {ms : List (Bytes × Json)}
    (h : readObject? doc = some ms) : Tidy nestingLimit (.object ms) := by
  rw [readObject?] at h
  split at h
  next ms' hread =>
    cases h
    obtain ⟨⟨j, r⟩, hvalue, rfl⟩ := Option.map_eq_some_iff.mp hread
    exact tidy_of_readValue hvalue
  next =>
    cases h
    exact tidy_object_nil.mono (show 0 + 1 ≤ nestingLimit by decide)
  next => cases h

theorem le_trans_of_keys {α : Type} (a b c : Bytes × α) (hab : (!Bytes.lt b.1 a.1) = true)
    (hbc : (!Bytes.lt c.1 b.1) = true) : (!Bytes.lt c.1 a.1) = true := by
  simp only [Bool.not_eq_true', ← Bool.not_eq_true, Bytes.lt_iff, List.not_lt] at *
  exact List.le_trans hab hbc

theorem le_total_of_keys {α : Type} (a b : Bytes × α) :
    (!Bytes.lt b.1 a.1 || !Bytes.lt a.1 b.1) = true := by
  cases h : Bytes.lt b.1 a.1
  · rfl
  · rw [Bytes.lt_asymm h]
    rfl

/-- Members in order stay in order. -/
theorem byKey_byKey {α : Type} (ms : List (Bytes × α)) : byKey (byKey ms) = byKey ms :=
  List.mergeSort_of_pairwise (List.pairwise_mergeSort le_trans_of_keys le_total_of_keys ms)

/-- The written form of a document does not show in which order the members of its objects are. -/
theorem write_sorted (h : Tidy n j) : j.sorted.write = j.write := by
  induction h with
  | null => rfl
  | bool b => rfl
  | number h => rfl
  | string h => rfl
  | @array n items h ih =>
      have hitems : (sortedEach items).map write = items.map write := by
        rw [sortedEach_eq_map, List.map_map]
        exact List.map_congr_left ih
      rw [sorted, write_array, write_array, hitems]
  | @object n ms hkeys hnodup h ih =>
      have hmembers : (byKey (sortedValues ms)).map writeMember = (byKey ms).map writeMember := by
        rw [sortedValues_eq_map, byKey_map, List.map_map]
        refine List.map_congr_left fun m hm => ?_
        simp only [Function.comp_apply, writeMember, ih m (mem_byKey.mp hm)]
      rw [sorted, write_object, write_object, byKey_byKey, hmembers]

/-- The members of an object as they are read back from its written form. -/
def inOrder (ms : Table Json) : Table Json := byKey (sortedValues ms)

theorem sorted_object (ms : Table Json) : (object ms).sorted = .object (inOrder ms) := rfl

theorem readObject?_write_inOrder {ms : Table Json} (h : Tidy nestingLimit (.object ms)) :
    readObject? (object ms).write = some (inOrder ms) := by
  rw [readObject?_write h, inOrder, sortedValues_eq_map]

/-- Read back, an object has the same members under the same keys. -/
theorem get?_inOrder {ms : Table Json} (hnodup : ms.names.Nodup) (key : Bytes) :
    (inOrder ms).get? key = (ms.get? key).map sorted := by
  rw [inOrder]
  have hnames : (Table.names (byKey (sortedValues ms))).Nodup := by
    rw [sortedValues_eq_map, byKey_map, Table.names, List.map_map]
    exact ((byKey_perm ms).map _).nodup_iff.mpr hnodup
  rw [Table.get?_perm (byKey_perm (sortedValues ms)) hnames, sortedValues_eq_map, Table.get?_map]

theorem toValues_sortedEach {items : List Json}
    (h : ∀ j ∈ items, ∀ σ, j.sorted.toValue σ = j.toValue σ) (σ : Heap) :
    toValues (sortedEach items) σ = toValues items σ := by
  induction items generalizing σ with
  | nil => rfl
  | cons j items ih =>
      obtain ⟨hj, hitems⟩ := List.forall_mem_cons.mp h
      rw [sortedEach, toValues, toValues, hj]
      simp only [ih hitems]

/-- The value of a document does not depend on the order of the members of its objects. -/
theorem toValue_sorted (h : Tidy n j) (σ : Heap) : j.sorted.toValue σ = j.toValue σ := by
  induction h generalizing σ with
  | null => rfl
  | bool b => rfl
  | number h => rfl
  | string h => rfl
  | array h ih => rw [sorted, toValue, toValue, toValues_sortedEach ih]
  | @object n ms hkeys hnodup h ih =>
      have hwritten := write_sorted (.object hkeys hnodup h)
      rw [sorted_object] at hwritten ⊢
      rw [toValue, toValue, hwritten]

end Json

end JumpScript
