import JumpScript.Proofs.Json.Numbers
import JumpScript.Proofs.Json.Strings
import JumpScript.Proofs.Text.Pieces

/-!
# Reading undoes writing

A document that could have been read is read back from its written form, with the members of its
objects in the order of their keys.  Its numbers are numerals, its texts are valid, its objects have
every key once, and it nests no deeper than what is read.
-/

namespace JumpScript.Json

open Utf8 (IsAscii isValid)

variable {n fuel levels : Nat} {j : Json} {rest : Points}

/-- A document that could have been read, with so many levels of arrays and objects. -/
inductive Tidy : Nat → Json → Prop where
  | null {n : Nat} : Tidy n .null
  | bool {n : Nat} (b : Bool) : Tidy n (.bool b)
  | number {n : Nat} {numeral : Bytes} (h : IsNumeral numeral) : Tidy n (.number numeral)
  | string {n : Nat} {s : Bytes} (h : isValid s = true) : Tidy n (.string s)
  | array {n : Nat} {items : List Json} (h : ∀ j ∈ items, Tidy n j) : Tidy (n + 1) (.array items)
  | object {n : Nat} {ms : List (Bytes × Json)} (hkeys : ∀ m ∈ ms, isValid m.1 = true)
      (hnodup : (ms.map (·.1)).Nodup) (h : ∀ m ∈ ms, Tidy n m.2) : Tidy (n + 1) (.object ms)

theorem Tidy.mono (h : Tidy n j) {m : Nat} (hle : n ≤ m) : Tidy m j := by
  induction h generalizing m with
  | null => exact .null
  | bool b => exact .bool b
  | number h => exact .number h
  | string h => exact .string h
  | array h ih =>
      obtain ⟨m, rfl⟩ : ∃ l, m = l + 1 := ⟨m - 1, by omega⟩
      exact .array fun j hj => ih j hj (by omega)
  | object hkeys hnodup h ih =>
      obtain ⟨m, rfl⟩ : ∃ l, m = l + 1 := ⟨m - 1, by omega⟩
      exact .object hkeys hnodup fun m hm => ih m hm (by omega)

/-- Members in the order of their keys. -/
def byKey {α : Type} (ms : List (Bytes × α)) : List (Bytes × α) :=
  ms.mergeSort fun a b => !Bytes.lt b.1 a.1

mutual

/-- A document with the members of all objects in the order of their keys. -/
def sorted : Json → Json
  | .array items => .array (sortedEach items)
  | .object ms => .object (byKey (sortedValues ms))
  | j => j

/-- Documents with the members of all objects in the order of their keys. -/
def sortedEach : List Json → List Json
  | [] => []
  | j :: js => sorted j :: sortedEach js

/-- Members with those of all objects inside in the order of their keys. -/
def sortedValues : List (Bytes × Json) → List (Bytes × Json)
  | [] => []
  | (k, j) :: ms => (k, sorted j) :: sortedValues ms

end

theorem sortedEach_eq_map (js : List Json) : sortedEach js = js.map sorted := by
  induction js with
  | nil => rfl
  | cons j js ih => rw [sortedEach, ih, List.map_cons]

theorem sortedValues_eq_map (ms : List (Bytes × Json)) :
    sortedValues ms = ms.map fun m => (m.1, m.2.sorted) := by
  induction ms with
  | nil => rfl
  | cons m ms ih => rw [sortedValues, ih, List.map_cons]

theorem writeEach_eq_map (js : List Json) : writeEach js = js.map write := by
  induction js with
  | nil => rfl
  | cons j js ih => rw [writeEach, ih, List.map_cons]

theorem writeValues_eq_map (ms : List (Bytes × Json)) :
    writeValues ms = ms.map fun m => (m.1, m.2.write) := by
  induction ms with
  | nil => rfl
  | cons m ms ih => rw [writeValues, ih, List.map_cons]

/-- Sorting by key does not look at what the keys stand for. -/
theorem byKey_map {α β : Type} (f : α → β) (ms : List (Bytes × α)) :
    byKey (ms.map fun m => (m.1, f m.2)) = (byKey ms).map fun m => (m.1, f m.2) := by
  unfold byKey
  rw [List.map_mergeSort]
  exact fun _ _ _ _ => rfl

theorem byKey_perm {α : Type} (ms : List (Bytes × α)) : (byKey ms).Perm ms :=
  List.mergeSort_perm ms _

theorem mem_byKey {α : Type} {ms : List (Bytes × α)} {m : Bytes × α} : m ∈ byKey ms ↔ m ∈ ms :=
  (byKey_perm ms).mem_iff

def writeMember (m : Bytes × Json) : Bytes := quoted m.1 ++ [0x3A] ++ m.2.write

theorem write_array (items : List Json) :
    (array items).write = [0x5B] ++ Bytes.join [0x2C] (items.map write) ++ [0x5D] := by
  rw [write, writeEach_eq_map]
  rfl

theorem write_object (ms : List (Bytes × Json)) :
    (object ms).write = [0x7B] ++ Bytes.join [0x2C] ((byKey ms).map writeMember) ++ [0x7D] := by
  have hmembers : ((writeValues ms).mergeSort fun a b => !Bytes.lt b.1 a.1).map
      (fun m => quoted m.1 ++ [0x3A] ++ m.2) = (byKey ms).map writeMember := by
    rw [writeValues_eq_map]
    change (byKey (ms.map fun m => (m.1, m.2.write))).map _ = _
    rw [byKey_map write, List.map_map]
    rfl
  rw [write, writeMembers, hmembers]
  rfl

/-- A code point that begins a document: no white space, and nothing that ends one. -/
def Opens (c : Nat) : Prop :=
  c ≠ 0x20 ∧ c ≠ 0x09 ∧ c ≠ 0x0A ∧ c ≠ 0x0D ∧ c ≠ 0x5D ∧ c ≠ 0x7D

instance (c : Nat) : Decidable (Opens c) := inferInstanceAs (Decidable (_ ∧ _))

theorem skip_of_opens {c : Nat} (hc : Opens c) (s : Points) : skip (c :: s) = c :: s := by
  obtain ⟨hspace, htab, hnewline, hreturn, -⟩ := hc
  rw [skip, List.dropWhile_cons, if_neg]
  simp [hspace, htab, hnewline, hreturn]

theorem opens_of_numeral {c : Nat} (hc : c = 0x2D ∨ 0x30 ≤ c ∧ c ≤ 0x39) : Opens c := by
  unfold Opens
  omega

/-- A text is spelled from code points, the first of which begins a document. -/
structure Opening (s : Bytes) : Prop where
  isValid : isValid s = true
  opens : ∃ c t, points s = c :: t ∧ Opens c

theorem Opening.append {s t : Bytes} (hs : Opening s) (ht : Utf8.isValid t = true) :
    Opening (s ++ t) where
  isValid := Utf8.isValid_append hs.isValid ht
  opens := by
    obtain ⟨c, r, hr, hc⟩ := hs.opens
    rw [points_append_of_isValid hs.isValid, hr]
    exact ⟨c, r ++ points t, rfl, hc⟩

theorem Opening.skip_append {s : Bytes} (hs : Opening s) (rest : Points) :
    skip (points s ++ rest) = points s ++ rest := by
  obtain ⟨c, r, hr, hc⟩ := hs.opens
  rw [hr, List.cons_append, skip_of_opens hc]

theorem opening_quoted (s : Bytes) : Opening (quoted s) :=
  ⟨isValid_quoted s, _, _, points_quoted s, by decide⟩

theorem opening_of_isAscii {b : UInt8} {s : Bytes} (hb : Opens b.toNat)
    (h : IsAscii (b :: s)) : Opening (b :: s) :=
  ⟨h.isValid, _, _, points_of_isAscii h, hb⟩

theorem isValid_join {ps : List Bytes} (h : ∀ p ∈ ps, isValid p = true) :
    isValid (Bytes.join [0x2C] ps) = true := by
  induction ps with
  | nil => exact (show IsAscii [] by decide).isValid
  | cons p ps ih =>
      obtain ⟨hp, hps⟩ := List.forall_mem_cons.mp h
      cases ps with
      | nil => exact hp
      | cons q ps =>
          have hcomma : IsAscii [0x2C] := by decide
          exact Utf8.isValid_append (Utf8.isValid_append hp hcomma.isValid) (ih hps)

theorem points_join_cons {p q : Bytes} (hp : isValid p = true) (ps : List Bytes) :
    points (Bytes.join [0x2C] (p :: q :: ps))
      = points p ++ 0x2C :: points (Bytes.join [0x2C] (q :: ps)) := by
  have hcomma : IsAscii [0x2C] := by decide
  rw [Bytes.join, points_append_of_isValid (Utf8.isValid_append hp hcomma.isValid),
    points_append_of_isValid hp, points_of_isAscii hcomma, List.append_assoc]
  rfl

theorem opening_join {ps : List Bytes} (hne : ps ≠ []) (h : ∀ p ∈ ps, Opening p) :
    Opening (Bytes.join [0x2C] ps) := by
  have hvalid := isValid_join fun p hp => (h p hp).isValid
  refine ⟨hvalid, ?_⟩
  obtain ⟨p, ps, rfl⟩ := List.exists_cons_of_ne_nil hne
  have hp := h p List.mem_cons_self
  cases ps with
  | nil => exact hp.opens
  | cons q ps =>
      obtain ⟨c, t, heq, hc⟩ := hp.opens
      refine ⟨c, t ++ 0x2C :: points (Bytes.join [0x2C] (q :: ps)), ?_, hc⟩
      rw [points_join_cons hp.isValid, heq]
      rfl

/-- Texts between brackets, with commas between them. -/
theorem opening_enclosed {a b : UInt8} {ps : List Bytes} (hopens : Opens a.toNat)
    (ha : IsAscii [a]) (hb : IsAscii [b]) (h : ∀ p ∈ ps, isValid p = true) :
    Opening ([a] ++ Bytes.join [0x2C] ps ++ [b]) :=
  ((opening_of_isAscii hopens ha).append (isValid_join h)).append hb.isValid

theorem opening_writeMember {m : Bytes × Json} (h : Opening m.2.write) : Opening (writeMember m) :=
  ((opening_quoted m.1).append (show IsAscii [0x3A] by decide).isValid).append h.isValid

theorem opening_members {ms : List (Bytes × Json)} (h : ∀ m ∈ ms, Opening m.2.write) :
    ∀ p ∈ (byKey ms).map writeMember, Opening p := by
  intro p hp
  obtain ⟨m, hm, rfl⟩ := List.mem_map.mp hp
  exact opening_writeMember (h m (mem_byKey.mp hm))

theorem opening_write (h : Tidy n j) : Opening j.write := by
  induction h with
  | null => exact opening_of_isAscii (by decide) (by decide)
  | bool b => cases b <;> exact opening_of_isAscii (by decide) (by decide)
  | number h =>
      obtain ⟨c, t, heq, hc⟩ := h.exists_eq_cons
      exact ⟨h.isAscii.isValid, c, t, (points_of_isAscii h.isAscii).trans heq,
        opens_of_numeral hc⟩
  | string h => exact opening_quoted _
  | array h ih =>
      rw [write_array]
      refine opening_enclosed (by decide) (by decide) (by decide) fun p hp => ?_
      obtain ⟨j, hj, rfl⟩ := List.mem_map.mp hp
      exact (ih j hj).isValid
  | @object n ms hkeys hnodup h ih =>
      rw [write_object]
      exact opening_enclosed (by decide) (by decide) (by decide) fun p hp =>
        (opening_members ih p hp).isValid

theorem points_enclosed {a b : UInt8} {s : Bytes} (ha : IsAscii [a]) (hb : IsAscii [b])
    (h : isValid s = true) :
    points ([a] ++ s ++ [b]) = a.toNat :: (points s ++ [b.toNat]) := by
  rw [List.append_assoc, points_append_of_isValid ha.isValid, points_append_of_isValid h,
    points_of_isAscii ha, points_of_isAscii hb]
  rfl

/-- No part of a list of texts is longer than all of it, and each adds to its length. -/
theorem length_le_join {ps : List Bytes} (h : ∀ p ∈ ps, Opening p) :
    ps.length ≤ (points (Bytes.join [0x2C] ps)).length ∧
      ∀ p ∈ ps, (points p).length ≤ (points (Bytes.join [0x2C] ps)).length := by
  induction ps with
  | nil => simp
  | cons p ps ih =>
      obtain ⟨hp, hps⟩ := List.forall_mem_cons.mp h
      have hpos : 0 < (points p).length := by
        obtain ⟨c, t, heq, -⟩ := hp.opens
        rw [heq]
        exact Nat.succ_pos _
      cases ps with
      | nil => simpa [Bytes.join] using Nat.succ_le_of_lt hpos
      | cons q ps =>
          obtain ⟨hlength, hall⟩ := ih hps
          rw [points_join_cons hp.isValid]
          simp only [List.length_append, List.length_cons] at hlength ⊢
          refine ⟨by omega, List.forall_mem_cons.mpr ⟨by omega, fun u hu => ?_⟩⟩
          have hle := hall u hu
          omega

theorem length_le_enclosed {a b : UInt8} {ps : List Bytes} (ha : IsAscii [a]) (hb : IsAscii [b])
    (h : ∀ p ∈ ps, Opening p)
    (hfuel : (points ([a] ++ Bytes.join [0x2C] ps ++ [b])).length ≤ fuel) :
    ps.length ≤ fuel ∧ ∀ p ∈ ps, (points p).length ≤ fuel := by
  obtain ⟨hlength, hall⟩ := length_le_join h
  rw [points_enclosed ha hb (isValid_join fun p hp => (h p hp).isValid), List.length_cons,
    List.length_append] at hfuel
  refine ⟨by omega, fun p hp => ?_⟩
  have hle := hall p hp
  omega

theorem ends_of_mark {c : Nat} (hc : c = 0x2C ∨ c = 0x5D ∨ c = 0x7D) (rest : Points) :
    Ends (c :: rest) := by
  rintro d hd
  obtain rfl : c = d := Option.some.inj hd
  rcases hc with rfl | rfl | rfl <;> decide

/-- A reader reads a document back from its written form. -/
def ReadsBack (value : Reader) (j : Json) : Prop :=
  ∀ rest, Ends rest → value (points j.write ++ rest) = some (j.sorted, rest)

theorem readItems_write {value : Reader} {items : List Json} (hne : items ≠ [])
    (hopening : ∀ j ∈ items, Opening j.write) (hreads : ∀ j ∈ items, ReadsBack value j)
    (hfuel : items.length ≤ fuel) (rest : Points) :
    readItems value fuel (points (Bytes.join [0x2C] (items.map write)) ++ 0x5D :: rest)
      = some (items.map sorted, rest) := by
  induction items generalizing fuel with
  | nil => exact absurd rfl hne
  | cons j items ih =>
      obtain ⟨hj, hopening⟩ := List.forall_mem_cons.mp hopening
      obtain ⟨hread, hreads⟩ := List.forall_mem_cons.mp hreads
      cases fuel with
      | zero => cases hfuel
      | succ fuel =>
          cases items with
          | nil =>
              rw [List.map_singleton, Bytes.join, readItems, hj.skip_append,
                hread _ (ends_of_mark (by decide) _)]
              rfl
          | cons k items =>
              have hnext := ih (List.cons_ne_nil k items) hopening hreads
                (Nat.le_of_succ_le_succ hfuel)
              rw [List.map_cons] at hnext
              rw [List.map_cons, List.map_cons, points_join_cons hj.isValid, List.append_assoc,
                List.cons_append, readItems, hj.skip_append, hread _ (ends_of_mark (by decide) _)]
              change (readItems value fuel _).bind _ = _
              rw [hnext]
              rfl

theorem points_writeMember (m : Bytes × Json) :
    points (writeMember m)
      = 0x22 :: ((points m.1).flatMap escape ++ 0x22 :: 0x3A :: points m.2.write) := by
  have hcolon : IsAscii [0x3A] := by decide
  rw [writeMember, points_append_of_isValid (Utf8.isValid_append (isValid_quoted _) hcolon.isValid),
    points_append_of_isValid (isValid_quoted _), points_quoted,
    points_of_isAscii hcolon]
  simp

/-- Reading members begins with the first one, and goes on after a comma. -/
theorem readMembers_writeMember {value : Reader} {m : Bytes × Json} (hkey : isValid m.1 = true)
    (hopening : Opening m.2.write) (hread : ReadsBack value m.2) (fuel : Nat) {c : Nat}
    (hc : c = 0x2C ∨ c = 0x7D) (r : Points) :
    readMembers value (fuel + 1) (points (writeMember m) ++ c :: r) =
      if c = 0x2C then (readMembers value fuel r).map fun p => ((m.1, m.2.sorted) :: p.1, p.2)
      else some ([(m.1, m.2.sorted)], r) := by
  have hends : Ends (c :: r) := ends_of_mark (by omega) r
  rw [points_writeMember, List.cons_append, List.append_assoc, List.cons_append, List.cons_append,
    readMembers, skip_of_opens (by decide)]
  change (readString _).bind _ = _
  rw [readString_body, Option.bind_some]
  change (value (skip _)).bind _ = _
  rw [hopening.skip_append, hread _ hends, Option.bind_some, spell_points hkey]
  rcases hc with rfl | rfl
  · change (readMembers value fuel r).bind _ = (readMembers value fuel r).map _
    cases readMembers value fuel r <;> rfl
  · rfl

theorem readMembers_write {value : Reader} {ms : List (Bytes × Json)} (hne : ms ≠ [])
    (hkeys : ∀ m ∈ ms, isValid m.1 = true) (hopening : ∀ m ∈ ms, Opening m.2.write)
    (hreads : ∀ m ∈ ms, ReadsBack value m.2) (hfuel : ms.length ≤ fuel) (rest : Points) :
    readMembers value fuel (points (Bytes.join [0x2C] (ms.map writeMember)) ++ 0x7D :: rest)
      = some (ms.map fun m => (m.1, m.2.sorted), rest) := by
  induction ms generalizing fuel with
  | nil => exact absurd rfl hne
  | cons m ms ih =>
      obtain ⟨hkey, hkeys⟩ := List.forall_mem_cons.mp hkeys
      obtain ⟨hm, hopening⟩ := List.forall_mem_cons.mp hopening
      obtain ⟨hread, hreads⟩ := List.forall_mem_cons.mp hreads
      cases fuel with
      | zero => cases hfuel
      | succ fuel =>
          cases ms with
          | nil =>
              rw [List.map_singleton, Bytes.join,
                readMembers_writeMember hkey hm hread fuel (Or.inr rfl)]
              rfl
          | cons k ms =>
              have hnext := ih (List.cons_ne_nil k ms) hkeys hopening hreads
                (Nat.le_of_succ_le_succ hfuel)
              rw [List.map_cons] at hnext
              rw [List.map_cons, List.map_cons, points_join_cons (opening_writeMember hm).isValid,
                List.append_assoc, List.cons_append,
                readMembers_writeMember hkey hm hread fuel (Or.inl rfl), if_pos rfl, hnext]
              rfl

theorem readValue_of_scalar {c : Nat} (hc : c ≠ 0x22 ∧ c ≠ 0x5B ∧ c ≠ 0x7B) (s : Points) :
    readValue fuel levels (c :: s) = readScalar (c :: s) := by
  rw [readValue]
  · exact fun _ h => hc.1 (List.cons.inj h).1
  · exact fun _ _ _ h => hc.2.1 (List.cons.inj h).1
  · exact fun _ _ _ h => hc.2.2 (List.cons.inj h).1

theorem after?_of_ne {a c : Nat} (h : a ≠ c) (w s : Points) : after? (a :: w) (c :: s) = none := by
  simp [after?, h]

theorem readScalar_number {numeral : Bytes} (h : IsNumeral numeral) (hrest : Ends rest) :
    readScalar (numeral.map UInt8.toNat ++ rest) = some (.number numeral, rest) := by
  obtain ⟨c, s, heq, hc⟩ := h.exists_eq_cons
  have hread := h.readNumber_append hrest
  rw [heq, List.cons_append] at hread ⊢
  have hnull : after? (word "null") (c :: (s ++ rest)) = none :=
    after?_of_ne (a := 0x6E) (by omega) _ _
  have htrue : after? (word "true") (c :: (s ++ rest)) = none :=
    after?_of_ne (a := 0x74) (by omega) _ _
  have hfalse : after? (word "false") (c :: (s ++ rest)) = none :=
    after?_of_ne (a := 0x66) (by omega) _ _
  rw [readScalar, hnull, htrue, hfalse, hread]
  rfl

theorem insert_of_notMem {α : Type} {t : Table α} {name : Bytes} (h : name ∉ t.map (·.1)) (v : α) :
    t.insert name v = t ++ [(name, v)] := by
  induction t with
  | nil => rfl
  | cons b t ih =>
      rw [List.map_cons, List.mem_cons, not_or] at h
      rw [Table.insert, if_neg (Ne.symm h.1), ih h.2]
      rfl

/-- Members with distinct keys stay as they are. -/
theorem merge_of_nodup {α : Type} {t ms : Table α} (h : ((t ++ ms).map (·.1)).Nodup) :
    Table.merge t ms = t ++ ms := by
  induction ms generalizing t with
  | nil => exact (List.append_nil t).symm
  | cons m ms ih =>
      have hnotMem : m.1 ∉ t.map (·.1) := by
        rw [List.map_append, List.map_cons, List.nodup_append] at h
        exact fun hmem => h.2.2 _ hmem _ List.mem_cons_self rfl
      have hassoc : t ++ m :: ms = t ++ [(m.1, m.2)] ++ ms := by simp
      rw [hassoc] at h ⊢
      change Table.merge (t.insert m.1 m.2) ms = _
      rw [insert_of_notMem hnotMem, ih h]

theorem readValue_array {s : Points} (hopens : ∃ c t, s = c :: t ∧ Opens c) :
    readValue fuel (levels + 1) (0x5B :: s)
      = (readItems (readValue fuel levels) fuel s).map fun p => (.array p.1, p.2) := by
  obtain ⟨c, t, rfl, hc⟩ := hopens
  rw [readValue, skip_of_opens hc]
  split
  next heq => exact absurd (List.cons.inj heq).1 hc.2.2.2.2.1
  next => rfl

theorem readValue_object {s : Points} (hopens : ∃ c t, s = c :: t ∧ Opens c) :
    readValue fuel (levels + 1) (0x7B :: s)
      = (readMembers (readValue fuel levels) fuel s).map fun p =>
          (.object (Table.merge [] p.1), p.2) := by
  obtain ⟨c, t, rfl, hc⟩ := hopens
  rw [readValue, skip_of_opens hc]
  split
  next heq => exact absurd (List.cons.inj heq).1 hc.2.2.2.2.2
  next => rfl

theorem Opening.opens_append {s : Bytes} (h : Opening s) (rest : Points) :
    ∃ c t, points s ++ rest = c :: t ∧ Opens c := by
  obtain ⟨c, t, heq, hc⟩ := h.opens
  exact ⟨c, t ++ rest, by rw [heq]; rfl, hc⟩

theorem readsBack_array {items : List Json} (hopening : ∀ j ∈ items, Opening j.write)
    (hreads : ∀ j ∈ items, ReadsBack (readValue fuel levels) j) (hfuel : items.length ≤ fuel) :
    ReadsBack (readValue fuel (levels + 1)) (.array items) := by
  intro rest _
  have hparts : ∀ p ∈ items.map write, Opening p := by simpa using hopening
  rw [write_array, sorted, sortedEach_eq_map,
    points_enclosed (by decide) (by decide) (isValid_join fun p hp => (hparts p hp).isValid),
    List.cons_append, List.append_assoc]
  by_cases hne : items = []
  · subst hne
    rw [List.map_nil, Bytes.join, points_of_isAscii (by decide)]
    rfl
  · have hjoin := opening_join (by simpa using hne) hparts
    refine (readValue_array (hjoin.opens_append _)).trans ?_
    change (readItems _ _ (points _ ++ 0x5D :: rest)).map _ = _
    rw [readItems_write hne hopening hreads hfuel]
    rfl

theorem readsBack_object {ms : List (Bytes × Json)} (hkeys : ∀ m ∈ ms, isValid m.1 = true)
    (hnodup : (ms.map (·.1)).Nodup) (hopening : ∀ m ∈ ms, Opening m.2.write)
    (hreads : ∀ m ∈ ms, ReadsBack (readValue fuel levels) m.2) (hfuel : ms.length ≤ fuel) :
    ReadsBack (readValue fuel (levels + 1)) (.object ms) := by
  intro rest _
  have hparts := opening_members hopening
  have hsorted : Table.merge [] ((byKey ms).map fun m => (m.1, m.2.sorted))
      = byKey (ms.map fun m => (m.1, m.2.sorted)) := by
    rw [byKey_map]
    refine merge_of_nodup ?_
    rw [List.nil_append, List.map_map]
    exact ((byKey_perm ms).map (·.1)).nodup_iff.mpr hnodup
  rw [write_object, sorted, sortedValues_eq_map, ← hsorted,
    points_enclosed (by decide) (by decide) (isValid_join fun p hp => (hparts p hp).isValid),
    List.cons_append, List.append_assoc]
  by_cases hne : byKey ms = []
  · rw [hne, List.map_nil, Bytes.join, points_of_isAscii (by decide)]
    rfl
  · have hjoin := opening_join (by simpa using hne) hparts
    refine (readValue_object (hjoin.opens_append _)).trans ?_
    change (readMembers _ _ (points _ ++ 0x7D :: rest)).map _ = _
    rw [readMembers_write hne (fun m hm => hkeys m (mem_byKey.mp hm))
      (fun m hm => hopening m (mem_byKey.mp hm)) (fun m hm => hreads m (mem_byKey.mp hm))
      ((byKey_perm ms).length_eq.trans_le hfuel)]
    rfl

/-- A tidy document is read back from its written form. -/
theorem readValue_write (h : Tidy n j) (hlevels : n ≤ levels)
    (hfuel : (points j.write).length ≤ fuel) : ReadsBack (readValue fuel levels) j := by
  induction h generalizing levels with
  | null =>
      intro rest _
      rw [write, points_of_isAscii (by decide)]
      exact readValue_of_scalar (by decide) _
  | bool b =>
      intro rest _
      cases b
      · rw [write, points_of_isAscii (by decide)]
        exact readValue_of_scalar (by decide) _
      · rw [write, points_of_isAscii (by decide)]
        exact readValue_of_scalar (by decide) _
  | number h =>
      intro rest hrest
      rw [write, points_of_isAscii h.isAscii]
      have hread := readScalar_number h hrest
      obtain ⟨c, s, heq, hc⟩ := h.exists_eq_cons
      rw [heq, List.cons_append] at hread ⊢
      exact (readValue_of_scalar (by omega) _).trans hread
  | string h =>
      intro rest _
      rw [write, points_quoted, List.cons_append, List.append_assoc, readValue]
      change (readString ((points _).flatMap escape ++ 0x22 :: rest)).map _ = _
      rw [readString_body, Option.map_some]
      dsimp only
      rw [spell_points h]
      rfl
  | @array n items h ih =>
      obtain ⟨levels, rfl⟩ : ∃ l, levels = l + 1 := ⟨levels - 1, by omega⟩
      have hopening : ∀ j ∈ items, Opening j.write := fun j hj => opening_write (h j hj)
      rw [write_array] at hfuel
      obtain ⟨hlength, hall⟩ :=
        length_le_enclosed (by decide) (by decide) (by simpa using hopening) hfuel
      rw [List.length_map] at hlength
      refine readsBack_array hopening (fun j hj => ?_) hlength
      exact ih j hj (by omega) (hall _ (List.mem_map_of_mem hj))
  | @object n ms hkeys hnodup h ih =>
      obtain ⟨levels, rfl⟩ : ∃ l, levels = l + 1 := ⟨levels - 1, by omega⟩
      have hopening : ∀ m ∈ ms, Opening m.2.write := fun m hm => opening_write (h m hm)
      rw [write_object] at hfuel
      obtain ⟨hlength, hall⟩ :=
        length_le_enclosed (by decide) (by decide) (opening_members hopening) hfuel
      rw [List.length_map, (byKey_perm ms).length_eq] at hlength
      refine readsBack_object hkeys hnodup hopening (fun m hm => ?_) hlength
      have hle := hall _ (List.mem_map_of_mem (mem_byKey.mpr hm))
      rw [points_writeMember] at hle
      simp only [List.length_cons, List.length_append] at hle
      exact ih m hm (by omega) (by omega)

/-- Reading undoes writing for a tidy document. -/
theorem read?_write (h : Tidy nestingLimit j) : read? j.write = some j.sorted := by
  have hopening := opening_write h
  have hread := readValue_write h (le_refl _) (le_refl _) [] ends_nil
  have hskip := hopening.skip_append []
  rw [List.append_nil] at hread hskip
  rw [read?, hskip, hread]
  rfl

/-- The members of a tidy object are read back from its written form. -/
theorem readObject?_write {ms : List (Bytes × Json)} (h : Tidy nestingLimit (.object ms)) :
    readObject? (object ms).write = some (byKey (ms.map fun m => (m.1, m.2.sorted))) := by
  rw [readObject?, read?_write h, sorted, sortedValues_eq_map]

end JumpScript.Json
