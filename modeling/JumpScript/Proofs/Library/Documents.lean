import JumpScript.Proofs.Json.RoundTrip
import JumpScript.Proofs.Value.Copies

/-!
# Getting undoes encoding

What a value is encoded as can be put into a document under any key, and getting that key gives a
copy of the value: the same kinds, the same scalars and texts, and arrays that were not there
before.
-/

namespace JumpScript

open Heap (SameOutside Nests Copies)

namespace Json

variable {σ υ : Heap} {v : Value} {n : Nat} {j : Json}

/-- A document from which copies of a value are made in any heap.  Arrays nest no deeper in a copy
than the number of arrays that are added for it. -/
def Restores (σ : Heap) (n : Nat) (v : Value) (j : Json) : Prop :=
  ∀ υ, ∃ τ w m, j.toValue υ = .ok (τ, w) ∧ m ≤ n ∧ υ.cells.size + m ≤ τ.cells.size ∧
    Copies σ τ m v w

/-- Scalars and texts take no arrays. -/
theorem restores_scalar (hv : v.kind ≠ .array) (h : ∀ υ, j.toValue υ = .ok (υ, v)) :
    Restores σ n v j :=
  fun υ => ⟨υ, v, 0, h υ, Nat.zero_le n, le_refl _, .scalar hv⟩

theorem exists_toValues {vs : List Value} {js : List Json}
    (h : List.Forall₂ (Restores σ n) vs js) (υ : Heap) :
    ∃ τ ws m, toValues js υ = .ok (τ, ws) ∧ m ≤ n ∧ υ.cells.size + m ≤ τ.cells.size ∧
      List.Forall₂ (Copies σ τ m) vs ws := by
  induction h generalizing υ with
  | nil => exact ⟨υ, [], 0, rfl, Nat.zero_le n, le_refl _, .nil⟩
  | cons hrestores _ ih =>
      obtain ⟨τ₁, w, m₁, hvalue, hm₁, hsize₁, hcopy⟩ := hrestores υ
      obtain ⟨τ₂, ws, m₂, hvalues, hm₂, hsize₂, hcopies⟩ := ih τ₁
      -- the arrays of the first copy stay as they are while the others are made
      have hsame := (novel_toValues _ hvalues).1
      refine ⟨τ₂, w :: ws, max m₁ m₂, ?_, max_le hm₁ hm₂, by omega, ?_⟩
      · rw [toValues, hvalue, ok_bind]
        change (toValues _ τ₁ >>= _) = _
        rw [hvalues]
        rfl
      · exact .cons (hcopy.mono hsame (le_max_left m₁ m₂))
          (hcopies.imp fun _ _ h => h.mono (.refl ∅ τ₂) (le_max_right m₁ m₂))

theorem restores_array {h : Handle} {items : Array Value} {js : List Json}
    (hget : σ.get? h = some items) (hitems : List.Forall₂ (Restores σ n) items.toList js) :
    Restores σ (n + 1) (.array h) (.array js) := by
  intro υ
  obtain ⟨τ, ws, m, hvalues, hm, hsize, hcopies⟩ := exists_toValues hitems υ
  have hsame := Heap.sameOutside_alloc ∅ τ ws.toArray
  refine ⟨(τ.alloc ws.toArray).1, .array (τ.alloc ws.toArray).2, m + 1, ?_, by omega, ?_, ?_⟩
  · rw [toValue, hvalues]
    rfl
  · simp only [Heap.alloc, Array.size_push]
    omega
  · exact .of_forall₂ (by simpa using hget) (τ.get?_alloc_self ws.toArray)
      (hcopies.imp fun _ _ h => h.mono hsame le_rfl)

theorem numberValue_ofInt (k : Int64) : numberValue (Bytes.ofInt k.toInt) = .ok (.int k) := by
  rw [numberValue, Integer.read_ofInt]

/-- A value that nests no deeper than is allowed has a document, from which it is restored. -/
theorem exists_ofValue (hv : σ.Nests n v) :
    ∃ j, ofValue σ n v = .ok j ∧ Tidy n j ∧ Restores σ n v j.sorted := by
  obtain ⟨hdepth, hplain⟩ := hv
  induction hdepth with
  | @scalar n v hscalar =>
      have hv := hplain v (.self v)
      cases v with
      | bool b =>
          refine ⟨.bool b, ?_, .bool b, restores_scalar nofun fun _ => rfl⟩
          cases n <;> rfl
      | int k =>
          refine ⟨.number (Bytes.ofInt k.toInt), ?_, .number (isNumeral_ofInt k.toInt),
            restores_scalar nofun fun υ => ?_⟩
          · cases n <;> rfl
          · change (numberValue (Bytes.ofInt k.toInt)).map (υ, ·) = _
            rw [numberValue_ofInt]
            rfl
      | str s =>
          refine ⟨.string s, ?_, .string hv, restores_scalar nofun fun _ => rfl⟩
          cases n <;> rfl
      | array => exact absurd rfl hscalar
      | void | float => cases hv
  | @array n h _ ih =>
      obtain ⟨items, hget⟩ := Heap.exists_get?_of_plain (hplain (.array h) (.self _))
      have hitems : σ.items h = items := Heap.items_of_get? hget
      obtain ⟨js, hjs, hall⟩ := exists_mapM_eq_ok fun v (hv : v ∈ items.toList) => by
        have hmem : v ∈ σ.items h := hitems ▸ Array.mem_toList_iff.mp hv
        exact ih v hmem fun w hw => hplain w (.element hmem hw)
      obtain ⟨htidy, hrestores⟩ := (List.forall₂_and_left _ _).mp hall.flip
      refine ⟨.array js, ?_, .array htidy, ?_⟩
      · rw [ofValue, hitems, hjs]
        rfl
      · rw [sorted, sortedEach_eq_map]
        exact restores_array hget (List.forall₂_map_right_iff.mpr hrestores.flip)

/-- The text of an object with one member, from the texts of its key and of what that stands
for. -/
def single (key value : Bytes) : Bytes :=
  text "\x7b" ++ key ++ text ":" ++ value ++ text "\x7d"

theorem write_object_single (key : Bytes) (j : Json) :
    (object [(key, j)]).write = single (quoted key) j.write := by
  have hbyKey : byKey [(key, j)] = [(key, j)] := List.mergeSort_singleton _
  rw [write_object, hbyKey]
  simp only [single, List.map_cons, List.map_nil, Bytes.join, writeMember, List.append_assoc]
  rfl

end Json

namespace DocumentFunction

variable {σ υ : Heap} {v : Value} {key : Bytes} {j : Json}

/-- Encoding leaves the heap as it is and gives the text of the document, if there is one. -/
theorem run_encode_eq (σ : Heap) (v : Value) :
    encode.run [v] σ = (σ, (Json.ofValue σ levels v).map fun j => .str j.write) := by
  rw [run, Arguments.one]
  dsimp only [bind, Except.bind]
  cases Json.ofValue σ levels v <;> rfl

theorem run_encode (h : Json.ofValue σ levels v = .ok j) :
    encode.run [v] σ = (σ, .ok (.str j.write)) := by
  rw [run_encode_eq, h]
  rfl

/-- The one member of an object is got back from its text. -/
theorem member_single (hj : Json.Tidy levels j) (hkey : Utf8.isValid key = true) (υ : Heap) :
    member υ (Json.single (Json.quoted key) j.write) key = j.sorted.toValue υ := by
  have htidy : Json.Tidy Json.nestingLimit (.object [(key, j)]) :=
    .object (by simpa using hkey) (by simp) (by simpa using hj.mono (by decide))
  have hread := Json.readObject?_write htidy
  rw [Json.write_object_single] at hread
  have hbyKey : Json.byKey [(key, j.sorted)] = [(key, j.sorted)] := List.mergeSort_singleton _
  rw [List.map_singleton, hbyKey] at hread
  have hget : Table.get? [(key, j.sorted)] key = some j.sorted := by
    simp [Table.get?]
  rw [member, hread]
  dsimp only
  rw [hget]

theorem run_get {doc : Bytes} {τ : Heap} {w : Value} (h : member υ doc key = .ok (τ, w)) :
    get.run [.str doc, .str key] υ = (τ, .ok w) := by
  rw [run]
  have hfound : ((Arguments.two [.str doc, .str key]) >>= fun (p : Value × Value) => do
      member υ (← p.1.asString) (← p.2.asString)) = .ok (τ, w) := h
  rw [hfound]

/-- Getting a key undoes encoding what it stands for.  A value of finite depth has a text, and so
has every valid key; getting the key from the object made of the two gives a copy of the value, in
arrays that were not there before, which equals the value wherever that still is what it was. -/
theorem get_undoes_encode (hv : σ.Nests 65 v) (hkey : Utf8.isValid key = true) :
    ∃ keyText valueText,
      encode.run [.str key] σ = (σ, .ok (.str keyText)) ∧
      encode.run [v] σ = (σ, .ok (.str valueText)) ∧
      ∀ υ, ∃ τ w,
        get.run [.str (Json.single keyText valueText), .str key] υ = (τ, .ok w) ∧
        Copies σ τ 65 v w ∧
        (∀ h, τ.Inside w h → υ.get? h = none) ∧
        (SameOutside ∅ σ υ → τ.equal v w = true) := by
  obtain ⟨j, hj, htidy, hrestores⟩ := Json.exists_ofValue hv
  refine ⟨Json.quoted key, j.write, run_encode (j := .string key) rfl, run_encode hj, fun υ => ?_⟩
  obtain ⟨τ, w, m, hvalue, hm, hsize, hcopy⟩ := hrestores υ
  have hmember := (member_single htidy hkey υ).trans hvalue
  obtain ⟨hsame, S, hclosed, hwithin, hnovel⟩ := novel_member hmember
  refine ⟨τ, w, run_get hmember, hcopy.mono (.refl ∅ τ) hm, fun h hinside => ?_, fun hσ => ?_⟩
  · exact hnovel h (hclosed.mem_of_inside (hwithin w List.mem_cons_self) hinside)
  · exact hcopy.equal hv.plain (hσ.trans hsame) (by omega)

/-- A heap in which one array holds another one twice. -/
def sharing : Heap :=
  ⟨#[#[.int (-9223372036854775808), .str (text "<\t\u2028")],
    #[.array ⟨1⟩, .bool true, .array ⟨1⟩]]⟩

theorem get_undoes_encode_sharing :
    sharing.Nests 65 (.array ⟨2⟩) ∧ Utf8.isValid (text "a\"b") = true ∧
      ∃ keyText valueText τ w,
        encode.run [.str (text "a\"b")] sharing = (sharing, .ok (.str keyText)) ∧
        encode.run [.array ⟨2⟩] sharing = (sharing, .ok (.str valueText)) ∧
        get.run [.str (Json.single keyText valueText), .str (text "a\"b")] sharing
          = (τ, .ok w) ∧
        Copies sharing τ 65 (.array ⟨2⟩) w ∧ (∀ h, τ.Inside w h → sharing.get? h = none) ∧
        τ.equal (.array ⟨2⟩) w = true := by
  have hinner : sharing.Nests 64 (.array ⟨1⟩) := by
    have htext : Utf8.isValid (text "<\t\u2028") = true := by decide +kernel
    exact .array rfl (List.forall_mem_cons.mpr
      ⟨.scalar nofun trivial, List.forall_mem_singleton.mpr (.scalar nofun htext)⟩)
  have hnests : sharing.Nests 65 (.array ⟨2⟩) := by
    have hbool : sharing.Nests 64 (.bool true) := .scalar nofun trivial
    exact .array rfl (List.forall_mem_cons.mpr
      ⟨hinner, List.forall_mem_cons.mpr ⟨hbool, List.forall_mem_singleton.mpr hinner⟩⟩)
  have hkey : Utf8.isValid (text "a\"b") = true := by decide +kernel
  obtain ⟨keyText, valueText, hkeyText, hvalueText, hget⟩ := get_undoes_encode hnests hkey
  obtain ⟨τ, w, hrun, hcopy, hfresh, hequal⟩ := hget sharing
  exact ⟨hnests, hkey, keyText, valueText, τ, w, hkeyText, hvalueText, hrun, hcopy, hfresh,
    hequal (.refl ∅ sharing)⟩

end DocumentFunction

end JumpScript
