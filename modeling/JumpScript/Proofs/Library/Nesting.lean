import JumpScript.Proofs.Json.Tidy
import JumpScript.Proofs.Library.Documents

/-!
# Objects inside documents

Getting a key that an object is found under gives the text of that object.  The members of the
object can be got from the text just as if they had been taken from the object itself, so that calls
in a chain follow a path through objects inside objects down to any depth.
-/

namespace JumpScript

namespace Json

/-- The object at the end of a path through objects inside objects. -/
def descend : (ms : Table Json) → (path : List Bytes) → Option (Table Json)
  | ms, [] => some ms
  | ms, key :: path =>
    match ms.get? key with
    | some (.object inner) => descend inner path
    | _ => none

variable {n : Nat} {ms o inner : Table Json} {key : Bytes} {path : List Bytes} {j : Json}

theorem Tidy.nodup_names (h : Tidy n (.object ms)) : ms.names.Nodup := by
  cases h with
  | object _ hnodup _ => exact hnodup

/-- Members nest less deep than their object, so they could be read in its place. -/
theorem Tidy.of_get? (h : Tidy n (.object ms)) (hget : ms.get? key = some j) : Tidy n j := by
  cases h with
  | object _ _ hmembers => exact (hmembers _ (Table.mem_of_get? hget)).mono (Nat.le_succ _)

theorem exists_of_descend_cons (h : descend ms (key :: path) = some o) :
    ∃ inner, ms.get? key = some (.object inner) ∧ descend inner path = some o := by
  rw [descend] at h
  split at h
  next inner hget => exact ⟨inner, hget, h⟩
  next => cases h

theorem Tidy.of_descend (h : Tidy n (.object ms)) (hpath : descend ms path = some o) :
    Tidy n (.object o) := by
  induction path generalizing ms with
  | nil =>
      cases hpath
      exact h
  | cons key path ih =>
      obtain ⟨inner, hget, hrest⟩ := exists_of_descend_cons hpath
      exact ih (h.of_get? hget) hrest

/-- The same paths lead through an object that is read back from its written form. -/
theorem descend_inOrder (h : Tidy n (.object ms)) (hpath : descend ms path = some o) :
    descend (inOrder ms) path = some (inOrder o) := by
  induction path generalizing ms with
  | nil =>
      cases hpath
      rfl
  | cons key path ih =>
      obtain ⟨inner, hget, hrest⟩ := exists_of_descend_cons hpath
      rw [descend, get?_inOrder h.nodup_names, hget, Option.map_some, sorted_object]
      exact ih (h.of_get? hget) hrest

end Json

namespace DocumentFunction

open Json (Tidy descend inOrder nestingLimit readObject?)

variable {n : Nat} {doc key : Bytes} {ms o : Table Json} {path : List Bytes}

/-- What the member of an object under a key is converted to. -/
def convertMember (o : Table Json) (key : Bytes) (σ : Heap) : Heap × Except Fault Value :=
  match o.get? key with
  | none => (σ, .error (.jsonKeyNotFound key))
  | some j =>
    match j.toValue σ with
    | .ok (τ, v) => (τ, .ok v)
    | .error e => (σ, .error e)

/-- Gets keys one after the other, each from what the one before it gave. -/
def getAlong : (path : List Bytes) → Value → Heap → Heap × Except Fault Value
  | [], v, σ => (σ, .ok v)
  | key :: path, v, σ =>
    match get.run [v, .str key] σ with
    | (τ, .ok w) => getAlong path w τ
    | (τ, .error e) => (τ, .error e)

theorem run_get_eq (h : readObject? doc = some ms) (key : Bytes) (σ : Heap) :
    get.run [.str doc, .str key] σ = convertMember ms key σ := by
  have hrun : get.run [.str doc, .str key] σ =
      match member σ doc key with
      | .ok (τ, v) => (τ, .ok v)
      | .error e => (σ, .error e) := rfl
  rw [hrun, member, h, convertMember]
  dsimp only
  cases ms.get? key <;> rfl

theorem getAlong_singleton (key : Bytes) (v : Value) (σ : Heap) :
    getAlong [key] v σ = get.run [v, .str key] σ := by
  rw [getAlong]
  split
  next h => rw [h, getAlong]
  next h => rw [h]

theorem convertMember_object {inner : Table Json} (h : ms.get? key = some (.object inner))
    (σ : Heap) : convertMember ms key σ = (σ, .ok (.str (Json.object inner).write)) := by
  rw [convertMember, h]
  rfl

/-- Read back from its written form, an object has members of the same values. -/
theorem convertMember_inOrder (h : Tidy n (.object o)) (key : Bytes) (σ : Heap) :
    convertMember (inOrder o) key σ = convertMember o key σ := by
  rw [convertMember, convertMember, Json.get?_inOrder h.nodup_names]
  cases hget : o.get? key with
  | none => rfl
  | some j =>
      rw [Option.map_some]
      dsimp only
      rw [Json.toValue_sorted (h.of_get? hget)]

/-- Calls in a chain follow a path from the object that a text begins with. -/
theorem getAlong_of_descend (hdoc : readObject? doc = some ms) (hpath : descend ms path = some o)
    (key : Bytes) (σ : Heap) :
    getAlong (path ++ [key]) (.str doc) σ = convertMember o key σ := by
  induction path generalizing doc ms o with
  | nil =>
      cases hpath
      rw [List.nil_append, getAlong_singleton, run_get_eq hdoc]
  | cons first path ih =>
      have htidy := Json.tidy_of_readObject? hdoc
      obtain ⟨inner, hget, hrest⟩ := Json.exists_of_descend_cons hpath
      have hinner := htidy.of_get? hget
      rw [List.cons_append, getAlong, run_get_eq hdoc, convertMember_object hget]
      -- the rest of the path leads through the object that is read back
      exact (ih (Json.readObject?_write_inOrder hinner) (Json.descend_inOrder hinner hrest)).trans
        (convertMember_inOrder (hinner.of_descend hrest) key σ)

/-- An object inside a document survives being got as a text.  Getting a key from the text gives
what the member of the object under that key is converted to, and calls in a chain lose nothing on
a path through objects inside it. -/
theorem nested_objects_survive (hdoc : readObject? doc = some ms)
    (hget : ms.get? key = some (.object o)) :
    ∃ s, (∀ σ, get.run [.str doc, .str key] σ = (σ, .ok (.str s))) ∧
      (∀ q σ, get.run [.str s, .str q] σ = convertMember o q σ) ∧
      ∀ path inner, descend o path = some inner → ∀ q σ,
        getAlong (key :: path ++ [q]) (.str doc) σ = convertMember inner q σ := by
  have htidy := (Json.tidy_of_readObject? hdoc).of_get? hget
  refine ⟨(Json.object o).write, fun σ => ?_, fun q σ => ?_, fun path inner hpath q σ => ?_⟩
  · rw [run_get_eq hdoc, convertMember_object hget]
  · rw [run_get_eq (Json.readObject?_write_inOrder htidy), convertMember_inOrder htidy]
  · refine getAlong_of_descend hdoc ?_ q σ
    rw [descend, hget]
    exact hpath

/-- A document with a key given twice, half a code point, and a number out of range. -/
def nestedDocument : Bytes :=
  text "\x7b\"k\":1,\"k\":\x7b\"n\":2.50,\"o\":\x7b\"x\":\"<\\ud800\","
    ++ text "\"y\":[null,1e400]\x7d,\"n\":3\x7d\x7d"

def nestedObject : Table Json :=
  [(text "n", .number (text "3")), (text "o", .object [
    (text "x", .string [0x3C, 0xEF, 0xBF, 0xBD]),
    (text "y", .array [.null, .number (text "1e400")])])]

theorem nested_objects_survive_path :
    readObject? nestedDocument = some [(text "k", .object nestedObject)] ∧
      ∃ s, (∀ σ, get.run [.str nestedDocument, .str (text "k")] σ = (σ, .ok (.str s))) ∧
        (∀ q σ, get.run [.str s, .str q] σ = convertMember nestedObject q σ) ∧
        (∀ σ, getAlong [text "k", text "o", text "x"] (.str nestedDocument) σ
          = (σ, .ok (.str [0x3C, 0xEF, 0xBF, 0xBD]))) ∧
        ∀ σ, getAlong [text "k", text "o", text "y"] (.str nestedDocument) σ
          = (σ, .error (.jsonNumberRange (text "1e400"))) := by
  have hdoc : readObject? nestedDocument = some [(text "k", .object nestedObject)] := by
    rw [readObject?, Json.read?, Json.points_of_isAscii (by decide)]
    rfl
  have hget : Table.get? [(text "k", Json.object nestedObject)] (text "k")
      = some (.object nestedObject) := rfl
  obtain ⟨s, hs, hmembers, hpaths⟩ := nested_objects_survive hdoc hget
  refine ⟨hdoc, s, hs, hmembers, fun σ => ?_, fun σ => ?_⟩
  · exact (hpaths [text "o"] _ rfl (text "x") σ).trans rfl
  · have hmagnitude : Numeral.readMagnitude (text "1e400") = .error .outOfRange := by
      decide +kernel
    have hfloat : Numeral.read (text "1e400") = .error .outOfRange := by
      change (Numeral.readMagnitude (text "1e400")).map _ = _
      rw [hmagnitude]
      rfl
    have hnumber : Json.numberValue (text "1e400") = .error (.jsonNumberRange (text "1e400")) := by
      rw [Json.numberValue, hfloat]
      rfl
    have hvalue : Json.toValue (.array [.null, .number (text "1e400")]) σ
        = .error (.jsonNumberRange (text "1e400")) := by
      simp only [Json.toValue, Json.toValues, hnumber]
      rfl
    refine (hpaths [text "o"] _ rfl (text "y") σ).trans ?_
    rw [convertMember, show Table.get? _ (text "y") = some _ from rfl]
    dsimp only
    rw [hvalue]

end DocumentFunction

end JumpScript
