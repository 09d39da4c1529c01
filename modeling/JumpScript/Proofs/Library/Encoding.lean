import JumpScript.Proofs.Library.Documents
import JumpScript.Proofs.Value.Levels

/-!
# Rendering comes to an end

Showing a value and encoding it both walk down through its arrays, and both count the levels on
their way: showing leaves out what is below the eleventh level, encoding refuses what is below the
65th.  So both come to an end in every heap.  Encoding succeeds exactly when no chain of nested
arrays is longer than 65 and no float is infinite or not a number; no value with a cycle in it has
chains as short as that.

`Encodes` says what encoding does while the level rises, without any other bound.
-/

namespace JumpScript

namespace Heap

variable {σ : Heap} {v : Value} {h : Handle} {n level levels : Nat} {r : Except Fault Json}

/-- What a value is encoded as on a level, or why it is not: scalars and texts by themselves, arrays
element by element down to the 65th level, as far as the first element that fails. -/
inductive Encodes (σ : Heap) : (level : Nat) → Value → Except Fault Json → Prop where
  | void {level : Nat} : Encodes σ level .void (.ok .null)
  | bool {level : Nat} (b : Bool) : Encodes σ level (.bool b) (.ok (.bool b))
  | int {level : Nat} (k : Int64) : Encodes σ level (.int k) (.ok (.number (Bytes.ofInt k.toInt)))
  | float {level : Nat} {x : Float} (hx : Double.isFinite x = true) :
      Encodes σ level (.float x) (.ok (.number (Double.interchange x)))
  | infinite {level : Nat} {x : Float} (hx : Double.isFinite x = false) :
      Encodes σ level (.float x) (.error (.jsonNotFinite x))
  | str {level : Nat} (s : Bytes) : Encodes σ level (.str s) (.ok (.string s))
  | array {level : Nat} {h : Handle} {js : List Json} (hlevel : level ≤ 65)
      (hlength : (σ.items h).toList.length = js.length)
      (hitems : ∀ v j, (v, j) ∈ (σ.items h).toList.zip js → Encodes σ (level + 1) v (.ok j)) :
      Encodes σ level (.array h) (.ok (.array js))
  | stopped {level : Nat} {h : Handle} {before after : List Value} {v : Value} {js : List Json}
      {e : Fault} (hlevel : level ≤ 65) (hsplit : (σ.items h).toList = before ++ v :: after)
      (hlength : before.length = js.length)
      (hbefore : ∀ v j, (v, j) ∈ before.zip js → Encodes σ (level + 1) v (.ok j))
      (hv : Encodes σ (level + 1) v (.error e)) : Encodes σ level (.array h) (.error e)
  | deep {level : Nat} {h : Handle} (hlevel : 65 < level) :
      Encodes σ level (.array h) (.error .jsonTooDeep)

/-- A value all of whose floats have a numeral. -/
def AllFinite (σ : Heap) (v : Value) : Prop := ∀ x, σ.Holds v (.float x) → Double.isFinite x = true

theorem allFinite_array_iff : σ.AllFinite (.array h) ↔ ∀ v ∈ σ.items h, σ.AllFinite v := by
  constructor
  · exact fun hall v hv x hx => hall x (.element hv hx)
  · intro hall x hx
    cases hx with
    | element hv hx => exact hall _ hv x hx

end Heap

namespace Json

open Heap (Encodes Depth AllFinite)

variable {σ : Heap} {v : Value} {h : Handle} {n level levels : Nat} {r : Except Fault Json}

theorem ofValue_float (σ : Heap) (levels : Nat) (x : Float) :
    ofValue σ levels (.float x) =
      if Double.isFinite x then .ok (.number (Double.interchange x))
      else .error (.jsonNotFinite x) := by
  cases levels <;> rfl

theorem encodes_scalar (hv : v.kind ≠ .array) :
    σ.Encodes level v (ofValue σ levels v) := by
  cases v with
  | array h => exact absurd rfl hv
  | float x =>
      rw [ofValue_float]
      split
      · rename_i hx
        exact .float hx
      · rename_i hx
        exact .infinite (Bool.eq_false_iff.mpr hx)
  | void => cases levels <;> exact .void
  | bool b => cases levels <;> exact .bool b
  | int k => cases levels <;> exact .int k
  | str s => cases levels <;> exact .str s

/-- Encoding comes to an end on every level, with as many levels left as there are below it. -/
theorem encodes_ofValue (hlevel : level + levels = 66) (v : Value) :
    σ.Encodes level v (ofValue σ levels v) := by
  induction levels generalizing level v with
  | zero =>
      cases v with
      | array h => exact .deep (by omega)
      | _ => exact encodes_scalar nofun
  | succ levels ih =>
      cases v with
      | array h =>
          have hbelow (v : Value) (r : Except Fault Json) (hr : ofValue σ levels v = r) :
              σ.Encodes (level + 1) v r := hr ▸ ih (by omega) v
          rw [ofValue]
          cases hmap : (σ.items h).toList.mapM (ofValue σ levels) with
          | ok js =>
              obtain ⟨hlength, hitems⟩ := List.forall₂_iff_zip.mp (mapM_eq_ok_iff.mp hmap)
              exact .array (by omega) hlength fun v j hmem => hbelow v _ (hitems hmem)
          | error e =>
              obtain ⟨before, v, after, hsplit, hbefore, hv⟩ := mapM_eq_error_iff.mp hmap
              obtain ⟨js, hjs⟩ := exists_mapM_eq_ok_iff.mpr hbefore
              obtain ⟨hlength, hitems⟩ := List.forall₂_iff_zip.mp (mapM_eq_ok_iff.mp hjs)
              exact .stopped (by omega) hsplit hlength
                (fun v j hmem => hbelow v _ (hitems hmem)) (hbelow v _ hv)
      | _ => exact encodes_scalar nofun

theorem ofValue_of_encodes (h : σ.Encodes level v r) (hlevel : level + levels = 66) :
    ofValue σ levels v = r := by
  induction h generalizing levels with
  | void => cases levels <;> rfl
  | bool b => cases levels <;> rfl
  | int k => cases levels <;> rfl
  | str s => cases levels <;> rfl
  | float hx => rw [ofValue_float, if_pos hx]
  | infinite hx => rw [ofValue_float, if_neg (Bool.eq_false_iff.mp hx)]
  | array hle hlength _ ih =>
      obtain ⟨levels, rfl⟩ : ∃ l, levels = l + 1 := ⟨levels - 1, by omega⟩
      have hall : List.Forall₂ (fun v j => ofValue σ levels v = .ok j) _ _ :=
        List.forall₂_iff_zip.mpr ⟨hlength, fun hmem => ih _ _ hmem (by omega)⟩
      rw [ofValue, mapM_eq_ok_iff.mpr hall]
      rfl
  | stopped hle hsplit hlength _ _ ihbefore ihv =>
      obtain ⟨levels, rfl⟩ : ∃ l, levels = l + 1 := ⟨levels - 1, by omega⟩
      have hall : List.Forall₂ (fun v j => ofValue σ levels v = .ok j) _ _ :=
        List.forall₂_iff_zip.mpr ⟨hlength, fun hmem => ihbefore _ _ hmem (by omega)⟩
      have hbefore := exists_mapM_eq_ok_iff.mp ⟨_, mapM_eq_ok_iff.mpr hall⟩
      rw [ofValue, mapM_eq_error_iff.mpr ⟨_, _, _, hsplit, hbefore, ihv (by omega)⟩]
      rfl
  | deep hgt =>
      obtain rfl : levels = 0 := by omega
      rfl

theorem exists_ofValue_scalar (hv : v.kind ≠ .array) :
    (∃ j, ofValue σ n v = .ok j) ↔ σ.Depth n v ∧ σ.AllFinite v := by
  have hdepth : σ.Depth n v := .scalar hv
  cases v with
  | array h => exact absurd rfl hv
  | float x =>
      rw [ofValue_float]
      constructor
      · rintro ⟨j, hj⟩
        have hx : Double.isFinite x = true := by
          by_contra hnot
          rw [if_neg hnot] at hj
          cases hj
        refine ⟨hdepth, fun y hy => ?_⟩
        cases hy
        exact hx
      · rintro ⟨-, hall⟩
        exact ⟨_, if_pos (hall x (.self _))⟩
  | _ => exact iff_of_true (by cases n <;> exact ⟨_, rfl⟩) ⟨hdepth, nofun⟩

/-- A value has a document just if its arrays nest no deeper than is allowed and its floats have
numerals. -/
theorem exists_ofValue_iff : (∃ j, ofValue σ n v = .ok j) ↔ σ.Depth n v ∧ σ.AllFinite v := by
  induction n generalizing v with
  | zero =>
      cases v with
      | array h =>
          constructor
          · rintro ⟨j, hj⟩
            cases hj
          · rintro ⟨hdepth, -⟩
            obtain ⟨m, hm⟩ := hdepth.pos
            cases hm
      | _ => exact exists_ofValue_scalar nofun
  | succ n ih =>
      cases v with
      | array h =>
          have hmap : (∃ j, ofValue σ (n + 1) (.array h) = .ok j) ↔
              ∃ js, (σ.items h).toList.mapM (ofValue σ n) = .ok js := by
            rw [ofValue]
            cases (σ.items h).toList.mapM (ofValue σ n) <;> simp [Except.map]
          rw [hmap, exists_mapM_eq_ok_iff, Heap.depth_array_iff, Heap.allFinite_array_iff]
          simp only [ih, Array.mem_toList_iff, forall_and]
      | _ => exact exists_ofValue_scalar nofun

end Json

namespace DocumentFunction

variable {σ : Heap} {v : Value}

/-- Encoding succeeds, or fails and leaves the heap as it is. -/
theorem run_encode_cases (σ : Heap) (v : Value) :
    (∃ j, Json.ofValue σ levels v = .ok j ∧ encode.run [v] σ = (σ, .ok (.str j.write))) ∨
      ∃ e, Json.ofValue σ levels v = .error e ∧ encode.run [v] σ = (σ, .error e) := by
  rw [run_encode_eq]
  cases h : Json.ofValue σ levels v with
  | ok j => exact .inl ⟨j, rfl, rfl⟩
  | error e => exact .inr ⟨e, rfl, rfl⟩

theorem exists_run_encode_iff :
    (∃ s, encode.run [v] σ = (σ, .ok (.str s))) ↔ σ.Depth 65 v ∧ σ.AllFinite v := by
  rw [← Json.exists_ofValue_iff]
  obtain ⟨j, hj, hrun⟩ | ⟨e, he, hrun⟩ := run_encode_cases σ v
  · exact iff_of_true ⟨_, hrun⟩ ⟨j, hj⟩
  · refine iff_of_false ?_ ?_
    · rintro ⟨s, hs⟩
      rw [hrun] at hs
      cases hs
    · rintro ⟨j, hj⟩
      cases he.symm.trans hj

theorem exists_error_of_not_depth (h : ¬ σ.Depth 65 v) :
    ∃ e, encode.run [v] σ = (σ, .error e) := by
  obtain ⟨j, -, hrun⟩ | ⟨e, -, hrun⟩ := run_encode_cases σ v
  · exact absurd (exists_run_encode_iff.mp ⟨_, hrun⟩).1 h
  · exact ⟨e, hrun⟩

/-- Showing and encoding come to an end in every heap, with cycles or without.  Of every value there
is one text to show, with the arrays of the first eleven levels element by element and those of the
twelfth left out, and one outcome of encoding it.  That is a text exactly when no chain of nested
arrays is longer than 65 and all floats are finite, and a failure otherwise: for every longer chain,
and so wherever the value leads to an array that is inside one of its own elements. -/
theorem rendering_ends (σ : Heap) (v : Value) :
    (∀ s, σ.text v = s ↔ σ.Shows 1 v s) ∧
    (∃ r, (∀ r', σ.Encodes 1 v r' ↔ r' = r) ∧
      encode.run [v] σ = (σ, r.map fun j => .str j.write)) ∧
    ((∃ s, encode.run [v] σ = (σ, .ok (.str s))) ↔
      (∀ hs, σ.Chain v hs → hs.length ≤ 65) ∧
        ∀ x, σ.Holds v (.float x) → Double.isFinite x = true) ∧
    (∀ hs, σ.Chain v hs → 65 < hs.length → ∃ e, encode.run [v] σ = (σ, .error e)) ∧
    (∀ h w, σ.Inside v h → w ∈ σ.items h → σ.Inside w h →
      ∃ e, encode.run [v] σ = (σ, .error e)) := by
  refine ⟨fun s => Heap.text_eq_iff, ⟨Json.ofValue σ levels v, fun r => ⟨fun h => ?_, ?_⟩, ?_⟩, ?_,
    fun hs hchain hlong => ?_, fun h w hinside hw hback => ?_⟩
  · exact (Json.ofValue_of_encodes h rfl).symm
  · rintro rfl
    exact Json.encodes_ofValue rfl v
  · exact run_encode_eq σ v
  · rw [← Heap.depth_iff_chains]
    exact exists_run_encode_iff
  · refine exists_error_of_not_depth fun hdepth => ?_
    exact Nat.not_le_of_gt hlong (hchain.length_le hdepth)
  · exact exists_error_of_not_depth (Heap.not_depth_of_cycle hinside hw hback)

/-- An array that holds itself, beside one that holds it. -/
def looped : Heap := ⟨#[#[.int 1, .array ⟨1⟩], #[.bool true, .array ⟨1⟩]]⟩

theorem rendering_ends_looped :
    looped.Shows 1 (.array ⟨2⟩)
        (text "[true, [1, [1, [1, [1, [1, [1, [1, [1, [1, [1, [...]]]]]]]]]]]]") ∧
      ∃ e, encode.run [.array ⟨2⟩] looped = (looped, .error e) := by
  obtain ⟨hshows, -, -, -, hcycle⟩ := rendering_ends looped (.array ⟨2⟩)
  have helement : Value.array ⟨1⟩ ∈ looped.items ⟨1⟩ := by decide +kernel
  refine ⟨(hshows _).mp (by decide +kernel), hcycle ⟨1⟩ (.array ⟨1⟩) ?_ helement (.self _)⟩
  exact .element (by decide +kernel : Value.array ⟨1⟩ ∈ looped.items ⟨2⟩) (.self _)

end DocumentFunction

end JumpScript
