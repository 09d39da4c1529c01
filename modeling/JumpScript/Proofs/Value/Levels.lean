import Mathlib.Data.List.Forall2
import JumpScript.Proofs.Value.Nesting

/-!
# Showing nested arrays

An array can be inside itself, so showing a value comes to an end only by counting levels.
`Shows` says what showing a value does while the level rises, without any other bound.  It gives one
text for every value, which is that of `Heap.text`.
-/

namespace JumpScript.Heap

variable {σ : Heap} {v w : Value} {h : Handle} {s : Bytes} {n level levels : Nat}

/-- What a value is shown as on a level: scalars and texts as they are, arrays element by element on
the first eleven levels and without their elements below. -/
inductive Shows (σ : Heap) : (level : Nat) → Value → Bytes → Prop where
  | scalar {level : Nat} {v : Value} (hv : v.kind ≠ .array) : Shows σ level v (scalarText v)
  | array {level : Nat} {h : Handle} {parts : List Bytes} (hlevel : level ≤ 11)
      (hlength : (σ.items h).toList.length = parts.length)
      (hparts : ∀ v s, (v, s) ∈ (σ.items h).toList.zip parts → Shows σ (level + 1) v s) :
      Shows σ level (.array h) (bracketed parts)
  | elided {level : Nat} {h : Handle} (hlevel : 11 < level) :
      Shows σ level (.array h) (JumpScript.text "[...]")

theorem textWithin_scalar (hv : v.kind ≠ .array) : σ.textWithin levels v = scalarText v := by
  cases v with
  | array h => exact absurd rfl hv
  | _ => cases levels <;> rfl

/-- Showing comes to an end on every level, with as many levels left as there are below it. -/
theorem shows_textWithin (hlevel : level + levels = 12) (v : Value) :
    σ.Shows level v (σ.textWithin levels v) := by
  induction levels generalizing level v with
  | zero =>
      cases v with
      | array h => exact .elided (by omega)
      | _ => exact .scalar nofun
  | succ levels ih =>
      cases v with
      | array h =>
          have hall : List.Forall₂ (σ.Shows (level + 1)) (σ.items h).toList
              ((σ.items h).toList.map (σ.textWithin levels)) :=
            List.forall₂_map_right_iff.mpr
              (List.forall₂_same.mpr fun w _ => ih (by omega) w)
          obtain ⟨hlength, hparts⟩ := List.forall₂_iff_zip.mp hall
          exact .array (by omega) hlength fun _ _ => hparts
      | _ => exact .scalar nofun

theorem Shows.eq_textWithin (h : σ.Shows level v s) (hlevel : level + levels = 12) :
    σ.textWithin levels v = s := by
  induction h generalizing levels with
  | scalar hv => exact textWithin_scalar hv
  | @array level h parts hle hlength _ ih =>
      obtain ⟨levels, rfl⟩ : ∃ l, levels = l + 1 := ⟨levels - 1, by omega⟩
      have hall : List.Forall₂ (fun v s => σ.textWithin levels v = s) (σ.items h).toList parts :=
        List.forall₂_iff_zip.mpr ⟨hlength, fun hmem => ih _ _ hmem (by omega)⟩
      have hmap : (σ.items h).toList.map (σ.textWithin levels) = parts :=
        List.forall₂_eq_eq_eq ▸ List.forall₂_map_left_iff.mpr hall
      rw [textWithin, hmap]
  | elided hgt =>
      obtain rfl : levels = 0 := by omega
      rfl

theorem text_eq_iff : σ.text v = s ↔ σ.Shows 1 v s :=
  ⟨fun h => h ▸ shows_textWithin rfl v, fun h => h.eq_textWithin rfl⟩

end JumpScript.Heap
