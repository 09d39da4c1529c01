import JumpScript.Text.Bytes

/-!
# Positional numbers

Digits in a base spell a number.  Long digit sequences are cut into halves, so that most of the work
is done by few multiplications; `positional_eq_foldl` says that the value is the one found by taking
digit after digit.
-/

namespace JumpScript

/-- The number that digits spell in a base. -/
def positional (base : Nat) (ds : List Nat) : Nat :=
  if _h : ds.length ≤ 32 then ds.foldl (fun n d => n * base + d) 0
  else
    let k := ds.length / 2
    positional base (ds.take k) * Nat.pow base (ds.length - k) + positional base (ds.drop k)
termination_by ds.length
decreasing_by
  · simp only [List.length_take]; omega
  · simp only [List.length_drop]; omega

/-- Digits after a number shift it by their count. -/
theorem foldl_digits (base a : Nat) (ds : List Nat) :
    ds.foldl (fun n d => n * base + d) a
      = a * Nat.pow base ds.length + ds.foldl (fun n d => n * base + d) 0 := by
  induction ds generalizing a with
  | nil => simp
  | cons d ds ih =>
    rw [List.foldl_cons, List.foldl_cons, ih (a * base + d), ih (0 * base + d), List.length_cons]
    show (a * base + d) * Nat.pow base ds.length + _
      = a * (Nat.pow base ds.length * base) + ((0 * base + d) * Nat.pow base ds.length + _)
    rw [Nat.zero_mul, Nat.zero_add, Nat.add_mul, Nat.mul_assoc, Nat.mul_comm base, Nat.add_assoc]

/-- The value of digits is found by taking digit after digit. -/
theorem positional_eq_foldl (base : Nat) (ds : List Nat) :
    positional base ds = ds.foldl (fun n d => n * base + d) 0 := by
  fun_induction positional base ds with
  | case1 => rfl
  | case2 ds _ k ih₁ ih₂ =>
    rw [ih₁, ih₂, ← List.length_drop, ← foldl_digits, ← List.foldl_append, List.take_append_drop]

/-- The number that a sequence of ASCII digits spells. -/
def Bytes.numeral (ds : Bytes) : Nat := positional 10 (ds.map Bytes.digitValue)

end JumpScript
