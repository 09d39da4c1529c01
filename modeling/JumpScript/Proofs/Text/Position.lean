import Mathlib.Data.List.TakeDrop
import Mathlib.Data.List.TakeWhile
import JumpScript.Text.Bytes

/-!
# Looking at positions

Elements and stretches of a list are taken out by position here, and a position that the list does
not have is a failure.  A computation that looks at positions in this way gives a result only if
every position that it looks at exists.
-/

namespace JumpScript.Position

variable {α : Type}

def read (l : List α) (i : Int) : Option α := if 0 ≤ i then l[i.toNat]? else none

/-- The elements from one position up to another. -/
def slice (l : List α) (i j : Int) : Option (List α) :=
  if 0 ≤ i ∧ i ≤ j ∧ j ≤ l.length then some ((l.take j.toNat).drop i.toNat) else none

/-- Room for some elements. -/
def room (n : Int) : Option Unit := if 0 ≤ n then some () else none

theorem read_of_drop {l r : List α} {a : α} {i : Nat} (h : l.drop i = a :: r) :
    read l i = some a := by
  have hget : l[i]? = some a := by
    rw [← List.head?_drop, h, List.head?_cons]
  simpa [read] using hget

theorem drop_of_drop {l r : List α} {a : α} {i : Nat} (h : l.drop i = a :: r) (n : Nat) :
    l.drop (i + (n + 1)) = r.drop n := by
  rw [← List.drop_drop, h, List.drop_succ_cons]

theorem le_of_drop {l r : List α} {a : α} {i n : Nat} (h : l.drop i = a :: r)
    (hn : n ≤ r.length) : i + (n + 1) ≤ l.length := by
  have hlength := congrArg List.length h
  rw [List.length_drop, List.length_cons] at hlength
  omega

theorem lt_of_drop {l r : List α} {a : α} {i : Nat} (h : l.drop i = a :: r) : i < l.length :=
  le_of_drop h (Nat.zero_le _)

theorem drop_takeWhile (l : List α) (test : α → Bool) (i : Nat) :
    l.drop (i + ((l.drop i).takeWhile test).length) = (l.drop i).dropWhile test := by
  have hsplit := List.takeWhile_append_dropWhile (p := test) (l := l.drop i)
  calc l.drop (i + ((l.drop i).takeWhile test).length)
      = ((l.drop i).takeWhile test ++ (l.drop i).dropWhile test).drop
          ((l.drop i).takeWhile test).length := by rw [hsplit, List.drop_drop]
    _ = (l.drop i).dropWhile test := List.drop_left' rfl

theorem slice_of_le {l : List α} {i j : Nat} (hij : i ≤ j) (hj : j ≤ l.length) :
    slice l i j = some ((l.drop i).take (j - i)) := by
  simp [slice, hij, hj, List.drop_take]

theorem slice_of_drop {l r : List α} {a : α} {i n : Nat} (h : l.drop i = a :: r)
    (hn : n ≤ r.length) : slice l i (i + (n + 1) : Nat) = some (a :: r.take n) := by
  rw [slice_of_le (Nat.le_add_right _ _) (le_of_drop h hn), Nat.add_sub_cancel_left, h,
    List.take_succ_cons]

theorem slice_to_end {l : List α} {i : Nat} (hi : i ≤ l.length) :
    slice l i l.length = some (l.drop i) := by
  rw [slice_of_le hi le_rfl, List.take_of_length_le (by simp)]

/-- The first position from some position on whose element fails a test, or the end. -/
def extent (l : List α) (test : α → Bool) (i : Nat) : Option Nat :=
  if i < l.length then do
    if test (← read l i) then extent l test (i + 1) else return i
  else return i
termination_by l.length - i

theorem extent_eq (l : List α) (test : α → Bool) (i : Nat) :
    extent l test i = some (i + ((l.drop i).takeWhile test).length) := by
  induction hn : l.length - i generalizing i with
  | zero =>
      rw [extent, if_neg (by omega), List.drop_of_length_le (by omega)]
      rfl
  | succ n ih =>
      obtain ⟨a, r, hdrop⟩ : ∃ a r, l.drop i = a :: r :=
        List.exists_cons_of_ne_nil (by simp; omega)
      have hnext : l.drop (i + 1) = r := drop_of_drop hdrop 0
      rw [extent, if_pos (by omega), read_of_drop hdrop, hdrop]
      by_cases ha : test a = true
      · simp [ha, ih (i + 1) (by omega), hnext]
        omega
      · simp [ha]

end JumpScript.Position
