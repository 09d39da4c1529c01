/-!
# Stable sorting

A list is sorted in blocks of twenty by insertion, and neighbouring blocks are merged, twice as
large each time.  A merge finds by bisection where to cut both lists so that the first halves go
before the second ones, and merges the halves.  Only `lt` is asked, and each question depends on
the answers so far alone: the result is settled even where `lt` is not an order.
-/

namespace JumpScript.Sorting

variable {α : Type}

/-- Puts `v` into a descending list behind everything greater, and before what compares equal. -/
def insertDescending (lt : α → α → Bool) (v : α) : List α → List α
  | [] => [v]
  | w :: ws => if lt v w then w :: insertDescending lt v ws else v :: w :: ws

def insertAll (lt : α → α → Bool) (vs : List α) : List α :=
  (vs.foldl (fun acc v => insertDescending lt v acc) []).reverse

/-- The place between `lo` and `hi` where `p` turns false, found by halving. -/
def bisect (p : Nat → Bool) (lo hi : Nat) : Nat :=
  if lo < hi then
    let c := (lo + hi) / 2
    if p c then bisect p (c + 1) hi else bisect p lo c
  else lo
termination_by hi - lo

/-- Whether the element `i` of `xs` is less than the element `j` of `ys`. -/
def less (lt : α → α → Bool) (xs ys : Array α) (i j : Nat) : Bool :=
  match xs[i]?, ys[j]? with
  | some x, some y => lt x y
  | _, _ => false

/-- How many elements of `xs` are among the first `half` of the merged list. -/
def share (lt : α → α → Bool) (xs ys : Array α) (half : Nat) : Nat :=
  bisect (fun c => !less lt ys xs (half - 1 - c) c) (half - ys.size) (min half xs.size)

/-- Merges two sorted lists; of elements that compare equal those of `xs` come first. -/
def merge (lt : α → α → Bool) (xs ys : List α) : List α :=
  if xs.length = 0 ∨ ys.length = 0 then xs ++ ys
  else if xs.length = 1 then
    let i := bisect (fun h => less lt ys.toArray xs.toArray h 0) 0 ys.length
    ys.take i ++ xs ++ ys.drop i
  else if ys.length = 1 then
    let i := bisect (fun h => !less lt ys.toArray xs.toArray 0 h) 0 xs.length
    xs.take i ++ ys ++ xs.drop i
  else
    let half := (xs.length + ys.length) / 2
    let k := min half (share lt xs.toArray ys.toArray half)
    merge lt (xs.take k) (ys.take (half - k)) ++ merge lt (xs.drop k) (ys.drop (half - k))
termination_by xs.length + ys.length
decreasing_by
  all_goals simp only [List.length_take, List.length_drop]; omega

/-- The number of elements that are sorted by insertion. -/
def blockSize : Nat := 20

/-- Cuts a list into blocks of at most `size + 1` elements. -/
def blocks (size : Nat) (vs : List α) : List (List α) :=
  if vs.length ≤ size + 1 then [vs]
  else vs.take (size + 1) :: blocks size (vs.drop (size + 1))
termination_by vs.length
decreasing_by simp only [List.length_drop]; omega

/-- Merges neighbouring lists. -/
def mergePairs (lt : α → α → Bool) : List (List α) → List (List α)
  | xs :: ys :: rest => merge lt xs ys :: mergePairs lt rest
  | rest => rest

/-- Merging neighbours leaves no more lists than there were. -/
theorem length_mergePairs_le (lt : α → α → Bool) :
    ∀ bs : List (List α), (mergePairs lt bs).length ≤ bs.length
  | [] => Nat.le_refl _
  | [_] => Nat.le_refl _
  | _ :: _ :: rest => by
    have := length_mergePairs_le lt rest
    simp only [mergePairs, List.length_cons]
    omega

/-- Merges neighbouring lists until one is left. -/
def mergeAll (lt : α → α → Bool) (bs : List (List α)) : List α :=
  match bs with
  | [] => []
  | [b] => b
  | b :: c :: rest => mergeAll lt (merge lt b c :: mergePairs lt rest)
termination_by bs.length
decreasing_by
  have := length_mergePairs_le lt rest
  simp only [List.length_cons]
  omega

/-- The elements in ascending order; elements that compare equal keep their order. -/
def sorted (lt : α → α → Bool) (vs : List α) : List α :=
  mergeAll lt ((blocks (blockSize - 1) vs).map (insertAll lt))

end JumpScript.Sorting
