import JumpScript.Text.Bytes

/-!
# Tables of names

A table binds names to things: variables to values, labels to statements, function names to
functions.  Binding a name again replaces what it stood for and keeps its place, so binding a name
to what it already stands for changes nothing.  What a table says is read off with `get?`, and the
lemmas below say how each operation changes that reading.
-/

namespace JumpScript

/-- Names with what they stand for. -/
abbrev Table (α : Type) := List (Bytes × α)

namespace Table

variable {α : Type}

def get? : Table α → Bytes → Option α
  | [], _ => none
  | (k, v) :: t, name => if k = name then some v else get? t name

def has (t : Table α) (name : Bytes) : Bool := (t.get? name).isSome

/-- Binds a name, in place of what it stood for. -/
def insert : Table α → Bytes → α → Table α
  | [], name, v => [(name, v)]
  | (k, w) :: t, name, v => if k = name then (name, v) :: t else (k, w) :: insert t name v

def erase (t : Table α) (name : Bytes) : Table α := t.filter (·.1 ≠ name)

/-- Binds every name of a second table, in its order. -/
def merge (t u : Table α) : Table α := u.foldl (fun t b => t.insert b.1 b.2) t

/-- The bound names in bytewise order. -/
def sortedNames (t : Table α) : List Bytes :=
  (t.map (·.1)).mergeSort fun a b => !Bytes.lt b a

@[simp] theorem get?_nil (name : Bytes) : get? ([] : Table α) name = none := rfl

theorem get?_insert (t : Table α) (name other : Bytes) (v : α) :
    (t.insert name v).get? other = if name = other then some v else t.get? other := by
  induction t with
  | nil => simp [insert, get?]
  | cons b t ih =>
    obtain ⟨k, w⟩ := b
    by_cases hk : k = name
    · subst hk
      by_cases ho : k = other <;> simp [insert, get?, ho]
    · by_cases ho : name = other
      · subst ho
        simp [insert, get?, hk, ih]
      · simp [insert, get?, hk, ho, ih]

@[simp] theorem get?_insert_self (t : Table α) (name : Bytes) (v : α) :
    (t.insert name v).get? name = some v := by
  simp [get?_insert]

theorem get?_erase (t : Table α) (name other : Bytes) :
    (t.erase name).get? other = if name = other then none else t.get? other := by
  unfold erase
  induction t with
  | nil => simp [get?]
  | cons b t ih =>
    obtain ⟨k, w⟩ := b
    by_cases hk : k = name
    · subst hk
      by_cases ho : k = other <;> simp_all [get?]
    · by_cases ho : name = other
      · subst ho
        simp_all [get?]
      · simp_all [get?]

@[simp] theorem get?_erase_self (t : Table α) (name : Bytes) :
    (t.erase name).get? name = none := by
  simp [get?_erase]

/-- Binding a name to what it stands for changes nothing. -/
theorem insert_eq_self {t : Table α} {name : Bytes} {v : α} (h : t.get? name = some v) :
    t.insert name v = t := by
  induction t with
  | nil => simp at h
  | cons b t ih =>
    obtain ⟨k, w⟩ := b
    by_cases hk : k = name
    · subst hk
      simp_all [insert, get?]
    · simp only [get?, hk, if_false] at h
      simp [insert, hk, ih h]

end Table

end JumpScript
