import Mathlib.Data.List.Nodup
import JumpScript.Machine.Run

/-!
# Label tables

A label stands for the last statement that defines it.  `lastLabel?` says so by recursion on the
program, and the table that a run starts with agrees with it.
-/

namespace JumpScript

namespace Table

variable {α : Type} {t u : Table α} {name : Bytes}

def names (t : Table α) : List Bytes := t.map (·.1)

theorem get?_eq_none_of_not_mem (h : name ∉ t.names) : t.get? name = none := by
  induction t with
  | nil => rfl
  | cons b t ih =>
      rw [names, List.map_cons, List.mem_cons, not_or] at h
      rw [get?, if_neg fun hname => h.1 hname.symm]
      exact ih h.2

theorem mem_names_insert {v : α} {other : Bytes} (h : other ∈ (t.insert name v).names) :
    other = name ∨ other ∈ t.names := by
  induction t with
  | nil => exact Or.inl (List.mem_singleton.mp h)
  | cons b t ih =>
      rw [insert] at h
      split at h
      · rcases List.mem_cons.mp h with h | h
        · exact Or.inl h
        · exact Or.inr (List.mem_cons_of_mem _ h)
      · rcases List.mem_cons.mp h with h | h
        · exact Or.inr (List.mem_cons.mpr (Or.inl h))
        · rcases ih h with h | h
          · exact Or.inl h
          · exact Or.inr (List.mem_cons_of_mem _ h)

/-- Binding a name keeps the names of a table apart. -/
theorem nodup_names_insert (h : t.names.Nodup) (name : Bytes) (v : α) :
    (t.insert name v).names.Nodup := by
  induction t with
  | nil => exact List.nodup_singleton name
  | cons b t ih =>
      obtain ⟨hb, ht⟩ := List.nodup_cons.mp h
      rw [insert]
      split
      · rename_i heq
        exact List.nodup_cons.mpr ⟨heq ▸ hb, ht⟩
      · rename_i hne
        refine List.nodup_cons.mpr ⟨?_, ih ht⟩
        intro hmem
        rcases mem_names_insert hmem with heq | hmem
        · exact hne heq
        · exact hb hmem

theorem get?_merge (hu : u.names.Nodup) (t : Table α) (name : Bytes) :
    (t.merge u).get? name = (u.get? name).or (t.get? name) := by
  induction u generalizing t with
  | nil => rfl
  | cons b u ih =>
      obtain ⟨hb, hnodup⟩ := List.nodup_cons.mp hu
      change ((t.insert b.1 b.2).merge u).get? name = _
      rw [ih hnodup, get?_insert, get?]
      split
      · rename_i heq
        rw [← heq, get?_eq_none_of_not_mem hb]
        rfl
      · rfl

end Table

namespace Machine

/-- The index of the last statement that defines a label. -/
def lastLabel? (label : Bytes) : List Statement → Option Nat
  | [] => none
  | s :: rest =>
    match lastLabel? label rest with
    | some i => some (i + 1)
    | none => if s.action = .label label then some 0 else none

theorem lt_length_of_lastLabel? {label : Bytes} {program : List Statement} {i : Nat}
    (h : lastLabel? label program = some i) : i < program.length := by
  induction program generalizing i with
  | nil => cases h
  | cons s rest ih =>
      rw [lastLabel?] at h
      split at h
      · rename_i j hrest
        obtain rfl := Option.some.inj h
        exact Nat.succ_lt_succ (ih hrest)
      · split at h
        · obtain rfl := Option.some.inj h
          exact Nat.succ_pos _
        · cases h

theorem exists_label_of_lastLabel? {label : Bytes} {program : List Statement} {i : Nat}
    (h : lastLabel? label program = some i) :
    ∃ st, program[i]? = some st ∧ st.action = .label label := by
  induction program generalizing i with
  | nil => cases h
  | cons s rest ih =>
      rw [lastLabel?] at h
      split at h
      · rename_i j hrest
        obtain rfl := Option.some.inj h
        exact ih hrest
      · split at h
        · rename_i hs
          obtain rfl := Option.some.inj h
          exact ⟨s, rfl, hs⟩
        · cases h

/-- Enters a statement in a table of labels. -/
def enter (t : Table Nat) (p : Statement × Nat) : Table Nat :=
  match p.1.action with
  | .label name => t.insert name p.2
  | _ => t

theorem labelTable_eq_foldl (program : Array Statement) :
    labelTable program = program.toList.zipIdx.foldl enter [] := rfl

theorem get?_enter (t : Table Nat) (s : Statement) (i : Nat) (label : Bytes) :
    (enter t (s, i)).get? label
      = if s.action = .label label then some i else t.get? label := by
  cases haction : s.action with
  | label name =>
      simp only [enter, haction, Table.get?_insert, Action.label.injEq]
  | _ => simp [enter, haction]

theorem nodup_names_foldl_enter {t : Table Nat} (ht : t.names.Nodup)
    (l : List (Statement × Nat)) : (l.foldl enter t).names.Nodup := by
  induction l generalizing t with
  | nil => exact ht
  | cons p l ih =>
      apply ih
      rw [enter]
      split
      · exact Table.nodup_names_insert ht _ _
      · exact ht

theorem get?_foldl_enter (program : List Statement) (k : Nat) (t : Table Nat)
    (label : Bytes) :
    ((program.zipIdx k).foldl enter t).get? label
      = ((lastLabel? label program).map (· + k)).or (t.get? label) := by
  induction program generalizing k t with
  | nil => rfl
  | cons s rest ih =>
      rw [List.zipIdx_cons, List.foldl_cons, ih, get?_enter, lastLabel?]
      cases lastLabel? label rest with
      | some i => simp [Nat.add_assoc, Nat.add_comm 1]
      | none => split <;> simp

theorem get?_labelTable (program : Array Statement) (label : Bytes) :
    (labelTable program).get? label = lastLabel? label program.toList := by
  rw [labelTable_eq_foldl, get?_foldl_enter]
  simp

/-- A run of a fresh machine starts with every label at its last definition. -/
theorem get?_labels_start {ν : Type} (host : Host ν) {m : Machine ν} (hlabels : m.labels = [])
    (label : Bytes) :
    (m.start host).labels.get? label = lastLabel? label m.program.toList := by
  change (m.labels.merge (labelTable m.program)).get? label = _
  have hnodup : (labelTable m.program).names.Nodup :=
    nodup_names_foldl_enter (t := []) List.nodup_nil _
  rw [hlabels, Table.get?_merge hnodup, get?_labelTable]
  simp

end Machine

end JumpScript
