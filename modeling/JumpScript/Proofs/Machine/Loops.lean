import JumpScript.Proofs.Machine.Calls
import JumpScript.Proofs.Machine.Control
import JumpScript.Proofs.Machine.Refusal

/-!
# The variables that loops keep

A loop keeps two variables besides its own, and the names of both are made from its name.  Loops do
not get at each other's variables as long as none is begun under a name that clashes: one that is
itself made that way, or one that makes two loops keep different things under the same name.  Then
the variables that loops keep hold what loops have put there.
-/

namespace JumpScript

namespace LoopFunction

variable {name other : Bytes}

/-- Whether a name begins as those do that loops make. -/
def hidden (name : Bytes) : Bool := (text "@internal:iter:").isPrefixOf name

/-- Whether a loop under a name can get at the variables that another loop keeps. -/
def clashes (name : Bytes) : Bool := hidden name || (text "end:").isPrefixOf name

theorem lastName_eq_bodyName (name : Bytes) : lastName name = bodyName (text "end:" ++ name) := by
  rw [lastName, bodyName, ← List.append_assoc]
  rfl

theorem hidden_bodyName (name : Bytes) : hidden (bodyName name) = true :=
  List.isPrefixOf_iff_prefix.mpr (List.prefix_append _ name)

theorem hidden_lastName (name : Bytes) : hidden (lastName name) = true := by
  rw [lastName_eq_bodyName]
  exact hidden_bodyName _

theorem bodyName_inj : bodyName name = bodyName other ↔ name = other :=
  List.append_right_inj _

theorem lastName_inj : lastName name = lastName other ↔ name = other :=
  List.append_right_inj _

theorem ne_bodyName (h : hidden name = false) (other : Bytes) : name ≠ bodyName other := by
  rintro rfl
  rw [hidden_bodyName] at h
  cases h

theorem ne_lastName (h : hidden name = false) (other : Bytes) : name ≠ lastName other := by
  rintro rfl
  rw [hidden_lastName] at h
  cases h

theorem hidden_of_clashes (h : clashes name = false) : hidden name = false :=
  (Bool.or_eq_false_iff.mp h).1

/-- What one loop keeps its body under is not what another keeps its last value under. -/
theorem bodyName_ne_lastName (h : clashes name = false) (other : Bytes) :
    bodyName name ≠ lastName other := by
  rw [lastName_eq_bodyName, Ne, bodyName_inj]
  rintro rfl
  have hprefix : (text "end:").isPrefixOf (text "end:" ++ other) = true :=
    List.isPrefixOf_iff_prefix.mpr (List.prefix_append _ other)
  rw [clashes, hprefix, Bool.or_true] at h
  cases h

end LoopFunction

open LoopFunction

/-- Whether an action calls the function that begins a loop. -/
def Action.BeginsLoop (natives : Table Native) (a : Action) : Prop :=
  ∃ target args, a.nativeCall? = some (target, args) ∧
    natives.get? target.key = some (.loop .iterate)

/-- Where a loop keeps a body, it is that of a loop begun by a statement that has been executed, and
a loop that keeps a last value also keeps a body. -/
structure LoopsKept (natives : Table Native) (visits : List Visit) (bindings : Table Value) :
    Prop where
  body : ∀ name v, clashes name = false → bindings.get? (bodyName name) = some v →
    ∃ w ∈ visits, w.action.BeginsLoop natives ∧ v = .int (Int64.ofNat w.index)
  last : ∀ name v, bindings.get? (lastName name) = some v →
    clashes name = false ∧ ∃ w, bindings.get? (bodyName name) = some w

section Keeping

variable {natives : Table Native} {visits : List Visit} {bindings : Table Value} {name : Bytes}

theorem LoopsKept.mono (h : LoopsKept natives visits bindings) {more : List Visit}
    (hmore : ∀ v ∈ visits, v ∈ more) : LoopsKept natives more bindings where
  body other v hother hv := by
    obtain ⟨w, hw, hbegins⟩ := h.body other v hother hv
    exact ⟨w, hmore w hw, hbegins⟩
  last := h.last

/-- A loop that goes on finds the body that it was begun with. -/
theorem LoopsKept.exists_body (h : LoopsKept natives visits bindings) {last : Value}
    (hlast : bindings.get? (lastName name) = some last) :
    ∃ w ∈ visits, w.action.BeginsLoop natives ∧
      bindings.get? (bodyName name) = some (.int (Int64.ofNat w.index)) := by
  obtain ⟨hname, v, hv⟩ := h.last name last hlast
  obtain ⟨w, hw, hbegins, rfl⟩ := h.body name v hname hv
  exact ⟨w, hw, hbegins, hv⟩

theorem LoopsKept.insert (h : LoopsKept natives visits bindings) (hname : hidden name = false)
    (v : Value) : LoopsKept natives visits (bindings.insert name v) where
  body other w hother hw := by
    rw [Table.get?_insert, if_neg (ne_bodyName hname other)] at hw
    exact h.body other w hother hw
  last other w hw := by
    rw [Table.get?_insert, if_neg (ne_lastName hname other)] at hw
    rw [Table.get?_insert, if_neg (ne_bodyName hname other)]
    exact h.last other w hw

theorem LoopsKept.begun (h : LoopsKept natives visits bindings) (hname : clashes name = false)
    (first limit : Int64) {w : Visit} (hw : w ∈ visits) (hbegins : w.action.BeginsLoop natives) :
    LoopsKept natives visits (begun bindings name first limit w.index) := by
  have hhidden := hidden_of_clashes hname
  constructor
  · intro other v hother hv
    rw [LoopFunction.begun, Table.get?_insert] at hv
    split at hv
    · cases hv
      exact ⟨w, hw, hbegins, rfl⟩
    · rw [Table.get?_insert, if_neg (bodyName_ne_lastName hother name).symm] at hv
      exact (h.insert hhidden _).body other v hother hv
  · intro other v hv
    -- beginning a loop may replace the body that another keeps, but takes none away
    have hbody : ∀ x, bindings.get? (bodyName other) = some x →
        ∃ y, (LoopFunction.begun bindings name first limit w.index).get? (bodyName other)
          = some y := by
      intro x hx
      rw [LoopFunction.begun, Table.get?_insert]
      split
      · exact ⟨_, rfl⟩
      · rw [Table.get?_insert]
        split
        · exact ⟨_, rfl⟩
        · rw [Table.get?_insert, if_neg (ne_bodyName hhidden other)]
          exact ⟨x, hx⟩
    rw [LoopFunction.begun, Table.get?_insert, if_neg (bodyName_ne_lastName hname other),
      Table.get?_insert] at hv
    split at hv
    · rename_i heq
      rw [lastName_inj] at heq
      subst heq
      exact ⟨hname, _, by rw [LoopFunction.begun, Table.get?_insert_self]⟩
    · rw [Table.get?_insert, if_neg (ne_lastName hhidden other)] at hv
      obtain ⟨hother, x, hx⟩ := h.last other v hv
      exact ⟨hother, hbody x hx⟩

theorem LoopsKept.ended (h : LoopsKept natives visits bindings) {last : Value}
    (hlast : bindings.get? (lastName name) = some last) :
    LoopsKept natives visits (ended bindings name) := by
  obtain ⟨hname, -⟩ := h.last name last hlast
  have hhidden := hidden_of_clashes hname
  constructor
  · intro other v hother hv
    rw [LoopFunction.ended, Table.get?_erase] at hv
    split at hv
    · cases hv
    · rw [Table.get?_erase, if_neg (bodyName_ne_lastName hother name).symm, Table.get?_erase,
        if_neg (ne_bodyName hhidden other)] at hv
      exact h.body other v hother hv
  · intro other v hv
    rw [LoopFunction.ended, Table.get?_erase, if_neg (bodyName_ne_lastName hname other),
      Table.get?_erase] at hv
    split at hv
    · cases hv
    · rename_i hne
      rw [Table.get?_erase, if_neg (ne_lastName hhidden other)] at hv
      obtain ⟨hother, x, hx⟩ := h.last other v hv
      have hne' : bodyName name ≠ bodyName other := by
        rw [Ne, bodyName_inj]
        rintro rfl
        exact hne rfl
      rw [LoopFunction.ended, Table.get?_erase, if_neg hne', Table.get?_erase,
        if_neg (bodyName_ne_lastName hother name).symm, Table.get?_erase,
        if_neg (ne_bodyName hhidden other)]
      exact ⟨hother, x, hx⟩

end Keeping

end JumpScript
