import JumpScript.Table
import JumpScript.Yaml.Meaning

/-!
# Records out of documents

A decoder says how a node changes a value that is there already, so that whatever a document does
not mention stays as it was.  A missing value changes nothing either, except that it empties a list.
A record takes a mapping whose keys are all known and all different.  Mappings can be merged into
it: they add the keys that it does not have itself.
-/

namespace JumpScript.Yaml

/-- How a node changes a value. -/
abbrev Decoder (α : Type) := Node → α → Except Problem α

namespace Node

/-- What an alias stands for, and any other node itself.  A node that an alias inside of it stands
for cannot be used. -/
def resolved : Node → Except Problem Node
  | .alias _ (some n) => .ok n
  | .alias _ none => .error .badValue
  | n => .ok n

def meaning : Node → Except Problem (Meaning × Bytes)
  | .scalar s => (s.meaning?.map fun m => (m, s.body)).elim (.error .badValue) .ok
  | _ => .error .badValue

/-- The name that a key is; a key that is missing has none. -/
def keyName? (n : Node) : Except Problem (Option Bytes) := do
  match ← (← n.resolved).meaning with
  | (.nothing, _) => return none
  | (m, body) => return some (m.textOr body)

/-- Whether a key stands for mappings to be merged in. -/
def isMerge : Node → Bool
  | .scalar s => s.isMerge
  | _ => false

/-- How a key is told from others: its kind, and its text or the name of its alias. -/
def spelling : Node → Nat × Bytes
  | .scalar s => (0, s.body)
  | .sequence _ => (1, [])
  | .mapping _ => (2, [])
  | .alias name _ => (3, name)

/-- The first spelling that occurs twice. -/
def repeated? : List (Nat × Bytes) → Option Bytes
  | [] => none
  | k :: ks => if ks.contains k then some k.2 else repeated? ks

/-- The entries of a mapping by name, those to be merged in apart.  An entry without a key is left
out. -/
def named : List (Node × Node) → Except Problem (List (Bytes × Node))
  | [] => .ok []
  | (k, v) :: rest => do
    let more ← named rest
    if k.isMerge then return more
    else
      match ← k.keyName? with
      | some name => return (name, v) :: more
      | none => return more

/-- Checks that no key is repeated, and names the entries. -/
def checked (es : List (Node × Node)) : Except Problem (List (Bytes × Node)) :=
  match repeated? (es.map (·.1.spelling)) with
  | some key => .error (.repeatedKey key)
  | none => named es

/-- The entries whose names are not in `taken`, each name once, and the names taken then. -/
def fresh : (taken : List Bytes) → List (Bytes × Node) → List (Bytes × Node) × List Bytes
  | taken, [] => ([], taken)
  | taken, (name, v) :: rest =>
    if taken.contains name then fresh taken rest
    else
      let (more, taken) := fresh (name :: taken) rest
      ((name, v) :: more, taken)

/-- Entries to decode, and the names that count as taken after them. -/
abbrev Merged := Except Problem (List (Bytes × Node) × List Bytes)

mutual

/-- The entries that a mapping adds to a record, with those that are merged into it. -/
def addedBy : Node → (taken : List Bytes) → Merged
  | .mapping es, taken => do
    let (own, taken) := fresh taken (← checked es)
    let (more, taken) ← addedByMerge es taken
    return (own ++ more, taken)
  | .alias _ (some n), taken => addedBy n taken
  | _, _ => .error .badValue

/-- The entries that are merged into a mapping. -/
def addedByMerge : List (Node × Node) → (taken : List Bytes) → Merged
  | [], taken => .ok ([], taken)
  | (k, .sequence items) :: rest, taken =>
    if k.isMerge then addedByAll items taken else addedByMerge rest taken
  | (k, v) :: rest, taken => if k.isMerge then addedBy v taken else addedByMerge rest taken

/-- The entries that several mappings add; the first one that has a name counts. -/
def addedByAll : List Node → (taken : List Bytes) → Merged
  | [], taken => .ok ([], taken)
  | n :: ns, taken => do
    let (first, taken) ← addedBy n taken
    let (more, taken) ← addedByAll ns taken
    return (first ++ more, taken)

end

/-- The entries of a mapping, first its own and then those merged in. -/
def entries (es : List (Node × Node)) : Except Problem (List (Bytes × Node)) := do
  let own ← checked es
  let (more, _) ← addedByMerge es (own.map (·.1))
  return own ++ more

end Node

namespace Decoder

variable {α β : Type}

def scalar (read : Meaning → Bytes → Option β) (set : β → α → α) : Decoder α := fun n a => do
  match ← (← n.resolved).meaning with
  | (.nothing, _) => return a
  | (m, body) =>
    match read m body with
    | some b => return set b a
    | none => .error .badValue

/-- Sets a text; every scalar is one. -/
def bytes (set : Bytes → α → α) : Decoder α := scalar (fun m body => some (m.textOr body)) set

def int (set : Int → α → α) : Decoder α := scalar (fun m _ => m.int?.map Int64.toInt) set

def bool (set : Bool → α → α) : Decoder α := scalar (fun m _ => m.bool?) set

/-- The texts of the items of a sequence, without those that stand for nothing. -/
def texts (items : List Node) : Except Problem (List Bytes) := do
  return (← items.mapM Node.keyName?).filterMap id

def list (set : List Bytes → α → α) : Decoder α := fun n a => do
  match ← n.resolved with
  | .sequence items => return set (← texts items) a
  | n =>
    match ← n.meaning with
    | (.nothing, _) => return set [] a
    | _ => .error .badValue

def part (get : α → β) (set : β → α → α) (d : Decoder β) : Decoder α := fun n a => do
  return set (← d n (get a)) a

/-- Changes a value name by name, each as its decoder says; `done` holds the names before. -/
def fields (known : Table (Decoder α)) (done : List Bytes) :
    List (Bytes × Node) → α → Except Problem α
  | [], a => .ok a
  | (name, n) :: rest, a =>
    if done.contains name then .error (.repeatedKey name)
    else
      match known.get? name with
      | none => .error (.unknownKey name)
      | some d => do fields known (name :: done) rest (← d n a)

def record (known : Table (Decoder α)) : Decoder α := fun n a => do
  match ← n.resolved with
  | .mapping es => fields known [] (← Node.entries es) a
  | n =>
    match ← n.meaning with
    | (.nothing, _) => return a
    | _ => .error .badValue

end Decoder

end JumpScript.Yaml
