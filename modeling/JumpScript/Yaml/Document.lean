import JumpScript.Table
import JumpScript.Yaml.Layout

/-!
# Reading documents

The tokens of a document are put together to a tree.  Only the first document of a text is read.
Tags are expanded by the rules that stand before the document, and aliases are replaced by what
they stand for.
-/

namespace JumpScript.Yaml

/-- What an anchor stands for: a node, or one that is still being read, told by the number of its
first token. -/
inductive Anchored where
  | pending (number : Nat)
  | complete (n : Node)

/-- The state of reading a document. -/
structure Reader where
  layout : Layout
  anchors : Table Anchored := []
  /-- What tag handles stand for. -/
  rules : List (Bytes × Bytes) := []

/-- A part of reading a document. -/
abbrev Reading (α : Type) := StateT Reader (Except Problem) α

namespace Reading

def refuse {α : Type} : Reading α := throw .badLayout

def peek : Reading Token := fun r => do
  let (token, layout) ← r.layout.peek
  return (token, { r with layout })

def skip : Reading Unit := modify fun r => { r with layout := r.layout.take }

/-- Begins a node with an anchor: tells the number by which the anchor knows it. -/
def beginAnchored (anchor : Option Bytes) : Reading Nat := do
  let r ← get
  let number := r.layout.taken
  match anchor with
  | some name => set { r with anchors := r.anchors.insert name (.pending number) }
  | none => pure ()
  return number

/-- Ends a node with an anchor.  The anchor stands for it unless it was used again inside. -/
def endAnchored (anchor : Option Bytes) (number : Nat) (n : Node) : Reading Node := do
  let r ← get
  match anchor with
  | some name =>
    match r.anchors.get? name with
    | some (.pending k) =>
      if k = number then set { r with anchors := r.anchors.insert name (.complete n) }
    | _ => pure ()
  | none => pure ()
  return n

/-- The node of an alias. -/
def aliased (name : Bytes) : Reading Node := do
  match (← get).anchors.get? name with
  | some (.complete n) => return .alias name (some n)
  | some (.pending _) => return .alias name none
  | none => throw (.unknownAnchor name)

/-- What the tags of the language itself begin with. -/
def standardTags : Bytes := text "tag:yaml.org,2002:"

/-- The rules that hold unless others are given. -/
def standardRules : List (Bytes × Bytes) :=
  [(text "!", text "!"), (text "!!", standardTags)]

/-- The full tag of a token; a tag of the language is shortened. -/
def fullTag (handle suffix : Bytes) : Reading Bytes := do
  let full ←
    if handle.isEmpty then pure suffix
    else
      match (← get).rules.lookup handle with
      | some expansion => pure (expansion ++ suffix)
      | none => refuse
  if standardTags.isPrefixOf full then
    return text "!!" ++ full.drop standardTags.length
  else return full

/-- What stands before a node: an anchor and a tag, in either order. -/
structure Properties where
  anchor : Option Bytes := none
  tag : Option Bytes := none

/-- Reads an anchor, if there is one. -/
def readAnchor : Reading (Option Bytes) := do
  match ← peek with
  | .anchor name =>
    skip
    return some name
  | _ => return none

/-- Reads the handle and the suffix of a tag, if there is one. -/
def readTag : Reading (Option (Bytes × Bytes)) := do
  match ← peek with
  | .tag handle suffix =>
    skip
    return some (handle, suffix)
  | _ => return none

/-- Reads what stands before a node. -/
def readProperties : Reading Properties := do
  let first ← readAnchor
  let tag ← readTag
  let anchor ← if first.isNone && tag.isSome then readAnchor else pure first
  let _ ← peek
  match tag with
  | some (handle, suffix) => return ⟨anchor, some (← fullTag handle suffix)⟩
  | none => return ⟨anchor, none⟩

/-- The tag of a scalar.  A lone exclamation mark says nothing. -/
def scalarTag (body : Bytes) (plain : Bool) (tag : Option Bytes) : Tag :=
  match tag.filter (· != text "!") with
  | some name => if name == text "!!str" then .string else .named name
  | none => if !plain then .string else if body == text "<<" then .merge else .implicit

/-- Whether a token ends a part of a block mapping that may be left out. -/
def endsBlockPart : Token → Bool
  | .key | .value | .blockEnd => true
  | _ => false

mutual

/-- Reads a node.  `block` tells whether it may be a block, and `indentless` whether items may
follow in the column of the block around it. -/
def node : (fuel : Nat) → (block indentless : Bool) → Reading Node
  | 0, _, _ => refuse
  | fuel + 1, block, indentless => do
    match ← peek with
    | .alias name =>
      skip
      aliased name
    | _ =>
      let p ← readProperties
      let number ← beginAnchored p.anchor
      let content ←
        match ← peek, block, indentless with
        | .blockEntry, _, true => return ← endAnchored p.anchor number (← indentlessItems fuel [])
        | .scalar body plain, _, _ => do
          skip
          pure (Node.scalar ⟨body, scalarTag body plain p.tag⟩)
        | .flowSequence, _, _ => do
          skip
          flowItems fuel true []
        | .flowMapping, _, _ => do
          skip
          flowEntries fuel true []
        | .blockSequence, true, _ => do
          skip
          blockItems fuel []
        | .blockMapping, true, _ => do
          skip
          blockEntries fuel []
        | _, _, _ =>
          if p.anchor.isSome || p.tag.isSome then
            pure (.scalar ⟨[], scalarTag [] true p.tag⟩)
          else refuse
      endAnchored p.anchor number content

/-- Reads the items of a block sequence; those read so far are held backwards. -/
def blockItems : (fuel : Nat) → List Node → Reading Node
  | 0, _ => refuse
  | fuel + 1, items => do
    match ← peek with
    | .blockEntry =>
      skip
      match ← peek with
      | .blockEntry | .blockEnd => blockItems fuel (.absent :: items)
      | _ => blockItems fuel ((← node fuel true false) :: items)
    | .blockEnd =>
      skip
      return .sequence items.reverse
    | _ => refuse

/-- Reads items that stand in the column of the mapping around them. -/
def indentlessItems : (fuel : Nat) → List Node → Reading Node
  | 0, _ => refuse
  | fuel + 1, items => do
    match ← peek with
    | .blockEntry =>
      skip
      match ← peek with
      | .blockEntry | .key | .value | .blockEnd => indentlessItems fuel (.absent :: items)
      | _ => indentlessItems fuel ((← node fuel true false) :: items)
    | _ => return .sequence items.reverse

def blockEntries : (fuel : Nat) → List (Node × Node) → Reading Node
  | 0, _ => refuse
  | fuel + 1, entries => do
    match ← peek with
    | .key =>
      skip
      let k ← blockPart fuel
      let v ←
        match ← peek with
        | .value => do
          skip
          blockPart fuel
        | _ => pure .absent
      blockEntries fuel ((k, v) :: entries)
    | .blockEnd =>
      skip
      return .mapping entries.reverse
    | _ => refuse

/-- Reads a key or a value of a block mapping, unless it is left out. -/
def blockPart : (fuel : Nat) → Reading Node
  | 0 => refuse
  | fuel + 1 => do
    if endsBlockPart (← peek) then return .absent else node fuel true true

def flowItems : (fuel : Nat) → (first : Bool) → List Node → Reading Node
  | 0, _, _ => refuse
  | fuel + 1, first, items => do
    match ← peek, first with
    | .flowSequenceEnd, _ =>
      skip
      return .sequence items.reverse
    | .flowEntry, false =>
      skip
      match ← peek with
      | .flowSequenceEnd =>
        skip
        return .sequence items.reverse
      | _ => flowItems fuel false ((← flowItem fuel) :: items)
    | _, false => refuse
    | _, true => flowItems fuel false ((← flowItem fuel) :: items)

/-- Reads an item of a sequence in brackets; a key begins a mapping of one entry. -/
def flowItem : (fuel : Nat) → Reading Node
  | 0 => refuse
  | fuel + 1 => do
    match ← peek with
    | .key =>
      skip
      let k ←
        match ← peek with
        | .value | .flowEntry | .flowSequenceEnd => do
          skip
          pure .absent
        | _ => node fuel false false
      let v ←
        match ← peek with
        | .value => do
          skip
          match ← peek with
          | .flowEntry | .flowSequenceEnd => pure .absent
          | _ => node fuel false false
        | _ => pure .absent
      let _ ← peek
      return .mapping [(k, v)]
    | _ => node fuel false false

def flowEntries : (fuel : Nat) → (first : Bool) → List (Node × Node) → Reading Node
  | 0, _, _ => refuse
  | fuel + 1, first, entries => do
    match ← peek, first with
    | .flowMappingEnd, _ =>
      skip
      return .mapping entries.reverse
    | .flowEntry, false =>
      skip
      match ← peek with
      | .flowMappingEnd =>
        skip
        return .mapping entries.reverse
      | _ => flowEntries fuel false ((← flowPair fuel) :: entries)
    | _, false => refuse
    | _, true => flowEntries fuel false ((← flowPair fuel) :: entries)

/-- Reads an entry of a mapping in brackets; a value without a colon before it is a key alone. -/
def flowPair : (fuel : Nat) → Reading (Node × Node)
  | 0 => refuse
  | fuel + 1 => do
    match ← peek with
    | .key =>
      skip
      let k ←
        match ← peek with
        | .value | .flowEntry | .flowMappingEnd => pure .absent
        | _ => node fuel false false
      match ← peek with
      | .value =>
        skip
        match ← peek with
        | .flowEntry | .flowMappingEnd => return (k, .absent)
        | _ => return (k, ← node fuel false false)
      | _ => return (k, .absent)
    | _ =>
      let k ← node fuel false false
      let _ ← peek
      return (k, .absent)

end

/-- Reads the directives before a document.  There is one version at most, and it is 1.1; a tag
handle has one rule at most. -/
def directives : (fuel : Nat) → (versioned : Bool) → Reading Unit
  | 0, _ => refuse
  | fuel + 1, versioned => do
    match ← peek with
    | .version major minor =>
      if versioned || major != 1 || minor != 1 then refuse
      else
        skip
        directives fuel true
    | .tagRule handle expansion =>
      if ((← get).rules.lookup handle).isSome then refuse
      else
        modify fun r => { r with rules := r.rules ++ [(handle, expansion)] }
        skip
        directives fuel versioned
    | _ => modify fun r => { r with rules := r.rules ++ standardRules }

/-- Goes to the end of a document. -/
def finish : Reading Unit := do
  match ← peek with
  | .documentEnd => skip
  | _ => pure ()

def document (fuel : Nat) : Reading (Option Node) := do
  let _ ← peek
  skip
  match ← peek with
  | .streamEnd => return none
  | .version .. | .tagRule .. | .documentStart =>
    directives fuel false
    match ← peek with
    | .documentStart =>
      skip
      let n ←
        match ← peek with
        | .version .. | .tagRule .. | .documentStart | .documentEnd | .streamEnd => pure .absent
        | _ => node fuel true false
      finish
      return some n
    | _ => refuse
  | _ =>
    directives fuel false
    let n ← node fuel true false
    finish
    return some n

end Reading

def read (s : Bytes) : Except Problem (Option Node) := do
  let layout := Layout.ofBytes s
  let (n, _) ← (Reading.document (8 * layout.tape.fuel + 64)).run { layout }
  return n

end JumpScript.Yaml
