import JumpScript.Text.Quoted

/-!
# YAML documents

A document is a tree of scalars, sequences and mappings.  A scalar keeps its text and its tag,
because what it means depends on what is asked for: the same text can be taken as a string, an
integer, a truth value or as nothing at all.  An alias stands for a node that has been anchored
before it.
-/

namespace JumpScript.Yaml

inductive Problem where
  | badCharacter
  | badLayout
  | unknownAnchor (name : Bytes)
  | unknownKey (key : Bytes)
  | repeatedKey (key : Bytes)
  | badValue
  | unreadable
  deriving DecidableEq, Repr

def Problem.message : Problem → Bytes
  | .badCharacter => text "the document holds a character that is not allowed"
  | .badLayout => text "the document is not well-formed"
  | .unknownAnchor name => text "unknown anchor " ++ name.quoted
  | .unknownKey key => text "unknown key " ++ key.quoted
  | .repeatedKey key => text "repeated key " ++ key.quoted
  | .badValue => text "a value has the wrong kind"
  | .unreadable => text "the document cannot be read"

/-- What is said about the kind of a scalar. -/
inductive Tag where
  /-- Nothing: its text tells. -/
  | implicit
  /-- It is a string, because it was quoted or is tagged as one. -/
  | string
  /-- It is the key of mappings that are merged in. -/
  | merge
  /-- It has a tag of its own. -/
  | named (name : Bytes)
  deriving DecidableEq, Repr

/-- A text with what is said about its kind. -/
structure Scalar where
  body : Bytes
  tag : Tag
  deriving DecidableEq, Repr

/-- A document or a part of one. -/
inductive Node where
  | scalar (s : Scalar)
  | sequence (items : List Node)
  | mapping (entries : List (Node × Node))
  /-- A node anchored before; a node that holds the alias itself is left out. -/
  | alias (name : Bytes) (target : Option Node)
  deriving Repr

/-- The node that stands for a missing value. -/
def Node.absent : Node := .scalar ⟨[], .implicit⟩

end JumpScript.Yaml
