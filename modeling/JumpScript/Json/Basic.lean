import JumpScript.Table
import JumpScript.Text.Utf8

/-!
# JSON documents

A document is a tree.  Numbers keep the spelling they were read with, strings are valid UTF-8 once
written, and an object has every key once.  The written form is compact, with keys in bytewise order
and with the characters escaped that are special in a web page.
-/

namespace JumpScript

/-- A JSON document. -/
inductive Json where
  | null
  | bool (b : Bool)
  | number (numeral : Bytes)
  | string (s : Bytes)
  | array (items : List Json)
  | object (members : List (Bytes × Json))
  deriving Repr

namespace Json

def escapeByNumber (c : Nat) : Bytes := text "\\u" ++ Bytes.hex 4 c

def escapePoint (c : Nat) : Bytes :=
  if c == 0x22 || c == 0x5C then 0x5C :: Utf8.encode c
  else if c == 0x08 then text "\\b"
  else if c == 0x0C then text "\\f"
  else if c == 0x0A then text "\\n"
  else if c == 0x0D then text "\\r"
  else if c == 0x09 then text "\\t"
  else if c < 0x20 || c == 0x3C || c == 0x3E || c == 0x26 || c == 0x2028 || c == 0x2029 then
    escapeByNumber c
  else Utf8.encode c

/-- The written form of a string; what spells no code point is written as the replacement. -/
def quoted (s : Bytes) : Bytes :=
  [0x22] ++ (Utf8.symbols s).flatMap (fun u =>
    match u.point with
    | some c => escapePoint c
    | none => Utf8.encode Utf8.replacement) ++ [0x22]

/-- Written members of an object, in the order of their keys. -/
def writeMembers (ms : List (Bytes × Bytes)) : Bytes :=
  let sorted := ms.mergeSort fun a b => !Bytes.lt b.1 a.1
  text "\x7b" ++ Bytes.join (text ",") (sorted.map fun m => quoted m.1 ++ [0x3A] ++ m.2)
    ++ text "\x7d"

mutual

def write : Json → Bytes
  | .null => text "null"
  | .bool b => if b then text "true" else text "false"
  | .number n => n
  | .string s => quoted s
  | .array items => text "[" ++ Bytes.join (text ",") (writeEach items) ++ text "]"
  | .object ms => writeMembers (writeValues ms)

def writeEach : List Json → List Bytes
  | [] => []
  | j :: js => write j :: writeEach js

/-- The members of an object with their values written. -/
def writeValues : List (Bytes × Json) → List (Bytes × Bytes)
  | [] => []
  | (k, j) :: ms => (k, write j) :: writeValues ms

end

end Json

end JumpScript
