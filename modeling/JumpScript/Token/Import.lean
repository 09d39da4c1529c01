import JumpScript.Token.Scan

/-!
# Imports

A statement made of the name `import` and a string is replaced by the tokens of the file that the
string names.  Files may import further files down to a fixed depth; there is no other guard against
cycles, and none is needed: the depth that is left decreases with every file entered.

The result is in normal form: no end-of-file token, no end of statement at the front, none twice in
a row, and one at the end unless nothing is left.
-/

namespace JumpScript

/-- How the contents of a file are obtained. -/
abbrev FileReader := Bytes → Except FileError Bytes

/-- A file taken in, and how deep it was nested. -/
structure ImportNote where
  path : Bytes
  depth : Nat
  deriving DecidableEq, Repr

def defaultImportDepth : Nat := 64

/-- The depth limit that a setting stands for; zero or less stands for the usual one. -/
def importLimit (depth : Int) : Nat := if 0 < depth then depth.toNat else defaultImportDepth

/-- The tokens of one statement and the token that closes it, absent at the end of the file. -/
structure TokenRun where
  body : List Token
  close : Option Token
  deriving DecidableEq, Repr

/-- Cuts tokens after each end of statement. -/
def TokenRun.cut : List Token → List TokenRun
  | [] => [⟨[], none⟩]
  | t :: ts =>
    if t.isEnd then ⟨[], some t⟩ :: cut ts
    else
      match cut ts with
      | [] => [⟨[t], none⟩]
      | r :: rs => { r with body := t :: r.body } :: rs

/-- The path literal of an import statement and the path it names. -/
def TokenRun.import? (r : TokenRun) : Option (Token × Bytes) :=
  match r.body with
  | [a, b] =>
    match a.lexeme, b.lexeme with
    | .identifier word, .string path => if word == text "import" then some (b, path) else none
    | _, _ => none
  | _ => none

/-- Drops an end of statement at the front and after another one; `blocked` tells whether the
token before was one. -/
def collapse (blocked : Bool) : List Token → List Token
  | [] => []
  | t :: ts =>
    if t.isEnd then if blocked then collapse true ts else t :: collapse true ts
    else t :: collapse false ts

/-- Replaces import statements by what `load` gives for them, in order, and stops at the first
failure. -/
def splice (load : Token → Bytes → List ImportNote × Except Diagnostic (List Token)) :
    List TokenRun → List ImportNote × Except Diagnostic (List Token)
  | [] => ([], .ok [])
  | r :: rs =>
    let (notes, body) : List ImportNote × Except Diagnostic (List Token) :=
      match r.import? with
      | some (t, path) => load t path
      | none => ([], .ok r.body)
    match body with
    | .error e => (notes, .error e)
    | .ok ts =>
      let (more, rest) := splice load rs
      (notes ++ more, rest.map fun us => ts ++ r.close.toList ++ us)

/-- The tokens of a source whose imports may nest `left` levels further, with the files taken in on
the way. -/
def tokenizeWithin (read : FileReader) (limit : Nat) : (left : Nat) → (file source : Bytes) →
    List ImportNote × Except Diagnostic (List Token)
  | 0, file, source =>
    finish file source fun t path =>
      ([], .error (t.diagnostic .lexing (text "import nesting deeper than " ++ Bytes.ofNat limit
        ++ text " levels at '" ++ path ++ text "'") none))
  | left + 1, file, source =>
    finish file source fun t path =>
      let note : ImportNote := ⟨path, limit - left⟩
      match read path with
      | .error e =>
        ([note], .error (t.diagnostic .lexing (text "failed to import file '" ++ path ++ text "': "
          ++ e.message) (some (.file e))))
      | .ok contents =>
        let (notes, ts) := tokenizeWithin read limit left path contents
        (note :: notes, ts)
where
  /-- Scans a source, splices its imports and brings the tokens into normal form. -/
  finish (file source : Bytes)
      (load : Token → Bytes → List ImportNote × Except Diagnostic (List Token)) :
      List ImportNote × Except Diagnostic (List Token) :=
    match scan file source with
    | (_, .error e) => ([], .error e)
    | (ts, .ok last) =>
      let (notes, out) := splice load (TokenRun.cut ts)
      (notes, out.map fun us => collapse true (us ++ [{ last with lexeme := .endOfStatement }]))

/-- The tokens of a source with its imports replaced, and the files taken in. -/
def tokenize (read : FileReader) (limit : Nat) (file source : Bytes) :
    List ImportNote × Except Diagnostic (List Token) :=
  tokenizeWithin read limit limit file source

end JumpScript
