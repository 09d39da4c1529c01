import JumpScript.World.HostLiteral

/-!
# Web addresses

An address is read into scheme, user, host, path, query and fragment, and written back with
whatever its parts may not hold spelled as percent escapes.
-/

namespace JumpScript

/-- A web address.  Path and fragment keep the spelling they were read with. -/
structure Address where
  scheme : Bytes
  /-- The text after the scheme when no slash follows it; such an address has no host. -/
  rootless : Option Bytes
  user : Option (Bytes × Option Bytes)
  host : Bytes
  hostOmitted : Bool
  path : Bytes
  query : Option Bytes
  fragment : Bytes
  deriving DecidableEq, Repr

namespace Address

/-- What is wrong with a text that is no address. -/
inductive Flaw where
  | controlCharacter
  | missingScheme
  | colonInFirstPart
  | badEscape (s : Bytes)
  | badHostByte (b : UInt8)
  | strayBracket
  | openBracket
  | badPort (s : Bytes)
  | badLiteral (host : Bytes) (e : HostLiteral.Error)
  | badUser
  deriving DecidableEq, Repr

def Flaw.words : Flaw → Bytes
  | .controlCharacter => JumpScript.text "net/url: invalid control character in URL"
  | .missingScheme => JumpScript.text "missing protocol scheme"
  | .colonInFirstPart => JumpScript.text "first path segment in URL cannot contain colon"
  | .badEscape s => JumpScript.text "invalid URL escape " ++ s.quoted
  | .badHostByte b =>
    JumpScript.text "invalid character " ++ Bytes.quoted [b] ++ JumpScript.text " in host name"
  | .strayBracket => JumpScript.text "invalid IP-literal"
  | .openBracket => JumpScript.text "missing ']' in host"
  | .badPort s => JumpScript.text "invalid port " ++ s.quoted ++ JumpScript.text " after host"
  | .badLiteral host e => JumpScript.text "invalid host: " ++ e.message host
  | .badUser => JumpScript.text "net/url: invalid userinfo"

structure Error where
  address : Bytes
  flaw : Flaw
  deriving DecidableEq, Repr

def Error.message (e : Error) : Bytes :=
  JumpScript.text "parse " ++ e.address.quoted ++ JumpScript.text ": " ++ e.flaw.words

def escapeByte (b : UInt8) : Bytes :=
  [0x25] ++ (Bytes.hex 2 b.toNat).map fun d => if 0x61 ≤ d then d - 32 else d

/-- A text with every byte escaped that `keep` does not let stand. -/
def escape (keep : UInt8 → Bool) (s : Bytes) : Bytes :=
  s.flatMap fun b => if keep b then [b] else escapeByte b

/-- Letters, digits and the four marks that never need an escape. -/
def isUnreserved (b : UInt8) : Bool :=
  (0x61 ≤ b && b ≤ 0x7A) || (0x41 ≤ b && b ≤ 0x5A) || Bytes.isDigit b || (text "-_.~").contains b

/-- Bytes that stand for themselves in a host. -/
def inHost (b : UInt8) : Bool := isUnreserved b || (text "!$&'()*+,;=:[]<>\"").contains b

def inPath (b : UInt8) : Bool := isUnreserved b || (text "$&+,/:;=@").contains b

/-- Bytes that stand for themselves in a user name or password. -/
def inUser (b : UInt8) : Bool := isUnreserved b || (text "$&+,;=").contains b

def inFragment (b : UInt8) : Bool := isUnreserved b || (text "$&+,/:;=?@!()*").contains b

/-- The text that escapes stand for.  `allowed` tells which bytes an escape may stand for, and
`bare` which bytes may stand unescaped. -/
def unescapeWith (allowed bare : UInt8 → Bool) : Bytes → Except Flaw Bytes
  | [] => .ok []
  | c :: r =>
    if c == 0x25 then
      match r with
      | a :: b :: more =>
        match Bytes.hexValue? a, Bytes.hexValue? b with
        | some x, some y =>
          let v := UInt8.ofNat (16 * x + y)
          if allowed v then (unescapeWith allowed bare more).map (v :: ·)
          else .error (.badEscape [c, a, b])
        | _, _ => .error (.badEscape [c, a, b])
      | _ => .error (.badEscape (c :: r))
    else if bare c then (unescapeWith allowed bare r).map (c :: ·)
    else .error (.badHostByte c)

/-- The text that escapes stand for, outside of hosts. -/
def unescape (s : Bytes) : Except Flaw Bytes := unescapeWith (fun _ => true) (fun _ => true) s

/-- Bytes that an already escaped text may hold besides those that stand for themselves. -/
def isSpelled (b : UInt8) : Bool := (text "!$&'()*+,;=:@[]%").contains b

/-- A text in escaped form: as it is if it could have been written so, else escaped anew. -/
def respell (keep : UInt8 → Bool) (s : Bytes) : Bytes :=
  if s.all fun b => isSpelled b || keep b then s else escape keep ((unescape s).toOption.getD s)

/-- Whether a text is empty or a colon with digits. -/
def isPort : Bytes → Bool
  | [] => true
  | c :: r => c == 0x3A && r.all Bytes.isDigit

/-- The parts of a text before and after the last occurrence of a byte. -/
def cutLast? (b : UInt8) (s : Bytes) : Option (Bytes × Bytes) :=
  match s.reverse.span (· != b) with
  | (_, []) => none
  | (after, _ :: before) => some (before.reverse, after.reverse)

/-- Bytes that may stand unescaped in a host. -/
def isHostByte (b : UInt8) : Bool := 0x80 ≤ b || inHost b

/-- The host with its escapes read.  Escapes of ASCII characters have no place in a host, the
percent sign apart. -/
def unescapeHost (s : Bytes) : Except Flaw Bytes :=
  unescapeWith (fun v => 0x80 ≤ v || v == 0x25) isHostByte s

/-- The zone of a numeric host with its escapes read.  An escape may stand for what could stand
there unescaped, for a percent sign and for a space. -/
def unescapeZone (s : Bytes) : Except Flaw Bytes :=
  unescapeWith (fun v => inHost v || v == 0x25 || v == 0x20) isHostByte s

/-- The host between brackets with its escapes read; an escaped percent sign begins the zone. -/
def unescapeLiteral (s : Bytes) : Except Flaw Bytes :=
  match Bytes.cut? (JumpScript.text "%25") s with
  | none => unescapeHost s
  | some (host, _) => do
    let h ← unescapeHost host
    let z ← unescapeZone (s.drop host.length)
    return h ++ z

def checkPort (s : Bytes) : Except Flaw Unit := if isPort s then .ok () else .error (.badPort s)

/-- Reads a host with its port.  Brackets enclose a numeric host of groups, and stand nowhere
else before it. -/
def readHost (s : Bytes) : Except Flaw Bytes :=
  match cutLast? 0x5B s with
  | some ([], _) =>
    match cutLast? 0x5D s with
    | none => .error .openBracket
    | some (before, port) => do
      checkPort port
      let host ← unescapeLiteral (before.drop 1)
      match HostLiteral.read host with
      | .error e => .error (.badLiteral host e)
      | .ok .octets => .error .strayBracket
      | .ok .groups => return [0x5B] ++ host ++ [0x5D] ++ port
  | some (_ :: _, _) => .error .strayBracket
  | none => do
    checkPort ((cutLast? 0x3A s).elim [] fun p => 0x3A :: p.2)
    unescapeHost s

/-- Bytes that a user part may hold. -/
def isUserByte (b : UInt8) : Bool :=
  isUnreserved b || (JumpScript.text ":!$&'()*+,;=%@").contains b

/-- Reads the part between the slashes: user and host. -/
def readAuthority (s : Bytes) : Except Flaw (Option (Bytes × Option Bytes) × Bytes) :=
  match cutLast? 0x40 s with
  | none => (readHost s).map fun h => (none, h)
  | some (user, host) => do
    let h ← readHost host
    if !user.all isUserByte then .error .badUser
    else
      match Bytes.cut? [0x3A] user with
      | none => return (some (← unescape user, none), h)
      | some (name, word) => return (some (← unescape name, some (← unescape word)), h)

/-- The scheme that a text begins with, in lower case, and what follows its colon. -/
def readScheme (s : Bytes) : Except Flaw (Bytes × Bytes) :=
  let isLetter := fun b => 0x61 ≤ Bytes.lowerAscii b && Bytes.lowerAscii b ≤ 0x7A
  let (word, rest) :=
    s.span fun b => isLetter b || Bytes.isDigit b || (JumpScript.text "+-.").contains b
  match rest with
  | 0x3A :: after =>
    if word.isEmpty then .error .missingScheme
    else if word.head?.any isLetter then .ok (word.map Bytes.lowerAscii, after)
    else .ok ([], s)
  | _ => .ok ([], s)

def readQuery (s : Bytes) : Bytes × Option Bytes :=
  match Bytes.cut? [0x3F] s with
  | none => (s, none)
  | some (before, query) => (before, some query)

def firstPart (p : Bytes) : Bytes := p.takeWhile (· != 0x2F)

/-- Reads an address that has no fragment. -/
def readMain (s : Bytes) : Except Flaw Address := do
  if s.any fun b => b < 0x20 || b == 0x7F then .error .controlCharacter
  else
    let (scheme, rest) ← readScheme s
    let (rest, query) := readQuery rest
    let slashed := rest.head? == some 0x2F
    if !slashed && !scheme.isEmpty then
      return ⟨scheme, some rest, none, [], false, [], query, []⟩
    else if !slashed && (firstPart rest).contains 0x3A then .error .colonInFirstPart
    else if (JumpScript.text "//").isPrefixOf rest
        && !(scheme.isEmpty && (JumpScript.text "///").isPrefixOf rest) then
      let (authority, path) := (rest.drop 2).span (· != 0x2F)
      let (user, host) ← readAuthority authority
      let _ ← unescape path
      return ⟨scheme, none, user, host, false, path, query, []⟩
    else
      let _ ← unescape rest
      return ⟨scheme, none, none, [], !scheme.isEmpty && slashed, rest, query, []⟩

/-- Reads an address.  An error names the text without its fragment, unless the fragment is what
is wrong. -/
def read (s : Bytes) : Except Error Address :=
  let (main, fragment) := (Bytes.cut? [0x23] s).getD (s, [])
  match readMain main with
  | .error f => .error ⟨main, f⟩
  | .ok a =>
    match unescape fragment with
    | .error f => .error ⟨s, f⟩
    | .ok _ => .ok { a with fragment }

def withoutPort (host : Bytes) : Bytes :=
  match cutLast? 0x3A host with
  | some (h, port) => if isPort (0x3A :: port) then h else host
  | none => host

/-- A host without brackets around it. -/
def withoutBrackets (host : Bytes) : Bytes :=
  if host.head? == some 0x5B && host.getLast? == some 0x5D && 2 ≤ host.length then
    (host.drop 1).dropLast
  else host

/-- The host without port and brackets. -/
def hostname (a : Address) : Bytes := withoutBrackets (withoutPort a.host)

def userText : Option (Bytes × Option Bytes) → Bytes
  | none => []
  | some (name, none) => escape inUser name ++ [0x40]
  | some (name, some word) => escape inUser name ++ [0x3A] ++ escape inUser word ++ [0x40]

/-- The user part as errors show it, with the password hidden. -/
def publicUser : Option (Bytes × Option Bytes) → Bytes
  | some (name, some _) => name ++ JumpScript.text ":***@"
  | user => userText user

/-- The address with a user part that is already written. -/
def textWith (user : Bytes) (a : Address) : Bytes :=
  let scheme := if a.scheme.isEmpty then [] else a.scheme ++ [0x3A]
  let path := respell inPath a.path
  let middle :=
    match a.rootless with
    | some r => r
    | none =>
      let slashes :=
        if a.hostOmitted || (a.host.isEmpty && a.path.isEmpty && a.user.isNone) then []
        else [0x2F, 0x2F]
      slashes ++ user ++ escape inHost a.host ++ path
  scheme ++ middle ++ (a.query.elim [] fun q => 0x3F :: q)
    ++ (if a.fragment.isEmpty then [] else 0x23 :: respell inFragment a.fragment)

/-- The address that a request for this one is made to: a colon without a port is left out. -/
def forRequest (a : Address) : Address := { a with host := Bytes.dropSuffix [0x3A] a.host }

/-- The address as a request writes it. -/
def text (a : Address) : Bytes := a.textWith (userText a.user)

/-- The address as errors show it. -/
def publicText (a : Address) : Bytes := a.textWith (publicUser a.user)

/-- Takes one more part into a path; `..` takes the part before it away, and `.` only sees to it
that the path begins with a slash. -/
def takePart (done : List Bytes) (part : Bytes) : List Bytes :=
  if part = JumpScript.text "." then if done.isEmpty then [[]] else done
  else if part = JumpScript.text ".." then if done.length ≤ 1 then [] else done.dropLast
  else done ++ [part]

/-- A path without the parts `.` and `..`, rooted unless it is empty. -/
def withoutDots (path : Bytes) : Bytes :=
  if path.isEmpty then []
  else
    let parts := Bytes.splitOn [0x2F] path
    let open? := parts.getLast?.any fun p => p == JumpScript.text "." || p == JumpScript.text ".."
    let whole := Bytes.join [0x2F] (parts.foldl takePart []) ++ (if open? then [0x2F] else [])
    if whole.head? == some 0x2F then whole else 0x2F :: whole

/-- A path seen from another one: it takes the place of the last part there. -/
def seenFrom (base path : Bytes) : Bytes :=
  if path.isEmpty then base
  else if path.head? == some 0x2F then path
  else ((cutLast? 0x2F base).elim [] fun p => p.1 ++ [0x2F]) ++ path

/-- The address that another one means where it is found at `base`, which has a host.  What comes
before its first part is taken from there. -/
def refer (base a : Address) : Address :=
  if !a.scheme.isEmpty || !a.host.isEmpty || a.user.isSome then
    { a with
      scheme := if a.scheme.isEmpty then base.scheme else a.scheme
      path := withoutDots (respell inPath a.path) }
  else
    let stays := a.path.isEmpty && a.query.isNone
    { a with
      scheme := base.scheme
      user := base.user
      host := base.host
      path := withoutDots (seenFrom (respell inPath base.path) (respell inPath a.path))
      query := if stays then base.query else a.query
      fragment := if stays && a.fragment.isEmpty then base.fragment else a.fragment }

end Address

end JumpScript
