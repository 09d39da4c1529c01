import JumpScript.Text.Quoted

/-!
# Numeric hosts

A host in brackets is an address of eight groups of hexadecimal digits.  A double colon stands for
one or more groups of zeros, four decimal octets may take the place of the last two groups, and a
zone may follow after a percent sign.
-/

namespace JumpScript

namespace HostLiteral

inductive Cause where
  | unreadable
  | missingAddress
  | emptyZone
  | emptyOctet
  | leadingZero
  | largeOctet
  | manyOctets
  | fewOctets
  | strayByte
  | longGroup
  | emptyGroup
  | octetsMisplaced
  | octetsWithoutRoom
  | missingColon
  | trailingColon
  | secondGap
  | trailingText
  | fewGroups
  | emptyGap
  deriving DecidableEq, Repr

def Cause.words : Cause → Bytes
  | .unreadable => text "unable to parse IP"
  | .missingAddress => text "missing IPv6 address"
  | .emptyZone => text "zone must be a non-empty string"
  | .emptyOctet => text "IPv4 field must have at least one digit"
  | .leadingZero => text "IPv4 field has octet with leading zero"
  | .largeOctet => text "IPv4 field has value >255"
  | .manyOctets => text "IPv4 address too long"
  | .fewOctets => text "IPv4 address too short"
  | .strayByte => text "unexpected character"
  | .longGroup => text "each group must have 4 or less digits"
  | .emptyGroup => text "each colon-separated field must have at least one digit"
  | .octetsMisplaced =>
    text "embedded IPv4 address must replace the final 2 fields of the address"
  | .octetsWithoutRoom =>
    text "too many hex fields to fit an embedded IPv4 at the end of the address"
  | .missingColon => text "unexpected character, want colon"
  | .trailingColon => text "colon must be followed by more characters"
  | .secondGap => text "multiple :: in address"
  | .trailingText => text "trailing garbage after address"
  | .fewGroups => text "address string too short"
  | .emptyGap => text "the :: must expand to at least one field of zeros"

/-- A cause, and the text from which on it shows, if it shows at a place. -/
structure Error where
  cause : Cause
  rest : Bytes := []
  deriving DecidableEq, Repr

def Error.message (host : Bytes) (e : Error) : Bytes :=
  text "ParseAddr(" ++ host.quoted ++ text "): " ++ e.cause.words
    ++ (if e.rest.isEmpty then [] else text " (at " ++ e.rest.quoted ++ text ")")

/-- The two forms of a numeric host. -/
inductive Form where
  | octets
  | groups
  deriving DecidableEq, Repr

/-- Checks four decimal octets with points between them.  `value` and `digits` belong to the octet
that is being read, and `points` counts the points before it. -/
def checkOctets (value digits points : Nat) : Bytes → Except Error Unit
  | [] => if points < 3 then .error ⟨.fewOctets, []⟩ else .ok ()
  | c :: r =>
    if Bytes.isDigit c then
      let n := 10 * value + Bytes.digitValue c
      if digits = 1 ∧ value = 0 then .error ⟨.leadingZero, []⟩
      else if 255 < n then .error ⟨.largeOctet, []⟩
      else checkOctets n (digits + 1) points r
    else if c == 0x2E then
      if digits = 0 ∨ r.isEmpty then .error ⟨.emptyOctet, c :: r⟩
      else if points = 3 then .error ⟨.manyOctets, []⟩
      else checkOctets 0 0 (points + 1) r
    else .error ⟨.strayByte, c :: r⟩

/-- Checks the end of the groups, with `left` groups missing. -/
def checkEnd (left : Nat) (gap : Bool) : Except Error Unit :=
  if left = 0 then if gap then .error ⟨.emptyGap, []⟩ else .ok ()
  else if gap then .ok ()
  else .error ⟨.fewGroups, []⟩

/-- Checks at most `left` groups.  `gap` tells whether a double colon has been read. -/
def checkGroups : (left : Nat) → (gap : Bool) → Bytes → Except Error Unit
  | 0, gap, s => if s.isEmpty then checkEnd 0 gap else .error ⟨.trailingText, s⟩
  | left + 1, gap, s =>
    let (digits, rest) := s.span fun b => (Bytes.hexValue? b).isSome
    if 4 < digits.length then .error ⟨.longGroup, s⟩
    else if digits.isEmpty then .error ⟨.emptyGroup, s⟩
    else
      match rest with
      | [] => checkEnd left gap
      | 0x2E :: _ =>
        if !gap && left != 1 then .error ⟨.octetsMisplaced, s⟩
        else if left = 0 then .error ⟨.octetsWithoutRoom, s⟩
        else do
          checkOctets 0 0 0 s
          checkEnd (left - 1) gap
      | [0x3A] => .error ⟨.trailingColon, rest⟩
      | 0x3A :: 0x3A :: more =>
        if gap then .error ⟨.secondGap, 0x3A :: more⟩
        else if more.isEmpty then checkEnd left true
        else checkGroups left true more
      | 0x3A :: more => checkGroups left gap more
      | _ => .error ⟨.missingColon, rest⟩

/-- Checks groups with an optional zone. -/
def checkZoned (s : Bytes) : Except Error Unit :=
  let (groups, zone) := s.span (· != 0x25)
  if zone.length = 1 then .error ⟨.emptyZone, []⟩
  else
    match groups with
    | [0x3A, 0x3A] => .ok ()
    | 0x3A :: 0x3A :: more => checkGroups 8 true more
    | _ => checkGroups 8 false groups

/-- The form of a numeric host.  The first byte that is a point, a colon or a percent sign tells
which form is meant. -/
def read (s : Bytes) : Except Error Form :=
  match s.find? fun b => b == 0x2E || b == 0x3A || b == 0x25 with
  | some 0x2E => (checkOctets 0 0 0 s).map fun _ => .octets
  | some 0x3A => (checkZoned s).map fun _ => .groups
  | some _ => .error ⟨.missingAddress, []⟩
  | none => .error ⟨.unreadable, []⟩

end HostLiteral

end JumpScript
