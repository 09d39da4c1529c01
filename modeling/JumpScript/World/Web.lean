import JumpScript.Fault
import JumpScript.Table
import JumpScript.World.Address

/-!
# The web, and a fence around it

A client sends a request and follows redirections, up to ten requests in all.  What answers it is a
server, which may give the same address another answer each time; a web is a server that goes by the
text of the address alone.  The fence lets a request out only when its host is on a list, and keeps
it from the hosts of the machine's own network; answers are cut off at a size limit.
-/

namespace JumpScript

structure Response where
  status : Int
  /-- The status in words, as errors show it. -/
  line : Bytes
  body : Bytes
  /-- Where a redirection leads. -/
  location : Option Bytes := none
  deriving DecidableEq, Repr

/-- What answers requests, knowing how many more the client would send. -/
abbrev Server := (left : Nat) → Address → Option Response

/-- What each address answers. -/
abbrev Web := Table Response

namespace Web

def server (web : Web) : Server := fun _ a => web.get? a.text

/-- The number of requests a client makes before it gives up on redirections. -/
def redirectLimit : Nat := 10

/-- Where an answer redirects to. -/
def redirection? (r : Response) : Option Bytes :=
  if [301, 302, 303, 307, 308].contains r.status then r.location.filter (!·.isEmpty) else none

/-- The address a redirection leads to, seen from the address that answered. -/
def resolve? (base : Address) (location : Bytes) : Option Address :=
  (Address.read location).toOption.map base.refer

def failed (a : Address) (flaw : RequestFlaw) : Except Fault Response :=
  .error (.requestFailed ⟨a.publicText, flaw⟩)

/-- Sends a request and follows redirections, with `left` requests to go.  Gives the addresses
asked, in order, and the last answer. -/
def follow (server : Server) : (left : Nat) → Address → List Address × Except Fault Response
  | 0, a => ([], failed a .manyRedirections)
  | left + 1, a =>
    if a.host.isEmpty then ([], failed a .noHost)
    else
      match server left a with
      | none => ([a], failed a .noAnswer)
      | some r =>
        match redirection? r with
        | none => ([a], .ok r)
        | some location =>
          match resolve? a location with
          | none => ([a], failed a .badRedirection)
          | some next =>
            let (asked, answer) := follow server left next
            (a :: asked, answer)

end Web

/-- Which hosts may be asked, and how much they may answer. -/
structure WebFence where
  allowed : List Bytes
  allowLocal : Bool
  /-- The largest body; zero or less stands for the default. -/
  bodyLimit : Int
  deriving DecidableEq, Repr

namespace WebFence

/-- The body size limit unless another one is given. -/
def defaultLimit : Int := 5 * 1024 * 1024

def ofHosts (allowed : List Bytes) : WebFence := ⟨allowed, false, defaultLimit⟩

/-- Whether a host is on the list or below a host on the list. -/
def allows (f : WebFence) (host : Bytes) : Bool :=
  f.allowed.any fun domain => host == domain || (0x2E :: domain).isSuffixOf host

/-- Whether a host belongs to the machine's own network. -/
def isLocal (host : Bytes) : Bool :=
  let h := host.map Bytes.lowerAscii
  h == text "localhost" || h == text "127.0.0.1" || h == text "::1"
    || (text "192.168.").isPrefixOf h || (text "10.").isPrefixOf h

def admits (f : WebFence) (host : Bytes) : Except Fault Unit :=
  if !f.allows host then .error .domainNotAllowed
  else if !f.allowLocal && isLocal host then .error .localhostBlocked
  else .ok ()

/-- The address of a request, if the fence lets it out. -/
def screen (f : WebFence) (address : Bytes) : Except Fault Address :=
  match Address.read address with
  | .error e => .error (.badAddress e)
  | .ok a =>
    if a.scheme != text "http" && a.scheme != text "https" then
      .error (.unsupportedScheme a.scheme)
    else (f.admits a.hostname).map fun _ => a

/-- The largest body that is let in. -/
def limit (f : WebFence) : Int := if f.bodyLimit ≤ 0 then defaultLimit else f.bodyLimit

/-- The number of bytes read of a body: one more than may be let in.  The count is a 64-bit word,
and nothing is read when it is negative. -/
def window (f : WebFence) : Nat := ((f.limit + 1).bmod 0x10000000000000000).toNat

/-- The body of an answer, unless its status is an error or its size beyond the limit. -/
def accept (f : WebFence) (a : Address) (r : Response) : Except Fault Bytes :=
  let body := r.body.take f.window
  if 400 ≤ r.status then .error (.badStatus a.host r.line)
  else if f.limit < body.length then .error .responseTooLarge
  else .ok body

/-- Fetches a body from a server: the addresses asked, and the outcome. -/
def ask (f : WebFence) (server : Server) (address : Bytes) : List Address × Except Fault Bytes :=
  match f.screen address with
  | .error e => ([], .error e)
  | .ok a =>
    let (asked, answer) := Web.follow server Web.redirectLimit a.forRequest
    (asked, answer.bind (f.accept a))

def fetch (f : WebFence) (web : Web) (address : Bytes) : List Address × Except Fault Bytes :=
  f.ask web.server address

end WebFence

end JumpScript
