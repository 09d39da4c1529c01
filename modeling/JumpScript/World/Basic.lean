import JumpScript.World.Files
import JumpScript.World.Web

/-!
# The world around a program

What a program can reach besides its own state: files, environment variables and the web.
-/

namespace JumpScript

/-- Files, environment variables and web answers. -/
structure World where
  files : Files
  environment : Table Bytes
  web : Web
  deriving DecidableEq, Repr

def World.empty : World := ⟨.empty, [], []⟩

end JumpScript
