import JumpScript.Text.Bytes

/-!
# Buffered input

A program reads its input line by line through a buffer, which takes whole windows from the source.
What the buffer holds is lost to every other reader of the same source; the debugger console is
such a reader, and it opens a buffer of its own at every breakpoint.
-/

namespace JumpScript

/-- Input not yet read: what is in the buffer of the reader, and what is still at the source. -/
structure Input where
  buffered : Bytes := []
  source : Bytes
  deriving DecidableEq, Repr

namespace Input

/-- The number of bytes in a full buffer. -/
def window : Nat := 4096

def unread (i : Input) : Bytes := i.buffered ++ i.source

/-- Takes a window from the source, as far as the buffer has room for it. -/
def fill (i : Input) : Input :=
  let room := window - i.buffered.length
  ⟨i.buffered ++ i.source.take room, i.source.drop room⟩

/-- The first line in the buffer with its newline, if a line ends there. -/
def bufferedLine? (i : Input) : Option (Bytes × Input) :=
  let (line, rest) := Bytes.takeLine i.buffered
  if line.getLast? == some 0x0A then some (line, ⟨rest, i.source⟩) else none

/-- The next line with its newline, or what is left when no newline follows; nothing at the end of
input.  The buffer takes as many windows as the line needs. -/
def readLine (i : Input) : Bytes × Input :=
  match i.bufferedLine? with
  | some r => r
  | none =>
    let (line, rest) := Bytes.takeLine i.unread
    let windows := (line.length + window - 1) / window
    let ahead := windows * window - line.length
    (line, ⟨rest.take ahead, rest.drop ahead⟩)

/-- The next line of a console, without its end; a line longer than the buffer comes in parts. -/
def readCommand? (i : Input) : Option (Bytes × Input) :=
  let i := if i.bufferedLine?.isSome then i else i.fill
  match i.bufferedLine? with
  | some (line, i) => some (Bytes.dropSuffix [0x0D] line.dropLast, i)
  | none =>
    if i.buffered.isEmpty then none
    else if i.buffered.length < window then some (i.buffered, ⟨[], i.source⟩)
    else
      let part := Bytes.dropSuffix [0x0D] i.buffered
      some (part, ⟨i.buffered.drop part.length, i.source⟩)

/-- A second reader of the same source, with an empty buffer. -/
def reopen (i : Input) : Input := ⟨[], i.source⟩

/-- The input after a second reader has been closed: what it had taken is gone. -/
def close (i other : Input) : Input := ⟨i.buffered, other.source⟩

end Input

end JumpScript
