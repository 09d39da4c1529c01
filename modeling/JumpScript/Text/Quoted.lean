import JumpScript.Text.Utf8
import JumpScript.Text.Printable

/-!
# Quoted text

Messages show texts between quotes.  Printable code points stand for themselves, the usual control
characters have short escapes, and everything else is written by number, so a quoted text is always
printable and always valid UTF-8.
-/

namespace JumpScript.Bytes

/-- The escaped form of a code point between quotes of the kind `mark`. -/
def escapePoint (mark : Nat) (c : Nat) : Bytes :=
  if c == mark || c == 0x5C then 0x5C :: Utf8.encode c
  else if isPrintable c then Utf8.encode c
  else if c == 0x07 then text "\\a"
  else if c == 0x08 then text "\\b"
  else if c == 0x0C then text "\\f"
  else if c == 0x0A then text "\\n"
  else if c == 0x0D then text "\\r"
  else if c == 0x09 then text "\\t"
  else if c == 0x0B then text "\\v"
  else if c < 0x80 then text "\\x" ++ hex 2 c
  else if c < 0x10000 then text "\\u" ++ hex 4 c
  else text "\\U" ++ hex 8 c

/-- The escaped form of a symbol; a stray byte is written by its value. -/
def escapeSymbol (mark : Nat) : Utf8.Symbol → Bytes
  | .spelled c _ => escapePoint mark c
  | .stray b => text "\\x" ++ hex 2 b.toNat

def quoted (s : Bytes) : Bytes :=
  [0x22] ++ (Utf8.symbols s).flatMap (escapeSymbol 0x22) ++ [0x22]

/-- The code point with the value of a byte, between single quotes. -/
def quotedPoint (b : UInt8) : Bytes :=
  [0x27] ++ escapePoint 0x27 b.toNat ++ [0x27]

end JumpScript.Bytes
