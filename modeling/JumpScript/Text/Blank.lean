import JumpScript.Text.Utf8

/-!
# White space

Trimming and cutting into words go by the Unicode property White_Space.
-/

namespace JumpScript

/-- The code points with the White_Space property. -/
def isBlank (c : Nat) : Bool :=
  (0x09 ≤ c && c ≤ 0x0D) || c == 0x20 || c == 0x85 || c == 0xA0 || c == 0x1680
    || (0x2000 ≤ c && c ≤ 0x200A) || c == 0x2028 || c == 0x2029 || c == 0x202F || c == 0x205F
    || c == 0x3000

/-- Whether a symbol is white space; a stray byte is not. -/
def Utf8.Symbol.isBlank (u : Symbol) : Bool := u.point.any JumpScript.isBlank

namespace Bytes

/-- The text without white space at either end. -/
def trim (s : Bytes) : Bytes :=
  let us := (Utf8.symbols s).dropWhile (·.isBlank)
  ((us.reverse.dropWhile (·.isBlank)).reverse).flatMap (·.bytes)

/-- The words of some symbols: the longest runs without white space. -/
def wordsOf (us : List Utf8.Symbol) : List Bytes :=
  match h : us.dropWhile (·.isBlank) with
  | [] => []
  | u :: r =>
    have : (r.dropWhile (!·.isBlank)).length < us.length := by
      have h₁ := (List.dropWhile_suffix (·.isBlank) (l := us)).length_le
      have h₂ := (List.dropWhile_suffix (!·.isBlank) (l := r)).length_le
      rw [h, List.length_cons] at h₁
      omega
    (u :: r.takeWhile (!·.isBlank)).flatMap (·.bytes) :: wordsOf (r.dropWhile (!·.isBlank))
termination_by us.length

/-- The maximal pieces of a text that hold no white space. -/
def words (s : Bytes) : List Bytes := wordsOf (Utf8.symbols s)

end Bytes

end JumpScript
