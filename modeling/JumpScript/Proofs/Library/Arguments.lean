import JumpScript.Library.Arguments
import JumpScript.Proofs.Outcomes

/-!
# Arguments that have been accepted

What a native function knows about its arguments once it has checked them: how many there are, and
which kinds those have that it insists on.
-/

namespace JumpScript

namespace Arguments

variable {args : List Value} {a b c : Value}

theorem one_eq_ok_iff : one args = .ok a ↔ args = [a] := by
  match args with
  | [] => simp [one]
  | [_] => simp [one]
  | _ :: _ :: _ => simp [one]

theorem two_eq_ok_iff : two args = .ok (a, b) ↔ args = [a, b] := by
  match args with
  | [] => simp [two]
  | [_] => simp [two]
  | [_, _] => simp [two]
  | _ :: _ :: _ :: _ => simp [two]

theorem three_eq_ok_iff : three args = .ok (a, b, c) ↔ args = [a, b, c] := by
  match args with
  | [] => simp [three]
  | [_] => simp [three]
  | [_, _] => simp [three]
  | [_, _, _] => simp [three]
  | _ :: _ :: _ :: _ :: _ => simp [three]

end Arguments

namespace Value

variable {v : Value}

theorem isVoid_iff : v.isVoid = true ↔ v = .void := by
  cases v <;> simp [isVoid, kind]

theorem asArray_eq_ok_iff {h : Handle} : v.asArray = .ok h ↔ v = .array h := by
  cases v <;> simp [asArray]

theorem asString_eq_ok_iff {s : Bytes} : v.asString = .ok s ↔ v = .str s := by
  cases v <;> simp [asString]

theorem asInt_eq_ok_iff {n : Int64} : v.asInt = .ok n ↔ v = .int n := by
  cases v <;> simp [asInt]

end Value

end JumpScript
