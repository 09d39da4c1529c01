import JumpScript.Text.Bytes

/-!
# Moments

Log lines carry the moment at which they were written, in universal time: in full, or as a short
time of day on a twelve-hour clock.
-/

namespace JumpScript

/-- A moment, in whole seconds since the start of the year 1970. -/
structure Moment where
  seconds : Nat
  deriving DecidableEq, Repr

structure Day where
  year : Nat
  month : Nat
  day : Nat
  deriving DecidableEq, Repr

namespace Moment

/-- The start of the year 1970. -/
def epoch : Moment := ⟨0⟩

def isLeap (year : Nat) : Bool := (year % 4 == 0 && year % 100 != 0) || year % 400 == 0

def monthLengths (year : Nat) : List Nat :=
  [31, if isLeap year then 29 else 28, 31, 30, 31, 30, 31, 31, 30, 31, 30, 31]

/-- The month, counted from `month`, and the day in it that `days` days lead to. -/
def findMonth (month days : Nat) : List Nat → Nat × Nat
  | [] => (month, days + 1)
  | n :: ns => if days < n then (month, days + 1) else findMonth (month + 1) (days - n) ns

def yearLength (year : Nat) : Nat := if isLeap year then 366 else 365

theorem yearLength_pos (year : Nat) : 0 < yearLength year := by
  unfold yearLength
  split <;> omega

/-- The day that `days` days after the start of a year lead to. -/
def findDay (year days : Nat) : Day :=
  if days < yearLength year then
    let (month, day) := findMonth 1 days (monthLengths year)
    ⟨year, month, day⟩
  else findDay (year + 1) (days - yearLength year)
termination_by days
decreasing_by
  have := yearLength_pos year
  omega

def day (t : Moment) : Day := findDay 1970 (t.seconds / 86400)

def clock (t : Moment) : Nat × Nat × Nat :=
  (t.seconds / 3600 % 24, t.seconds / 60 % 60, t.seconds % 60)

def padded (width n : Nat) : Bytes :=
  let ds := Bytes.ofNat n
  Bytes.fill (width - ds.length) 0x30 ++ ds

/-- The moment in full, such as `1970-01-01T00:00:00Z`. -/
def full (t : Moment) : Bytes :=
  let d := t.day
  let (h, m, s) := t.clock
  padded 4 d.year ++ text "-" ++ padded 2 d.month ++ text "-" ++ padded 2 d.day ++ text "T"
    ++ padded 2 h ++ text ":" ++ padded 2 m ++ text ":" ++ padded 2 s ++ text "Z"

/-- The time of day on a twelve-hour clock, such as `12:00AM`. -/
def short (t : Moment) : Bytes :=
  let (h, m, _) := t.clock
  Bytes.ofNat (if h % 12 = 0 then 12 else h % 12) ++ text ":" ++ padded 2 m
    ++ (if h < 12 then text "AM" else text "PM")

end Moment

end JumpScript
