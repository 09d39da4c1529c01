import JumpScript.Proofs.Machine.Refusal
import JumpScript.Proofs.Number.Order

/-!
# Relations between values

A conditional jump tests equality one way and order another.  Both come down to how two values stand
to each other: before, level, after, or none of these.  `Value.standing` is that for all values that
have an order, and `Comparator.allows` says which standings a relation allows.

Order is a three-way test that takes what is neither before nor after for level, equality is not.
So the six relations agree with each other on all values but unordered ones: a float that is not a
number is at most and at least everything, without being less, equal or greater.
-/

namespace JumpScript

namespace Bytes

theorem lt_iff {s t : List UInt8} : lt s t = true ↔ s < t := by
  induction s generalizing t with
  | nil => cases t <;> simp [lt]
  | cons a s ih => cases t <;> simp [lt, List.cons_lt_cons_iff, ih]

theorem lt_asymm {s t : Bytes} (h : lt s t = true) : lt t s = false := by
  rw [← Bool.not_eq_true, lt_iff]
  exact List.lt_asymm (lt_iff.mp h)

theorem eq_of_not_lt {s t : Bytes} (h : lt s t = false) (h' : lt t s = false) : s = t := by
  rw [← Bool.not_eq_true, lt_iff] at h h'
  exact List.le_antisymm h' h

end Bytes

namespace Value

/-- The pairs of values that have an order. -/
inductive Ordered : Value → Value → Prop where
  | ints (x y : Int64) : Ordered (.int x) (.int y)
  | floats (x y : Float) : Ordered (.float x) (.float y)
  | intFloat (n : Int64) (x : Float) : Ordered (.int n) (.float x)
  | floatInt (x : Float) (n : Int64) : Ordered (.float x) (.int n)
  | strings (s t : Bytes) : Ordered (.str s) (.str t)

/-- How two values stand to each other: two ints and two strings by their tests of order, numbers as
floats as soon as a float takes part. -/
def standing (a b : Value) : Option Ordering :=
  match a, b with
  | .int x, .int y => some (threeWay (x < y) (y < x))
  | .str s, .str t => some (threeWay (Bytes.lt s t) (Bytes.lt t s))
  | _, _ => Double.standing a.toFloat b.toFloat

/-- Whether two values stand nowhere to each other: a float takes part, and one of the two is not a
number as a float. -/
def unordered (a b : Value) : Bool :=
  match a, b with
  | .int _, .int _ | .str _, .str _ => false
  | _, _ => a.toFloat.isNaN || b.toFloat.isNaN

theorem threeWay_swap {less greater : Bool} (h : less = true → greater = false) :
    threeWay greater less = (threeWay less greater).swap := by
  cases less with
  | false => cases greater <;> rfl
  | true => rw [h rfl]; rfl

theorem threeWay_eq_eq_iff {less greater : Bool} :
    threeWay less greater = .eq ↔ less = false ∧ greater = false := by
  cases less <;> cases greater <;> simp [threeWay]

/-- On floats the three-way test finds no difference where there is none and where there is no
order. -/
theorem threeWay_floats (x y : Float) :
    threeWay (x < y) (y < x) = (Double.standing x y).getD .eq := by
  have hswap : y < x ↔ Double.standing x y = some .gt := by
    rw [Double.lt_iff_standing, Double.standing_swap]
    cases Double.standing x y with
    | none => simp
    | some o => cases o <;> simp
  simp only [Double.lt_iff_standing, hswap]
  cases Double.standing x y with
  | none => rfl
  | some o => cases o <;> rfl

variable {a b : Value}

theorem Ordered.of_relates {op : Comparator} (hop : op.verb = .order) (h : op.relates a b = true) :
    Ordered a b := by
  have hkinds :
      (a.isNumber && b.isNumber) = true ∨ (a.kind == .string && b.kind == .string) = true := by
    simpa [Comparator.relates, hop] using h
  obtain hnumbers | hstrings := hkinds
  · rw [Bool.and_eq_true] at hnumbers
    obtain ⟨x, rfl⟩ | ⟨x, rfl⟩ := isNumber_cases hnumbers.1
    · obtain ⟨y, rfl⟩ | ⟨y, rfl⟩ := isNumber_cases hnumbers.2
      · exact .ints x y
      · exact .intFloat x y
    · obtain ⟨y, rfl⟩ | ⟨y, rfl⟩ := isNumber_cases hnumbers.2
      · exact .floatInt x y
      · exact .floats x y
  · cases a <;> cases b <;> first | exact .strings _ _ | cases hstrings

theorem Ordered.swap (h : Ordered a b) : Ordered b a := by
  cases h <;> constructor

theorem standing_eq_none_iff : a.standing b = none ↔ a.unordered b = true := by
  cases a <;> cases b <;> simp [standing, unordered, Double.standing_eq_none_iff]

theorem standing_swap (h : Ordered a b) : b.standing a = (a.standing b).map Ordering.swap := by
  cases h with
  | ints x y =>
      have hasymm : decide (x < y) = true → decide (y < x) = false :=
        fun hxy => decide_eq_false (Int64.lt_asymm (of_decide_eq_true hxy))
      exact congrArg some (threeWay_swap hasymm)
  | floats x y => exact Double.standing_swap _ _
  | intFloat n x => exact Double.standing_swap _ _
  | floatInt x n => exact Double.standing_swap _ _
  | strings s t => exact congrArg some (threeWay_swap Bytes.lt_asymm)

/-- Order takes two values that stand nowhere to each other for level. -/
theorem compare_eq_ok (h : Ordered a b) : a.compare b = .ok ((a.standing b).getD .eq) := by
  cases h with
  | ints x y => rfl
  | floats x y => exact congrArg Except.ok (threeWay_floats _ _)
  | intFloat n x => exact congrArg Except.ok (threeWay_floats _ _)
  | floatInt x n => exact congrArg Except.ok (threeWay_floats _ _)
  | strings s t => rfl

theorem equals_eq_ok (h : Ordered a b) : a.equals b = .ok (a.standing b == some .eq) := by
  have hfloats : ∀ x y : Float, (x == y) = (Double.standing x y == some .eq) := by
    intro x y
    rw [Bool.eq_iff_iff, Double.beq_iff_standing, beq_iff_eq]
  cases h with
  | ints x y =>
      have heq : (x == y) = (standing (.int x) (.int y) == some .eq) := by
        rw [Bool.eq_iff_iff, beq_iff_eq, beq_iff_eq, standing, Option.some.injEq,
          threeWay_eq_eq_iff, decide_eq_false_iff_not, decide_eq_false_iff_not, Int64.not_lt,
          Int64.not_lt]
        exact ⟨fun hxy => hxy ▸ ⟨Int64.le_refl x, Int64.le_refl x⟩,
          fun hxy => Int64.le_antisymm hxy.2 hxy.1⟩
      exact congrArg Except.ok heq
  | floats x y => exact congrArg Except.ok (hfloats _ _)
  | intFloat n x => exact congrArg Except.ok (hfloats _ _)
  | floatInt x n => exact congrArg Except.ok (hfloats _ _)
  | strings s t =>
      have heq : (s == t) = (standing (.str s) (.str t) == some .eq) := by
        rw [Bool.eq_iff_iff, beq_iff_eq, beq_iff_eq, standing, Option.some.injEq,
          threeWay_eq_eq_iff]
        constructor
        · rintro rfl
          have hirrefl : Bytes.lt s s ≠ true := fun h => by simpa [h] using Bytes.lt_asymm h
          simp [hirrefl]
        · exact fun hst => Bytes.eq_of_not_lt hst.1 hst.2
      exact congrArg Except.ok heq

end Value

/-- Whether a relation allows two values to stand to each other in a way.  Values that stand nowhere
are not equal, and each is taken to be at most and at least the other. -/
def Comparator.allows (op : Comparator) (standing : Option Ordering) : Bool :=
  match op with
  | .eq => standing == some .eq
  | .ne => standing != some .eq
  | .lt => standing == some .lt
  | .gt => standing == some .gt
  | .le => standing != some .gt
  | .ge => standing != some .lt

namespace Machine

open Double (notANumber)
open Value (Ordered)

variable {a b : Value}

theorem holds_eq_ok (op : Comparator) (h : Ordered a b) :
    holds op a b = .ok (op.allows (a.standing b)) := by
  have hequals := Value.equals_eq_ok h
  have hcompare := Value.compare_eq_ok h
  have htest : ∀ (s : Option Ordering) (o : Ordering), o ≠ .eq →
      (s.getD .eq == o) = (s == some o) := by
    intro s o ho
    cases s with
    | none => cases o <;> first | rfl | exact absurd rfl ho
    | some o' => rfl
  cases op with
  | eq => exact hequals
  | ne => rw [holds, hequals]; rfl
  | lt => rw [holds, hcompare]; exact congrArg Except.ok (htest _ .lt (by decide))
  | gt => rw [holds, hcompare]; exact congrArg Except.ok (htest _ .gt (by decide))
  | le => rw [holds, hcompare]; exact congrArg (Except.ok <| !·) (htest _ .gt (by decide))
  | ge => rw [holds, hcompare]; exact congrArg (Except.ok <| !·) (htest _ .lt (by decide))

/-- The six relations agree on two values: all of them can be tested, and what they say fits
together. -/
structure Consistent (a b : Value) : Prop where
  defined (op : Comparator) : ∃ t, holds op a b = .ok t
  ne : holds .ne a b = .ok true ↔ holds .eq a b = .ok false
  le : holds .le a b = .ok true ↔ holds .lt a b = .ok true ∨ holds .eq a b = .ok true
  ge : holds .ge a b = .ok true ↔ holds .gt a b = .ok true ∨ holds .eq a b = .ok true
  lt : holds .lt a b = .ok true ↔ holds .gt b a = .ok true
  lt_eq : ¬(holds .lt a b = .ok true ∧ holds .eq a b = .ok true)
  eq_gt : ¬(holds .eq a b = .ok true ∧ holds .gt a b = .ok true)
  lt_gt : ¬(holds .lt a b = .ok true ∧ holds .gt a b = .ok true)

theorem consistent_of_standing {o : Ordering} (h : Ordered a b)
    (hstanding : a.standing b = some o) : Consistent a b := by
  have hback := Value.standing_swap h
  rw [hstanding, Option.map_some] at hback
  constructor <;> simp only [holds_eq_ok _ h, holds_eq_ok _ h.swap, hstanding, hback]
  all_goals cases o <;> simp [Comparator.allows]

/-- The six relations that a conditional jump tests agree on all values that have an order and are
not unordered.  Of two unordered values each is at most and at least the other and different from
it, and no other relation holds. -/
theorem relations_agree_unless_unordered {op₀ : Comparator} {t₀ : Bool} (hop : op₀.verb = .order)
    (hordered : holds op₀ a b = .ok t₀) :
    (a.unordered b = false → Consistent a b) ∧
    (a.unordered b = true → ∀ op : Comparator,
      holds op a b = .ok (op == .ne || op == .le || op == .ge) ∧
      holds op b a = .ok (op == .ne || op == .le || op == .ge)) ∧
    ∀ (ν : Type) (host : Host ν) (m : Machine ν) (l r : Operand) (label : Bytes) (op : Comparator),
      m.resolve l = .ok a → m.resolve r = .ok b → ∃ t, holds op a b = .ok t ∧
        m.exec host (.gotoIf label op l r) = m.changed (if t then m.jump label else .ok m) := by
  have hrelates : op₀.relates a b = true := by
    rw [← Bool.not_eq_false]
    intro hnot
    rw [holds_eq_error_iff.mpr ⟨hnot, rfl⟩] at hordered
    cases hordered
  have h : Ordered a b := Value.Ordered.of_relates hop hrelates
  refine ⟨fun hunordered => ?_, fun hunordered op => ?_, fun ν host m l r label op hl hr => ?_⟩
  · obtain ⟨o, ho⟩ : ∃ o, a.standing b = some o := by
      rw [← Option.ne_none_iff_exists', Ne, Value.standing_eq_none_iff, hunordered]
      decide
    exact consistent_of_standing h ho
  · have hstanding := Value.standing_eq_none_iff.mpr hunordered
    have hback := Value.standing_swap h
    rw [hstanding, Option.map_none] at hback
    rw [holds_eq_ok op h, holds_eq_ok op h.swap, hstanding, hback]
    cases op <;> exact ⟨rfl, rfl⟩
  · have hholds := holds_eq_ok op h
    refine ⟨_, hholds, ?_⟩
    rw [exec_gotoIf host hl hr, hholds]
    rfl

theorem relations_agree_unless_unordered_floats :
    Consistent (.float 1.5) (.float 2.5) ∧
    ∀ op : Comparator, holds op (.float notANumber) (.float 0)
      = .ok (op == .ne || op == .le || op == .ge) := by
  refine ⟨?_, fun op => ?_⟩
  · exact (relations_agree_unless_unordered rfl (holds_eq_ok .lt (.floats 1.5 2.5))).1
      (by decide +kernel)
  · exact ((relations_agree_unless_unordered rfl (holds_eq_ok .lt (.floats notANumber 0))).2.1
      (by decide +kernel) op).1

/-- A float that is not a number is at most itself, and neither less than itself nor equal to
itself. -/
theorem not_relations_always_agree :
    ¬ ∀ (a b : Value) (op : Comparator) (t : Bool), op.verb = .order → holds op a b = .ok t →
      Consistent a b := by
  intro h
  have hstanding : (Value.float notANumber).standing (.float notANumber) = none :=
    Value.standing_eq_none_iff.mpr (by decide +kernel)
  have hholds : ∀ op, holds op (.float notANumber) (.float notANumber) = .ok (op.allows none) :=
    fun op => hstanding ▸ holds_eq_ok op (.floats notANumber notANumber)
  have hagree := h _ _ .le true rfl (hholds .le)
  obtain hlt | heq := hagree.le.mp (hholds .le)
  · cases (hholds .lt).symm.trans hlt
  · cases (hholds .eq).symm.trans heq

end Machine

end JumpScript
