import Mathlib.Data.List.Forall2

/-!
# Outcomes of computations

A computation gives a value or fails.  The lemmas below take sequences of computations apart: a
sequence succeeds if all of its parts do, and fails as the first of them that fails.
-/

namespace JumpScript

section Bind

variable {ε α β : Type} {x : Except ε α} {f : α → Except ε β}

theorem ok_bind (a : α) (f : α → Except ε β) : (Except.ok a >>= f) = f a := rfl

theorem bind_eq_ok_iff {b : β} : (x >>= f) = .ok b ↔ ∃ a, x = .ok a ∧ f a = .ok b := by
  cases x with
  | error e =>
      constructor
      · intro h
        cases h
      · rintro ⟨a, ha, -⟩
        cases ha
  | ok a => exact ⟨fun h => ⟨a, rfl, h⟩, fun ⟨_, ha, h⟩ => Except.ok.inj ha ▸ h⟩

theorem bind_eq_error_iff {e : ε} :
    (x >>= f) = .error e ↔ x = .error e ∨ ∃ a, x = .ok a ∧ f a = .error e := by
  cases x with
  | error e' =>
      constructor
      · intro h
        obtain rfl : e' = e := Except.error.inj h
        exact Or.inl rfl
      · rintro (h | ⟨a, ha, -⟩)
        · obtain rfl := Except.error.inj h
          rfl
        · cases ha
  | ok a =>
      constructor
      · intro h
        exact Or.inr ⟨a, rfl, h⟩
      · rintro (h | ⟨_, ha, h⟩)
        · cases h
        · exact Except.ok.inj ha ▸ h

theorem bind_eq_error {e : ε} (h : (x >>= f) = .error e) :
    x = .error e ∨ ∃ a, f a = .error e := by
  rcases bind_eq_error_iff.mp h with h | ⟨a, -, h⟩
  · exact Or.inl h
  · exact Or.inr ⟨a, h⟩

theorem map_eq_error_iff {g : α → β} {e : ε} : x.map g = .error e ↔ x = .error e := by
  cases x with
  | error e' => simp [Except.map]
  | ok a => simp [Except.map]

theorem map_eq_ok_iff {g : α → β} {b : β} : x.map g = .ok b ↔ ∃ a, x = .ok a ∧ g a = b := by
  cases x with
  | error e => simp [Except.map]
  | ok a => simp [Except.map]

theorem mapError_eq_ok_iff {ε' : Type} {g : ε → ε'} {a : α} :
    x.mapError g = .ok a ↔ x = .ok a := by
  cases x with
  | error e =>
      constructor
      · intro h
        cases h
      · intro h
        cases h
  | ok b =>
      constructor
      · intro h
        obtain rfl := Except.ok.inj h
        rfl
      · intro h
        obtain rfl := Except.ok.inj h
        rfl

theorem guard_eq_error_iff {c : Prop} [Decidable c] {e e' : ε} {a : α} :
    (if c then .error e else .ok a : Except ε α) = .error e' ↔ c ∧ e = e' := by
  by_cases hc : c
  · simp [hc]
  · simp [hc]

end Bind

/-- Whatever a computation gives has a property; it may also fail. -/
def Ensures {ε α : Type} (x : Except ε α) (P : α → Prop) : Prop := ∀ a, x = .ok a → P a

section Ensures

variable {ε α β : Type} {P : α → Prop}

theorem Ensures.ok {a : α} (h : P a) : Ensures (.ok a : Except ε α) P := by
  intro b hb
  obtain rfl := Except.ok.inj hb
  exact h

theorem Ensures.error (e : ε) : Ensures (.error e : Except ε α) P := by
  intro a ha
  cases ha

theorem Ensures.bind {x : Except ε β} {f : β → Except ε α} (h : ∀ b, Ensures (f b) P) :
    Ensures (x >>= f) P := by
  cases x with
  | ok b => exact h b
  | error e => exact Ensures.error e

end Ensures

section Lists

variable {ε α β : Type} {f : α → Except ε β}

/-- A list of computations fails as the first of them that fails. -/
theorem mapM_eq_error_iff {l : List α} {e : ε} :
    l.mapM f = .error e ↔ ∃ before a after, l = before ++ a :: after ∧
      (∀ b ∈ before, ∃ v, f b = .ok v) ∧ f a = .error e := by
  induction l with
  | nil => simp [pure, Except.pure]
  | cons c l ih =>
      rw [List.mapM_cons, bind_eq_error_iff]
      constructor
      · rintro (hc | ⟨v, hc, h⟩)
        · exact ⟨[], c, l, rfl, by simp, hc⟩
        · rcases bind_eq_error_iff.mp h with h | ⟨vs, -, h⟩
          · obtain ⟨before, a, after, rfl, hbefore, ha⟩ := ih.mp h
            refine ⟨c :: before, a, after, rfl, ?_, ha⟩
            intro b hb
            rcases List.mem_cons.mp hb with rfl | hb
            · exact ⟨v, hc⟩
            · exact hbefore b hb
          · cases h
      · rintro ⟨before, a, after, hsplit, hbefore, ha⟩
        cases before with
        | nil =>
            obtain ⟨rfl, rfl⟩ := List.cons.inj hsplit
            exact Or.inl ha
        | cons b before =>
            obtain ⟨rfl, rfl⟩ := List.cons.inj hsplit
            obtain ⟨v, hv⟩ := hbefore c List.mem_cons_self
            have hrest := ih.mpr ⟨before, a, after, rfl,
              fun b hb => hbefore b (List.mem_cons_of_mem c hb), ha⟩
            exact Or.inr ⟨v, hv, bind_eq_error_iff.mpr (Or.inl hrest)⟩

theorem mapM_pair_eq_error_iff {a b : α} {e : ε} :
    [a, b].mapM f = .error e ↔ f a = .error e ∨ ∃ v, f a = .ok v ∧ f b = .error e := by
  cases ha : f a with
  | error e' => simp [ha, bind, Except.bind]
  | ok v =>
      cases hb : f b with
      | error e' => simp [ha, hb, bind, Except.bind]
      | ok w => simp [ha, hb, bind, Except.bind, pure, Except.pure]

/-- A list of computations succeeds if each of them does. -/
theorem exists_mapM_eq_ok_iff {l : List α} :
    (∃ vs, l.mapM f = .ok vs) ↔ ∀ a ∈ l, ∃ v, f a = .ok v := by
  constructor
  · rintro ⟨vs, hvs⟩ a ha
    obtain ⟨before, after, rfl⟩ := List.append_of_mem ha
    rw [List.mapM_append] at hvs
    obtain ⟨_, -, hvs⟩ := bind_eq_ok_iff.mp hvs
    obtain ⟨_, hvs, -⟩ := bind_eq_ok_iff.mp hvs
    rw [List.mapM_cons] at hvs
    obtain ⟨v, hv, -⟩ := bind_eq_ok_iff.mp hvs
    exact ⟨v, hv⟩
  · intro h
    cases hl : l.mapM f with
    | ok vs => exact ⟨vs, rfl⟩
    | error e =>
        obtain ⟨before, a, after, rfl, -, ha⟩ := mapM_eq_error_iff.mp hl
        obtain ⟨v, hv⟩ := h a (by simp)
        rw [hv] at ha
        cases ha

/-- A list of computations gives the results of its members in their order. -/
theorem mapM_eq_ok_iff {l : List α} {bs : List β} :
    l.mapM f = .ok bs ↔ List.Forall₂ (fun a b => f a = .ok b) l bs := by
  induction l generalizing bs with
  | nil =>
      rw [List.forall₂_nil_left_iff]
      exact ⟨fun h => (Except.ok.inj h).symm, fun h => h ▸ rfl⟩
  | cons a l ih =>
      rw [List.mapM_cons, bind_eq_ok_iff, List.forall₂_cons_left_iff]
      refine exists_congr fun b => ⟨?_, ?_⟩
      · rintro ⟨ha, hrest⟩
        obtain ⟨rest, hl, hbs⟩ := bind_eq_ok_iff.mp hrest
        exact ⟨rest, ha, ih.mp hl, (Except.ok.inj hbs).symm⟩
      · rintro ⟨rest, ha, hl, rfl⟩
        exact ⟨ha, bind_eq_ok_iff.mpr ⟨rest, ih.mpr hl, rfl⟩⟩

/-- The results of a list of computations are those of its members. -/
theorem exists_of_mem_mapM {l : List α} {vs : List β} (h : l.mapM f = .ok vs) {v : β}
    (hv : v ∈ vs) : ∃ a ∈ l, f a = .ok v := by
  induction l generalizing vs with
  | nil =>
      obtain rfl := Except.ok.inj h
      cases hv
  | cons c l ih =>
      rw [List.mapM_cons] at h
      obtain ⟨w, hw, h⟩ := bind_eq_ok_iff.mp h
      obtain ⟨ws, hws, h⟩ := bind_eq_ok_iff.mp h
      obtain rfl := Except.ok.inj h
      rcases List.mem_cons.mp hv with rfl | hv
      · exact ⟨c, List.mem_cons_self, hw⟩
      · obtain ⟨a, ha, hfa⟩ := ih hws hv
        exact ⟨a, List.mem_cons_of_mem c ha, hfa⟩

/-- A list of computations succeeds if each of them does, and what holds of each result holds of
all of them. -/
theorem exists_mapM_eq_ok {R : α → β → Prop} {l : List α} (h : ∀ a ∈ l, ∃ b, f a = .ok b ∧ R a b) :
    ∃ bs, l.mapM f = .ok bs ∧ List.Forall₂ R l bs := by
  induction l with
  | nil => exact ⟨[], rfl, .nil⟩
  | cons a l ih =>
      obtain ⟨⟨b, hb, hab⟩, h⟩ := List.forall_mem_cons.mp h
      obtain ⟨bs, hbs, hall⟩ := ih h
      refine ⟨b :: bs, ?_, .cons hab hall⟩
      rw [List.mapM_cons, hb, ok_bind, hbs]
      rfl

end Lists

end JumpScript
