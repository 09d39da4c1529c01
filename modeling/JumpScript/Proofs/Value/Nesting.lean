import Mathlib.Order.Interval.Finset.Nat
import JumpScript.Proofs.Value.Footprint

/-!
# Nested arrays

An array stands on a level one below the array that it is an element of.  A value has finitely many
levels unless some array in it is inside one of its own elements, and then no more of them than the
heap has arrays.
-/

namespace JumpScript.Heap

variable {σ : Heap} {v w : Value} {h k : Handle} {n m : Nat}

/-- No array is inside one of its own elements. -/
def Acyclic (σ : Heap) : Prop := ∀ h, ∀ v ∈ σ.items h, ¬ σ.Inside v h

/-- A value whose arrays nest so many levels deep at most. -/
inductive Depth (σ : Heap) : Nat → Value → Prop where
  | scalar {n : Nat} {v : Value} (hv : v.kind ≠ .array) : Depth σ n v
  | array {n : Nat} {h : Handle} (hitems : ∀ v ∈ σ.items h, Depth σ n v) :
      Depth σ (n + 1) (.array h)

theorem Depth.of_mem (hh : σ.Depth (n + 1) (.array h)) (hv : v ∈ σ.items h) : σ.Depth n v := by
  cases hh with
  | scalar hkind => exact absurd rfl hkind
  | array hitems => exact hitems v hv

theorem depth_array_iff : σ.Depth (n + 1) (.array h) ↔ ∀ v ∈ σ.items h, σ.Depth n v :=
  ⟨fun hdepth _ hv => hdepth.of_mem hv, .array⟩

theorem Depth.pos (hh : σ.Depth n (.array h)) : ∃ m, n = m + 1 := by
  cases hh with
  | scalar hkind => exact absurd rfl hkind
  | array => exact ⟨_, rfl⟩

/-- What a value consists of: itself and, for an array, what its elements consist of. -/
inductive Holds (σ : Heap) : Value → Value → Prop where
  | self (v : Value) : Holds σ v v
  | element {h : Handle} {v w : Value} (hv : v ∈ σ.items h) (hw : Holds σ v w) :
      Holds σ (.array h) w

/-- Arrays that are nested in each other, from a value downwards. -/
inductive Chain (σ : Heap) : Value → List Handle → Prop where
  | single (h : Handle) : Chain σ (.array h) [h]
  | cons {h : Handle} {v : Value} {hs : List Handle} (hv : v ∈ σ.items h) (hchain : Chain σ v hs) :
      Chain σ (.array h) (h :: hs)

theorem Chain.length_le {hs : List Handle} (hchain : σ.Chain v hs) (hdepth : σ.Depth n v) :
    hs.length ≤ n := by
  induction hchain generalizing n with
  | single h =>
      obtain ⟨n, rfl⟩ := hdepth.pos
      exact Nat.succ_le_succ (Nat.zero_le n)
  | cons hv _ ih =>
      obtain ⟨n, rfl⟩ := hdepth.pos
      exact Nat.succ_le_succ (ih (hdepth.of_mem hv))

/-- The arrays of a value nest as deep as its longest chain. -/
theorem depth_iff_chains : σ.Depth n v ↔ ∀ hs, σ.Chain v hs → hs.length ≤ n := by
  refine ⟨fun hdepth hs hchain => hchain.length_le hdepth, fun hchains => ?_⟩
  induction n generalizing v with
  | zero =>
      cases v with
      | array h => exact absurd (hchains [h] (.single h)) (Nat.not_succ_le_zero 0)
      | _ => exact .scalar nofun
  | succ n ih =>
      cases v with
      | array h =>
          refine .array fun w hw => ih fun hs hchain => ?_
          exact Nat.le_of_succ_le_succ (hchains (h :: hs) (.cons hw hchain))
      | _ => exact .scalar nofun

theorem Depth.mono (hdepth : σ.Depth n v) (hle : n ≤ m) : σ.Depth m v := by
  rw [depth_iff_chains] at hdepth ⊢
  exact fun hs hchain => (hdepth hs hchain).trans hle

theorem Inside.trans (hh : σ.Inside v h) (hw : w ∈ σ.items h) (hk : σ.Inside w k) :
    σ.Inside v k := by
  induction hh with
  | self h => exact .element hw hk
  | element hu _ ih => exact .element hu (ih hw)

theorem Depth.of_inside (hdepth : σ.Depth n v) (hinside : σ.Inside v h) :
    σ.Depth n (.array h) := by
  induction hinside generalizing n with
  | self h => exact hdepth
  | element hv _ ih =>
      obtain ⟨n, rfl⟩ := hdepth.pos
      exact (ih (hdepth.of_mem hv)).mono (Nat.le_succ n)

/-- From an array that is inside one of its elements there are chains of any length. -/
theorem not_depth_of_cycle (hinside : σ.Inside v h) (hw : w ∈ σ.items h) (hback : σ.Inside w h) :
    ¬ σ.Depth n v := by
  intro hdepth
  have hcycle := hdepth.of_inside hinside
  clear hdepth
  induction n with
  | zero =>
      obtain ⟨m, hm⟩ := hcycle.pos
      cases hm
  | succ n ih => exact ih ((hcycle.of_mem hw).of_inside hback)

theorem number_mem_of_mem_items (hv : v ∈ σ.items h) :
    h.number ∈ Finset.Icc 1 σ.cells.size := by
  obtain ⟨_ | n⟩ := h
  · simp [items, get?] at hv
  · rw [Finset.mem_Icc]
    refine ⟨Nat.succ_pos n, Nat.succ_le_of_lt ?_⟩
    by_contra hge
    simp [items, get?, Array.getElem?_eq_none (Nat.not_lt.mp hge)] at hv

/-- On the way down from some arrays that nest in each other, no array comes twice: so many levels
are left as there are arrays that have not come yet. -/
theorem depth_of_path (hv : ∀ h, σ.Inside v h → ∀ w ∈ σ.items h, ¬ σ.Inside w h)
    {path : Finset Nat} (hpath : path ⊆ Finset.Icc 1 σ.cells.size)
    (hn : σ.cells.size ≤ n + path.card)
    (habove : ∀ h, v = .array h → ∀ i ∈ path, ∃ u ∈ σ.items ⟨i⟩, σ.Inside u h) :
    σ.Depth (n + 1) v := by
  induction n generalizing path v with
  | zero =>
      cases v with
      | array h =>
          refine .array fun w hw => ?_
          have hall : path = Finset.Icc 1 σ.cells.size :=
            Finset.eq_of_subset_of_card_le hpath (by simpa using hn)
          obtain ⟨u, hu, hinside⟩ := habove h rfl h.number (hall ▸ number_mem_of_mem_items hw)
          exact absurd hinside (hv h (.self h) u hu)
      | _ => exact .scalar nofun
  | succ n ih =>
      cases v with
      | array h =>
          refine .array fun w hw => ?_
          have hnew : h.number ∉ path := by
            intro hmem
            obtain ⟨u, hu, hinside⟩ := habove h rfl h.number hmem
            exact hv h (.self h) u hu hinside
          have hpath' := Finset.insert_subset (number_mem_of_mem_items hw) hpath
          refine ih (fun k hk => hv k (.element hw hk)) hpath' ?_ fun g hg i hi => ?_
          · rw [Finset.card_insert_of_notMem hnew]
            omega
          · subst hg
            rcases Finset.mem_insert.mp hi with rfl | hi
            · exact ⟨_, hw, .self g⟩
            · obtain ⟨u, hu, hinside⟩ := habove h rfl i hi
              exact ⟨u, hu, hinside.trans hw (.self g)⟩
      | _ => exact .scalar nofun

/-- Without cycles in it a value has no more levels than there are arrays, but for one array that is
not there. -/
theorem depth_of_not_cycle (hv : ∀ h, σ.Inside v h → ∀ w ∈ σ.items h, ¬ σ.Inside w h) :
    σ.Depth (σ.cells.size + 1) v :=
  depth_of_path hv (Finset.empty_subset _) (by simp) (by simp)

theorem Acyclic.depth (hσ : σ.Acyclic) (v : Value) : σ.Depth (σ.cells.size + 1) v :=
  depth_of_not_cycle fun h _ => hσ h

/-- So many levels as there are arrays are enough, if any number is. -/
theorem Depth.le_size (hdepth : σ.Depth n v) : σ.Depth (σ.cells.size + 1) v :=
  depth_of_not_cycle fun _ hh _ hw hback => not_depth_of_cycle hh hw hback hdepth

theorem getElem_of_mem_items (hv : v ∈ σ.items h) :
    ∃ i : Fin σ.cells.size, h.number = i + 1 ∧ v ∈ σ.cells[i] := by
  have hbounds := Finset.mem_Icc.mp (number_mem_of_mem_items hv)
  obtain ⟨_ | n⟩ := h
  · exact absurd hbounds.1 (by decide)
  · have hn : n < σ.cells.size := hbounds.2
    refine ⟨⟨n, hn⟩, rfl, ?_⟩
    have hget : σ.get? ⟨n + 1⟩ = some σ.cells[n] := Array.getElem?_eq_getElem hn
    rwa [items, hget, Option.getD_some] at hv

/-- Arrays that only hold arrays of smaller handles make no cycles. -/
theorem acyclic_of_le (hσ : ∀ i : Fin σ.cells.size, ∀ v ∈ σ.cells[i], v.handle.number ≤ i) :
    σ.Acyclic := by
  have hlt {h k : Handle} (hk : .array k ∈ σ.items h) : k.number < h.number := by
    obtain ⟨i, hi, hmem⟩ := getElem_of_mem_items hk
    rw [hi]
    exact Nat.lt_succ_of_le (hσ i _ hmem)
  have hle {v : Value} {k : Handle} (hk : σ.Inside v k) :
      ∃ h, v = .array h ∧ k.number ≤ h.number := by
    induction hk with
    | self h => exact ⟨h, rfl, Nat.le_refl _⟩
    | @element h k v hv _ ih =>
        obtain ⟨g, rfl, hkg⟩ := ih
        exact ⟨h, rfl, hkg.trans (Nat.le_of_lt (hlt hv))⟩
  intro h v hv hinside
  obtain ⟨g, rfl, hhg⟩ := hle hinside
  exact absurd (hlt hv) (Nat.not_lt_of_ge hhg)

end JumpScript.Heap
