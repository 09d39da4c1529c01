import JumpScript.Library.Native
import JumpScript.Proofs.Text.Pieces
import JumpScript.Proofs.Value.Equality

/-!
# Splitting and joining strings

Joining undoes splitting for every separator: the pieces between its occurrences make up the text
again, and so do the symbols that an empty separator cuts a text into, stray bytes included.
Splitting undoes joining as long as the separator is one byte that none of the strings has.
-/

namespace JumpScript

namespace StringFunction

theorem join_pieces (s sep : Bytes) : Bytes.join sep (pieces s sep) = s := by
  rw [pieces]
  split
  · rename_i hsep
    rw [List.isEmpty_iff.mp hsep, Bytes.join_nil, ← List.flatMap_def, Utf8.spell_symbols]
  · exact Bytes.join_splitOn sep s

theorem pieces_join {c : UInt8} {ps : List Bytes} (hps : ∀ p ∈ ps, c ∉ p) (hne : ps ≠ []) :
    pieces (Bytes.join [c] ps) [c] = ps :=
  Bytes.splitOn_join hps hne

theorem contents_strings (ps : List Bytes) : contents (ps.map .str) = .ok ps := by
  induction ps with
  | nil => rfl
  | cons p ps ih =>
      rw [List.map_cons, contents, ih]
      rfl

/-- Values that are all strings, none with a given byte, are made from texts without it. -/
theorem exists_texts {c : UInt8} {vs : List Value} (h : ∀ v ∈ vs, ∃ p, v = .str p ∧ c ∉ p) :
    ∃ ps : List Bytes, vs = ps.map .str ∧ ∀ p ∈ ps, c ∉ p := by
  induction vs with
  | nil => exact ⟨[], rfl, nofun⟩
  | cons v vs ih =>
      obtain ⟨⟨p, rfl, hp⟩, hrest⟩ := List.forall_mem_cons.mp h
      obtain ⟨ps, rfl, hps⟩ := ih hrest
      exact ⟨p :: ps, rfl, List.forall_mem_cons.mpr ⟨hp, hps⟩⟩

end StringFunction

namespace Heap

variable {σ τ : Heap} {a h : Handle}

/-- An array that has elements keeps them while the heap only grows. -/
theorem SameOutside.kept (hsame : SameOutside ∅ σ τ) (ha : σ.items a ≠ #[]) :
    σ.get? a ≠ none ∧ τ.items a = σ.items a := by
  cases hget : σ.get? a with
  | none => exact absurd (by rw [Heap.items, hget]; rfl) ha
  | some elements =>
      refine ⟨Option.some_ne_none elements, ?_⟩
      rw [items_of_get? hget, items_of_get? (hsame.items a elements hget (Set.notMem_empty a))]

/-- Two arrays of the same strings are equal. -/
theorem equal_of_strings (hne : a ≠ h) (hitems : σ.items h = σ.items a)
    (hstrings : ∀ v ∈ σ.items a, ∃ p, v = .str p) : σ.equal (.array a) (.array h) = true := by
  rw [equal_of_items_eq hne hitems]
  intro x hx
  obtain ⟨p, hp⟩ := hstrings _ hx
  cases hp

end Heap

namespace Native

open StringFunction (pieces)

variable {ν : Type} (caller : Caller ν) (names : List Bytes) (m : Machine ν)

/-- Splitting adds an array of the pieces to the heap. -/
theorem run_split (s sep : Bytes) :
    ∃ τ h, run caller (.string .split) names [.str s, .str sep] m
        = ({ m with heap := τ }, .ok (.array h)) ∧
      m.heap.get? h = none ∧ τ.get? h = some ((pieces s sep).map .str).toArray ∧
      Heap.SameOutside ∅ m.heap τ := by
  let items := ((pieces s sep).map Value.str).toArray
  exact ⟨_, _, rfl, m.heap.get?_alloc_eq_none items, m.heap.get?_alloc_self items,
    m.heap.sameOutside_alloc ∅ items⟩

/-- Joining reads the strings of an array and leaves the machine as it is. -/
theorem run_join {a : Handle} {ps : List Bytes} (ha : (m.heap.items a).toList = ps.map .str)
    (sep : Bytes) :
    run caller (.string .join) names [.array a, .str sep] m
      = (m, .ok (.str (Bytes.join sep ps))) := by
  have hjoined : StringFunction.joined m.heap [.array a, .str sep] = .ok (Bytes.join sep ps) := by
    change (do return Bytes.join sep (← StringFunction.contents (m.heap.items a).toList)) = _
    rw [ha, StringFunction.contents_strings]
    rfl
  change onHeap m (fun σ =>
    (σ, do return .str (← StringFunction.joined σ [.array a, .str sep]))) = _
  rw [onHeap, hjoined]
  rfl

/-- Splitting and joining are inverse.  Any text that is split, at any separator, gives a fresh
array that is joined to that text again; a separator may be empty, overlap itself or stand at either
end.  An array of strings that do not have some byte is joined by that byte to a text which is split
into a fresh array of the same strings, unless there is no string in it. -/
theorem splitting_and_joining_are_inverse :
    (∀ s sep : Bytes, ∃ τ h,
      run caller (.string .split) names [.str s, .str sep] m
          = ({ m with heap := τ }, .ok (.array h)) ∧
        Heap.Fresh m.heap τ (.array h) ∧ Heap.SameOutside ∅ m.heap τ ∧
        run caller (.string .join) names [.array h, .str sep] { m with heap := τ }
          = ({ m with heap := τ }, .ok (.str s))) ∧
    (∀ (a : Handle) (c : UInt8), m.heap.items a ≠ #[] →
      (∀ v ∈ m.heap.items a, ∃ p, v = .str p ∧ c ∉ p) →
      ∃ t τ h,
        run caller (.string .join) names [.array a, .str [c]] m = (m, .ok (.str t)) ∧
        run caller (.string .split) names [.str t, .str [c]] m
          = ({ m with heap := τ }, .ok (.array h)) ∧
        Heap.Fresh m.heap τ (.array h) ∧ Heap.SameOutside ∅ m.heap τ ∧
        τ.items h = m.heap.items a ∧ τ.items a = m.heap.items a ∧
        τ.equal (.array a) (.array h) = true) := by
  constructor
  · intro s sep
    obtain ⟨τ, h, hsplit, hnone, hsome, hsame⟩ := run_split caller names m s sep
    have hitems : (τ.items h).toList = (pieces s sep).map .str := by
      rw [Heap.items_of_get? hsome]
    refine ⟨τ, h, hsplit, ⟨h, _, rfl, hnone, hsome⟩, hsame, ?_⟩
    rw [run_join caller names _ hitems, StringFunction.join_pieces]
  · intro a c hne hstrings
    have htexts : ∀ v ∈ (m.heap.items a).toList, ∃ p, v = .str p ∧ c ∉ p :=
      fun v hv => hstrings v (Array.mem_toList_iff.mp hv)
    obtain ⟨ps, hps, hfree⟩ := StringFunction.exists_texts htexts
    have hpieces : pieces (Bytes.join [c] ps) [c] = ps := by
      refine StringFunction.pieces_join hfree ?_
      rintro rfl
      exact hne (Array.toList_eq_nil_iff.mp hps)
    obtain ⟨τ, h, hsplit, hnone, hsome, hsame⟩ := run_split caller names m (Bytes.join [c] ps) [c]
    rw [hpieces, ← hps, Array.toArray_toList] at hsome
    obtain ⟨hold, hkept⟩ := hsame.kept hne
    have hnew : τ.items h = m.heap.items a := Heap.items_of_get? hsome
    have hapart : a ≠ h := fun heq => hold (heq ▸ hnone)
    have hequal : τ.equal (.array a) (.array h) = true := by
      refine Heap.equal_of_strings hapart (hnew.trans hkept.symm) fun v hv => ?_
      obtain ⟨p, hp, -⟩ := hstrings v (hkept ▸ hv)
      exact ⟨p, hp⟩
    exact ⟨_, τ, h, run_join caller names m hps [c], hsplit, ⟨h, _, rfl, hnone, hsome⟩, hsame, hnew,
      hkept, hequal⟩

/-- A machine with an array of strings, the first and the last of them empty. -/
def listing : Machine Native where
  program := #[]
  heap := ⟨#[#[.str [], .str (text "a"), .str []]]⟩

/-- A separator that stands at both ends, and bytes that spell nothing cut at an empty separator. -/
theorem splitting_and_joining_are_inverse_bothEnds :
    (∃ τ h, run (Machine.call host) (.string .split) [] [.str (text ",a,"), .str (text ",")] listing
          = ({ listing with heap := τ }, .ok (.array h)) ∧
        h ≠ ⟨1⟩ ∧ τ.equal (.array ⟨1⟩) (.array h) = true) ∧
      ∃ τ h, run (Machine.call host) (.string .split) [] [.str [0xE2, 0x61, 0xFF], .str []] listing
          = ({ listing with heap := τ }, .ok (.array h)) ∧
        run (Machine.call host) (.string .join) [] [.array h, .str []] { listing with heap := τ }
          = ({ listing with heap := τ }, .ok (.str [0xE2, 0x61, 0xFF])) := by
  obtain ⟨hsplit, hjoin⟩ := splitting_and_joining_are_inverse (Machine.call host) [] listing
  constructor
  · have hstrings : ∀ v ∈ listing.heap.items ⟨1⟩, ∃ p, v = .str p ∧ (0x2C : UInt8) ∉ p := by
      intro v hv
      have hlist : v ∈ [Value.str [], .str (text "a"), .str []] := Array.mem_toList_iff.mpr hv
      simp only [List.mem_cons, List.not_mem_nil, or_false] at hlist
      rcases hlist with rfl | rfl | rfl
      all_goals exact ⟨_, rfl, by decide⟩
    obtain ⟨t, τ, h, hjoined, hpieces, ⟨_, _, hfresh, hnone, -⟩, -, -, -, hequal⟩ :=
      hjoin ⟨1⟩ 0x2C (by decide) hstrings
    cases hfresh
    have htext : t = text ",a," := by
      have hgiven : run (Machine.call host) (.string .join) [] [.array ⟨1⟩, .str [0x2C]] listing
          = (listing, .ok (.str (text ",a,"))) := rfl
      rw [hgiven] at hjoined
      cases hjoined
      rfl
    subst htext
    refine ⟨τ, h, hpieces, ?_, hequal⟩
    rintro rfl
    cases hnone
  · obtain ⟨τ, h, hpieces, -, -, hjoined⟩ := hsplit [0xE2, 0x61, 0xFF] []
    exact ⟨τ, h, hpieces, hjoined⟩

end Native

end JumpScript
