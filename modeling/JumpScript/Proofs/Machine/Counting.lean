import JumpScript.Proofs.Machine.Bystanders

/-!
# How often a counted loop runs

A counted loop is spread over two statements.  The one at its head sets the loop variable and keeps
the last value and its own index; the one at its tail goes back to the index that is kept, or
removes all that the loop has kept.  What is between them is any part of a program that comes from
the head to the tail: `CountedLoop.Traversal` says what is asked of it.  If every traversal gets
there, there is one for each value from the first up to the limit, in this order, and then the run
goes on behind the tail.  This is by induction on the rounds: after each but the last the loop
variable has the next value.  No word on the way overflows, since every value is below the limit,
itself a word.
-/

namespace JumpScript

namespace LoopFunction

variable {ν : Type} {name : Bytes} {first limit v w : Int64}

theorem toInt_add_one_of_lt (h : v < w) : (v + 1).toInt = v.toInt + 1 := by
  have hlt := Int64.lt_iff_toInt_lt.mp h
  have hlow := v.le_toInt
  have hhigh := w.toInt_lt
  rw [Int64.toInt_add, Int64.toInt_one, Int.bmod_eq_of_le (by omega) (by omega)]

theorem toInt_sub_one_of_lt (h : v < w) : (w - 1).toInt = w.toInt - 1 := by
  have hlt := Int64.lt_iff_toInt_lt.mp h
  have hlow := v.le_toInt
  have hhigh := w.toInt_lt
  rw [Int64.toInt_sub, Int64.toInt_one, Int.bmod_eq_of_le (by omega) (by omega)]

theorem begin_of_lt (m : Machine ν) (name : Bytes) (h : first < limit) :
    begin m [.str name, .int first, .int limit]
      = .ok ({ m with bindings := begun m.bindings name first limit m.pc }, .void) := by
  have hargs : Arguments.three [.str name, .int first, .int limit]
      = .ok (.str name, .int first, .int limit) := rfl
  have hname : (Value.str name).asString = .ok name := rfl
  have hint : ∀ v : Int64, (Value.int v).asInt = .ok v := fun _ => rfl
  rw [begin, hargs, ok_bind]
  simp only [hname, hint, ok_bind]
  rw [if_neg (Int64.not_le.mpr h)]
  rfl

/-- Advancing a loop with a current and a last value. -/
theorem advance_of_kept {m : Machine ν} (hv : m.lookup name = some (.int v))
    (hlast : m.lookup (lastName name) = some (.int w)) :
    advance m [.str name] =
      if w ≤ v then .ok ({ m with bindings := ended m.bindings name }, .void)
      else .ok ({ m with bindings := m.bindings.insert name (.int (v + 1)),
                         pc := ((m.lookup (bodyName name)).getD .void).word.toInt }, .void) := by
  have hargs : Arguments.one [.str name] = .ok (.str name) := rfl
  have hname : (Value.str name).asString = .ok name := rfl
  rw [advance, hargs, ok_bind, hname, ok_bind]
  simp only [hv, hlast]
  rfl

theorem advance_of_le {m : Machine ν} (hv : m.lookup name = some (.int v))
    (hlast : m.lookup (lastName name) = some (.int w)) (h : w ≤ v) :
    advance m [.str name] = .ok ({ m with bindings := ended m.bindings name }, .void) := by
  rw [advance_of_kept hv hlast, if_pos h]

theorem advance_of_lt {m : Machine ν} {body : Int64} (hv : m.lookup name = some (.int v))
    (hlast : m.lookup (lastName name) = some (.int w))
    (hbody : m.lookup (bodyName name) = some (.int body)) (h : v < w) :
    advance m [.str name]
      = .ok ({ m with bindings := m.bindings.insert name (.int (v + 1)), pc := body.toInt },
          .void) := by
  rw [advance_of_kept hv hlast, if_neg (Int64.not_le.mpr h), hbody]
  rfl

end LoopFunction

open LoopFunction

namespace Machine

variable {σ : Type} {hook : Option (Hook σ Native)} {gas : Int} {m m' : Machine Native}

/-- A turn at a statement that calls a function of loops does what the function does. -/
theorem turn_of_loop {st : Statement} {target : CallTarget} {args : List Operand}
    {vs : List Value} {f : LoopFunction} {v : Value} (haction : st.action = .call target args)
    (hvs : args.mapM m.resolve = .ok vs) (hf : m.natives.get? target.key = some (.loop f))
    (hrun : f.run (m.counted st) vs = .ok (m', v)) (hgas : m.exhausted gas = false)
    (hpause : m'.pauseRequested = false) (s : σ) :
    m.turn Native.host hook gas st s = (({ m' with pc := following m'.pc }, s), .ok ()) := by
  refine turn_of_step hgas (step_of_exec_ok ?_) hpause s
  have hresolve : (m.counted st).resolve = m.resolve := funext (resolve_congr rfl)
  have hf' : (m.counted st).natives.get? target.key = some (.loop f) := hf
  have hcall : ∀ names, call Native.host target names vs (m.counted st) = (m', .ok v) := by
    intro names
    obtain ⟨inner, hinner⟩ := exists_callWithin_eq_dispatch Native.host 1
    have hnative : Native.host.run inner (.loop f) names vs (m.counted st)
        = Native.onMachine (m.counted st) (f.run (m.counted st) vs) := rfl
    rw [call, hinner]
    simp only [dispatch, hf', hnative, hrun]
    rfl
  rw [haction, exec, callSite, hresolve, hvs]
  simp only [hcall]

end Machine

/-- A counted loop as it is written in a program: the index of the statement that begins it and of
the one that ends its body, its name, and what its first value and its limit are written as. -/
structure CountedLoop where
  head : Nat
  tail : Nat
  name : Bytes
  first : Operand
  limit : Operand

namespace CountedLoop

open Machine

/-- A loop over an identifier stands in a program, and its functions are those of the library.  The
bound on the length says that it is a signed 64-bit word. -/
structure Within (l : CountedLoop) (program : Array Statement) (natives : Table Native) :
    Prop where
  named : Scan.isName l.name = true
  begins : ∃ st, program[l.head]? = some st ∧
    st.action = .call ⟨text "iter", text "iterate"⟩ [.str l.name, l.first, l.limit]
  ends : ∃ st, program[l.tail]? = some st ∧
    st.action = .call ⟨text "iter", text "end"⟩ [.str l.name]
  iterate_eq : natives.get? (text "iter:iterate") = some (.loop .iterate)
  next_eq : natives.get? (text "iter:end") = some (.loop .next)
  size_lt : program.size < 0x8000000000000000

/-- What a loop keeps while its variable has a value. -/
structure Counts (l : CountedLoop) (limit v : Int64) (m : Machine Native) : Prop where
  value : m.lookup l.name = some (.int v)
  last : m.lookup (lastName l.name) = some (.int (limit - 1))
  body : m.lookup (bodyName l.name) = some (.int (Int64.ofInt l.head))

variable {σ : Type} {l : CountedLoop} {hook : Option (Hook σ Native)} {gas : Int}
  {m m' : Machine Native} {first limit v : Int64}

theorem Within.head_lt (h : l.Within m.program m.natives) : l.head + 1 < 0x8000000000000000 := by
  obtain ⟨st, hst, -⟩ := h.begins
  have hlt := (Array.getElem?_eq_some_iff.mp hst).1
  have hsize := h.size_lt
  omega

theorem Within.tail_lt (h : l.Within m.program m.natives) : l.tail + 1 < 0x8000000000000000 := by
  obtain ⟨st, hst, -⟩ := h.ends
  have hlt := (Array.getElem?_eq_some_iff.mp hst).1
  have hsize := h.size_lt
  omega

theorem Within.toInt_head (h : l.Within m.program m.natives) :
    (Int64.ofInt l.head).toInt = l.head := by
  have hlt := h.head_lt
  exact Int64.toInt_ofInt_of_le (by omega) (by omega)

theorem Counts.of_begun (h : l.Within m.program m.natives)
    (hbindings : m'.bindings = begun m.bindings l.name first limit l.head) :
    l.Counts limit first m' := by
  have hhidden := hidden_of_isName h.named
  have hclashes := clashes_of_isName h.named
  constructor
  · rw [lookup, hbindings, begun, Table.get?_insert, if_neg (ne_bodyName hhidden l.name).symm,
      Table.get?_insert, if_neg (ne_lastName hhidden l.name).symm, Table.get?_insert_self]
  · rw [lookup, hbindings, begun, Table.get?_insert, if_neg (bodyName_ne_lastName hclashes l.name),
      Table.get?_insert_self]
  · rw [lookup, hbindings, begun, Table.get?_insert_self]

theorem Counts.of_kept (h : l.Counts limit v m)
    (hkept : ∀ x ∈ variablesOf l.name, m'.lookup x = m.lookup x) : l.Counts limit v m' where
  value := (hkept _ (by simp [variablesOf])).trans h.value
  last := (hkept _ (by simp [variablesOf])).trans h.last
  body := (hkept _ (by simp [variablesOf])).trans h.body

theorem Counts.of_repeated (h : l.Counts limit v m) (hname : Scan.isName l.name = true)
    (hbindings : m'.bindings = m.bindings.insert l.name (.int (v + 1))) :
    l.Counts limit (v + 1) m' := by
  have hhidden := hidden_of_isName hname
  constructor
  · rw [lookup, hbindings, Table.get?_insert_self]
  · rw [lookup, hbindings, Table.get?_insert, if_neg (ne_lastName hhidden l.name)]
    exact h.last
  · rw [lookup, hbindings, Table.get?_insert, if_neg (ne_bodyName hhidden l.name)]
    exact h.body

/-- The statement at the head begins the loop with its first value. -/
theorem Within.turn_head (h : l.Within m.program m.natives) (hpc : m.pc = l.head)
    (hfirst : m.resolve l.first = .ok (.int first)) (hlimit : m.resolve l.limit = .ok (.int limit))
    (hlt : first < limit) (hgas : m.exhausted gas = false) (hpause : m.pauseRequested = false)
    (s : σ) :
    ∃ st b, m.current? = some st ∧ m.turn Native.host hook gas st s = ((b, s), .ok ()) ∧
      b.pc = l.head + 1 ∧ l.Counts limit first b := by
  obtain ⟨st, hst, haction⟩ := h.begins
  have hcurrent : m.current? = some st := (current?_of_pc hpc).trans hst
  have hvs : [Operand.str l.name, l.first, l.limit].mapM m.resolve
      = .ok [.str l.name, .int first, .int limit] := by
    simp only [List.mapM_cons, List.mapM_nil, hfirst, hlimit]
    rfl
  have hrun : LoopFunction.iterate.run (m.counted st) [.str l.name, .int first, .int limit]
      = .ok (_, .void) := begin_of_lt (m.counted st) l.name hlt
  refine ⟨st, _, hcurrent, turn_of_loop haction hvs h.iterate_eq hrun hgas hpause s, ?_, ?_⟩
  · change following m.pc = _
    rw [hpc, following_of_lt h.head_lt]
    rfl
  · refine Counts.of_begun h ?_
    change begun m.bindings l.name first limit m.pc = _
    rw [hpc]

/-- Before the last value, the statement at the tail goes back to the body with the next value. -/
theorem Within.turn_tail_of_lt (h : l.Within m.program m.natives) (hpc : m.pc = l.tail)
    (hcounts : l.Counts limit v m) (hlt : v < limit - 1) (hgas : m.exhausted gas = false)
    (hpause : m.pauseRequested = false) (s : σ) :
    ∃ st b, m.current? = some st ∧ m.turn Native.host hook gas st s = ((b, s), .ok ()) ∧
      b.pc = l.head + 1 ∧ l.Counts limit (v + 1) b := by
  obtain ⟨st, hst, haction⟩ := h.ends
  have hcurrent : m.current? = some st := (current?_of_pc hpc).trans hst
  have hvs : [Operand.str l.name].mapM m.resolve = .ok [.str l.name] := rfl
  have hrun : LoopFunction.next.run (m.counted st) [.str l.name] = .ok (_, .void) :=
    advance_of_lt (m := m.counted st) hcounts.value hcounts.last hcounts.body hlt
  refine ⟨st, _, hcurrent, turn_of_loop haction hvs h.next_eq hrun hgas hpause s, ?_, ?_⟩
  · change following (Int64.ofInt l.head).toInt = _
    rw [h.toInt_head, following_of_lt h.head_lt]
    rfl
  · exact hcounts.of_repeated h.named rfl

/-- At the last value, the statement at the tail removes all variables of the loop. -/
theorem Within.turn_tail_of_le (h : l.Within m.program m.natives) (hpc : m.pc = l.tail)
    (hcounts : l.Counts limit v m) (hle : limit - 1 ≤ v) (hgas : m.exhausted gas = false)
    (hpause : m.pauseRequested = false) (s : σ) :
    ∃ st b, m.current? = some st ∧ m.turn Native.host hook gas st s = ((b, s), .ok ()) ∧
      b.pc = l.tail + 1 ∧ ∀ x ∈ variablesOf l.name, b.lookup x = none := by
  obtain ⟨st, hst, haction⟩ := h.ends
  have hcurrent : m.current? = some st := (current?_of_pc hpc).trans hst
  have hvs : [Operand.str l.name].mapM m.resolve = .ok [.str l.name] := rfl
  have hrun : LoopFunction.next.run (m.counted st) [.str l.name] = .ok (_, .void) :=
    advance_of_le (m := m.counted st) hcounts.value hcounts.last hle
  refine ⟨st, _, hcurrent, turn_of_loop haction hvs h.next_eq hrun hgas hpause s, ?_, ?_⟩
  · change following m.pc = _
    rw [hpc, following_of_lt h.tail_lt]
    rfl
  · intro x hx
    exact get?_ended_of_mem hx

/-- A traversal of the body of a loop in so many turns: up to the first time that the statement at
the tail is to be executed, with gas for it, and with the variables of the loop as they were. -/
structure Traversal (l : CountedLoop) (hook : Option (Hook σ Native)) (gas : Int) (n : Nat)
    (b : Machine Native) (s : σ) (e : Machine Native) (s' : σ) : Prop where
  turns_eq : b.turns Native.host hook gas n s = ((e, s'), .outOfFuel)
  pc_eq : e.pc = l.tail
  first_time : ∀ k ∈ history Native.host hook gas n b s, k.pc ≠ l.tail
  gas_left : e.exhausted gas = false
  kept : ∀ x ∈ variablesOf l.name, e.lookup x = b.lookup x

/-- What becomes of a loop in so many turns: its head begins it, and each round traverses its body
from the statement behind the head, with a value of the loop variable, and executes its tail. -/
inductive Rounds (l : CountedLoop) (hook : Option (Hook σ Native)) (gas : Int) (m : Machine Native)
    (s : σ) : List Int64 → Nat → Machine Native → σ → Prop where
  | begun {st : Statement} {b : Machine Native} {s' : σ} (hcurrent : m.current? = some st)
      (hturn : m.turn Native.host hook gas st s = ((b, s'), .ok ())) :
      Rounds l hook gas m s [] 1 b s'
  | round {values : List Int64} {v : Int64} {n k : Nat} {b e b' : Machine Native} {t t' t'' : σ}
      {st : Statement} (h : Rounds l hook gas m s values n b t) (hpc : b.pc = l.head + 1)
      (hv : b.lookup l.name = some (.int v)) (hbody : l.Traversal hook gas k b t e t')
      (hcurrent : e.current? = some st)
      (hturn : e.turn Native.host hook gas st t' = ((b', t''), .ok ())) :
      Rounds l hook gas m s (values ++ [v]) (n + (k + 1)) b' t''

variable {values : List Int64} {n : Nat} {b : Machine Native} {s t : σ}

/-- The run goes on from where the rounds have led. -/
theorem Rounds.turns_eq (h : l.Rounds hook gas m s values n b t) (more : Nat) :
    m.turns Native.host hook gas (n + more) s = b.turns Native.host hook gas more t := by
  induction h generalizing more with
  | begun hcurrent hturn => rw [Nat.add_comm, turns_succ hcurrent, hturn]
  | @round values v n k b e b' t t' t'' st h hpc hv hbody hcurrent hturn ih =>
      rw [Nat.add_assoc, ih, Nat.add_assoc, turns_add hbody.turns_eq, Nat.add_comm,
        turns_succ hcurrent, hturn]

theorem Rounds.text_eq (hhook : ∀ h ∈ hook, Console.IsConsole h)
    (h : l.Rounds hook gas m s values n b t) :
    b.program = m.program ∧ b.natives = m.natives := by
  induction h with
  | begun hcurrent hturn => exact text_of_turn Native.framed_host hhook hturn
  | round h hpc hv hbody hcurrent hturn ih =>
      obtain ⟨hprogram, hnatives⟩ := text_turns Native.framed_host hhook hbody.turns_eq
      obtain ⟨hprogram', hnatives'⟩ := text_of_turn Native.framed_host hhook hturn
      exact ⟨hprogram'.trans (hprogram.trans ih.1), hnatives'.trans (hnatives.trans ih.2)⟩

theorem Rounds.pauseRequested_eq (hhook : ∀ h ∈ hook, Console.IsConsole h)
    (h : l.Rounds hook gas m s values n b t) : b.pauseRequested = false := by
  cases h with
  | begun hcurrent hturn => exact pauseRequested_turn hhook hturn
  | round h hpc hv hbody hcurrent hturn => exact pauseRequested_turn hhook hturn

/-- A traversal from where the rounds have led comes to the tail with the loop as it was. -/
theorem Rounds.arrives (hhook : ∀ h ∈ hook, Console.IsConsole h)
    (hwithin : l.Within m.program m.natives) (h : l.Rounds hook gas m s values n b t)
    (hcounts : l.Counts limit v b) {k : Nat} {e : Machine Native} {t' : σ}
    (hbody : l.Traversal hook gas k b t e t') :
    l.Within e.program e.natives ∧ l.Counts limit v e ∧ e.pauseRequested = false := by
  obtain ⟨hprogram, hnatives⟩ := h.text_eq hhook
  obtain ⟨hprogram', hnatives'⟩ := text_turns Native.framed_host hhook hbody.turns_eq
  refine ⟨?_, hcounts.of_kept hbody.kept,
    pauseRequested_turns hhook (h.pauseRequested_eq hhook) hbody.turns_eq⟩
  rw [hprogram', hnatives', hprogram, hnatives]
  exact hwithin

/-- Whatever rounds have gone before, a traversal of the body from behind the head comes to the
tail. -/
def Passable (l : CountedLoop) (hook : Option (Hook σ Native)) (gas : Int) (m : Machine Native)
    (s : σ) : Prop :=
  ∀ values n b t, l.Rounds hook gas m s values n b t → b.pc = l.head + 1 →
    ∃ k e t', l.Traversal hook gas k b t e t'

section Counting

variable (hhook : ∀ h ∈ hook, Console.IsConsole h) (hwithin : l.Within m.program m.natives)
  (hpasses : l.Passable hook gas m s)
include hhook hwithin hpasses

/-- A round with a value before the last is followed by the next value. -/
theorem Rounds.exists_next (h : l.Rounds hook gas m s values n b t) (hpc : b.pc = l.head + 1)
    (hcounts : l.Counts limit v b) (hlt : v < limit - 1) :
    ∃ n' b' t', l.Rounds hook gas m s (values ++ [v]) n' b' t' ∧ b'.pc = l.head + 1 ∧
      l.Counts limit (v + 1) b' := by
  obtain ⟨k, e, t', hbody⟩ := hpasses values n b t h hpc
  obtain ⟨hwithin', hcounts', hpause⟩ := h.arrives hhook hwithin hcounts hbody
  obtain ⟨st, b', hcurrent, hturn, hpc', hnext⟩ :=
    hwithin'.turn_tail_of_lt hbody.pc_eq hcounts' hlt hbody.gas_left hpause t'
  exact ⟨_, b', t', .round h hpc hcounts.value hbody hcurrent hturn, hpc', hnext⟩

/-- A round with the last value ends the loop. -/
theorem Rounds.exists_last (h : l.Rounds hook gas m s values n b t) (hpc : b.pc = l.head + 1)
    (hcounts : l.Counts limit v b) (hle : limit - 1 ≤ v) :
    ∃ n' b' t', l.Rounds hook gas m s (values ++ [v]) n' b' t' ∧ b'.pc = l.tail + 1 ∧
      ∀ x ∈ variablesOf l.name, b'.lookup x = none := by
  obtain ⟨k, e, t', hbody⟩ := hpasses values n b t h hpc
  obtain ⟨hwithin', hcounts', hpause⟩ := h.arrives hhook hwithin hcounts hbody
  obtain ⟨st, b', hcurrent, hturn, hpc', hnone⟩ :=
    hwithin'.turn_tail_of_le hbody.pc_eq hcounts' hle hbody.gas_left hpause t'
  exact ⟨_, b', t', .round h hpc hcounts.value hbody hcurrent hturn, hpc', hnone⟩

/-- After so many rounds, fewer than there are values, the loop variable is that much above the
first value. -/
theorem Within.exists_rounds (hfirst : m.resolve l.first = .ok (.int first))
    (hlimit : m.resolve l.limit = .ok (.int limit)) (hlt : first < limit) (hpc : m.pc = l.head)
    (hgas : m.exhausted gas = false) (hpause : m.pauseRequested = false) (count : Nat)
    (hcount : first.toInt + count < limit.toInt) :
    ∃ values n b t v, l.Rounds hook gas m s values n b t ∧
      values.map Int64.toInt = (List.range count).map (fun k : Nat => first.toInt + k) ∧
      b.pc = l.head + 1 ∧ l.Counts limit v b ∧ v.toInt = first.toInt + count := by
  induction count with
  | zero =>
      obtain ⟨st, b, hcurrent, hturn, hpc', hcounts⟩ :=
        hwithin.turn_head hpc hfirst hlimit hlt hgas hpause s
      exact ⟨[], 1, b, s, first, .begun hcurrent hturn, rfl, hpc', hcounts, by simp⟩
  | succ count ih =>
      obtain ⟨values, n, b, t, v, hrounds, hvalues, hpc', hcounts, hv⟩ := ih (by omega)
      have hmore : v < limit - 1 := by
        rw [Int64.lt_iff_toInt_lt, toInt_sub_one_of_lt hlt]
        omega
      obtain ⟨n', b', t', hnext, hpc'', hcounts'⟩ :=
        hrounds.exists_next hhook hwithin hpasses hpc' hcounts hmore
      refine ⟨_, n', b', t', v + 1, hnext, ?_, hpc'', hcounts', ?_⟩
      · rw [List.map_append, hvalues, List.range_succ, List.map_append, List.map_singleton,
          List.map_singleton, hv]
      · rw [toInt_add_one_of_lt hmore, hv]
        omega

end Counting

/-- A counted loop runs once for each value.  Where every traversal of its body comes to the tail
with the variables of the loop as they were, there is exactly one traversal for each value from the
first up to the limit, in this order; then the variables of the loop are gone and the run goes on
behind the tail.  No word of the loop overflows.  Other loops do not interfere: whatever only
executes statements that touch none of its variables leaves these as they were, and loops over other
identifiers touch none of them. -/
theorem runs_once_for_each_value (l : CountedLoop) (hook : Option (Hook σ Native))
    (hhook : ∀ h ∈ hook, Console.IsConsole h) (gas : Int) (m : Machine Native) (s : σ)
    (hwithin : l.Within m.program m.natives) (first limit : Int64)
    (hfirst : m.resolve l.first = .ok (.int first))
    (hlimit : m.resolve l.limit = .ok (.int limit)) (hlt : first < limit) (hpc : m.pc = l.head)
    (hgas : m.exhausted gas = false) (hpause : m.pauseRequested = false)
    (hpasses : l.Passable hook gas m s) :
    (∃ values n m' s', l.Rounds hook gas m s values n m' s' ∧
      values.map Int64.toInt
        = (List.range (limit.toInt - first.toInt).toNat).map (fun k : Nat => first.toInt + k) ∧
      m'.pc = l.tail + 1 ∧ (∀ x ∈ variablesOf l.name, m'.lookup x = none) ∧
      ∀ more, m.turns Native.host hook gas (n + more) s
        = m'.turns Native.host hook gas more s') ∧
    ((limit - 1).toInt = limit.toInt - 1 ∧
      (∀ v, first ≤ v → v < limit - 1 → (v + 1).toInt = v.toInt + 1) ∧
      (Int64.ofInt l.head).toInt = l.head) ∧
    (∀ n b t e t', b.turns Native.host hook gas n t = ((e, t'), .outOfFuel) →
      (∀ k ∈ history Native.host hook gas n b t, k.Spares l.name) →
      ∀ x ∈ variablesOf l.name, e.lookup x = b.lookup x) ∧
    ∀ other, Scan.isName other = true → other ≠ l.name →
      List.Disjoint (variablesOf other) (variablesOf l.name) := by
  refine ⟨?_, ⟨toInt_sub_one_of_lt hlt, ?_, hwithin.toInt_head⟩, ?_, ?_⟩
  · have hlt' := Int64.lt_iff_toInt_lt.mp hlt
    obtain ⟨count, hcount⟩ : ∃ count : Nat, (limit.toInt - first.toInt).toNat = count + 1 :=
      ⟨(limit.toInt - first.toInt).toNat - 1, by omega⟩
    obtain ⟨values, n, b, t, v, hrounds, hvalues, hpc', hcounts, hv⟩ :=
      hwithin.exists_rounds hhook hpasses hfirst hlimit hlt hpc hgas hpause count (by omega)
    have hlast : limit - 1 ≤ v := by
      rw [Int64.le_iff_toInt_le, toInt_sub_one_of_lt hlt]
      omega
    obtain ⟨n', m', s', hover, hpc'', hnone⟩ :=
      hrounds.exists_last hhook hwithin hpasses hpc' hcounts hlast
    refine ⟨_, n', m', s', hover, ?_, hpc'', hnone, hover.turns_eq⟩
    rw [List.map_append, hvalues, hcount, List.range_succ, List.map_append, List.map_singleton,
      List.map_singleton, hv]
  · intro v _ hv
    exact toInt_add_one_of_lt hv
  · intro n b t e t' hturns hspares x hx
    exact lookup_turns hhook hspares hturns hx
  · intro other hother hne
    exact disjoint_variablesOf hwithin.named hother hne

/-- A loop from the least word, with a loop up to the greatest in its body. -/
def nested : Machine Native where
  program :=
    #[beginAt 1 (text "i") (-0x8000000000000000) (-0x7FFFFFFFFFFFFFFE),
      beginAt 2 (text "j") 0x7FFFFFFFFFFFFFFD 0x7FFFFFFFFFFFFFFF,
      atLine 3 (.call ⟨text "iter", text "end"⟩ [.str (text "j")]), nextOfI 4]
  natives := Module.all.flatMap (·.registry {})

def outer : CountedLoop where
  head := 0
  tail := 3
  name := text "i"
  first := .int (-0x8000000000000000)
  limit := .int (-0x7FFFFFFFFFFFFFFE)

theorem passable_outer :
    outer.Passable (none : Option (Hook Unit Native)) 0 (nested.start Native.host) () := by
  intro values n b t h hpc
  have hprogram := (h.text_eq (by simp)).1
  have hcurrent : b.current? = nested.program[1]? := by
    rw [current?_of_pc (i := 1) hpc, hprogram]
    rfl
  have hturns := h.turns_eq 0
  rw [turns_zero hcurrent, Nat.add_zero] at hturns
  -- the whole program takes nine turns, and two of them lead behind the head
  have hover : ((nested.start Native.host).turns Native.host (none : Option (Hook Unit Native)) 0 9
      ()).2 ≠ .outOfFuel := by decide +kernel
  have hlt : n < 9 := by
    by_contra hge
    have hsame := turns_of_over hover (Nat.le_of_not_lt hge)
    rw [hturns] at hsame
    exact hover (congrArg Prod.snd hsame).symm
  have hbodies : ∀ n < 9,
      let b := ((nested.start Native.host).turns Native.host
        (none : Option (Hook Unit Native)) 0 n ()).1.1
      let r := b.turns Native.host (none : Option (Hook Unit Native)) 0 3 ()
      b.pc = 1 → r.2 = .outOfFuel ∧ r.1.1.pc = 3 ∧
        (∀ k ∈ history Native.host (none : Option (Hook Unit Native)) 0 3 b (), k.pc ≠ 3) ∧
        ∀ x ∈ variablesOf (text "i"), r.1.1.lookup x = b.lookup x := by
    decide +kernel
  have hbody := hbodies n hlt
  rw [hturns] at hbody
  obtain ⟨houtcome, hpc', hfirst, hkept⟩ := hbody hpc
  exact ⟨3, _, (), Prod.ext rfl houtcome, hpc', hfirst, rfl, hkept⟩

theorem runs_once_for_each_value_nested :
    ∃ values n m' s', outer.Rounds (none : Option (Hook Unit Native)) 0 (nested.start Native.host)
        () values n m' s' ∧
      values.map Int64.toInt = [-0x8000000000000000, -0x7FFFFFFFFFFFFFFF] ∧ m'.pc = 4 ∧
      ∀ x ∈ variablesOf (text "i"), m'.lookup x = none := by
  have hwithin : outer.Within (nested.start Native.host).program
      (nested.start Native.host).natives := by
    refine ⟨by decide, ⟨_, rfl, rfl⟩, ⟨_, rfl, rfl⟩, ?_, ?_, by decide⟩
    · decide +kernel
    · decide +kernel
  obtain ⟨⟨values, n, m', s', hrounds, hvalues, hpc, hnone, -⟩, -⟩ :=
    runs_once_for_each_value outer none (by simp) 0 (nested.start Native.host) () hwithin
      (-0x8000000000000000) (-0x7FFFFFFFFFFFFFFE) rfl rfl (by decide) rfl rfl rfl passable_outer
  exact ⟨values, n, m', s', hrounds, hvalues, hpc, hnone⟩

end CountedLoop

end JumpScript
