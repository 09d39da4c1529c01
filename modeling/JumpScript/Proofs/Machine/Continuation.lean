import Mathlib.Tactic.ByContra
import JumpScript.Proofs.Machine.Labels

/-!
# Machines without a program counter

A continuation is the list of statements still to be executed.  A machine that holds continuations
in place of indices has no program counter and no label table: a jump continues after the last
definition of its label, a call saves what follows it, a return goes on with what was saved.
Machines follow it step for step on programs that call no native function.
-/

namespace JumpScript

def Action.isNative : Action → Bool
  | .assignCall .. | .call .. => true
  | _ => false

/-- What is left to do, the variables, and what the pending calls return to. -/
structure Continuation where
  remaining : List Statement
  bindings : Table Value
  saved : List (List Statement)

namespace Continuation

/-- The statements after the last definition of a label. -/
def after? (label : Bytes) : List Statement → Option (List Statement)
  | [] => none
  | s :: rest =>
    match after? label rest with
    | some suffix => some suffix
    | none => if s.action = .label label then some rest else none

/-- Where a jump continues. -/
def landing (program : List Statement) (label : Bytes) : Except Fault (List Statement) :=
  match after? label program with
  | some suffix => .ok suffix
  | none => .error (.labelNotFound label)

def resolve (bindings : Table Value) : Operand → Except Fault Value
  | .bool b => .ok (.bool b)
  | .int n => .ok (.int n)
  | .float x => .ok (.float x)
  | .str s => .ok (.str s)
  | .variable name =>
    match bindings.get? name with
    | some v => .ok v
    | none => .error (.variableNotFound name)

/-- Executes an action that `rest` follows in the program.  No native function is known. -/
def step (program : List Statement) (k : Continuation) (rest : List Statement) :
    Action → Except Fault Continuation
  | .assign name v => do
    let x ← resolve k.bindings v
    return { k with remaining := rest, bindings := k.bindings.insert name x }
  | .compute name op l r => do
    let a ← resolve k.bindings l
    let b ← resolve k.bindings r
    let x ← Machine.compute op a b
    return { k with remaining := rest, bindings := k.bindings.insert name x }
  | .assignCall _ target _ => .error (.functionNotFound target.key)
  | .call target _ => .error (.functionNotFound target.key)
  | .label _ => .ok { k with remaining := rest }
  | .goto label => do
    let suffix ← landing program label
    return { k with remaining := suffix }
  | .gotoIf label op l r => do
    let a ← resolve k.bindings l
    let b ← resolve k.bindings r
    let taken ← Machine.holds op a b
    if taken then
      let suffix ← landing program label
      return { k with remaining := suffix }
    else return { k with remaining := rest }
  | .callLabel label => do
    let suffix ← landing program label
    return { k with remaining := suffix, saved := rest :: k.saved }
  | .ret =>
    match k.saved with
    | [] => .error .emptyCallStack
    | suffix :: saved => .ok { k with remaining := suffix, saved }

/-- Whether a run is over, and how. -/
inductive Status where
  | running
  | finished
  | failed (s : Statement) (f : Fault)

/-- Takes `n` steps, or fewer when the program is over or a statement fails. -/
def run (program : List Statement) : (n : Nat) → Continuation → Continuation × Status
  | n, k =>
    match k.remaining with
    | [] => (k, .finished)
    | s :: rest =>
      match n with
      | 0 => (k, .running)
      | n + 1 =>
        match k.step program rest s.action with
        | .ok k' => run program n k'
        | .error f => (k, .failed s f)

/-- The outcome of a machine that has taken the same steps: a failure is anchored at the statement
that failed. -/
def Status.outcome : Status → Outcome
  | .running => .outOfFuel
  | .finished => .finished
  | .failed s f => .failed (Machine.anchor s (.fault f))

theorem after?_eq_map_lastLabel? (label : Bytes) (program : List Statement) :
    after? label program
      = (Machine.lastLabel? label program).map fun i => program.drop (i + 1) := by
  induction program with
  | nil => rfl
  | cons s rest ih =>
      rw [after?, ih, Machine.lastLabel?]
      cases Machine.lastLabel? label rest with
      | some i => rfl
      | none =>
          by_cases hs : s.action = .label label
          · simp [hs]
          · simp [hs]

end Continuation

namespace Machine

variable {ν σ : Type} {program : Array Statement} {m : Machine ν} {k : Continuation}

/-- What a machine has still to execute when nothing jumps. -/
def remaining (m : Machine ν) : List Statement :=
  if 0 ≤ m.pc then m.program.toList.drop m.pc.toNat else []

/-- A machine and a continuation are at the same place of a program, with the same variables and
the same pending calls.  The length of a program is a 64-bit word, as the program counter is. -/
structure Follows (program : Array Statement) (m : Machine ν) (k : Continuation) : Prop where
  program_eq : m.program = program
  size_lt : program.size < 0x8000000000000000
  labels_eq : ∀ label, m.labels.get? label = lastLabel? label program.toList
  bindings_eq : m.bindings = k.bindings
  counter : ∃ i : Nat, m.pc = i ∧ k.remaining = program.toList.drop i
  calls_lt : ∀ i ∈ m.calls, i < program.size
  saved_eq : k.saved = m.calls.map fun i => program.toList.drop (i + 1)
  unpaused : m.pauseRequested = false

theorem following_of_lt {i : Nat} (hi : i + 1 < 0x8000000000000000) :
    following (i : Int) = ((i + 1 : Nat) : Int) := by
  rw [following, Int.bmod_def]
  omega

theorem Follows.remaining_eq (h : Follows program m k) : m.remaining = k.remaining := by
  obtain ⟨i, hpc, hremaining⟩ := h.counter
  rw [remaining, hpc, if_pos (Int.natCast_nonneg i), Int.toNat_natCast, h.program_eq, hremaining]

theorem Follows.current?_eq (h : Follows program m k) : m.current? = k.remaining.head? := by
  obtain ⟨i, hpc, hremaining⟩ := h.counter
  rw [current?, hpc, if_pos (Int.natCast_nonneg i), Int.toNat_natCast, h.program_eq, hremaining,
    List.head?_drop, Array.getElem?_toList]

/-- At a statement, the program counter is its index. -/
theorem Follows.exists_index (h : Follows program m k) {s : Statement} {rest : List Statement}
    (hremaining : k.remaining = s :: rest) :
    ∃ i : Nat, m.pc = i ∧ i < program.size ∧ rest = program.toList.drop (i + 1) := by
  obtain ⟨i, hpc, hdrop⟩ := h.counter
  rw [hremaining] at hdrop
  refine ⟨i, hpc, ?_, ?_⟩
  · rw [← Array.length_toList]
    by_contra hle
    rw [List.drop_eq_nil_of_le (Nat.not_lt.mp hle)] at hdrop
    cases hdrop
  · rw [← List.tail_drop, ← hdrop, List.tail_cons]

theorem Follows.resolve_eq (h : Follows program m k) (v : Operand) :
    m.resolve v = Continuation.resolve k.bindings v := by
  rw [← h.bindings_eq]
  cases v <;> rfl

/-- A label is unknown to both, or leads both to the same place. -/
theorem Follows.target_cases (h : Follows program m k) (label : Bytes) :
    (m.target label = .error (.labelNotFound label) ∧
      Continuation.landing program.toList label = .error (.labelNotFound label)) ∨
    ∃ i, m.target label = .ok i ∧ i < program.size ∧
      Continuation.landing program.toList label = .ok (program.toList.drop (i + 1)) := by
  rw [target, h.labels_eq, Continuation.landing, Continuation.after?_eq_map_lastLabel?]
  cases hlast : lastLabel? label program.toList with
  | none => exact Or.inl ⟨rfl, rfl⟩
  | some i =>
      have hlt := lt_length_of_lastLabel? hlast
      rw [Array.length_toList] at hlt
      exact Or.inr ⟨i, rfl, hlt, rfl⟩

/-- Counting steps and taking notes make no difference. -/
theorem Follows.noted (h : Follows program m k) (n : Nat) (e : Event) :
    Follows program ({ m with steps := n }.note e) k :=
  ⟨h.program_eq, h.size_lt, h.labels_eq, h.bindings_eq, h.counter, h.calls_lt, h.saved_eq,
    h.unpaused⟩

/-- Moving on from the index `i` leads to what follows it, in the program as in the
continuation. -/
theorem Follows.moved {m' : Machine ν} {k' : Continuation} (h : Follows program m k) {i : Nat}
    (hi : i < program.size) (hprogram : m'.program = m.program) (hlabels : m'.labels = m.labels)
    (hpause : m'.pauseRequested = m.pauseRequested) (hpc : m'.pc = i)
    (hbindings : m'.bindings = k'.bindings)
    (hremaining : k'.remaining = program.toList.drop (i + 1))
    (hcalls : ∀ j ∈ m'.calls, j < program.size)
    (hsaved : k'.saved = m'.calls.map fun j => program.toList.drop (j + 1)) :
    Follows program { m' with pc := following m'.pc } k' where
  program_eq := hprogram.trans h.program_eq
  size_lt := h.size_lt
  labels_eq label := by rw [hlabels]; exact h.labels_eq label
  bindings_eq := hbindings
  counter := by
    have hsize := h.size_lt
    exact ⟨i + 1, by rw [hpc, following_of_lt (by omega)], hremaining⟩
  calls_lt := hcalls
  saved_eq := hsaved
  unpaused := hpause.trans h.unpaused

theorem Follows.fallen (h : Follows program m k) {s : Statement} {rest : List Statement}
    (hremaining : k.remaining = s :: rest) :
    Follows program { m with pc := following m.pc } { k with remaining := rest } := by
  obtain ⟨i, hpc, hi, hrest⟩ := h.exists_index hremaining
  exact h.moved hi rfl rfl rfl hpc h.bindings_eq hrest h.calls_lt h.saved_eq

theorem Follows.assigned (h : Follows program m k) {s : Statement} {rest : List Statement}
    (hremaining : k.remaining = s :: rest) (name : Bytes) (x : Value) :
    Follows program { m.assign name x with pc := following m.pc }
      { k with remaining := rest, bindings := k.bindings.insert name x } := by
  obtain ⟨i, hpc, hi, hrest⟩ := h.exists_index hremaining
  have hbindings : m.bindings.insert name x = k.bindings.insert name x := by
    rw [h.bindings_eq]
  exact h.moved hi rfl rfl rfl hpc hbindings hrest h.calls_lt h.saved_eq

theorem Follows.jumped (h : Follows program m k) {i : Nat} (hi : i < program.size) :
    Follows program { m with pc := following i }
      { k with remaining := program.toList.drop (i + 1) } := by
  change Follows program { { m with pc := (i : Int) } with pc := following i } _
  exact h.moved hi rfl rfl rfl rfl h.bindings_eq rfl h.calls_lt h.saved_eq

/-- A change of the machine and one of the continuation fail alike, or lead to the same place once
the program counter has moved on. -/
inductive Agree (program : Array Statement) :
    Except Fault (Machine ν) → Except Fault Continuation → Prop where
  | ok {m : Machine ν} {k : Continuation}
      (h : Follows program { m with pc := following m.pc } k) : Agree program (.ok m) (.ok k)
  | error (f : Fault) : Agree program (.error f) (.error f)

theorem Agree.bind {α : Type} (x : Except Fault α) {f : α → Except Fault (Machine ν)}
    {g : α → Except Fault Continuation} (hfg : ∀ a, Agree program (f a) (g a)) :
    Agree program (x >>= f) (x >>= g) := by
  cases x with
  | ok a => exact hfg a
  | error f => exact Agree.error f

/-- A jump leads the machine onto a label and the continuation after it. -/
theorem Follows.agree_jump (h : Follows program m k) (label : Bytes) :
    Agree program (m.jump label) (do
      let suffix ← Continuation.landing program.toList label
      return { k with remaining := suffix }) := by
  rcases h.target_cases label with ⟨htarget, hlanding⟩ | ⟨i, htarget, hi, hlanding⟩
  · rw [jump, htarget, hlanding]
    exact Agree.error _
  · rw [jump, htarget, hlanding]
    exact Agree.ok (h.jumped hi)

theorem Follows.agree_callLabel (h : Follows program m k) {s : Statement}
    {rest : List Statement} (hremaining : k.remaining = s :: rest) (label : Bytes) :
    Agree program (do
      let i ← m.target label
      let calls := m.pc.toNat :: m.calls
      return ({ m with calls, pc := (i : Int) }).note (.call calls label)) (do
      let suffix ← Continuation.landing program.toList label
      return { k with remaining := suffix, saved := rest :: k.saved }) := by
  obtain ⟨j, hpc, hj, hrest⟩ := h.exists_index hremaining
  rcases h.target_cases label with ⟨htarget, hlanding⟩ | ⟨i, htarget, hi, hlanding⟩
  · rw [htarget, hlanding]
    exact Agree.error _
  · rw [htarget, hlanding]
    refine Agree.ok (h.moved hi rfl rfl rfl rfl h.bindings_eq rfl ?_ ?_)
    · intro i' hi'
      rcases List.mem_cons.mp hi' with rfl | hi'
      · rw [hpc, Int.toNat_natCast]
        exact hj
      · exact h.calls_lt i' hi'
    · change rest :: k.saved
        = program.toList.drop (m.pc.toNat + 1) :: m.calls.map fun i => program.toList.drop (i + 1)
      rw [hpc, Int.toNat_natCast, ← hrest, h.saved_eq]

/-- An action that calls no native function does to a machine what it does to the continuation. -/
theorem exec_agree (host : Host ν) (h : Follows program m k) {s : Statement}
    {rest : List Statement} (hremaining : k.remaining = s :: rest) {a : Action}
    (ha : a.isNative = false) :
    ∃ x, m.exec host a = m.changed x ∧ Agree program x (k.step program.toList rest a) := by
  cases a with
  | assign name v =>
      refine ⟨_, rfl, ?_⟩
      rw [Continuation.step, h.resolve_eq]
      apply Agree.bind
      intro x
      exact Agree.ok (h.assigned hremaining name x)
  | compute name op l r =>
      refine ⟨_, rfl, ?_⟩
      rw [Continuation.step, h.resolve_eq, h.resolve_eq]
      apply Agree.bind
      intro a
      apply Agree.bind
      intro b
      apply Agree.bind
      intro x
      exact Agree.ok (h.assigned hremaining name x)
  | assignCall name target args => cases ha
  | call target args => cases ha
  | label name => exact ⟨.ok m, rfl, Agree.ok (h.fallen hremaining)⟩
  | goto label => exact ⟨_, rfl, h.agree_jump label⟩
  | gotoIf label op l r =>
      refine ⟨_, rfl, ?_⟩
      rw [Continuation.step, h.resolve_eq, h.resolve_eq]
      apply Agree.bind
      intro a
      apply Agree.bind
      intro b
      apply Agree.bind
      intro taken
      cases taken with
      | true => exact h.agree_jump label
      | false => exact Agree.ok (h.fallen hremaining)
  | callLabel label => exact ⟨_, rfl, h.agree_callLabel hremaining label⟩
  | ret =>
      rw [exec, Continuation.step, h.saved_eq]
      cases hcalls : m.calls with
      | nil => exact ⟨.error .emptyCallStack, rfl, Agree.error _⟩
      | cons i calls =>
          have hmem : ∀ j ∈ i :: calls, j < program.size := hcalls ▸ h.calls_lt
          refine ⟨.ok (({ m with calls, pc := (i : Int) }).note (.ret calls (i + 1))), rfl, ?_⟩
          exact Agree.ok (h.moved (hmem i List.mem_cons_self) rfl rfl rfl rfl h.bindings_eq rfl
            (fun j hj => hmem j (List.mem_cons_of_mem i hj)) rfl)

/-- One step: both go on to the same place, or both fail with the same fault and stay. -/
theorem step_follows (host : Host ν) (h : Follows program m k) {s : Statement}
    {rest : List Statement} (hremaining : k.remaining = s :: rest)
    (hs : s.action.isNative = false) :
    match k.step program.toList rest s.action with
    | .ok k' => ∃ m', m.step host s = (m', .ok ()) ∧ Follows program m' k'
    | .error f => ∃ m', m.step host s = (m', .error (anchor s (.fault f))) ∧
        Follows program m' k := by
  have hnoted := h.noted (m.steps + 1) (.step m.pc s)
  obtain ⟨x, hexec, hagree⟩ := exec_agree host hnoted hremaining hs
  rw [step, hexec]
  generalize k.step program.toList rest s.action = r at hagree
  cases hagree with
  | ok hmoved => exact ⟨_, rfl, hmoved⟩
  | error f => exact ⟨_, rfl, hnoted⟩

theorem mem_of_remaining (h : Follows program m k) {s : Statement} {rest : List Statement}
    (hremaining : k.remaining = s :: rest) : s ∈ program := by
  obtain ⟨i, -, hdrop⟩ := h.counter
  rw [Array.mem_def]
  apply List.mem_of_mem_drop
  rw [← hdrop, hremaining]
  exact List.mem_cons_self

/-- A whole run: after any number of steps both are at the same place, and both are over or
neither is. -/
theorem turns_follow (host : Host ν) (hook : Option (Hook σ ν))
    (hnative : ∀ s ∈ program, s.action.isNative = false) (h : Follows program m k) (n : Nat)
    (c : σ) :
    ∃ m', m.turns host hook 0 n c
        = ((m', c), (Continuation.run program.toList n k).2.outcome) ∧
      Follows program m' (Continuation.run program.toList n k).1 := by
  induction n generalizing m k with
  | zero =>
      rw [turns, h.current?_eq, Continuation.run]
      cases hremaining : k.remaining with
      | nil => exact ⟨m, rfl, h⟩
      | cons s rest => exact ⟨m, rfl, h⟩
  | succ n ih =>
      rw [turns, h.current?_eq, Continuation.run]
      cases hremaining : k.remaining with
      | nil => exact ⟨m, rfl, h⟩
      | cons s rest =>
          have hs := hnative s (mem_of_remaining h hremaining)
          have hstep := step_follows host h hremaining hs
          have hgas : m.exhausted 0 = false := rfl
          cases hk : k.step program.toList rest s.action with
          | ok k' =>
              rw [hk] at hstep
              obtain ⟨m', hm', hfollows⟩ := hstep
              have hturn : m.turn host hook 0 s c = ((m', c), .ok ()) := by
                rw [turn, hgas, hm']
                simp [pause, hfollows.unpaused]
              simp only [List.head?_cons, hturn, hk]
              exact ih hfollows
          | error f =>
              rw [hk] at hstep
              obtain ⟨m', hm', hfollows⟩ := hstep
              have hturn : m.turn host hook 0 s c
                  = ((m', c), .error (anchor s (.fault f))) := by
                rw [turn, hgas, hm']
                rfl
              simp only [List.head?_cons, hturn, hk]
              exact ⟨m', rfl, hfollows⟩

/-- A machine that has been given a program and variables and has not run. -/
structure Fresh (m : Machine ν) : Prop where
  state_eq : m.state = .ready
  labels_eq : m.labels = []
  pc_eq : m.pc = 0
  calls_eq : m.calls = []
  unpaused : m.pauseRequested = false

/-- A fresh machine starts where the whole program is left to do. -/
theorem follows_start (host : Host ν) (hfresh : m.Fresh)
    (hsize : m.program.size < 0x8000000000000000) :
    Follows m.program (m.start host) ⟨m.program.toList, m.bindings, []⟩ where
  program_eq := rfl
  size_lt := hsize
  labels_eq := get?_labels_start host hfresh.labels_eq
  bindings_eq := rfl
  counter := ⟨0, hfresh.pc_eq, rfl⟩
  calls_lt i hi := by
    have hnone : i ∈ m.calls := hi
    rw [hfresh.calls_eq] at hnone
    cases hnone
  saved_eq := by
    change [] = m.calls.map _
    rw [hfresh.calls_eq]
    rfl
  unpaused := hfresh.unpaused

/-- A run without gas limit of a program that calls no native function keeps pace with the
continuation machine: after every number of steps the variables, the statements still to be
executed and the pending calls are the same, and both are running, or both have finished, or both
have failed at the same statement for the same reason.  The bound on the length says that it is a
signed 64-bit word. -/
theorem run_follows_continuation (host : Host ν) (hook : Option (Hook σ ν)) (m : Machine ν)
    (c : σ) (hfresh : m.Fresh) (hsize : m.program.size < 0x8000000000000000)
    (hnative : ∀ s ∈ m.program, s.action.isNative = false) (n : Nat) :
    let after := m.run host hook 0 n c
    let expected := Continuation.run m.program.toList n ⟨m.program.toList, m.bindings, []⟩
    after.1.1.bindings = expected.1.bindings ∧
    after.1.1.remaining = expected.1.remaining ∧
    after.1.1.calls.map (fun i => m.program.toList.drop (i + 1)) = expected.1.saved ∧
    after.2 = expected.2.outcome := by
  intro after expected
  obtain ⟨m', hturns, hfollows⟩ :=
    turns_follow host hook hnative (follows_start host hfresh hsize) n c
  have hrun : after = ((m'.halt expected.2.outcome, c), expected.2.outcome) := by
    change m.run host hook 0 n c = _
    rw [run, if_pos hfresh.state_eq, hturns]
  have hhalt : (m'.halt expected.2.outcome).bindings = m'.bindings ∧
      (m'.halt expected.2.outcome).remaining = m'.remaining ∧
      (m'.halt expected.2.outcome).calls = m'.calls := by
    rw [halt]
    split
    · exact ⟨rfl, rfl, rfl⟩
    · exact ⟨rfl, rfl, rfl⟩
  obtain ⟨hbindings, hremaining, hcalls⟩ := hhalt
  rw [hrun, hbindings, hremaining, hcalls]
  exact ⟨hfollows.bindings_eq, hfollows.remaining_eq, hfollows.saved_eq.symm, rfl⟩

def atLine (line : Nat) (a : Action) : Statement :=
  ⟨⟨.endOfFile, line, 1, 0, 0, [], []⟩, 0, a, []⟩

/-- A label with two definitions, called before the first. -/
def twiceDefined : Array Statement :=
  #[atLine 1 (.callLabel (text "f")), atLine 2 (.label (text "f")),
    atLine 3 (.assign (text "x") (.int 1)), atLine 4 (.label (text "f")), atLine 5 .ret]

/-- The call goes to the second definition and returns at once; the return is then met again,
without a call. -/
theorem run_follows_continuation_twiceDefined :
    let m : Machine Unit := { program := twiceDefined }
    let after := m.run ⟨fun _ _ _ _ m => (m, .ok .void), ()⟩
      (none : Option (Hook Unit Unit)) 0 6 ()
    after.1.1.bindings = [(text "x", .int 1)] ∧ after.1.1.remaining = [atLine 5 .ret] ∧
    after.2 = .failed (anchor (atLine 5 .ret) (.fault .emptyCallStack)) := by
  have hexpected : Continuation.run twiceDefined.toList 6 ⟨twiceDefined.toList, [], []⟩
      = (⟨[atLine 5 .ret], [(text "x", .int 1)], []⟩,
          .failed (atLine 5 .ret) .emptyCallStack) := rfl
  have h := run_follows_continuation ⟨fun _ _ _ _ m => (m, .ok .void), ()⟩
    (none : Option (Hook Unit Unit)) { program := twiceDefined } () ⟨rfl, rfl, rfl, rfl, rfl⟩
    (by decide) (by decide) 6
  rw [hexpected] at h
  exact ⟨h.1, h.2.1, h.2.2.2⟩

end Machine

end JumpScript
