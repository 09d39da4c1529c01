import JumpScript.Library.Native
import JumpScript.Proofs.Outcomes

/-!
# What native functions leave alone

A native function sees the whole machine and writes to parts of it.  The frame of a machine holds
the others: the program, the labels, the pending calls, the known functions, the arguments of the
script, the life of the machine and the number of steps.  No function of the library changes the
frame, however it ends, and a function that calls others changes it no more than these do.
-/

namespace JumpScript

/-- The parts of a machine that native functions only read. -/
structure Frame (ν : Type) where
  program : Array Statement
  labels : Table Nat
  calls : List Nat
  natives : Table ν
  arguments : List Bytes
  state : RunState
  steps : Nat

variable {ν : Type}

def Machine.frame (m : Machine ν) : Frame ν :=
  ⟨m.program, m.labels, m.calls, m.natives, m.arguments, m.state, m.steps⟩

/-- A way to call native functions that changes no frame. -/
def Caller.Framed (caller : Caller ν) : Prop :=
  ∀ target names args m, (caller target names args m).1.frame = m.frame

/-- A host whose functions change no frame if the functions that they call do not. -/
def Host.Framed (host : Host ν) : Prop :=
  ∀ caller, Caller.Framed caller → ∀ f names args m,
    (host.run caller f names args m).1.frame = m.frame

theorem Machine.frame_jump (m : Machine ν) (label : Bytes) :
    Ensures (m.jump label) fun m' => m'.frame = m.frame := by
  rw [Machine.jump]
  cases m.target label with
  | ok i => exact Ensures.ok rfl
  | error e => exact Ensures.error e

theorem LoopFunction.frame_run (f : LoopFunction) (m : Machine ν) (args : List Value) :
    Ensures (f.run m args) fun r => r.1.frame = m.frame := by
  cases f with
  | iterate =>
      apply Ensures.bind
      rintro ⟨a, b, c⟩
      apply Ensures.bind
      intro name
      apply Ensures.bind
      intro first
      apply Ensures.bind
      intro limit
      split
      · exact Ensures.error _
      · exact Ensures.ok rfl
  | next =>
      apply Ensures.bind
      intro a
      apply Ensures.bind
      intro name
      split
      · split
        · exact Ensures.error _
        · split
          · exact Ensures.ok rfl
          · exact Ensures.ok rfl
      · exact Ensures.error _

theorem RuntimeFunction.frame_run (f : RuntimeFunction) (m : Machine ν) (args : List Value) :
    Ensures (f.run m args) fun r => r.1.frame = m.frame := by
  cases f with
  | gotoLabel =>
      apply Ensures.bind
      intro a
      apply Ensures.bind
      intro label r hr
      cases hjump : m.jump label with
      | error e =>
          rw [hjump] at hr
          cases hr
      | ok m' =>
          rw [hjump] at hr
          obtain rfl := Except.ok.inj hr
          exact m.frame_jump label m' hjump
  | breakpoint =>
      apply Ensures.bind
      intro a
      exact Ensures.ok rfl

theorem StackFunction.frame_run (f : StackFunction) (m : Machine ν) (args : List Value) :
    Ensures (f.run m args) fun r => r.1.frame = m.frame := by
  cases f with
  | push =>
      apply Ensures.bind
      intro v
      exact Ensures.ok rfl
  | pop =>
      apply Ensures.bind
      intro a
      rw [Machine.pop]
      split
      · exact Ensures.error _
      · exact Ensures.ok rfl
  | length =>
      apply Ensures.bind
      intro a
      exact Ensures.ok rfl

theorem EnvironmentFunction.frame_run (f : EnvironmentFunction) (m : Machine ν)
    (args : List Value) : Ensures (f.run m args) fun r => r.1.frame = m.frame := by
  cases f with
  | get =>
      apply Ensures.bind
      intro a
      apply Ensures.bind
      intro name
      exact Ensures.ok rfl
  | arguments =>
      apply Ensures.bind
      intro a
      exact Ensures.ok rfl

theorem StreamFunction.frame_run (f : StreamFunction) (m : Machine ν) (args : List Value) :
    Ensures (f.run m args) fun r => r.1.frame = m.frame := by
  -- every function on streams takes its arguments apart and then succeeds
  cases f
  all_goals
    apply Ensures.bind
    intro a
    exact Ensures.ok rfl

namespace Native

variable {caller : Caller ν}

theorem frame_onMachine {m : Machine ν} {r : Except Fault (Machine ν × Value)}
    (h : Ensures r fun r => r.1.frame = m.frame) : (onMachine m r).1.frame = m.frame := by
  cases r with
  | ok p => exact h p rfl
  | error e => rfl

theorem frame_storeBack (m : Machine ν) (names : List Bytes) (args : List Value) :
    (storeBack m names args).frame = m.frame := by
  rw [storeBack.eq_def]
  split
  · split
    · rfl
    · rfl
  · rfl

theorem frame_runArray (f : ArrayFunction) (names : List Bytes) (args : List Value)
    (m : Machine ν) : (runArray f names args m).1.frame = m.frame := by
  have hheap : (onHeap m (f.run args)).1.frame = m.frame := rfl
  rw [runArray]
  split
  · rename_i m' v heq
    rw [heq] at hheap
    split
    · rw [frame_storeBack, hheap]
    · exact hheap
  · rename_i m' e heq
    rw [heq] at hheap
    exact hheap

/-- What each call preserves, calls one after another preserve, whether or not one of them fails. -/
theorem callEach_preserves {P : Machine ν → Prop} {m : Machine ν} (caller : Caller ν)
    (target : CallTarget) (collect : Bool) (vs : List Value)
    (hcall : ∀ v ∈ vs, ∀ m, P m → P (caller target [[]] [v] m).1) (h : P m) :
    P (callEach caller target collect vs m).1 := by
  induction vs generalizing m with
  | nil => exact h
  | cons v vs ih =>
      have hfirst := hcall v List.mem_cons_self m h
      rw [callEach]
      split
      · rename_i m' e heq
        rw [heq] at hfirst
        exact hfirst
      · rename_i m' r heq
        rw [heq] at hfirst
        split
        · exact hfirst
        · have hrest := ih (fun w hw => hcall w (List.mem_cons_of_mem v hw)) hfirst
          split
          · rename_i heq'
            rw [heq'] at hrest
            exact hrest
          · rename_i heq'
            rw [heq'] at hrest
            exact hrest

theorem frame_callEach (hcaller : Caller.Framed caller) (target : CallTarget) (collect : Bool)
    (vs : List Value) (m : Machine ν) :
    (callEach caller target collect vs m).1.frame = m.frame := by
  apply callEach_preserves (P := fun k => k.frame = m.frame) caller target collect vs _ rfl
  intro v _ k hk
  rw [hcaller target [[]] [v] k, hk]

theorem frame_runMap (hcaller : Caller.Framed caller) (collect : Bool) (args : List Value)
    (m : Machine ν) : (runMap caller collect args m).1.frame = m.frame := by
  rw [runMap]
  split
  · rfl
  · rename_i target items hmapping
    have heach := frame_callEach hcaller target collect items m
    split
    · rename_i heq
      rw [heq] at heach
      exact heach
    · rename_i m' results heq
      rw [heq] at heach
      split
      · exact heach
      · exact heach

theorem frame_runExit (args : List Value) (m : Machine ν) :
    (runExit args m).1.frame = m.frame := by
  rw [runExit]
  split
  · rfl
  · rfl

theorem runDebug_of_quotingEnds {args : List Value} {m : Machine ν}
    (h : args.all m.heap.quotingEnds = true) :
    runDebug args m
      = (m.print (Heap.bracketed (args.map m.heap.quoted) ++ [0x0A]), .ok .void) :=
  if_pos h

theorem runDebug_endless {args : List Value} {m : Machine ν}
    (h : ¬ args.all m.heap.quotingEnds = true) :
    runDebug args m = (m, .error (.fault .endless)) :=
  if_neg h

/-- Showing values prints a text, unless the text never ends. -/
theorem runDebug_cases (args : List Value) (m : Machine ν) :
    (∃ s, runDebug args m = (m.print s, .ok .void)) ∨
      runDebug args m = (m, .error (.fault .endless)) := by
  by_cases h : args.all m.heap.quotingEnds = true
  · exact Or.inl ⟨_, runDebug_of_quotingEnds h⟩
  · exact Or.inr (runDebug_endless h)

theorem runDebug_eq_error {args : List Value} {m m' : Machine ν} {e : Failure}
    (h : runDebug args m = (m', .error e)) : m' = m ∧ e = .fault .endless := by
  obtain ⟨s, hrun⟩ | hrun := runDebug_cases args m
  · cases (Prod.mk.inj (hrun.symm.trans h)).2
  · obtain ⟨hm, he⟩ := Prod.mk.inj (hrun.symm.trans h)
    exact ⟨hm.symm, (Except.error.inj he).symm⟩

theorem frame_runDebug (args : List Value) (m : Machine ν) :
    (runDebug args m).1.frame = m.frame := by
  obtain ⟨s, hrun⟩ | hrun := runDebug_cases args m
  · rw [hrun]
    rfl
  · rw [hrun]

/-- No function of the library changes the frame. -/
theorem framed_host : Native.host.Framed := by
  intro caller hcaller f names args m
  change (run caller f names args m).1.frame = m.frame
  cases f with
  | array f => exact frame_runArray f names args m
  | conversion f => rfl
  | environment f => exact frame_onMachine (f.frame_run m args)
  | file fence f => rfl
  | fetch fence => rfl
  | stream f => exact frame_onMachine (f.frame_run m args)
  | loop f => exact frame_onMachine (f.frame_run m args)
  | document f => rfl
  | math f => rfl
  | exit => exact frame_runExit args m
  | runtime f => exact frame_onMachine (f.frame_run m args)
  | stack f => exact frame_onMachine (f.frame_run m args)
  | map collect => exact frame_runMap hcaller collect args m
  | string f => rfl
  | assertEqual => rfl
  | debug => exact frame_runDebug args m

end Native

namespace Machine

variable {host : Host ν}

theorem noteFailure_eq (m : Machine ν) (key : Bytes) (e : Failure) :
    m.noteFailure key e = { m with journal := (m.noteFailure key e).journal } := by
  unfold noteFailure
  split
  · rfl
  · rfl
  · rfl

theorem frame_noteFailure (m : Machine ν) (key : Bytes) (e : Failure) :
    (m.noteFailure key e).frame = m.frame := by
  rw [noteFailure_eq]
  rfl

theorem framed_dispatch (hhost : host.Framed) {inner : Caller ν} (hinner : Caller.Framed inner) :
    Caller.Framed (dispatch host inner) := by
  intro target names args m
  rw [dispatch]
  split
  · rfl
  · rename_i f hf
    have hrun := hhost inner hinner f names args m
    split
    · rename_i heq
      rw [heq] at hrun
      exact hrun
    · rename_i m' e heq
      rw [heq] at hrun
      rw [frame_noteFailure, hrun]

theorem framed_callWithin (hhost : host.Framed) (depth : Nat) :
    Caller.Framed (callWithin host depth) := by
  induction depth with
  | zero =>
      apply framed_dispatch hhost
      intro target names args m
      rfl
  | succ depth ih => exact framed_dispatch hhost ih

theorem frame_callSite (hhost : host.Framed) (m : Machine ν) (target : CallTarget)
    (args : List Operand) : (m.callSite host target args).1.frame = m.frame := by
  rw [callSite]
  split
  · rfl
  · exact framed_callWithin hhost 1 target _ _ m

end Machine

end JumpScript
