import JumpScript.Library.Registry
import JumpScript.Proofs.Machine.Control
import JumpScript.Proofs.Value.Footprint

/-!
# The signature of native functions

Each native function writes to few parts of a machine.  `Native.writes` lists them, and an array
function that works in place also writes to the array that it is given first.  A call that succeeds
has changed nothing else: an array that is stored back is stored where it came from.

Mapping changes what its calls change.  Which function it calls is settled when it begins, since no
call changes the known functions, and so is the list of elements that it calls it with.

The functions that make an array give one that was not there before.
-/

namespace JumpScript

variable {ν : Type} {m m' m'' : Machine ν} {names : List Bytes} {args : List Value} {v : Value}

/-- The parts of a machine that native functions write to, apart from arrays. -/
inductive Part where
  | bindings
  | counter
  | operands
  | pause
  | input
  | output
  | files
  deriving DecidableEq, Repr

/-- Two machines agree in a part. -/
def Part.Same (p : Part) (m m' : Machine ν) : Prop :=
  match p with
  | .bindings => m'.bindings = m.bindings
  | .counter => m'.pc = m.pc
  | .operands => m'.operands = m.operands
  | .pause => m'.pauseRequested = m.pauseRequested
  | .input => m'.input = m.input
  | .output => m'.output = m.output
  | .files => m'.world = m.world

theorem Part.Same.refl (p : Part) (m : Machine ν) : p.Same m m := by
  cases p <;> rfl

theorem Part.Same.trans {p : Part} (h : p.Same m m') (h' : p.Same m' m'') : p.Same m m'' := by
  cases p <;> exact Eq.trans h' h

/-- The arguments of a call with the variables that they come from: operands with their values, or
an element of an array that is mapped. -/
def Machine.Given (m : Machine ν) (names : List Bytes) (args : List Value) : Prop :=
  (∃ operands : List Operand, names = operands.map argumentName ∧
      operands.mapM m.resolve = .ok args) ∨
    names = [[]] ∧ ∃ v, args = [v]

theorem Machine.Given.lookup {name : Bytes} (h : m.Given (name :: names) (v :: args))
    (hname : name ≠ []) : m.lookup name = some v := by
  rcases h with ⟨operands, hnames, hargs⟩ | ⟨hnames, -⟩
  · cases operands with
    | nil => cases hnames
    | cons o rest =>
        obtain ⟨rfl, rfl⟩ := List.cons.inj hnames
        rw [List.mapM_cons] at hargs
        obtain ⟨w, hw, hargs⟩ := bind_eq_ok_iff.mp hargs
        obtain ⟨ws, -, hargs⟩ := bind_eq_ok_iff.mp hargs
        obtain ⟨rfl, -⟩ := List.cons.inj (Except.ok.inj hargs)
        match o with
        | .variable name =>
            rw [resolve] at hw
            split at hw
            · rename_i w hlookup
              obtain rfl := Except.ok.inj hw
              exact hlookup
            · cases hw
        | .bool _ | .int _ | .float _ | .str _ => exact absurd rfl hname
  · exact absurd (List.cons.inj hnames).1 hname

namespace Native

/-- The parts that a function writes to.  Mapping writes to none by itself. -/
def writes : Native → List Part
  | .file _ .write => [.files]
  | .stream .print | .stream .printLine | .stream .printFormat | .debug => [.output]
  | .stream .read | .stream .readLine => [.input]
  | .loop .iterate => [.bindings]
  | .loop .next => [.bindings, .counter]
  | .runtime .gotoLabel => [.counter]
  | .runtime .breakpoint => [.pause]
  | .stack .push | .stack .pop => [.operands]
  | _ => []

/-- A function with its arguments. -/
structure Application where
  function : Native
  arguments : List Value

/-- The arrays that an application may write to. -/
def Application.written (a : Application) : Set Handle :=
  match a.function with
  | .array f => f.written a.arguments
  | _ => ∅

/-- The applications that a call comes down to: that of the function itself, and for mapping those
of the function that is mapped to each of the elements. -/
def applications (m : Machine Native) (f : Native) (args : List Value) : List Application :=
  match f with
  | .map _ =>
    match mapping m.heap args with
    | .error _ => []
    | .ok (target, items) =>
      (m.natives.get? target.key).toList.flatMap fun g => items.map fun v => ⟨g, [v]⟩
  | f => [⟨f, args⟩]

/-- The most that some applications change: arrays that one of them may write to, and parts that a
function of one of them writes to. -/
structure Altered (as : List Application) (m m' : Machine ν) : Prop where
  frame : m'.frame = m.frame
  journal : m'.journal = m.journal
  arrays : Heap.SameOutside {h | ∃ a ∈ as, h ∈ a.written} m.heap m'.heap
  parts : ∀ p, (∀ a ∈ as, p ∉ a.function.writes) → p.Same m m'

section Altering

variable {as bs : List Application} {f : Native}

theorem Altered.refl (as : List Application) (m : Machine ν) : Altered as m m where
  frame := rfl
  journal := rfl
  arrays := .refl _ m.heap
  parts p _ := .refl p m

theorem Altered.trans (h : Altered as m m') (h' : Altered bs m' m'') :
    Altered (as ++ bs) m m'' where
  frame := h'.frame.trans h.frame
  journal := h'.journal.trans h.journal
  arrays := by
    apply (h.arrays.mono _).trans (h'.arrays.mono _)
    · rintro k ⟨a, ha, hk⟩
      exact ⟨a, List.mem_append_left bs ha, hk⟩
    · rintro k ⟨a, ha, hk⟩
      exact ⟨a, List.mem_append_right as ha, hk⟩
  parts p hp := by
    have hfirst := h.parts p fun a ha => hp a (List.mem_append_left bs ha)
    exact hfirst.trans (h'.parts p fun a ha => hp a (List.mem_append_right as ha))

theorem altered_of_parts (hframe : m'.frame = m.frame) (hjournal : m'.journal = m.journal)
    (hheap : m'.heap = m.heap) (hparts : ∀ p, p ∉ f.writes → p.Same m m') :
    Altered [⟨f, args⟩] m m' where
  frame := hframe
  journal := hjournal
  arrays := by
    rw [hheap]
    exact .refl _ m.heap
  parts p hp := hparts p (hp _ (List.mem_singleton_self _))

theorem altered_of_heap {τ : Heap}
    (h : Heap.SameOutside (Application.mk f args).written m.heap τ) :
    Altered [⟨f, args⟩] m { m with heap := τ } where
  frame := rfl
  journal := rfl
  arrays := h.mono fun _ hk => ⟨_, List.mem_singleton_self _, hk⟩
  parts p _ := by cases p <;> rfl

theorem Altered.alloc (h : Altered as m m') (items : Array Value) :
    Altered as m { m' with heap := (m'.heap.alloc items).1 } where
  frame := h.frame
  journal := h.journal
  arrays := h.arrays.trans (Heap.sameOutside_alloc _ m'.heap items)
  parts p hp := by
    have hsame := h.parts p hp
    cases p <;> exact hsame

/-! ### Functions that get the machine -/

theorem altered_stream (g : StreamFunction) :
    Ensures (g.run m args) fun r => Altered [⟨.stream g, args⟩] m r.1 := by
  cases g with
  | print | printLine | printFormat =>
      apply Ensures.bind
      intro a
      apply Ensures.ok
      refine altered_of_parts rfl rfl rfl ?_
      intro p hp
      cases p with
      | output => simp [writes] at hp
      | _ => rfl
  | «show» | showFormat =>
      apply Ensures.bind
      intro a
      exact Ensures.ok (.refl _ m)
  | read | readLine =>
      apply Ensures.bind
      intro a
      apply Ensures.ok
      refine altered_of_parts rfl rfl rfl ?_
      intro p hp
      cases p with
      | input => simp [writes] at hp
      | _ => rfl

theorem altered_loop (g : LoopFunction) :
    Ensures (g.run m args) fun r => Altered [⟨.loop g, args⟩] m r.1 := by
  cases g with
  | iterate =>
      apply Ensures.bind
      rintro ⟨a, b, c⟩
      apply Ensures.bind
      intro name
      apply Ensures.bind
      intro first
      apply Ensures.bind
      intro limit
      split
      · exact Ensures.error _
      · apply Ensures.ok
        refine altered_of_parts rfl rfl rfl ?_
        intro p hp
        cases p with
        | bindings => simp [writes] at hp
        | _ => rfl
  | next =>
      apply Ensures.bind
      intro a
      apply Ensures.bind
      intro name
      split
      · split
        · exact Ensures.error _
        · split
          all_goals
            apply Ensures.ok
            refine altered_of_parts rfl rfl rfl ?_
            intro p hp
            cases p with
            | bindings | counter => simp [writes] at hp
            | _ => rfl
      · exact Ensures.error _

theorem altered_runtime (g : RuntimeFunction) :
    Ensures (g.run m args) fun r => Altered [⟨.runtime g, args⟩] m r.1 := by
  cases g with
  | gotoLabel =>
      apply Ensures.bind
      intro a
      apply Ensures.bind
      intro label
      rw [Machine.jump]
      cases m.target label with
      | error e => exact Ensures.error e
      | ok i =>
          apply Ensures.ok
          refine altered_of_parts rfl rfl rfl ?_
          intro p hp
          cases p with
          | counter => simp [writes] at hp
          | _ => rfl
  | breakpoint =>
      apply Ensures.bind
      intro a
      apply Ensures.ok
      refine altered_of_parts rfl rfl rfl ?_
      intro p hp
      cases p with
      | pause => simp [writes] at hp
      | _ => rfl

theorem altered_stack (g : StackFunction) :
    Ensures (g.run m args) fun r => Altered [⟨.stack g, args⟩] m r.1 := by
  cases g with
  | push =>
      apply Ensures.bind
      intro a
      apply Ensures.ok
      refine altered_of_parts rfl rfl rfl ?_
      intro p hp
      cases p with
      | operands => simp [writes] at hp
      | _ => rfl
  | pop =>
      apply Ensures.bind
      intro a
      rw [Machine.pop]
      split
      · exact Ensures.error _
      · apply Ensures.ok
        refine altered_of_parts rfl rfl rfl ?_
        intro p hp
        cases p with
        | operands => simp [writes] at hp
        | _ => rfl
  | length =>
      apply Ensures.bind
      intro a
      exact Ensures.ok (.refl _ m)

theorem altered_environment (g : EnvironmentFunction) :
    Ensures (g.run m args) fun r => Altered [⟨.environment g, args⟩] m r.1 := by
  cases g with
  | get =>
      apply Ensures.bind
      intro a
      apply Ensures.bind
      intro name
      exact Ensures.ok (.refl _ m)
  | arguments =>
      apply Ensures.bind
      intro a
      exact Ensures.ok (altered_of_heap (Heap.sameOutside_alloc _ m.heap _))

/-! ### All functions -/

theorem onMachine_eq_ok {r : Except Fault (Machine ν × Value)}
    (h : onMachine m r = (m', .ok v)) : r = .ok (m', v) := by
  cases r with
  | error e => cases (Prod.mk.inj h).2
  | ok y =>
      obtain ⟨hm, hv⟩ := Prod.mk.inj h
      rw [← hm, ← Except.ok.inj hv]

/-- Storing an array back where it came from changes nothing. -/
theorem storeBack_eq_self (h : m.Given names args) {τ : Heap} :
    storeBack { m with heap := τ } names args = { m with heap := τ } := by
  rw [storeBack.eq_def]
  split
  · rename_i name names' v args'
    split
    · rfl
    · rename_i hname
      have hlookup : m.bindings.get? name = some v := h.lookup (by simpa using hname)
      rw [Machine.assign, Table.insert_eq_self hlookup]
  · rfl

theorem onHeap_eq_ok {g : Heap → Heap × Except Fault Value} (h : onHeap m g = (m', .ok v)) :
    m' = { m with heap := m'.heap } ∧ g m.heap = (m'.heap, .ok v) := by
  obtain ⟨rfl, hv⟩ := Prod.mk.inj h
  exact ⟨rfl, Prod.ext rfl (mapError_eq_ok_iff.mp hv)⟩

theorem runArray_eq_ok {g : ArrayFunction} (hgiven : m.Given names args)
    (h : runArray g names args m = (m', .ok v)) :
    m' = { m with heap := m'.heap } ∧ g.run args m.heap = (m'.heap, .ok v) := by
  simp only [runArray] at h
  split at h
  · rename_i m₁ w heap
    obtain ⟨hm₁, hrun⟩ := onHeap_eq_ok heap
    obtain ⟨hm', hv⟩ := Prod.mk.inj h
    obtain rfl := Except.ok.inj hv
    have hstored : storeBack m₁ names args = m₁ := by
      rw [hm₁, storeBack_eq_self hgiven]
    obtain rfl : m₁ = m' := by
      rw [hstored, ite_self] at hm'
      exact hm'
    exact ⟨hm₁, hrun⟩
  · cases (Prod.mk.inj h).2

/-- A function that does not map changes no more than its signature says. -/
theorem altered_run {caller : Caller ν} (hmap : ∀ collect, f ≠ .map collect)
    (hgiven : m.Given names args) (h : run caller f names args m = (m', .ok v)) :
    Altered [⟨f, args⟩] m m' := by
  cases f with
  | array g =>
      obtain ⟨hm', hrun⟩ := runArray_eq_ok hgiven h
      have hsame := g.sameOutside_run args m.heap
      rw [hrun] at hsame
      rw [hm']
      exact altered_of_heap hsame
  | conversion g | fetch fence | math g | assertEqual =>
      obtain ⟨rfl, -⟩ := Prod.mk.inj h
      exact .refl _ m
  | environment g => exact altered_environment g _ (onMachine_eq_ok h)
  | file fence g =>
      obtain ⟨rfl, -⟩ := Prod.mk.inj h
      refine altered_of_parts rfl rfl rfl ?_
      intro p hp
      cases g with
      | read | present => cases p <;> rfl
      | write =>
          cases p with
          | files => simp [writes] at hp
          | _ => rfl
  | stream g => exact altered_stream g _ (onMachine_eq_ok h)
  | loop g => exact altered_loop g _ (onMachine_eq_ok h)
  | document g =>
      obtain ⟨rfl, -⟩ := Prod.mk.inj h
      exact altered_of_heap (g.sameOutside_run args m.heap)
  | exit =>
      rw [run, runExit] at h
      split at h
      · cases h
      · cases h
  | runtime g => exact altered_runtime g _ (onMachine_eq_ok h)
  | stack g => exact altered_stack g _ (onMachine_eq_ok h)
  | map collect => exact absurd rfl (hmap collect)
  | string g =>
      obtain ⟨rfl, -⟩ := Prod.mk.inj h
      exact altered_of_heap (g.sameOutside_run args m.heap)
  | debug =>
      obtain ⟨s, hrun⟩ | hrun := runDebug_cases args m
      case inr => cases hrun.symm.trans h
      obtain ⟨rfl, -⟩ := Prod.mk.inj (hrun.symm.trans h)
      refine altered_of_parts rfl rfl rfl ?_
      intro p hp
      cases p with
      | output => simp [writes] at hp
      | _ => rfl

end Altering

/-! ### Mapping -/

section Mapping

variable {caller : Caller Native} {m m' : Machine Native} {target : CallTarget}

/-- A way to call functions that changes no more with one argument than the signature of the
function says. -/
def Caller.KeepsSignatures (caller : Caller Native) : Prop :=
  ∀ target v m m' r, caller target [[]] [v] m = (m', .ok r) →
    ∃ g, m.natives.get? target.key = some g ∧ Altered [⟨g, [v]⟩] m m'

theorem dispatch_eq_ok {target : CallTarget} {m m' : Machine Native}
    (h : Machine.dispatch host caller target names args m = (m', .ok v)) :
    ∃ f, m.natives.get? target.key = some f ∧ run caller f names args m = (m', .ok v) := by
  cases hf : m.natives.get? target.key with
  | none =>
      rw [Machine.dispatch_of_missing caller hf] at h
      cases (Prod.mk.inj h).2
  | some f =>
      simp only [Machine.dispatch, hf] at h
      split at h
      · rename_i m'' w hrun
        obtain ⟨rfl, hw⟩ := Prod.mk.inj h
        obtain rfl := Except.ok.inj hw
        exact ⟨f, rfl, hrun⟩
      · cases (Prod.mk.inj h).2

theorem keepsSignatures_dispatch (inner : Caller Native) :
    Caller.KeepsSignatures (Machine.dispatch host inner) := by
  intro target v m m' r h
  obtain ⟨f, hf, hrun⟩ := dispatch_eq_ok h
  refine ⟨f, hf, altered_run ?_ (Or.inr ⟨rfl, v, rfl⟩) hrun⟩
  -- mapping takes three arguments
  rintro collect rfl
  rw [run, runMap_of_mapping_error collect (mapping_singleton m.heap v)] at hrun
  cases (Prod.mk.inj hrun).2

theorem altered_callEach (hcaller : Caller.KeepsSignatures caller) (collect : Bool)
    {vs rs : List Value} (h : callEach caller target collect vs m = (m', .ok rs)) :
    Altered ((m.natives.get? target.key).toList.flatMap fun g => vs.map fun v => ⟨g, [v]⟩)
      m m' := by
  induction vs generalizing m rs with
  | nil =>
      obtain ⟨rfl, -⟩ := Prod.mk.inj h
      exact .refl _ m
  | cons v vs ih =>
      rw [callEach] at h
      split at h
      · cases (Prod.mk.inj h).2
      · rename_i m₁ r hfirst
        obtain ⟨g, hg, haltered⟩ := hcaller target v m m₁ r hfirst
        split at h
        · cases (Prod.mk.inj h).2
        · split at h
          · cases (Prod.mk.inj h).2
          · rename_i m₂ rs' hrest
            obtain ⟨rfl, -⟩ := Prod.mk.inj h
            have hnatives : m₁.natives = m.natives := congrArg Frame.natives haltered.frame
            have hothers := ih hrest
            rw [hnatives, hg] at hothers
            rw [hg]
            simpa using haltered.trans hothers

theorem altered_runMap (hcaller : Caller.KeepsSignatures caller) {collect : Bool}
    (h : runMap caller collect args m = (m', .ok v)) :
    Altered (applications m (.map collect) args) m m' ∧
      (collect = true → m.heap.Fresh m'.heap v) := by
  simp only [runMap] at h
  split at h
  · cases (Prod.mk.inj h).2
  · rename_i target items hmapping
    split at h
    · cases (Prod.mk.inj h).2
    · rename_i m₁ results heach
      have haltered := altered_callEach hcaller collect heach
      simp only [applications, hmapping]
      split at h
      · obtain ⟨rfl, hv⟩ := Prod.mk.inj h
        obtain rfl := Except.ok.inj hv
        exact ⟨haltered.alloc _, fun _ => haltered.arrays.fresh_alloc _⟩
      · rename_i hcollect
        obtain ⟨rfl, -⟩ := Prod.mk.inj h
        exact ⟨haltered, fun h => absurd h hcollect⟩

end Mapping

/-! ### Arrays as results -/

/-- Whether an application has a fresh array as its result when it succeeds. -/
def MakesArray (f : Native) (args : List Value) : Prop :=
  match f with
  | .array .new | .array .clone | .string .split | .environment .arguments | .map true => True
  | .document .get =>
    ∃ doc key members items, args = [.str doc, .str key] ∧
      Json.readObject? doc = some members ∧ Table.get? members key = some (.array items)
  | _ => False

theorem member_of_run {caller : Caller ν}
    (h : run caller (.document .get) names args m = (m', .ok v)) :
    ∃ doc key, args = [.str doc, .str key] ∧
      DocumentFunction.member m.heap doc key = .ok (m'.heap, v) := by
  rw [run] at h
  have hget := (onHeap_eq_ok h).2
  rcases DocumentFunction.run_get_cases args m.heap with
    ⟨doc, key, τ, w, hargs, hmember, hrun⟩ | ⟨e, hrun⟩
  · rw [hget] at hrun
    cases hrun
    exact ⟨doc, key, hargs, hmember⟩
  · rw [hget] at hrun
    cases (Prod.mk.inj hrun).2

theorem fresh_environment :
    Ensures (EnvironmentFunction.arguments.run m args) fun r => m.heap.Fresh r.1.heap r.2 := by
  apply Ensures.bind
  intro a
  exact Ensures.ok ((Heap.SameOutside.refl ∅ m.heap).fresh_alloc _)

theorem fresh_run {f : Native} {caller : Caller ν} (hmap : ∀ collect, f ≠ .map collect)
    (hf : f.MakesArray args) (hgiven : m.Given names args)
    (h : run caller f names args m = (m', .ok v)) : m.heap.Fresh m'.heap v := by
  match f with
  | .array .new =>
      rw [run] at h
      exact ArrayFunction.fresh_run (Or.inl rfl) (runArray_eq_ok hgiven h).2
  | .array .clone =>
      rw [run] at h
      exact ArrayFunction.fresh_run (Or.inr rfl) (runArray_eq_ok hgiven h).2
  | .string .split =>
      rw [run] at h
      exact StringFunction.fresh_split (onHeap_eq_ok h).2
  | .environment .arguments => exact fresh_environment _ (onMachine_eq_ok h)
  | .map true => exact absurd rfl (hmap true)
  | .document .get =>
      obtain ⟨doc, key, members, items, rfl, hmembers, hkey⟩ := hf
      obtain ⟨_, _, hargs, hmember⟩ := member_of_run h
      cases hargs
      exact DocumentFunction.fresh_member hmembers hkey hmember

end Native

/-! ### Calls -/

namespace Machine

open Native

variable {m m' : Machine Native} {f : Native} {target : CallTarget}

/-- A call is dispatched with a way to call functions from within that keeps signatures. -/
theorem exists_keepsSignatures (depth : Nat) :
    ∃ inner, callWithin Native.host depth = dispatch Native.host inner ∧
      Caller.KeepsSignatures inner := by
  cases depth with
  | zero =>
      refine ⟨_, rfl, ?_⟩
      intro target v m m' r h
      cases (Prod.mk.inj h).2
  | succ depth =>
      obtain ⟨inner, hinner⟩ := exists_callWithin_eq_dispatch Native.host depth
      refine ⟨_, rfl, ?_⟩
      rw [hinner]
      exact keepsSignatures_dispatch inner

/-- A call that succeeds changes no more than the signatures of the functions that it applies say.
A function that makes an array gives one that was not there before, and so is every array inside a
member of a document. -/
theorem call_keeps_signature {depth : Nat} (hf : m.natives.get? target.key = some f)
    (hgiven : m.Given names args)
    (h : callWithin Native.host depth target names args m = (m', .ok v)) :
    Altered (applications m f args) m m' ∧
      (f.MakesArray args → m.heap.Fresh m'.heap v) ∧
        (f = .document .get → ∀ k, m'.heap.Inside v k → m.heap.get? k = none) := by
  obtain ⟨inner, hdispatch, hinner⟩ := exists_keepsSignatures depth
  rw [hdispatch] at h
  obtain ⟨g, hg, hrun⟩ := dispatch_eq_ok h
  obtain rfl : f = g := Option.some.inj (hf.symm.trans hg)
  by_cases hmap : ∃ collect, f = .map collect
  · obtain ⟨collect, rfl⟩ := hmap
    obtain ⟨haltered, hfresh⟩ := altered_runMap hinner hrun
    refine ⟨haltered, ?_, fun hget => Native.noConfusion hget⟩
    intro hmakes
    cases collect with
    | true => exact hfresh rfl
    | false => exact hmakes.elim
  · have hmap' : ∀ collect, f ≠ .map collect := fun collect hcollect => hmap ⟨collect, hcollect⟩
    refine ⟨?_, fun hmakes => fresh_run hmap' hmakes hgiven hrun, ?_⟩
    · have haltered := altered_run hmap' hgiven hrun
      rw [applications.eq_def]
      split
      · exact absurd rfl (hmap' _)
      · exact haltered
    · rintro rfl k hk
      obtain ⟨doc, key, -, hmember⟩ := member_of_run hrun
      obtain ⟨-, S, hclosed, hv, hnovel⟩ := DocumentFunction.novel_member hmember
      exact hnovel k (hclosed.mem_of_inside (hv v (List.mem_singleton_self v)) hk)

/-- An array that holds another array twice. -/
def sharing : Machine Native where
  program := #[]
  bindings := [(text "a", .array ⟨1⟩), (text "b", .array ⟨2⟩)]
  heap := ⟨#[#[.array ⟨2⟩, .array ⟨2⟩], #[.int 1, .int 2, .int 3]]⟩
  natives := Module.all.flatMap (·.registry {})

/-- The operands of a call that takes an element out of each element of an array. -/
def popEach : List Operand := [.str (text "array"), .str (text "pop"), .variable (text "a")]

/-- Both elements are the same array, which gives two of its elements away; it is the only one that
changes, and the variables stay as they are although the array is also known by name. -/
theorem call_keeps_signature_sharing :
    let args := [.str (text "array"), .str (text "pop"), .array ⟨1⟩]
    let now := call Native.host ⟨text "std", text "map"⟩ (popEach.map argumentName) args sharing
    now.2 = .ok (.array ⟨3⟩) ∧
      now.1.heap.cells =
        #[#[.array ⟨2⟩, .array ⟨2⟩], #[.int 1], #[.int 3, .int 2]] ∧
      Altered (applications sharing (.map true) args) sharing now.1 ∧
      sharing.heap.Fresh now.1.heap (.array ⟨3⟩) := by
  intro args now
  have hresult : now.2 = .ok (.array ⟨3⟩) := by decide +kernel
  obtain ⟨haltered, hfresh, -⟩ := call_keeps_signature (m := sharing) (f := .map true)
    (by decide +kernel) (Or.inl ⟨popEach, rfl, by decide +kernel⟩) (Prod.ext rfl hresult)
  exact ⟨hresult, by decide +kernel, haltered, hfresh trivial⟩

end Machine

end JumpScript
