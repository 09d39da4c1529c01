import JumpScript.Library.Registry
import JumpScript.Proofs.Machine.Loops
import JumpScript.Proofs.Statement.RoundTrip

/-!
# Where control goes

After a step that succeeds, the next statement is the one after the statement executed, or the one
after a label, a pending call, or a statement that has begun a loop.  Labels and pending calls are
indices of the program by construction.  A loop goes back to a number that it finds in a variable,
so for loops the argument is an invariant: as long as no loop is begun under a name that clashes,
these variables hold indices of statements that have begun loops.
-/

namespace JumpScript

/-- The variable that an action gives a value. -/
def Action.assigned? : Action → Option Bytes
  | .assign name _ | .compute name _ _ _ | .assignCall name _ _ => some name
  | _ => none

theorem Action.mem_names_of_assigned? {a : Action} {name : Bytes} (h : a.assigned? = some name) :
    name ∈ a.names := by
  cases a with
  | assign | compute | assignCall => simp [names, Option.some.inj h]
  | _ => cases h

open LoopFunction

theorem hidden_of_isName {name : Bytes} (h : Scan.isName name = true) : hidden name = false := by
  cases hname : hidden name with
  | false => rfl
  | true =>
      obtain ⟨rest, rfl⟩ := List.isPrefixOf_iff_prefix.mp hname
      have hat : text "@internal:iter:" = 0x40 :: text "internal:iter:" := rfl
      rw [hat, List.cons_append, Scan.isName, Bool.and_eq_true, Bool.and_eq_true] at h
      exact absurd h.1.1 (by decide)

namespace Machine

open Native

variable {σ : Type} {program : Array Statement} {natives : Table Native} {visits : List Visit}
  {m m' : Machine Native}

/-- Where the program counter can be led from a statement: nowhere else, onto a label, or back to a
statement that has begun a loop. -/
inductive Led (program : Array Statement) (natives : Table Native) (visits : List Visit) (i : Int) :
    Int → Prop where
  | stayed : Led program natives visits i i
  | label {j : Nat} {st : Statement} {name : Bytes} (hst : program[j]? = some st)
      (hlabel : st.action = .label name) : Led program natives visits i j
  | body {w : Visit} (hw : w ∈ visits) (hbegins : w.action.BeginsLoop natives) :
      Led program natives visits i w.index

theorem Led.trans {i j k : Int} (h : Led program natives visits i j)
    (h' : Led program natives visits j k) : Led program natives visits i k := by
  cases h' with
  | stayed => exact h
  | label hst hlabel => exact .label hst hlabel
  | body hw hbegins => exact .body hw hbegins

/-- What the steps of a machine rely on: the labels of the program, and the variables that loops
keep. -/
structure Guided (program : Array Statement) (natives : Table Native) (visits : List Visit)
    (m : Machine Native) : Prop where
  natives_eq : m.natives = natives
  labels_eq : ∀ label, m.labels.get? label = lastLabel? label program.toList
  loops : LoopsKept natives visits m.bindings
  small : ∀ w ∈ visits, w.index < 0x8000000000000000

theorem Guided.of_frame (h : Guided program natives visits m) (hframe : m'.frame = m.frame)
    (hloops : LoopsKept natives visits m'.bindings) : Guided program natives visits m' where
  natives_eq := (congrArg Frame.natives hframe).trans h.natives_eq
  labels_eq label := by
    rw [show m'.labels = m.labels from congrArg Frame.labels hframe]
    exact h.labels_eq label
  loops := hloops
  small := h.small

theorem Guided.led_label (h : Guided program natives visits m) {label : Bytes} {i : Nat}
    (hi : m.labels.get? label = some i) (from' : Int) : Led program natives visits from' i := by
  rw [h.labels_eq] at hi
  obtain ⟨st, hst, hlabel⟩ := exists_label_of_lastLabel? hi
  rw [Array.getElem?_toList] at hst
  exact .label hst hlabel

/-- A native function that begins no loop leads where the program says. -/
theorem Guided.effect (h : Guided program natives visits m) {f : Native} {names : List Bytes}
    {args : List Value} {r : Except Failure Value} (heffect : Effect f names args m m' r)
    (hnames : ∀ name ∈ names, hidden name = false) (hargs : f = .loop .iterate → args.length ≠ 3) :
    LoopsKept natives visits m'.bindings ∧ Led program natives visits m.pc m'.pc := by
  cases heffect with
  | kept hsame =>
      rw [hsame.1, hsame.2]
      exact ⟨h.loops, .stayed⟩
  | @stored _ name others x _ _ _ hlist _ _ hpc hbindings =>
      rw [hpc, hbindings]
      exact ⟨h.loops.insert (hnames name (hlist ▸ List.mem_cons_self)) x, .stayed⟩
  | began hf hthree hpc hbindings => exact absurd (congrArg List.length hthree) (hargs hf)
  | ended hf hone hlast hpc hbindings =>
      rw [hpc, hbindings]
      exact ⟨h.loops.ended hlast, .stayed⟩
  | @repeated name current last hf hone hcurrent hlast hpc hbindings =>
      -- a loop that has a last value has been begun under a name that does not clash
      obtain ⟨hname, -⟩ := h.loops.last name last hlast
      obtain ⟨w, hw, hbegins, hbody⟩ := h.loops.exists_body hlast
      have hindex : m'.pc = w.index := by
        rw [hpc, lookup, hbody]
        exact Int64.toInt_ofNat_of_lt (h.small w hw)
      rw [hbindings, hindex]
      exact ⟨h.loops.insert (hidden_of_clashes hname) _, .body hw hbegins⟩
  | jumped hf hone hlabel hpc hbindings =>
      rw [hpc, hbindings]
      exact ⟨h.loops, h.led_label hlabel m.pc⟩

/-- Mapping a function leads where the program says: no mapped function gets the arguments that
begin a loop. -/
theorem Guided.mapped (h : Guided program natives visits m) {inner : CallTarget} {collect : Bool}
    {vs : List Value} {r : Except Failure (List Value)}
    (heach : callEach (callWithin Native.host 0) inner collect vs m = (m', r)) :
    LoopsKept natives visits m'.bindings ∧ Led program natives visits m.pc m'.pc := by
  have hkept := callEach_preserves (m := m)
    (P := fun k => Guided program natives visits k ∧ Led program natives visits m.pc k.pc)
    (callWithin Native.host 0) inner collect vs ?_ ⟨h, .stayed⟩
  · rw [heach] at hkept
    exact ⟨hkept.1.loops, hkept.2⟩
  · rintro v - k ⟨hguided, hled⟩
    rcases effect_callWithin_singleton (Prod.eta _).symm with ⟨hsame, -⟩ | ⟨f, -, heffect⟩
    · rw [hsame]
      exact ⟨hguided, hled⟩
    · obtain ⟨hloops, hnext⟩ := hguided.effect heffect (by decide) (by simp)
      have hframe := framed_callWithin framed_host 0 inner [[]] [v] k
      exact ⟨hguided.of_frame hframe hloops, hled.trans hnext⟩

/-- A call that succeeds leads where the program says. -/
theorem Guided.called (h : Guided program natives visits m) {target : CallTarget}
    {names : List Bytes} {args : List Value} {v : Value}
    (hcall : call Native.host target names args m = (m', .ok v))
    (hnames : ∀ name ∈ names, hidden name = false)
    (hbegins : natives.get? target.key ≠ some (.loop .iterate)) :
    LoopsKept natives visits m'.bindings ∧ Led program natives visits m.pc m'.pc := by
  cases hf : m.natives.get? target.key with
  | none =>
      rw [call, callWithin, dispatch_of_missing _ hf] at hcall
      cases hcall
  | some f =>
      rcases effect_or_mapped_of_call hf hcall with heffect | ⟨collect, -, hmapped⟩
      · refine h.effect heffect hnames ?_
        rintro rfl
        rw [h.natives_eq] at hf
        exact absurd hf hbegins
      · cases hmapped with
        | collected hmapping heach hsame =>
            rw [hsame.1, hsame.2]
            exact h.mapped heach
        | dropped hcollect hmapping heach hsame =>
            rw [hsame.1, hsame.2]
            exact h.mapped heach

theorem nonneg_of_current? {st : Statement} (h : m.current? = some st) : 0 ≤ m.pc := by
  rw [current?] at h
  split at h
  · assumption
  · cases h

/-- The name of the loop that an action begins. -/
def loopName? (m : Machine Native) (a : Action) : Option Bytes :=
  match m.reached? a, a.operands.mapM m.resolve with
  | some (.loop .iterate), .ok (.str name :: _) => some name
  | _, _ => none

theorem loopName?_of_call {a : Action} {target : CallTarget} {args : List Operand} {name : Bytes}
    {rest : List Value} (ha : a.nativeCall? = some (target, args))
    (hvs : args.mapM m.resolve = .ok (.str name :: rest))
    (hf : m.natives.get? target.key = some (.loop .iterate)) : m.loopName? a = some name := by
  have hreached : m.reached? a = some (.loop .iterate) := by
    rw [reached?, ha]
    simpa [hvs, Except.toOption] using hf
  rw [loopName?, hreached, operands_of_nativeCall? ha, hvs]

theorem hidden_argumentName {v : Operand} (hv : v.WellFormed) :
    hidden (argumentName v) = false := by
  match v with
  | .variable name => exact hidden_of_isName hv
  | .bool _ | .int _ | .float _ | .str _ => rfl

/-- The call of a statement leads where the program says, and a loop that it begins is kept. -/
theorem Guided.site (h : Guided program natives visits m) (hpc : 0 ≤ m.pc) {a : Action}
    {target : CallTarget} {args : List Operand} {vs : List Value} {v : Value}
    (ha : a.nativeCall? = some (target, args)) (hargs : ∀ v ∈ args, v.WellFormed)
    (hvs : args.mapM m.resolve = .ok vs)
    (hcall : call Native.host target (args.map argumentName) vs m = (m', .ok v)) :
    Led program natives visits m.pc m'.pc ∧
      ((∀ name ∈ m.loopName? a, clashes name = false) →
        LoopsKept natives (visits ++ [⟨m.pc.toNat, a⟩]) m'.bindings) := by
  have hmore : ∀ w ∈ visits, w ∈ visits ++ [⟨m.pc.toNat, a⟩] := by
    intro w hw
    exact List.mem_append_left _ hw
  by_cases hbegins : natives.get? target.key = some (.loop .iterate)
  · have hf : m.natives.get? target.key = some (.loop .iterate) := h.natives_eq ▸ hbegins
    rcases effect_or_mapped_of_call hf hcall with heffect | ⟨_, hmap, -⟩
    · cases heffect with
      | kept hsame =>
          rw [hsame.1, hsame.2]
          exact ⟨.stayed, fun _ => h.loops.mono hmore⟩
      | @began name first limit _ hthree hpc' hbindings =>
          rw [hpc', hbindings]
          refine ⟨.stayed, ?_⟩
          intro hnames
          -- the body that is kept is the visit that this step adds
          rw [hthree] at hvs
          have hname := hnames name (loopName?_of_call ha hvs hf)
          have hindex : m.pc = (m.pc.toNat : Int) := (Int.toNat_of_nonneg hpc).symm
          have hvisit : (⟨m.pc.toNat, a⟩ : Visit) ∈ visits ++ [⟨m.pc.toNat, a⟩] := by simp
          rw [hindex, Int.toNat_natCast]
          exact (h.loops.mono hmore).begun hname first limit hvisit ⟨target, args, ha, hbegins⟩
      | stored hf' _ _ _ _ _ => cases hf'
      | ended hf' _ _ _ _ => cases hf'
      | repeated hf' _ _ _ _ _ => cases hf'
      | jumped hf' _ _ _ _ => cases hf'
    · cases hmap
  · have hnames : ∀ name ∈ args.map argumentName, hidden name = false := by
      intro name hmem
      obtain ⟨v, hv, rfl⟩ := List.mem_map.mp hmem
      exact hidden_argumentName (hargs v hv)
    obtain ⟨hloops, hled⟩ := h.called hcall hnames hbegins
    exact ⟨hled, fun _ => hloops.mono hmore⟩

/-- What an action without a native function does where it succeeds: it gives a variable a value,
goes to a label, goes back to a pending call, or neither moves nor changes a variable. -/
inductive Done (m : Machine Native) (a : Action) (m' : Machine Native) : Prop where
  | assigned {name : Bytes} {v : Value} (ha : a.assigned? = some name) (hm' : m' = m.assign name v)
  | jumped {label : Bytes} {i : Nat} (hlabel : m.labels.get? label = some i) (hpc : m'.pc = i)
      (hbindings : m'.bindings = m.bindings)
  | returned {i : Nat} (hcall : i ∈ m.calls) (hpc : m'.pc = i)
      (hbindings : m'.bindings = m.bindings)
  | stayed (hsame : m.SameControl m')

theorem done_of_exec {a : Action} (ha : a.nativeCall? = none)
    (h : m.exec Native.host a = (m', .ok ())) : m.Done a m' := by
  have hjump : ∀ {label : Bytes}, m.jump label = .ok m' → m.Done a m' := by
    intro label hm'
    obtain ⟨i, hi, rfl⟩ := jump_eq_ok hm'
    exact .jumped hi rfl rfl
  cases a with
  | assign name x =>
      obtain ⟨v, -, hv⟩ := bind_eq_ok_iff.mp (changed_eq_ok_iff.mp h)
      exact .assigned rfl (Except.ok.inj hv).symm
  | compute name op l r =>
      obtain ⟨x, -, hv⟩ := bind_eq_ok_iff.mp (changed_eq_ok_iff.mp h)
      obtain ⟨y, -, hv⟩ := bind_eq_ok_iff.mp hv
      obtain ⟨v, -, hv⟩ := bind_eq_ok_iff.mp hv
      exact .assigned rfl (Except.ok.inj hv).symm
  | assignCall name target args => cases ha
  | call target args => cases ha
  | label name =>
      cases h
      exact .stayed ⟨rfl, rfl⟩
  | goto label => exact hjump (changed_eq_ok_iff.mp h)
  | gotoIf label op l r =>
      obtain ⟨x, -, hv⟩ := bind_eq_ok_iff.mp (changed_eq_ok_iff.mp h)
      obtain ⟨y, -, hv⟩ := bind_eq_ok_iff.mp hv
      obtain ⟨taken, -, hv⟩ := bind_eq_ok_iff.mp hv
      cases taken with
      | true => exact hjump hv
      | false =>
          cases hv
          exact .stayed ⟨rfl, rfl⟩
  | callLabel label =>
      obtain ⟨i, hi, hv⟩ := bind_eq_ok_iff.mp (changed_eq_ok_iff.mp h)
      cases hv
      exact .jumped (target_eq_ok_iff.mp hi) rfl rfl
  | ret =>
      cases hcalls : m.calls with
      | nil =>
          rw [exec, hcalls] at h
          cases h
      | cons j calls =>
          rw [exec, hcalls] at h
          cases h
          exact .returned (hcalls ▸ List.mem_cons_self) rfl rfl

/-- An action that succeeds leads where the program says or back to a pending call. -/
theorem Guided.executed (h : Guided program natives visits m) (hpc : 0 ≤ m.pc) {a : Action}
    (ha : a.WellFormed) (hexec : m.exec Native.host a = (m', .ok ())) :
    (Led program natives visits m.pc m'.pc ∨ ∃ j ∈ m.calls, m'.pc = j) ∧
      ((∀ name ∈ m.loopName? a, clashes name = false) →
        LoopsKept natives (visits ++ [⟨m.pc.toNat, a⟩]) m'.bindings) := by
  have hmore : ∀ {b : Table Value}, LoopsKept natives visits b →
      LoopsKept natives (visits ++ [⟨m.pc.toNat, a⟩]) b := by
    intro b hb
    exact hb.mono fun w hw => List.mem_append_left _ hw
  cases hsite : a.nativeCall? with
  | some site =>
      obtain ⟨target, args⟩ := site
      obtain ⟨vs, m'', v, hvs, hcall, hresult⟩ := call_of_exec_ok hsite hexec
      have hargs : ∀ v ∈ args, v.WellFormed := operands_of_nativeCall? hsite ▸ ha.operands
      obtain ⟨hled, hloops⟩ := h.site hpc hsite hargs hvs hcall
      rcases hresult with rfl | ⟨name, rfl, -, rfl⟩
      · exact ⟨Or.inl hled, hloops⟩
      · have hname := hidden_of_isName (ha.names name (by simp [Action.names]))
        exact ⟨Or.inl hled, fun hnames => (hloops hnames).insert hname v⟩
  | none =>
      cases done_of_exec hsite hexec with
      | @assigned name v hassigned hm' =>
          subst hm'
          have hname := hidden_of_isName (ha.names name (Action.mem_names_of_assigned? hassigned))
          exact ⟨Or.inl .stayed, fun _ => hmore (h.loops.insert hname v)⟩
      | jumped hlabel hpc' hbindings =>
          rw [hpc', hbindings]
          exact ⟨Or.inl (h.led_label hlabel _), fun _ => hmore h.loops⟩
      | @returned i hcall hpc' hbindings =>
          rw [hbindings]
          exact ⟨Or.inr ⟨i, hcall, hpc'⟩, fun _ => hmore h.loops⟩
      | stayed hsame =>
          rw [hsame.1, hsame.2]
          exact ⟨Or.inl .stayed, fun _ => hmore h.loops⟩

/-- A step that succeeds moves on from where the program says or from a pending call. -/
theorem Guided.stepped (h : Guided program natives visits m) {st : Statement}
    (hst : st.action.WellFormed) (hcurrent : m.current? = some st)
    (hstep : m.step Native.host st = (m', .ok ())) :
    (∃ i, m'.pc = following i ∧
      (Led program natives visits m.pc i ∨ ∃ j ∈ m.calls, i = (j : Int))) ∧
    ((∀ name ∈ m.loopName? st.action, clashes name = false) →
      LoopsKept natives (visits ++ [⟨m.pc.toNat, st.action⟩]) m'.bindings) := by
  obtain ⟨m'', hexec, rfl⟩ := step_eq_ok_iff.mp hstep
  have hcounted : Guided program natives visits (m.counted st) :=
    ⟨h.natives_eq, h.labels_eq, h.loops, h.small⟩
  obtain ⟨hled, hloops⟩ := hcounted.executed (nonneg_of_current? hcurrent) hst hexec
  exact ⟨⟨m''.pc, rfl, hled⟩, hloops⟩

variable {hook : Option (Hook σ Native)} {gas : Int}

theorem Guided.turned (hhook : ∀ h ∈ hook, Console.IsConsole h)
    (hsize : program.size ≤ 0x8000000000000000)
    (hwell : ∀ st ∈ program, st.action.WellFormed) (hprogram : m.program = program)
    (h : Guided program natives visits m) {st : Statement} {s s' : σ}
    (hnames : ∀ name ∈ m.loopName? st.action, clashes name = false)
    (hcurrent : m.current? = some st)
    (hturn : m.turn Native.host hook gas st s = ((m', s'), .ok ())) :
    Guided program natives (visits ++ [⟨m.pc.toNat, st.action⟩]) m' := by
  obtain ⟨-, m₁, hstep, hpause⟩ := step_of_turn hturn
  have hplace : program[m.pc.toNat]? = some st := hprogram ▸ getElem?_of_current? hcurrent
  have hst := hwell st (Array.mem_of_getElem? hplace)
  have hloops := (h.stepped hst hcurrent hstep).2 hnames
  have hframe := frame_of_turn framed_host hhook hturn
  have hbindings := congrArg Machine.bindings (pause_eq hhook m₁ s)
  rw [hpause] at hbindings
  have hlabels : m'.labels = m.labels := congrArg Frame.labels hframe
  have hnatives : m'.natives = m.natives := congrArg Frame.natives hframe
  refine ⟨hnatives.trans h.natives_eq, fun label => hlabels ▸ h.labels_eq label, ?_, ?_⟩
  · rw [hbindings]
    exact hloops
  · intro w hw
    rcases List.mem_append.mp hw with hw | hw
    · exact h.small w hw
    · obtain rfl := List.mem_singleton.mp hw
      exact Nat.lt_of_lt_of_le (Array.getElem?_eq_some_iff.mp hplace).1 hsize

theorem guided_start (hlabels : m.labels = [])
    (hvariables : ∀ name v, m.lookup name = some v → Scan.isName name = true) :
    Guided m.program (m.start Native.host).natives [] (m.start Native.host) where
  natives_eq := rfl
  labels_eq := get?_labels_start Native.host hlabels
  loops := by
    have hnone : ∀ name v, hidden name = true →
        (m.start Native.host).bindings.get? name ≠ some v := by
      intro name v hhidden hv
      rw [hidden_of_isName (hvariables name v hv)] at hhidden
      cases hhidden
    constructor
    · intro name v _ hv
      exact absurd hv (hnone _ v (hidden_bodyName name))
    · intro name v hv
      exact absurd hv (hnone _ v (hidden_lastName name))
  small w hw := by cases hw

/-- The name of the loop that a machine is about to begin. -/
def loopBegun? (m : Machine Native) : Option Bytes :=
  m.current?.bind fun st => m.loopName? st.action

theorem guided_turns (hhook : ∀ h ∈ hook, Console.IsConsole h)
    (hsize : m.program.size ≤ 0x8000000000000000)
    (hwell : ∀ st ∈ m.program, st.action.WellFormed) (h : Guided m.program natives visits m)
    {n : Nat} {s s' : σ} {now : Machine Native}
    (hloops : ∀ k ∈ history Native.host hook gas n m s,
      ∀ name ∈ k.loopBegun?, clashes name = false)
    (hnow : m.turns Native.host hook gas n s = ((now, s'), .outOfFuel)) :
    Guided m.program natives (visits ++ executed Native.host hook gas n m s) now := by
  have hboth := turns_preserve_executed
    (P := fun visits k => k.program = m.program ∧ Guided m.program natives visits k)
    (Q := fun k => ∀ name ∈ k.loopBegun?, clashes name = false) ?_ ⟨rfl, h⟩ hloops hnow
  · exact hboth.2
  · rintro visits k k' st s s' ⟨hprogram, hguided⟩ hnames hcurrent hturn
    rw [loopBegun?, hcurrent] at hnames
    exact ⟨(text_of_turn framed_host hhook hturn).1.trans hprogram,
      hguided.turned hhook hsize hwell hprogram hnames hcurrent hturn⟩

theorem disciplined_start (hcalls : m.calls = []) :
    Disciplined m.program [] (m.start Native.host) where
  program_eq := rfl
  recorded v hv := by cases hv
  unmatched := by
    have hnone : (m.start Native.host).calls = [] := hcalls
    rw [hnone]
    exact Unmatched.none Balanced.nil

/-- Moving on from an index of the program ends up within it or at its end. -/
theorem following_within {size j : Nat} (hsize : size < 0x8000000000000000) (hj : j < size) :
    0 ≤ following j ∧ following j ≤ size ∧ following j = j + 1 := by
  rw [following_of_lt (by omega)]
  omega

/-- Control only goes where the program says, as long as no loop is begun under a name that clashes.
After every step that succeeds the program counter is within the program or at its end, and it is
the index after the statement executed, a label, a pending call, or a statement that has been
executed before and begins loops. -/
theorem control_goes_where_program_says (hook : Option (Hook σ Native))
    (hhook : ∀ h ∈ hook, Console.IsConsole h) (m : Machine Native) (s : σ) (hfresh : m.Fresh)
    (hsize : m.program.size < 0x8000000000000000)
    (hwell : ∀ st ∈ m.program, st.action.WellFormed)
    (hvariables : ∀ name v, m.lookup name = some v → Scan.isName name = true) (gas : Int) (n : Nat)
    (hloops : ∀ k ∈ history Native.host hook gas n (m.start Native.host) s,
      ∀ name ∈ k.loopBegun?, clashes name = false)
    (now m' : Machine Native) (s' : σ) (st : Statement)
    (hnow : (m.start Native.host).turns Native.host hook gas n s = ((now, s'), .outOfFuel))
    (hcurrent : now.current? = some st) (hstep : now.step Native.host st = (m', .ok ())) :
    0 ≤ m'.pc ∧ m'.pc ≤ m.program.size ∧ ∃ j : Nat, m'.pc = j + 1 ∧
      (now.pc = j ∨
        (∃ st name, m.program[j]? = some st ∧ st.action = .label name) ∨
        (j ∈ now.calls ∧ ∃ st label, m.program[j]? = some st ∧ st.action = .callLabel label) ∨
        ∃ w ∈ executed Native.host hook gas n (m.start Native.host) s, w.index = j ∧
          w.action.BeginsLoop (m.start Native.host).natives) := by
  have hguided := guided_turns (m := m.start Native.host) hhook (Nat.le_of_lt hsize) hwell
    (guided_start hfresh.labels_eq hvariables) hloops hnow
  have hdisciplined :=
    disciplined_turns framed_host hhook (disciplined_start hfresh.calls_eq) gas n s
  rw [hnow] at hdisciplined
  rw [List.nil_append] at hguided hdisciplined
  have hplace : m.program[now.pc.toNat]? = some st :=
    hdisciplined.program_eq ▸ getElem?_of_current? hcurrent
  have hst := hwell st (Array.mem_of_getElem? hplace)
  have hwithin : ∀ {j : Nat} {st : Statement}, m.program[j]? = some st → m'.pc = following j →
      0 ≤ m'.pc ∧ m'.pc ≤ m.program.size ∧ m'.pc = j + 1 := by
    intro j st hj hpc
    rw [hpc]
    exact following_within hsize (Array.getElem?_eq_some_iff.mp hj).1
  -- wherever control is led to is an index of the program, so moving on from it does not overflow
  obtain ⟨⟨i, hpc, hled⟩, -⟩ := hguided.stepped hst hcurrent hstep
  rcases hled with hled | ⟨j, hj, rfl⟩
  · cases hled with
    | stayed =>
        have hnat := Int.toNat_of_nonneg (nonneg_of_current? hcurrent)
        rw [← hnat] at hpc
        obtain ⟨hge, hle, hnext⟩ := hwithin hplace hpc
        exact ⟨hge, hle, _, hnext, Or.inl hnat.symm⟩
    | @label j st' name hst' hlabel =>
        obtain ⟨hge, hle, hnext⟩ := hwithin hst' hpc
        exact ⟨hge, hle, j, hnext, Or.inr (Or.inl ⟨st', name, hst', hlabel⟩)⟩
    | @body w hw hbegins =>
        obtain ⟨st', hst', -⟩ := hdisciplined.recorded w hw
        obtain ⟨hge, hle, hnext⟩ := hwithin hst' hpc
        exact ⟨hge, hle, w.index, hnext, Or.inr (Or.inr (Or.inr ⟨w, hw, rfl, hbegins⟩))⟩
  · obtain ⟨st', label, hst', hlabel⟩ := hdisciplined.exists_callLabel hj
    obtain ⟨hge, hle, hnext⟩ := hwithin hst' hpc
    exact ⟨hge, hle, j, hnext, Or.inr (Or.inr (Or.inl ⟨hj, st', label, hst', hlabel⟩))⟩

def beginAt (line : Nat) (name : Bytes) (first limit : Int64) : Statement :=
  atLine line (.call ⟨text "iter", text "iterate"⟩ [.str name, .int first, .int limit])

def nextOfI (line : Nat) : Statement :=
  atLine line (.call ⟨text "iter", text "end"⟩ [.str (text "i")])

def twoValues : Machine Native where
  program := #[beginAt 1 (text "i") 0 2, nextOfI 2]
  natives := Module.all.flatMap (·.registry {})

def twoValuesNow : Machine Native :=
  ((twoValues.start Native.host).turns Native.host (none : Option (Hook Unit Native)) 0 1 ()).1.1

/-- The loop goes on after the statement that has begun it. -/
theorem control_goes_where_program_says_twoValues :
    ∃ w ∈ executed Native.host (none : Option (Hook Unit Native)) 0 1
        (twoValues.start Native.host) (),
      w.index = 0 ∧ w.action.BeginsLoop (twoValues.start Native.host).natives := by
  have hstep : (twoValuesNow.step Native.host (nextOfI 2)).2 = .ok () := by decide +kernel
  have hpc : (twoValuesNow.step Native.host (nextOfI 2)).1.pc = 1 := by decide +kernel
  have hnow : twoValuesNow.pc = 1 ∧ twoValuesNow.calls = [] := by decide +kernel
  obtain ⟨-, -, j, hj, hlanding⟩ := control_goes_where_program_says
    (none : Option (Hook Unit Native)) (by simp) twoValues () ⟨rfl, rfl, rfl, rfl, rfl⟩ (by decide)
    (by decide +kernel) (by intro name v hv; cases hv) 0 1 (by decide +kernel) twoValuesNow
    (twoValuesNow.step Native.host (nextOfI 2)).1 () (nextOfI 2) (Prod.ext rfl (by decide +kernel))
    (by decide +kernel) (Prod.ext rfl hstep)
  rw [hpc] at hj
  obtain rfl : j = 0 := by omega
  rcases hlanding with h | ⟨st, name, hst, hlabel⟩ | ⟨hcalls, -⟩ | h
  · rw [hnow.1] at h
    cases h
  · cases hst
    cases hlabel
  · rw [hnow.2] at hcalls
    cases hcalls
  · exact h

/-- A loop whose body is put after the statement 99 by a loop under the name that it is kept by. -/
def forgedBody : Machine Native where
  program :=
    #[beginAt 1 (text "i") 0 2, beginAt 2 (text "@internal:iter:i") 99 200, nextOfI 3]
  natives := Module.all.flatMap (·.registry {})

def forgedBodyNow : Machine Native :=
  ((forgedBody.start Native.host).turns Native.host (none : Option (Hook Unit Native)) 0 2 ()).1.1

/-- Where names clash, control can leave the program without a failure. -/
theorem not_control_within_program :
    ¬ ∀ (o : LibraryOptions) (m now m' : Machine Native) (n : Nat) (st : Statement),
      m.Fresh → o.registry = .ok m.natives → (∀ st ∈ m.program, st.action.WellFormed) →
      m.bindings = [] →
      (m.start Native.host).turns Native.host (none : Option (Hook Unit Native)) 0 n ()
        = ((now, ()), .outOfFuel) →
      now.current? = some st → now.step Native.host st = (m', .ok ()) →
      m'.pc ≤ m.program.size := by
  intro h
  have hstep : (forgedBodyNow.step Native.host (nextOfI 3)).2 = .ok () := by decide +kernel
  have hpc : (forgedBodyNow.step Native.host (nextOfI 3)).1.pc = 100 := by decide +kernel
  have hwithin := h {} forgedBody forgedBodyNow (forgedBodyNow.step Native.host (nextOfI 3)).1 2
    (nextOfI 3) ⟨rfl, rfl, rfl, rfl, rfl⟩ rfl (by decide +kernel) rfl
    (Prod.ext rfl (by decide +kernel)) (by decide +kernel) (Prod.ext rfl hstep)
  rw [hpc] at hwithin
  exact absurd hwithin (by decide)

end Machine

end JumpScript
