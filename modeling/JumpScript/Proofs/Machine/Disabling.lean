import JumpScript.Console
import JumpScript.Library.Registry
import JumpScript.Proofs.Machine.Alike
import JumpScript.Proofs.Machine.Calls
import JumpScript.Proofs.Machine.Continuation
import JumpScript.Proofs.Machine.Gas
import JumpScript.Proofs.Machine.Labels

/-!
# Disabled modules

A run in which modules are disabled goes like the run with all modules, up to the first attempt to
call a function of a disabled module, and stops there because the function is not found.  Nothing
else tells the two runs apart, and no function of a disabled module is ever executed: whatever these
functions did, the run would be the same.

Functions are looked up by one key for module and function.  A key names one module only, since
neither the names of modules nor those of their functions hold the colon that separates them
(`Module.module_eq_of_mem_names`); so no choice of texts for a computed call leads into a module by
another name.
-/

namespace JumpScript

variable {ν σ : Type}

/-- A machine that knows other functions. -/
def Machine.knowing (m : Machine ν) (t : Table ν) : Machine ν := { m with natives := t }

theorem Machine.knowing_of_natives {m : Machine ν} {t : Table ν} (h : m.natives = t) :
    m.knowing t = m := by
  rw [← h]
  rfl

theorem Machine.print_knowing (m : Machine ν) (t : Table ν) (text : Bytes) :
    (m.knowing t).print text = (m.print text).knowing t := rfl

/-! ### Names in merged tables -/

namespace Table

variable {α : Type} {t t' u v : Table α} {name : Bytes}

theorem merge_append (t u v : Table α) : t.merge (u ++ v) = (t.merge u).merge v :=
  List.foldl_append

theorem get?_merge_of_not_mem (h : name ∉ u.names) : (t.merge u).get? name = t.get? name := by
  induction u generalizing t with
  | nil => rfl
  | cons b u ih =>
      simp only [names, List.map_cons, List.mem_cons, not_or] at h
      change ((t.insert b.1 b.2).merge u).get? name = _
      rw [ih h.2, get?_insert, if_neg fun hb => h.1 hb.symm]

theorem get?_merge_congr (h : t.get? name = t'.get? name) :
    (t.merge u).get? name = (t'.merge u).get? name := by
  induction u generalizing t t' with
  | nil => exact h
  | cons b u ih =>
      apply ih
      simp only [get?_insert, h]

/-- What a name stands for after merging was there before or has been merged. -/
theorem mem_of_get?_merge {v : α} (h : (t.merge u).get? name = some v) :
    t.get? name = some v ∨ (name, v) ∈ u := by
  induction u generalizing t with
  | nil => exact Or.inl h
  | cons b u ih =>
      rcases ih (t := t.insert b.1 b.2) h with hget | hmem
      · rw [get?_insert] at hget
        split at hget
        · rename_i hb
          obtain rfl := Option.some.inj hget
          exact Or.inr (hb ▸ List.mem_cons_self)
        · exact Or.inl hget
      · exact Or.inr (List.mem_cons_of_mem b hmem)

end Table

/-! ### Modules and keys -/

/-- The module that a native function belongs to; the function that shows values belongs to none. -/
def Native.home? : Native → Option Module
  | .array _ => some .array
  | .conversion _ => some .convert
  | .environment _ => some .env
  | .file .. => some .file
  | .fetch _ => some .http
  | .stream _ => some .io
  | .loop _ => some .iter
  | .document _ => some .json
  | .math _ => some .math
  | .exit => some .process
  | .runtime _ => some .runtime
  | .stack _ => some .stack
  | .map _ => some .std
  | .string _ => some .string
  | .assertEqual => some .test
  | .debug => none

namespace Module

variable {o : LibraryOptions} {d : Module}

theorem colon_notMem_name (d : Module) : 0x3A ∉ d.name := by
  cases d <;> decide

theorem belongs_of_lift {α : Type} {g : α → Native} {l : List (Bytes × α)}
    (hhome : ∀ a, (g a).home? = some d) (hnames : ∀ f ∈ l, 0x3A ∉ f.1)
    {f : Bytes × Native} (h : f ∈ lift g l) : f.2.home? = some d ∧ 0x3A ∉ f.1 := by
  obtain ⟨p, hp, rfl⟩ := List.mem_map.mp h
  exact ⟨hhome p.2, hnames p hp⟩

/-- The functions of a module belong to it, and have no colon in their names. -/
theorem belongs_of_mem {f : Bytes × Native} (h : f ∈ d.functions o) :
    f.2.home? = some d ∧ 0x3A ∉ f.1 := by
  cases d with
  | file =>
      cases hfiles : o.files with
      | none => simp [functions, hfiles] at h
      | some fence =>
          rw [functions, hfiles] at h
          exact belongs_of_lift (fun _ => rfl) (by decide) h
  | http =>
      cases hweb : o.web with
      | none => simp [functions, hweb] at h
      | some fence =>
          simp only [functions, hweb, Option.elim_some] at h
          split at h
          · cases h
          · obtain rfl := List.mem_singleton.mp h
            exact ⟨rfl, show 0x3A ∉ text "get" by decide⟩
  | process =>
      obtain rfl := List.mem_singleton.mp h
      exact ⟨rfl, show 0x3A ∉ text "exit" by decide⟩
  | std =>
      exact belongs_of_lift (l := [(text "map", true), (text "mapdrop", false)]) (fun _ => rfl)
        (by decide) h
  | test =>
      obtain rfl := List.mem_singleton.mp h
      exact ⟨rfl, show 0x3A ∉ text "is" by decide⟩
  | _ => exact belongs_of_lift (fun _ => rfl) (by decide) h

/-- A name that is called through the key of a function of a module is a name in that module. -/
theorem module_eq_of_mem_names {target : CallTarget} (h : target.key ∈ (d.registry o).names) :
    target.module = d.name := by
  simp only [Table.names, registry, List.map_map, List.mem_map, Function.comp_apply] at h
  obtain ⟨f, hf, hkey⟩ := h
  have hkeys : d.name ++ 0x3A :: f.1 = target.module ++ 0x3A :: target.function := by
    simpa [CallTarget.key] using hkey
  exact ((List.append_cons_inj_of_notMem d.colon_notMem_name (belongs_of_mem hf).2).mp hkeys).1.symm

theorem home?_of_mem_registry {key : Bytes} {f : Native} (h : (key, f) ∈ d.registry o) :
    f.home? = some d := by
  obtain ⟨p, hp, heq⟩ := List.mem_map.mp h
  obtain ⟨-, rfl⟩ := Prod.mk.inj heq
  exact (belongs_of_mem hp).1

theorem registry_disabling (o : LibraryOptions) (d : Module) (disabled : List Bytes) :
    d.registry { o with disabled } = d.registry o := by
  cases d <;> rfl

end Module

/-! ### Registries -/

namespace LibraryOptions

variable {o : LibraryOptions} {disabled : List Bytes} {target : CallTarget}

/-- The functions of the modules that are not disabled, as a machine that knew none gets to know
them. -/
def table (o : LibraryOptions) : Table Native :=
  Table.merge [] ((Module.all.filter fun m => !o.disabled.contains m.name).flatMap (·.registry o))

theorem get?_merge_modules (modules : List Module) (h : target.module ∉ disabled)
    {t t' : Table Native} (ht : t.get? target.key = t'.get? target.key) :
    (t.merge ((modules.filter fun m => !disabled.contains m.name).flatMap (·.registry o))).get?
        target.key
      = (t'.merge (modules.flatMap (·.registry o))).get? target.key := by
  induction modules generalizing t t' with
  | nil => exact ht
  | cons d modules ih =>
      rw [List.flatMap_cons, Table.merge_append]
      by_cases hd : d.name ∈ disabled
      · have hother : target.key ∉ (d.registry o).names := by
          intro hmem
          exact h (Module.module_eq_of_mem_names hmem ▸ hd)
        rw [List.filter_cons_of_neg (by simpa using hd)]
        apply ih
        rw [Table.get?_merge_of_not_mem hother, ht]
      · rw [List.filter_cons_of_pos (by simpa using hd), List.flatMap_cons, Table.merge_append]
        exact ih (Table.get?_merge_congr ht)

/-- Where modules are disabled, the others are known as if none were. -/
theorem get?_table_of_notMem (h : target.module ∉ disabled) :
    ({ o with disabled }).table.get? target.key
      = ({ o with disabled := [] }).table.get? target.key := by
  simp only [table, Module.registry_disabling, List.contains_nil, Bool.not_false, List.filter_true]
  exact get?_merge_modules Module.all h rfl

theorem exists_module_of_mem_table {f : Native} {key : Bytes} (h : o.table.get? key = some f) :
    ∃ d : Module, d.name ∉ o.disabled ∧ (key, f) ∈ d.registry o := by
  rcases Table.mem_of_get?_merge h with hnil | hmem
  · cases hnil
  · obtain ⟨d, hd, hf⟩ := List.mem_flatMap.mp hmem
    exact ⟨d, by simpa using (List.mem_filter.mp hd).2, hf⟩

/-- The functions of a disabled module are not known under any name. -/
theorem get?_table_of_mem (h : target.module ∈ o.disabled) : o.table.get? target.key = none := by
  by_contra hne
  obtain ⟨f, hf⟩ := Option.ne_none_iff_exists'.mp hne
  obtain ⟨d, hd, hmem⟩ := exists_module_of_mem_table hf
  have hmodule := Module.module_eq_of_mem_names (List.mem_map_of_mem (f := Prod.fst) hmem)
  exact hd (hmodule ▸ h)

/-- A machine that knew no functions gets to know those of the library. -/
theorem registered (hknown : ∀ d ∈ o.disabled, Module.isKnown d = true) {m : Machine Native}
    (hready : m.state = .ready) (hnatives : m.natives = []) :
    o.registry.bind m.register = .ok (m.knowing o.table) := by
  have hfind : o.disabled.find? (!Module.isKnown ·) = none := by
    simpa using hknown
  rw [registry, hfind]
  simp only [Except.bind, Machine.register, hready, if_true, hnatives, table, Machine.knowing]

end LibraryOptions

/-! ### Hooks that do not see functions -/

/-- A hook that neither looks at the functions that a machine knows nor changes them. -/
def Hook.Blind (h : Hook σ ν) : Prop :=
  ∀ m t s, h (m.knowing t) s = (((h m s).1.1.knowing t, (h m s).1.2), (h m s).2)

namespace Console

theorem showQuoted_knowing (m : Machine ν) (t : Table ν) (vs : List Value) (s : Bytes) :
    showQuoted (m.knowing t) vs s
      = { showQuoted m vs s with machine := (showQuoted m vs s).machine.knowing t } := by
  have hheap : (m.knowing t).heap = m.heap := rfl
  rw [showQuoted, showQuoted, hheap]
  split
  · rfl
  · rfl

theorem exec_knowing (m : Machine ν) (t : Table ν) (line : Bytes) :
    exec (m.knowing t) line
      = { exec m line with machine := (exec m line).machine.knowing t } := by
  rw [exec, exec]
  split
  · rfl
  · rfl
  · rename_i c hread
    cases c with
    | showVariable name =>
        have hlookup : (m.knowing t).lookup name = m.lookup name := rfl
        simp only [perform, hlookup]
        cases m.lookup name with
        | some v => exact showQuoted_knowing m t _ _
        | none => rfl
    | listVariables | showStacks => exact showQuoted_knowing m t _ _
    | goto label =>
        have htarget : (m.knowing t).target label = m.target label := rfl
        simp only [perform, Machine.jump, htarget]
        cases m.target label with
        | ok i => rfl
        | error e => rfl
    | help => simp only [perform]
    | _ => rfl

theorem dialogue_knowing (fuel : Nat) (reader : Input) (m : Machine ν) (t : Table ν) :
    dialogue fuel reader (m.knowing t)
      = (((dialogue fuel reader m).1.1.knowing t, (dialogue fuel reader m).1.2),
        (dialogue fuel reader m).2) := by
  induction fuel generalizing reader m with
  | zero => rfl
  | succ fuel ih =>
      simp only [dialogue, exec_knowing, Machine.print_knowing]
      cases reader.readCommand? with
      | none => rfl
      | some p =>
          dsimp only
          split
          · rfl
          · exact ih _ _
          · rfl
          · exact ih _ _

theorem blind_hook : Hook.Blind (hook : Hook Unit ν) := by
  intro m t s
  have hdialogue := dialogue_knowing (m.input.unread.length + 1) m.input.reopen
    (m.print (text "breakpoint at " ++ Bytes.ofInt m.pc ++ [0x0A])) t
  exact congrArg (fun r : (Machine ν × Input) × Except Failure Unit =>
    (({ r.1.1 with input := r.1.1.input.close r.1.2 }, ()), r.2)) hdialogue

end Console

/-! ### Two machines that know different functions -/

namespace Machine

/-- Machines that differ in the functions that they know, each of them knowing those of a table. -/
def Twins (t t' : Table ν) (m m' : Machine ν) : Prop := m.natives = t ∧ m' = m.knowing t'

/-- The same result of machines that are related, along with the state of a hook. -/
def SameEnd {ρ : Type} (R : Machine ν → Machine ν → Prop) (x y : (Machine ν × σ) × ρ) : Prop :=
  R x.1.1 y.1.1 ∧ x.1.2 = y.1.2 ∧ x.2 = y.2

section Twins

variable {t t' : Table ν} {m m' : Machine ν}

theorem likeness_twins : Likeness (Twins t t') where
  bare_eq h := by rw [h.2]; rfl
  backed h k := ⟨h.1, by rw [h.2]; rfl⟩
  noted h e := ⟨h.1, by rw [h.2]; rfl⟩

theorem SameEnd.exists {ρ : Type} {x y : (Machine ν × σ) × ρ} (h : SameEnd (Twins t t') x y) :
    ∃ k s r, x = ((k, s), r) ∧ y = ((k.knowing t', s), r) ∧ k.natives = t := by
  obtain ⟨⟨k, s⟩, r⟩ := x
  obtain ⟨⟨k', s'⟩, r'⟩ := y
  obtain ⟨⟨hk, rfl⟩, rfl, rfl⟩ := h
  exact ⟨k, s, r, rfl, rfl, hk⟩

theorem same_pause {hook : Option (Hook σ ν)} (hhook : ∀ h ∈ hook, h.Blind) (hm : m.natives = t)
    (s : σ) : SameEnd (Twins t t') (m.pause hook s) ((m.knowing t').pause hook s) := by
  have hflag : (m.knowing t').pauseRequested = m.pauseRequested := rfl
  simp only [pause, hflag]
  split
  · cases hook with
    | none => exact ⟨⟨hm, rfl⟩, rfl, rfl⟩
    | some h =>
        have hblind := hhook h rfl
        let k := ({ m with pauseRequested := false }).note (.breakpoint m.pc)
        -- what a hook leaves known is what was known
        have hkept : (h k s).1.1.natives = t :=
          (congrArg (fun r => r.1.1.natives) (hblind k k.natives s)).trans hm
        change SameEnd _ (h k s) (h (k.knowing t') s)
        rw [hblind k t' s]
        exact ⟨⟨hkept, rfl⟩, rfl, rfl⟩
  · exact ⟨⟨hm, rfl⟩, rfl, rfl⟩

end Twins

section Turns

variable {t t' : Table Native} {m : Machine Native} {st : Statement} {host : Host Native}
  {hook : Option (Hook σ Native)} {gas : Int}

theorem same_turn (hhook : ∀ h ∈ hook, h.Blind)
    (haccord : ∀ target, Attempts m st.action target → Accord (Twins t t') host target)
    (hm : m.natives = t) (s : σ) :
    SameEnd (Twins t t') (m.turn Native.host hook gas st s)
      ((m.knowing t').turn host hook gas st s) := by
  have hgas : (m.knowing t').exhausted gas = m.exhausted gas := rfl
  have hstep : Same (Twins t t') (m.step Native.host st) ((m.knowing t').step host st) :=
    same_step likeness_twins st haccord ⟨hm, rfl⟩
  obtain ⟨k, k', r, hk, hk', hrel⟩ := hstep.exists
  obtain ⟨hnatives, rfl⟩ := hrel
  simp only [turn, hgas, hk, hk']
  split
  · exact ⟨⟨hm, rfl⟩, rfl, rfl⟩
  · cases r with
    | error e => exact ⟨⟨hnatives, rfl⟩, rfl, rfl⟩
    | ok u => exact same_pause hhook hnatives s

/-! ### Attempts that fail -/

theorem exec_of_callSite_error {a : Action} {target : CallTarget} {args : List Operand}
    {m' : Machine Native} {e : Failure} (ha : a.nativeCall? = some (target, args))
    (h : m.callSite host target args = (m', .error e)) : m.exec host a = (m', .error e) := by
  cases a with
  | assignCall name _ _ | call _ _ =>
      obtain ⟨rfl, rfl⟩ := Prod.mk.inj (Option.some.inj ha)
      simp only [exec, h]
  | _ => cases ha

/-- An attempt to call a function that is not known changes nothing but the notes. -/
theorem exec_of_attempt {a : Action} {target : CallTarget} (h : Attempts m a target)
    (hmissing : m.natives.get? target.key = none) :
    ∃ j, m.exec Native.host a
      = ({ m with journal := j }, .error (.fault (.functionNotFound target.key))) := by
  cases h with
  | direct ha hvs =>
      exact ⟨m.journal, exec_of_callSite_error ha (callSite_of_missing Native.host hvs hmissing)⟩
  | @mapped outer _ args vs items collect ha hvs hmap hmapping hitems =>
      obtain ⟨v, rest, rfl⟩ := List.exists_cons_of_ne_nil hitems
      have hrun : Native.host.run (callWithin Native.host 0) (.map collect)
          (args.map argumentName) vs m
            = (m, .error (.fault (.functionNotFound target.key))) := by
        change Native.runMap _ collect vs m = _
        simp only [Native.runMap, hmapping, Native.callEach, callWithin,
          dispatch_of_missing _ hmissing]
      refine ⟨(m.noteFailure outer.key (.fault (.functionNotFound target.key))).journal,
        exec_of_callSite_error ha ?_⟩
      rw [callSite, hvs]
      simp only [call, callWithin, dispatch, hmap] at hrun ⊢
      rw [hrun]
      rfl

theorem step_of_attempt {target : CallTarget} (h : Attempts m st.action target)
    (hmissing : m.natives.get? target.key = none) :
    ∃ j, m.step Native.host st = ({ m with steps := m.steps + 1, journal := j },
      .error (.anchored [] (anchorFault st (.functionNotFound target.key)))) := by
  have hcounted : Attempts (m.counted st) st.action target := h.congr rfl rfl rfl
  obtain ⟨j, hexec⟩ := exec_of_attempt hcounted hmissing
  exact ⟨j, step_of_exec_error hexec⟩

/-! ### Turns -/

/-- The next statement attempts to call a function of one of some modules. -/
def CallsInto (modules : List Bytes) (m : Machine Native) : Prop :=
  ∃ st target, m.current? = some st ∧ m.Attempts st.action target ∧ target.module ∈ modules

/-- A run comes to an attempt to call a function of one of some modules and stops there, because the
function is not found.  Nothing is changed by the attempt but the number of steps and the notes. -/
structure StopsAt (modules : List Bytes) (now last : Machine Native) (o : Outcome) : Prop where
  last_eq : last = { now with steps := now.steps + 1, state := last.state, journal := last.journal }
  outcome_eq : ∃ st target, now.current? = some st ∧ now.Attempts st.action target ∧
    target.module ∈ modules ∧
    o = .failed (.anchored [] (anchorFault st (.functionNotFound target.key)))

theorem StopsAt.halt {modules : List Bytes} {now last : Machine Native} {o : Outcome}
    (h : StopsAt modules now last o) : StopsAt modules now (last.halt o) o := by
  refine ⟨?_, h.outcome_eq⟩
  obtain ⟨st, target, -, -, -, rfl⟩ := h.outcome_eq
  simp only [Machine.halt, reduceCtorEq, if_false]
  rw [h.last_eq]

/-- A table of functions without those of some modules, and a full one. -/
structure Cut (modules : List Bytes) (t t' : Table Native) : Prop where
  missing {target : CallTarget} (h : target.module ∈ modules) : t.get? target.key = none
  others {target : CallTarget} (h : target.module ∉ modules) :
    t.get? target.key = t'.get? target.key

theorem turn_of_callsInto {modules : List Bytes} (hook : Option (Hook σ Native))
    (hcut : Cut modules t t') (hm : m.natives = t) (hgas : m.exhausted gas = false)
    (h : CallsInto modules m) (s : σ) :
    ∃ st last e, m.current? = some st ∧ m.turn Native.host hook gas st s = ((last, s), .error e) ∧
      StopsAt modules m last (.failed e) := by
  obtain ⟨st, target, hcurrent, hattempt, hmodule⟩ := h
  obtain ⟨j, hstep⟩ := step_of_attempt hattempt (hm ▸ hcut.missing hmodule)
  refine ⟨st, { m with steps := m.steps + 1, journal := j }, _, hcurrent, ?_, rfl, st, target,
    hcurrent, hattempt, hmodule, rfl⟩
  simp [turn, hgas, hstep]

theorem accord_of_not_callsInto {modules : List Bytes} (hcut : Cut modules t t')
    (hcurrent : m.current? = some st) (h : ¬ CallsInto modules m) (target : CallTarget)
    (hattempt : Attempts m st.action target) : Accord (Twins t t') Native.host target := by
  rintro k _ ⟨hk, rfl⟩
  have hother : target.module ∉ modules := fun hmodule =>
    h ⟨st, target, hcurrent, hattempt, hmodule⟩
  exact ⟨hk ▸ hcut.others hother, fun _ _ _ => rfl⟩

/-- Turns of a machine, and of the same one that knows other functions, pass through the same states
to the same end, and never attempt to call a function of one of some modules. -/
structure Together (modules : List Bytes) (t' : Table Native) (hook : Option (Hook σ Native))
    (gas : Int) (n : Nat) (m : Machine Native) (s : σ) : Prop where
  quiet : ∀ k ∈ history Native.host hook gas n m s, ¬ k.CallsInto modules
  states : history Native.host hook gas n (m.knowing t') s
    = (history Native.host hook gas n m s).map (·.knowing t')
  ends : SameEnd (Twins m.natives t') (m.turns Native.host hook gas n s)
    ((m.knowing t').turns Native.host hook gas n s)

/-- Turns of a machine stop at the first attempt to call a function of one of some modules.  Up to
there the same machine that knows other functions passes through the same states. -/
def CutOff (modules : List Bytes) (t' : Table Native) (hook : Option (Hook σ Native)) (gas : Int)
    (n : Nat) (m : Machine Native) (s : σ) : Prop :=
  ∃ before now after, history Native.host hook gas n m s = before ++ [now] ∧
    (∀ k ∈ before, ¬ k.CallsInto modules) ∧
    history Native.host hook gas n (m.knowing t') s
      = (before ++ [now]).map (·.knowing t') ++ after ∧
    StopsAt modules now (m.turns Native.host hook gas n s).1.1
      (m.turns Native.host hook gas n s).2

section Cut

variable {modules : List Bytes} {n : Nat} {s : σ}

theorem together_of_idle {o : Outcome} (hstates : history Native.host hook gas n m s = [])
    (hstates' : history Native.host hook gas n (m.knowing t') s = [])
    (hturns : m.turns Native.host hook gas n s = ((m, s), o))
    (hturns' : (m.knowing t').turns Native.host hook gas n s = ((m.knowing t', s), o)) :
    Together modules t' hook gas n m s where
  quiet := by simp [hstates]
  states := by simp [hstates, hstates']
  ends := by
    rw [hturns, hturns']
    exact ⟨⟨rfl, rfl⟩, rfl, rfl⟩

/-- A turn that calls for no function of the modules, and those after it. -/
theorem together_or_cutOff_succ (hcurrent : m.current? = some st) (hgas : m.exhausted gas = false)
    (hquiet : ¬ CallsInto modules m)
    (hturn : SameEnd (Twins m.natives t') (m.turn Native.host hook gas st s)
      ((m.knowing t').turn Native.host hook gas st s))
    (hmore : ∀ k s', k.natives = m.natives →
      Together modules t' hook gas n k s' ∨ CutOff modules t' hook gas n k s') :
    Together modules t' hook gas (n + 1) m s ∨ CutOff modules t' hook gas (n + 1) m s := by
  have hcurrent' : (m.knowing t').current? = some st := hcurrent
  have hgas' : (m.knowing t').exhausted gas = false := hgas
  obtain ⟨k, s', r, hk, hk', hnatives⟩ := hturn.exists
  cases r with
  | error e =>
      left
      have hstates : history Native.host hook gas (n + 1) m s = [m] := by
        rw [history_succ hcurrent hgas, hk]
      refine ⟨by simpa [hstates] using hquiet, ?_, ?_⟩
      · rw [hstates, history_succ hcurrent' hgas', hk']
        rfl
      · rw [turns_succ hcurrent, turns_succ hcurrent', hk, hk']
        exact ⟨⟨hnatives, rfl⟩, rfl, rfl⟩
  | ok u =>
      have hstates : history Native.host hook gas (n + 1) m s
          = m :: history Native.host hook gas n k s' := by rw [history_succ hcurrent hgas, hk]
      have hstates' : history Native.host hook gas (n + 1) (m.knowing t') s
          = m.knowing t' :: history Native.host hook gas n (k.knowing t') s' := by
        rw [history_succ hcurrent' hgas', hk']
      have hturns : m.turns Native.host hook gas (n + 1) s = k.turns Native.host hook gas n s' := by
        rw [turns_succ hcurrent, hk]
      rcases hmore k s' hnatives with h | ⟨before, now, after, hnow, hbefore, hafter, hstop⟩
      · left
        refine ⟨?_, ?_, ?_⟩
        · rw [hstates]
          exact List.forall_mem_cons.mpr ⟨hquiet, h.quiet⟩
        · rw [hstates, hstates', h.states]
          rfl
        · rw [hturns, turns_succ hcurrent', hk', ← hnatives]
          exact h.ends
      · right
        refine ⟨m :: before, now, after, ?_, List.forall_mem_cons.mpr ⟨hquiet, hbefore⟩, ?_, ?_⟩
        · rw [hstates, hnow]
          rfl
        · rw [hstates', hafter]
          rfl
        · rw [hturns]
          exact hstop

/-- A turn that calls for a function of the modules is the last one. -/
theorem cutOff_of_callsInto (hcut : Cut modules m.natives t') (hgas : m.exhausted gas = false)
    (h : CallsInto modules m) : CutOff modules t' hook gas (n + 1) m s := by
  obtain ⟨st, last, e, hcurrent, hturn, hstop⟩ := turn_of_callsInto hook hcut rfl hgas h s
  have hcurrent' : (m.knowing t').current? = some st := hcurrent
  have hgas' : (m.knowing t').exhausted gas = false := hgas
  obtain ⟨after, hafter⟩ : ∃ after,
      history Native.host hook gas (n + 1) (m.knowing t') s = m.knowing t' :: after :=
    ⟨_, history_succ hcurrent' hgas' n s⟩
  refine ⟨[], m, after, ?_, by simp, hafter, ?_⟩
  · rw [history_succ hcurrent hgas, hturn]
    rfl
  · rw [turns_succ hcurrent, hturn]
    exact hstop

/-- Turns of two machines, of which one knows no functions of some modules: they are the same for
both, unless a function of these modules is called for. -/
theorem turns_cut (hhook : ∀ h ∈ hook, h.Blind) (hcut : Cut modules t t') (hm : m.natives = t)
    (n : Nat) (s : σ) :
    Together modules t' hook gas n m s ∨ CutOff modules t' hook gas n m s := by
  induction n generalizing m s with
  | zero =>
      left
      cases hcurrent : m.current? with
      | none =>
          exact together_of_idle rfl rfl (turns_of_current?_none hcurrent 0 s)
            (turns_of_current?_none (m := m.knowing t') hcurrent 0 s)
      | some st =>
          exact together_of_idle rfl rfl (turns_zero hcurrent s)
            (turns_zero (m := m.knowing t') hcurrent s)
  | succ n ih =>
      cases hcurrent : m.current? with
      | none =>
          have hcurrent' : (m.knowing t').current? = none := hcurrent
          left
          exact together_of_idle (by simp [history, hcurrent]) (by simp [history, hcurrent'])
            (turns_of_current?_none hcurrent (n + 1) s) (turns_of_current?_none hcurrent' (n + 1) s)
      | some st =>
          have hcurrent' : (m.knowing t').current? = some st := hcurrent
          cases hgas : m.exhausted gas with
          | true =>
              have hgas' : (m.knowing t').exhausted gas = true := hgas
              left
              exact together_of_idle (by simp [history, hcurrent, hgas])
                (by simp [history, hcurrent', hgas']) (turns_of_exhausted hgas hcurrent n)
                (turns_of_exhausted hgas' hcurrent' n)
          | false =>
              by_cases hinto : CallsInto modules m
              · exact .inr (cutOff_of_callsInto (hm ▸ hcut) hgas hinto)
              · have haccord := accord_of_not_callsInto hcut hcurrent hinto
                subst hm
                exact together_or_cutOff_succ hcurrent hgas hinto (same_turn hhook haccord rfl s)
                  fun k s' hk => ih hk s'

end Cut

/-- Turns of a machine whose functions all do what they do in the library, whatever others do. -/
theorem turns_of_foreign (hhook : ∀ h ∈ hook, h.Blind)
    (hforeign : ∀ key f, t.get? key = some f → ∀ caller, host.run caller f = Native.run caller f)
    (hm : m.natives = t) (n : Nat) (s : σ) :
    m.turns host hook gas n s = m.turns Native.host hook gas n s := by
  induction n generalizing m s with
  | zero =>
      cases hcurrent : m.current? with
      | none => rw [turns_of_current?_none hcurrent, turns_of_current?_none hcurrent]
      | some st => rw [turns_zero hcurrent, turns_zero hcurrent]
  | succ n ih =>
      cases hcurrent : m.current? with
      | none => rw [turns_of_current?_none hcurrent, turns_of_current?_none hcurrent]
      | some st =>
          have haccord : ∀ target, Attempts m st.action target →
              Accord (Twins t t) host target := by
            rintro target - k _ ⟨hk, rfl⟩
            exact ⟨hk ▸ rfl, fun f hf => hforeign target.key f (hk ▸ hf)⟩
          obtain ⟨k, s', r, hk, hk', hnatives⟩ := (same_turn hhook haccord hm s).exists
          rw [knowing_of_natives hm, knowing_of_natives hnatives] at hk'
          rw [turns_succ hcurrent, turns_succ hcurrent, hk, hk']
          cases r with
          | error e => rfl
          | ok u => exact ih hnatives s'

end Turns

/-! ### Runs -/

/-- What a machine that has not run knows once it runs: the function that shows values is always
known then. -/
def running (t : Table Native) : Table Native :=
  if t.has (text "vm:debug") then t else t.insert (text "vm:debug") .debug

theorem get?_running (t : Table Native) (key : Bytes) :
    (running t).get? key =
      if key = text "vm:debug" then some ((t.get? key).getD .debug) else t.get? key := by
  rw [running]
  by_cases hkey : key = text "vm:debug"
  · subst hkey
    split
    · rename_i hhas
      obtain ⟨f, hf⟩ := Option.isSome_iff_exists.mp hhas
      simp [hf]
    · rename_i hhas
      have hnone : t.get? (text "vm:debug") = none := by simpa [Table.has] using hhas
      simp [hnone]
  · split
    · simp
    · simp [Table.get?_insert, Ne.symm hkey]

theorem key_ne_debug {target : CallTarget} (hknown : Module.isKnown target.module = true) :
    target.key ≠ text "vm:debug" := by
  intro hkey
  have hdebug : text "vm:debug" = text "vm" ++ 0x3A :: text "debug" := by decide
  have hparts : text "vm" ++ 0x3A :: text "debug" = target.module ++ 0x3A :: target.function := by
    rw [← hdebug, ← hkey]
    simp [CallTarget.key]
  have hmodule := ((List.append_cons_inj_of_notMem (by decide) (by decide)).mp hparts).1
  rw [← hmodule] at hknown
  exact absurd hknown (by decide)

section Runs

variable {o : LibraryOptions} {disabled : List Bytes}

theorem cut_running (hknown : ∀ d ∈ disabled, Module.isKnown d = true) :
    Cut disabled (running ({ o with disabled }).table)
      (running ({ o with disabled := [] }).table) where
  missing h := by
    rw [get?_running, if_neg (key_ne_debug (hknown _ h))]
    exact LibraryOptions.get?_table_of_mem h
  others h := by
    rw [get?_running, get?_running, LibraryOptions.get?_table_of_notMem h]

/-- No function of a disabled module is known. -/
theorem notMem_functions_of_running {key : Bytes} {f : Native} {d : Module}
    (h : (running ({ o with disabled }).table).get? key = some f) (hd : d.name ∈ disabled)
    (name : Bytes) : (name, f) ∉ d.functions o := by
  intro hmem
  have hhome : f.home? = some d := (Module.belongs_of_mem hmem).1
  rw [get?_running] at h
  have hget : ({ o with disabled }).table.get? key = some f := by
    split at h
    · cases hf : ({ o with disabled }).table.get? key with
      | some g => rwa [hf] at h
      | none =>
          rw [hf] at h
          obtain rfl := Option.some.inj h
          cases hhome
    · exact h
  obtain ⟨d', hd', hmem'⟩ := LibraryOptions.exists_module_of_mem_table hget
  obtain rfl := Option.some.inj ((Module.home?_of_mem_registry hmem').symm.trans hhome)
  exact hd' hd

theorem run_knowing {host : Host Native} {hook : Option (Hook σ Native)} {gas : Int}
    {m : Machine Native} (hready : m.state = .ready) (hdebug : host.debug = .debug)
    (t : Table Native) (n : Nat) (s : σ) :
    (m.knowing t).run host hook gas n s
      = halted (((m.start host).knowing (running t)).turns host hook gas n s) := by
  rw [run_of_ready (m := m.knowing t) hready, running, ← hdebug]
  rfl

theorem halt_knowing (m : Machine ν) (t : Table ν) (e : Outcome) :
    (m.knowing t).halt e = (m.halt e).knowing t := by
  rw [halt, halt]
  split
  · rfl
  · rfl

/-- Disabling modules only cuts runs short.  A machine that gets to know the functions of the
library without some modules passes through the states of the machine that gets to know them all,
with the same output and at last with the same result, unless it comes to an attempt to call a
function of one of these modules: there it stops, because the function is not found.  No function of
these modules is ever executed: whatever they did, its run would be the same. -/
theorem disabling_only_cuts_runs_short (o : LibraryOptions) (disabled : List Bytes)
    (hknown : ∀ d ∈ disabled, Module.isKnown d = true) (hook : Option (Hook σ Native))
    (hhook : ∀ h ∈ hook, h.Blind) (m : Machine Native) (hready : m.state = .ready)
    (hnatives : m.natives = []) (gas : Int) (s : σ) :
    ∃ cut full : Machine Native,
      ({ o with disabled }).registry.bind m.register = .ok cut ∧
      ({ o with disabled := [] }).registry.bind m.register = .ok full ∧
      (∀ n,
        let states := fun k : Machine Native =>
          (k.start Native.host).history Native.host hook gas n s
        let result := fun k : Machine Native => k.run Native.host hook gas n s
        (∀ k ∈ states cut, ¬ k.CallsInto disabled) ∧
          (states full).map (·.knowing []) = (states cut).map (·.knowing []) ∧
          (result full).1.1.knowing [] = (result cut).1.1.knowing [] ∧
          (result full).1.2 = (result cut).1.2 ∧ (result full).2 = (result cut).2 ∨
        ∃ before now after, states cut = before ++ [now] ∧
          (∀ k ∈ before, ¬ k.CallsInto disabled) ∧
          (states full).map (·.knowing []) = (before ++ [now]).map (·.knowing []) ++ after ∧
          StopsAt disabled now (result cut).1.1 (result cut).2) ∧
      ∀ behaviour,
        (∀ f, (∀ d : Module, d.name ∈ disabled → ∀ name, (name, f) ∉ d.functions o) →
          ∀ caller, behaviour caller f = Native.run caller f) →
        ∀ n, cut.run ⟨behaviour, .debug⟩ hook gas n s = cut.run Native.host hook gas n s := by
  have hcut := cut_running (o := o) hknown
  refine ⟨m.knowing ({ o with disabled }).table, m.knowing ({ o with disabled := [] }).table,
    LibraryOptions.registered hknown hready hnatives,
    LibraryOptions.registered (by simp) hready hnatives, fun n => ?_,
    fun behaviour hforeign n => ?_⟩
  · intro states result
    let k := (m.start Native.host).knowing (running ({ o with disabled }).table)
    have hself : k.knowing (running ({ o with disabled }).table) = k := rfl
    have hresult : ∀ t, result (m.knowing t)
        = halted ((k.knowing (running t)).turns Native.host hook gas n s) :=
      fun t => run_knowing hready rfl t n s
    rw [hresult, hresult, hself]
    rcases turns_cut (m := k) hhook hcut rfl n s with ⟨hquiet, hsame, hend⟩ |
      ⟨before, now, after, hcutStates, hquiet, hfullStates, hstop⟩
    · left
      obtain ⟨last, s', e, hlast, hlast', hnatives⟩ := hend.exists
      refine ⟨hquiet, ?_, ?_⟩
      · exact (congrArg (List.map (·.knowing [])) hsame).trans List.map_map
      · rw [hlast, hlast']
        exact ⟨congrArg (·.knowing []) (halt_knowing last _ e), rfl, rfl⟩
    · right
      refine ⟨before, now, after.map (·.knowing []), hcutStates, hquiet, ?_, ?_⟩
      · refine (congrArg (List.map (·.knowing [])) hfullStates).trans ?_
        rw [List.map_append, List.map_map]
        rfl
      · exact hstop.halt
  · have hknows : ∀ key f, (running ({ o with disabled }).table).get? key = some f →
        ∀ caller, behaviour caller f = Native.run caller f :=
      fun key f hf => hforeign f fun d hd => notMem_functions_of_running hf hd
    rw [run_knowing hready rfl, run_knowing hready rfl, turns_of_foreign hhook hknows rfl]
    rfl

end Runs

/-- Prints the elements of an array by a function of a module whose name is put together first. -/
def printsByName : Machine Native where
  program :=
    #[atLine 1 (.assignCall (text "m") ⟨text "string", text "concat"⟩
        [.str (text "i"), .str (text "o")]),
      atLine 2 (.call ⟨text "std", text "mapdrop"⟩
        [.variable (text "m"), .str (text "print"), .variable (text "a")])]
  bindings := [(text "a", .array ⟨1⟩)]
  heap := ⟨#[#[.int 1, .int 2]]⟩

/-- Without the module the run stops at its second statement; with it the elements are printed. -/
theorem disabling_only_cuts_runs_short_computedName :
    (∀ d ∈ [text "io"], Module.isKnown d = true) ∧
    ∃ cut full : Machine Native,
      ({ disabled := [text "io"] } : LibraryOptions).registry.bind printsByName.register = .ok cut ∧
      ({} : LibraryOptions).registry.bind printsByName.register = .ok full ∧
      (full.run Native.host (some Console.hook) 0 2 ()).1.1.printed = text "12" ∧
      ∃ before now,
        (cut.start Native.host).history Native.host (some Console.hook) 0 2 () = before ++ [now] ∧
        let stopped := cut.run Native.host (some Console.hook) 0 2 ()
        StopsAt [text "io"] now stopped.1.1 stopped.2 := by
  have hknown : ∀ d ∈ [text "io"], Module.isKnown d = true := by decide +kernel
  have hblind : ∀ h ∈ (some Console.hook : Option (Hook Unit Native)), h.Blind := by
    simpa using Console.blind_hook
  obtain ⟨cut, full, hcut, hfull, hruns, -⟩ := disabling_only_cuts_runs_short {} [text "io"] hknown
    (some Console.hook) hblind printsByName rfl rfl 0 ()
  have hprinted : (full.run Native.host (some Console.hook) 0 2 ()).1.1.printed = text "12" := by
    obtain rfl := Except.ok.inj (hfull.symm.trans (LibraryOptions.registered (by simp) rfl rfl))
    decide +kernel
  have hsilent : (cut.run Native.host (some Console.hook) 0 2 ()).1.1.printed = [] := by
    obtain rfl := Except.ok.inj (hcut.symm.trans (LibraryOptions.registered hknown rfl rfl))
    decide +kernel
  refine ⟨hknown, cut, full, hcut, hfull, hprinted, ?_⟩
  rcases hruns 2 with ⟨-, -, hsame, -⟩ | ⟨before, now, -, hstates, -, -, hstop⟩
  · -- the runs print different texts, so they do not have the same result
    have hboth := congrArg printed hsame
    change (full.run Native.host (some Console.hook) 0 2 ()).1.1.printed
      = (cut.run Native.host (some Console.hook) 0 2 ()).1.1.printed at hboth
    rw [hprinted, hsilent] at hboth
    exact absurd hboth (by decide)
  · exact ⟨before, now, hstates, hstop⟩

end Machine

end JumpScript
