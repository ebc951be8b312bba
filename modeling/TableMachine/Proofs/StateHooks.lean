import TableMachine.Proofs.Outcome
import TableMachine.Samples.Turnstile

/-!
# Which actions a state is entered and left with

The hooks of a draft grow by what each definition contributes to them, once for every time that a
state is named in the definition (`Hooks.of_map`). Nothing else that a table is put together from
touches them, and compilation carries them over into the table as they are. Entry and exit are
treated alike: all that is used of them is said by `Draft.Contributed`.

**Main statements.** The actions of a state are those of the definitions that name it, in order
(`Draft.Contributed.of_ofSteps`), and the same holds of the table that the draft compiles into
(`DispatchTable.hooks_of_steps`). To extend a draft by another gives each state the same actions as
to attach those of the other state by state, in whatever order (`Draft.extend_byState`).
-/

namespace TableMachine

variable {σ ε χ ω : Type}

/-! ## The actions of a state -/

namespace Hooks

variable [DecidableEq σ]

theorem of_append (hooks hooks' : Hooks σ ε χ ω) (state : σ) :
    Hooks.of (hooks ++ hooks') state = Hooks.of hooks state ++ Hooks.of hooks' state :=
  List.flatMap_append

theorem of_cons (s : σ) (actions : List (Action ε χ ω)) (hooks : Hooks σ ε χ ω) (state : σ) :
    Hooks.of ((s, actions) :: hooks) state =
      (if s = state then actions else []) ++ Hooks.of hooks state :=
  List.flatMap_cons

/-- Actions attached to several states belong to each of these as often as it is named. -/
theorem of_map (states : List σ) (actions : List (Action ε χ ω)) (state : σ) :
    Hooks.of (states.map fun s => (s, actions)) state =
      (List.replicate (states.count state) actions).flatten := by
  induction states with
  | nil => rfl
  | cons s rest ih =>
    rw [List.map_cons, of_cons, ih]
    by_cases h : s = state
    · rw [if_pos h, h, List.count_cons_self, List.replicate_succ, List.flatten_cons]
    · rw [if_neg h, List.count_cons_of_ne h, List.nil_append]

/-- A state to which nothing is attached has no actions. -/
theorem of_eq_nil {hooks : Hooks σ ε χ ω} {state : σ} (h : ∀ hook ∈ hooks, hook.1 ≠ state) :
    Hooks.of hooks state = [] := by
  refine List.flatMap_eq_nil_iff.2 fun hook hhook => ?_
  exact if_neg (h hook hhook)

/-- To take hooks over state by state, in whatever order, comes to the same as to take them over as
they stand. -/
theorem of_append_byState (hooks hooks' : Hooks σ ε χ ω) {order : List σ} (once : order.Nodup)
    (all : ∀ hook ∈ hooks', hook.1 ∈ order) (state : σ) :
    Hooks.of (hooks ++ order.map fun s => (s, Hooks.of hooks' s)) state =
      Hooks.of (hooks ++ hooks') state := by
  rw [of_append, of_append]
  congr 1
  have others : ∀ rest : List σ, state ∉ rest →
      Hooks.of (rest.map fun s => (s, Hooks.of hooks' s)) state = [] := by
    intro rest hrest
    refine of_eq_nil fun hook hhook => ?_
    obtain ⟨s, hs, rfl⟩ := List.mem_map.1 hhook
    exact fun e => hrest (e ▸ hs)
  by_cases h : state ∈ order
  · obtain ⟨before, after, rfl⟩ := List.append_of_mem h
    obtain ⟨-, hafter, apart⟩ := List.nodup_append.1 once
    have hbefore : state ∉ before := fun hs => apart state hs state List.mem_cons_self rfl
    rw [List.map_append, List.map_cons, of_append, of_cons, others before hbefore,
      others after (List.nodup_cons.1 hafter).1, if_pos rfl, List.nil_append, List.append_nil]
  · have none : ∀ hook ∈ hooks', hook.1 ≠ state := fun hook hhook e => h (e ▸ all hook hhook)
    rw [of_eq_nil none]
    exact others order h

end Hooks

/-! ## The hooks of a draft -/

namespace Draft

/-- Hooks attached one after another are added in order. -/
theorem hooks_foldl_attach (hooks : Draft σ ε χ ω → Hooks σ ε χ ω)
    (attach : Draft σ ε χ ω → σ → List (Action ε χ ω) → Draft σ ε χ ω)
    (attached : ∀ d state actions, hooks (attach d state actions) = hooks d ++ [(state, actions)])
    (d : Draft σ ε χ ω) (order : List σ) (own : σ → List (Action ε χ ω)) :
    hooks (order.foldl (fun d state => attach d state (own state)) d) =
      hooks d ++ order.map fun state => (state, own state) := by
  induction order generalizing d with
  | nil => exact (List.append_nil _).symm
  | cons state rest ih =>
    rw [List.foldl_cons, ih, attached, List.append_assoc, List.map_cons, List.singleton_append]

/-- To extend a draft gives each state the same actions as to attach those of the other draft state
by state, in whatever order. -/
theorem extend_byState [DecidableEq σ] (d other : Draft σ ε χ ω) {order : List σ}
    (once : order.Nodup) (entered : ∀ hook ∈ other.entry, hook.1 ∈ order)
    (left : ∀ hook ∈ other.exit, hook.1 ∈ order) (state : σ) :
    Hooks.of (order.foldl (fun d s => d.onEntry s (Hooks.of other.entry s)) d).entry state =
        Hooks.of (d.extend other).entry state ∧
      Hooks.of (order.foldl (fun d s => d.onExit s (Hooks.of other.exit s)) d).exit state =
        Hooks.of (d.extend other).exit state := by
  constructor
  · rw [hooks_foldl_attach entry onEntry fun _ _ _ => rfl]
    exact Hooks.of_append_byState _ _ once entered state
  · rw [hooks_foldl_attach exit onExit fun _ _ _ => rfl]
    exact Hooks.of_append_byState _ _ once left state

/-- The definition that a step adds, if it adds one. -/
def Step.definition? : Step σ ε χ ω → Option (StateDefinition σ ε χ ω)
  | define definition => some definition
  | row _ => none

/-- The definitions among the steps, in order. -/
def definitions (steps : List (Step σ ε χ ω)) : List (StateDefinition σ ε χ ω) :=
  steps.filterMap Step.definition?

/-- One of the hooks of drafts, together with what a definition contributes to it for each of its
states. -/
structure Contributed (hooks : Draft σ ε χ ω → Hooks σ ε χ ω)
    (actions : StateDefinition σ ε χ ω → List (Action ε χ ω)) : Prop where
  /-- At first there are no hooks. -/
  start : hooks {} = []
  /-- A definition contributes to each of its states. -/
  define : ∀ d definition,
    hooks (take d (.define definition)) =
      hooks d ++ definition.states.map fun state => (state, actions definition)
  /-- A rule contributes nothing. -/
  row : ∀ d rule, hooks (take d (.row rule)) = hooks d

theorem contributed_entry :
    Contributed (σ := σ) (ε := ε) (χ := χ) (ω := ω) Draft.entry StateDefinition.entryActions :=
  ⟨rfl, fun _ _ => rfl, fun _ _ => rfl⟩

theorem contributed_exit :
    Contributed (σ := σ) (ε := ε) (χ := χ) (ω := ω) Draft.exit StateDefinition.exitActions :=
  ⟨rfl, fun _ _ => rfl, fun _ _ => rfl⟩

namespace Contributed

variable {hooks : Draft σ ε χ ω → Hooks σ ε χ ω}
  {actions : StateDefinition σ ε χ ω → List (Action ε χ ω)} [DecidableEq σ]

/-- What the definitions contribute to a state: the actions of each of them, once for every time
that it names the state. -/
def share (actions : StateDefinition σ ε χ ω → List (Action ε χ ω)) (state : σ)
    (definitions : List (StateDefinition σ ε χ ω)) : List (Action ε χ ω) :=
  definitions.flatMap fun d => (List.replicate (d.states.count state) (actions d)).flatten

/-- One step adds the share of its definition. -/
theorem of_take (h : Contributed hooks actions) (d : Draft σ ε χ ω) (step : Step σ ε χ ω)
    (state : σ) :
    Hooks.of (hooks (take d step)) state =
      Hooks.of (hooks d) state ++ share actions state step.definition?.toList := by
  cases step with
  | define definition =>
    rw [h.define, Hooks.of_append, Hooks.of_map]
    exact congrArg _ (List.append_nil _).symm
  | row rule =>
    rw [h.row]
    exact (List.append_nil _).symm

/-- Steps taken one after another add the shares of their definitions in order. -/
theorem of_foldl (h : Contributed hooks actions) (steps : List (Step σ ε χ ω)) (d : Draft σ ε χ ω)
    (state : σ) :
    Hooks.of (hooks (steps.foldl take d)) state =
      Hooks.of (hooks d) state ++ share actions state (definitions steps) := by
  induction steps generalizing d with
  | nil => exact (List.append_nil _).symm
  | cons step rest ih =>
    have parts : definitions (step :: rest) = step.definition?.toList ++ definitions rest := by
      cases step <;> rfl
    rw [List.foldl_cons, ih, h.of_take, parts, share, share, share, List.flatMap_append,
      List.append_assoc]

theorem of_ofSteps (h : Contributed hooks actions) (steps : List (Step σ ε χ ω)) (state : σ) :
    Hooks.of (hooks (ofSteps steps)) state = share actions state (definitions steps) := by
  rw [ofSteps, h.of_foldl, h.start]
  rfl

end Contributed

end Draft

/-! ## The hooks of a table -/

namespace DispatchTable

variable [DecidableEq σ] [DecidableEq ε]

/-- The actions on entry into a state of a compiled table, and those on exit from it, are put
together from the definitions in order. Each contributes, once for every time that it names the
state, its own actions and then those of the super-states that it adopts, which come with the
actions of the super-states that they adopt themselves before their own. -/
theorem hooks_of_steps {steps : List (Draft.Step σ ε χ ω)} {options : CompileOptions}
    {t : DispatchTable σ ε χ ω} (h : (Draft.ofSteps steps).compile options = .ok t) (state : σ) :
    t.entryActions state =
      (Draft.definitions steps).flatMap (fun d =>
        (List.replicate (d.states.count state)
          (d.entry ++ d.adopted.flatMap (SuperState.collect SuperState.ownEntry))).flatten) ∧
    t.exitActions state =
      (Draft.definitions steps).flatMap (fun d =>
        (List.replicate (d.states.count state)
          (d.exit ++ d.adopted.flatMap (SuperState.collect SuperState.ownExit))).flatten) ∧
    ∀ group adopted blocks entry exit,
      (SuperState.mk group adopted blocks entry exit : SuperState σ ε χ ω).collect
          SuperState.ownEntry =
        adopted.flatMap (SuperState.collect SuperState.ownEntry) ++ entry ∧
      (SuperState.mk group adopted blocks entry exit : SuperState σ ε χ ω).collect
          SuperState.ownExit =
        adopted.flatMap (SuperState.collect SuperState.ownExit) ++ exit := by
  obtain ⟨-, rfl⟩ := Draft.compile_eq_ok_iff.1 h
  refine ⟨?_, ?_, fun group adopted blocks entry exit => ⟨?_, ?_⟩⟩
  · refine (Draft.contributed_entry.of_ofSteps steps state).trans ?_
    simp only [Draft.Contributed.share, StateDefinition.entryActions, SuperState.entryOf,
      SuperState.collectAll_eq_flatMap]
  · refine (Draft.contributed_exit.of_ofSteps steps state).trans ?_
    simp only [Draft.Contributed.share, StateDefinition.exitActions, SuperState.exitOf,
      SuperState.collectAll_eq_flatMap]
  · exact SuperState.collect_eq _ _
  · exact SuperState.collect_eq _ _

end DispatchTable

namespace Turnstile

/-- What every turnstile in a station has: a lamp, and around the lamp a horn. -/
def fittings : SuperState Gate Input Unit Notes :=
  .mk 2 [.mk 1 [] [] [note "lamp"] []]
    [.transition { events := [.reset], next? := some .locked, location := here 25 }]
    [note "horn"] [note "hush"]

/-- The locked turnstile defined twice over, the first time under two names of one state. -/
def station : List (Draft.Step Gate Input Unit Notes) := [
  .define {
    states := [.locked, .locked], adopted := [fittings], entry := [note "lock"],
    location := here 26 },
  .row { state := .locked, event := .coin, next := .unlocked, location := here 27 },
  .define {
    states := [.unlocked, .locked], adopted := [fittings], entry := [note "click"],
    location := here 28 }]

/-- On entry into the locked turnstile all fittings go off three times. -/
theorem station_locked_entry :
    ∃ t, (Draft.ofSteps station).compile {} = .ok t ∧
      (Action.runChain .sync Input.reset (t.entryActions .locked) []).2 =
        ["lock", "lamp", "horn", "lock", "lamp", "horn", "click", "lamp", "horn"] ∧
      (t.exitActions .locked).length = 3 := by
  obtain ⟨t, h⟩ := Draft.exists_compile_of_toBool
    (by rfl : ((Draft.ofSteps station).compile {}).toBool)
  obtain ⟨entry, exit, -⟩ := DispatchTable.hooks_of_steps h .locked
  refine ⟨t, h, ?_, ?_⟩
  · rw [entry]
    rfl
  · rw [exit]
    rfl

end Turnstile

end TableMachine
