import Mathlib.Tactic.Push
import TableMachine.Machine.Dispatch
import TableMachine.Proofs.ActionChain

/-!
# How an event is handled

`Machine.Handles` says what may come of one event, with a constructor for each outcome. The premises
of any two of them exclude each other, so that the first test that fails decides: the table, the
rule, the guard, effects without an environment, the actions.

**Main statements.** Dispatching an event gives just what may come of it
(`Machine.dispatch_eq_iff`). The machine is either left as it was or has moved along the rule found
(`Machine.dispatch_cases`).
-/

namespace TableMachine

variable {σ ε χ ω : Type}

/-! ## Rules found -/

namespace DispatchTable

variable [DecidableEq σ] [DecidableEq ε] [Event ε] {t : DispatchTable σ ε χ ω} {state : σ}
  {event : ε} {rule : Rule σ ε χ ω}

/-- What is found is an entry for the event or, if there is none, one for its wildcard. -/
theorem lookup?_eq_some_iff {c : Combination} :
    t.lookup? state event c = some rule ↔
      t.at? ⟨state, event, c⟩ = some rule ∨
        t.at? ⟨state, event, c⟩ = none ∧
          ∃ wildcard, Event.wildcard? event = some wildcard ∧
            t.at? ⟨state, wildcard, c⟩ = some rule := by
  rw [lookup?, Option.or_eq_some_iff, Option.bind_eq_some_iff]

/-- What is found under supplied values is found at the combination that these amount to. -/
theorem exists_lookup?_of_find? {values : List Value} (h : t.find? state event values = some rule) :
    ∃ c, t.lookup? state event c = some rule := by
  obtain ⟨c, -, hc⟩ := Option.bind_eq_some_iff.1 h
  exact ⟨c, hc⟩

omit [Event ε] in
/-- The rule at a key is in the entry for the key. -/
theorem mem_entries_of_at? {k : DispatchKey σ ε} (h : t.at? k = some rule) :
    (k, rule) ∈ t.entries := by
  obtain ⟨⟨key, r⟩, hentry, rfl⟩ := Option.map_eq_some_iff.1 h
  obtain rfl : key = k := by simpa using List.find?_some hentry
  exact List.mem_of_find?_eq_some hentry

omit [Event ε] in
theorem mem_of_at? {k : DispatchKey σ ε} (h : t.at? k = some rule) :
    rule ∈ t.entries.map Prod.snd :=
  List.mem_map_of_mem (mem_entries_of_at? h)

/-- A table finds rules of its own. -/
theorem mem_of_find? {values : List Value} (h : t.find? state event values = some rule) :
    rule ∈ t.entries.map Prod.snd := by
  obtain ⟨c, hc⟩ := exists_lookup?_of_find? h
  rcases lookup?_eq_some_iff.1 hc with hown | ⟨-, wildcard, -, hwild⟩
  · exact mem_of_at? hown
  · exact mem_of_at? hwild

end DispatchTable

/-! ## Actions to be run -/

/-- The actions of a state are among those of the hooks. -/
theorem Hooks.mem_of [DecidableEq σ] {hooks : Hooks σ ε χ ω} {state : σ} {action : Action ε χ ω}
    (h : action ∈ Hooks.of hooks state) : ∃ hook ∈ hooks, action ∈ hook.2 := by
  obtain ⟨hook, hhook, haction⟩ := List.mem_flatMap.1 h
  refine ⟨hook, hhook, ?_⟩
  dsimp only at haction
  split at haction
  · exact haction
  · exact absurd haction List.not_mem_nil

/-- Executing a rule runs the actions of the rule and, if the state changes, those of leaving and of
entering. -/
theorem DispatchTable.mem_chain_iff [DecidableEq σ] {t : DispatchTable σ ε χ ω} {state : σ}
    {rule : Rule σ ε χ ω} {action : Action ε χ ω} :
    action ∈ t.chain state rule ↔
      action ∈ rule.actions ∨ rule.next ≠ state ∧
        (action ∈ t.exitActions state ∨ action ∈ t.entryActions rule.next) := by
  rw [chain, List.mem_append]
  by_cases h : rule.next = state
  · simp [h]
  · simp [h, List.mem_append]

/-- Those of leaving and of entering are among the hooks of the table. -/
theorem DispatchTable.mem_chain [DecidableEq σ] {t : DispatchTable σ ε χ ω} {state : σ}
    {rule : Rule σ ε χ ω} {action : Action ε χ ω} (h : action ∈ t.chain state rule) :
    action ∈ rule.actions ∨ (∃ hook ∈ t.exit, action ∈ hook.2) ∨
      ∃ hook ∈ t.entry, action ∈ hook.2 := by
  rcases mem_chain_iff.1 h with hown | ⟨-, hexit | hentry⟩
  · exact Or.inl hown
  · exact Or.inr (Or.inl (Hooks.mem_of hexit))
  · exact Or.inr (Or.inr (Hooks.mem_of hentry))

/-! ## Outcomes -/

/-- What asking a rule comes to: the answer and the world after it. -/
inductive Rule.Answers (r : Rule σ ε χ ω) (w : ω) : Bool → ω → Prop
  /-- A rule without a guard agrees. -/
  | unguarded (free : r.guard? = none) : r.Answers w true w
  /-- A guard is asked, and its answer counts. -/
  | guarded {guard : Guard ω} {answer : Bool} {w' : ω} (bound : r.guard? = some guard)
      (asked : guard.check w = (answer, w')) : r.Answers w answer w'

theorem Rule.canExecute_eq_iff {r : Rule σ ε χ ω} {w w' : ω} {answer : Bool} :
    r.canExecute w = (answer, w') ↔ r.Answers w answer w' := by
  unfold Rule.canExecute Guard.allows
  refine ⟨fun h => ?_, fun h => ?_⟩
  · split at h
    · next guard hguard => exact .guarded hguard h
    · next hguard =>
      obtain ⟨rfl, rfl⟩ := Prod.mk.inj h
      exact .unguarded hguard
  · rcases h with hguard | ⟨hguard, hasked⟩
    · rw [hguard]
    · rw [hguard]
      exact hasked

theorem Mode.permits_iff {mode : Mode χ} {chain : List (Action ε χ ω)} :
    mode.Permits chain ↔ (mode = .sync → ∀ action ∈ chain, action.isEffect = false) := by
  cases mode with
  | sync => simp [Mode.Permits]
  | async environment => simp [Mode.Permits]

namespace Machine

/-- The machine after a transition: it is in the target, and the history has a record of how it got
there. -/
def moved (m : Machine σ ε χ ω) (target : σ) (event : ε) (time : Timestamp) : Machine σ ε χ ω :=
  { m with state := target, history := m.history.add ⟨m.state, target, event, time⟩ }

variable [DecidableEq σ] [DecidableEq ε] [State σ] [Event ε]

/-- The machine has the table, and the table finds the rule for the event. -/
def Selects (m : Machine σ ε χ ω) (event : ε) (values : List Value) (t : DispatchTable σ ε χ ω)
    (rule : Rule σ ε χ ω) : Prop :=
  m.table? = some t ∧ t.find? m.state event values = some rule

/-- What may come of an event. -/
inductive Handles (m : Machine σ ε χ ω) (mode : Mode χ) (event : ε) (values : List Value) (w : ω) :
    Reply σ ε χ ω (Outcome σ ε) → Prop
  /-- Without a table nothing is handled. -/
  | notBuilt (bare : m.table? = none) :
      m.Handles mode event values w ⟨.error .notBuilt, m, w⟩
  /-- The table has no rule for the event under the values. -/
  | notFound {t : DispatchTable σ ε χ ω} (built : m.table? = some t)
      (missing : t.find? m.state event values = none) :
      m.Handles mode event values w
        ⟨.ok (.notFound event values), m, m.config.sink.warning (Message.notFound event values) w⟩
  /-- The rule refuses. -/
  | notExecuted {t : DispatchTable σ ε χ ω} {rule : Rule σ ε χ ω} {w₁ : ω}
      (selected : m.Selects event values t rule) (refused : rule.Answers w false w₁) :
      m.Handles mode event values w
        ⟨.ok (.notExecuted rule.summary), m, m.config.sink.info (Message.refused rule.summary) w₁⟩
  /-- The rule agrees, but an effect is planned and there is no environment. -/
  | effectInSync {t : DispatchTable σ ε χ ω} {rule : Rule σ ε χ ω} {w₁ : ω}
      {action : Action ε χ ω} (selected : m.Selects event values t rule)
      (agreed : rule.Answers w true w₁) (sync : mode = .sync)
      (planned : action ∈ t.chain m.state rule) (effect : action.isEffect = true) :
      m.Handles mode event values w ⟨.error (.effectInSync m.state event), m, w₁⟩
  /-- An action fails after all actions before it have succeeded. -/
  | actionFailed {t : DispatchTable σ ε χ ω} {rule : Rule σ ε χ ω} {w₁ w₂ w₃ : ω}
      {before after : List (Action ε χ ω)} {action : Action ε χ ω} {cause : ActionError}
      (selected : m.Selects event values t rule) (agreed : rule.Answers w true w₁)
      (permitted : mode = .sync → ∀ a ∈ t.chain m.state rule, a.isEffect = false)
      (split : t.chain m.state rule = before ++ action :: after)
      (succeeded : Action.Succeed mode event before w₁ w₂)
      (failed : action.run mode event w₂ = (.error cause, w₃)) :
      m.Handles mode event values w ⟨.error (.actionFailed m.state event cause), m, w₃⟩
  /-- All actions succeed, and the machine moves on. -/
  | executed {t : DispatchTable σ ε χ ω} {rule : Rule σ ε χ ω} {w₁ w₂ : ω}
      (selected : m.Selects event values t rule) (agreed : rule.Answers w true w₁)
      (permitted : mode = .sync → ∀ a ∈ t.chain m.state rule, a.isEffect = false)
      (succeeded : Action.Succeed mode event (t.chain m.state rule) w₁ w₂) :
      m.Handles mode event values w
        { answer := .ok (.executed m.state rule.next event)
          machine := m.moved rule.next event (m.config.clock w₂)
          world := m.config.sink.info (Message.executed rule.summary) w₂ }

variable {m : Machine σ ε χ ω} {mode : Mode χ} {event : ε} {values : List Value} {w : ω}

/-- A rule that is selected and agrees is executed, in the world that asking it has left. -/
theorem dispatch_eq_execute {t : DispatchTable σ ε χ ω} {rule : Rule σ ε χ ω} {w₁ : ω}
    (selected : m.Selects event values t rule) (agreed : rule.Answers w true w₁) :
    m.dispatch mode event values w = m.execute t rule mode event w₁ := by
  simp only [dispatch, selected.1, selected.2, Rule.canExecute_eq_iff.2 agreed]

/-- Once a rule is selected and agrees, what comes of it is known from its chain. -/
theorem handles_execute {t : DispatchTable σ ε χ ω} {rule : Rule σ ε χ ω} {w₁ : ω}
    (selected : m.Selects event values t rule) (agreed : rule.Answers w true w₁) :
    m.Handles mode event values w (m.execute t rule mode event w₁) := by
  unfold execute
  dsimp only
  split
  · next permitted =>
    have permitted := Mode.permits_iff.1 permitted
    split
    · next w₂ hrun => exact .executed selected agreed permitted (Action.runChain_eq_ok_iff.1 hrun)
    · next cause w₃ hrun =>
      obtain ⟨before, action, after, w₂, split, succeeded, failed⟩ :=
        Action.runChain_eq_error_iff.1 hrun
      exact .actionFailed selected agreed permitted split succeeded failed
  · next refused =>
    rw [Mode.permits_iff] at refused
    push Not at refused
    obtain ⟨sync, action, planned, effect⟩ := refused
    exact .effectInSync selected agreed sync planned (by simpa using effect)

theorem handles_dispatch : m.Handles mode event values w (m.dispatch mode event values w) := by
  unfold dispatch
  split
  · next bare => exact .notBuilt bare
  · next t built =>
    split
    · next missing => exact .notFound built missing
    · next rule found =>
      split
      · next w₁ hask => exact handles_execute ⟨built, found⟩ (Rule.canExecute_eq_iff.1 hask)
      · next w₁ hask => exact .notExecuted ⟨built, found⟩ (Rule.canExecute_eq_iff.1 hask)

/-- Dispatching an event gives just what may come of it. -/
theorem dispatch_eq_iff {reply : Reply σ ε χ ω (Outcome σ ε)} :
    m.dispatch mode event values w = reply ↔ m.Handles mode event values w reply := by
  refine ⟨fun h => h ▸ handles_dispatch, fun h => ?_⟩
  cases h with
  | notBuilt bare => rw [dispatch, bare]
  | notFound built missing => simp only [dispatch, built, missing]
  | notExecuted selected refused =>
    have hask := Rule.canExecute_eq_iff.2 refused
    simp only [dispatch, selected.1, selected.2, hask]
  | effectInSync selected agreed sync planned effect =>
    have refused : ¬mode.Permits _ := fun h => by
      have := Mode.permits_iff.1 h sync _ planned
      rw [effect] at this
      exact Bool.noConfusion this
    rw [dispatch_eq_execute selected agreed, execute]
    simp only [if_neg refused]
  | actionFailed selected agreed permitted split succeeded failed =>
    have hrun := Action.runChain_eq_error_iff.2 ⟨_, _, _, _, split, succeeded, failed⟩
    rw [dispatch_eq_execute selected agreed, execute]
    simp only [if_pos (Mode.permits_iff.2 permitted), hrun]
  | executed selected agreed permitted succeeded =>
    have hrun := Action.runChain_eq_ok_iff.2 succeeded
    rw [dispatch_eq_execute selected agreed, execute]
    simp only [if_pos (Mode.permits_iff.2 permitted), hrun, commit, moved]

/-- Either the machine is left as it was and no transition is executed, or it has moved along the
rule that its table finds. -/
theorem dispatch_cases (m : Machine σ ε χ ω) (mode : Mode χ) (event : ε) (values : List Value)
    (w : ω) :
    ((m.dispatch mode event values w).machine = m ∧
      ∀ outcome, (m.dispatch mode event values w).answer = .ok outcome →
        outcome.isExecuted = false) ∨
    ∃ t rule time, m.Selects event values t rule ∧
      (m.dispatch mode event values w).answer = .ok (.executed m.state rule.next event) ∧
      (m.dispatch mode event values w).machine = m.moved rule.next event time := by
  generalize hreply : m.dispatch mode event values w = reply
  cases dispatch_eq_iff.1 hreply with
  | executed selected => exact Or.inr ⟨_, _, _, selected, rfl, rfl⟩
  | notBuilt | effectInSync | actionFailed =>
    refine Or.inl ⟨rfl, fun outcome h => ?_⟩
    cases h
  | notFound | notExecuted =>
    refine Or.inl ⟨rfl, fun outcome h => ?_⟩
    cases h
    rfl

/-- Table, place and configuration stay as they are. -/
theorem dispatch_keeps (m : Machine σ ε χ ω) (mode : Mode χ) (event : ε) (values : List Value)
    (w : ω) :
    (m.dispatch mode event values w).machine.table? = m.table? ∧
      (m.dispatch mode event values w).machine.builtAt? = m.builtAt? ∧
      (m.dispatch mode event values w).machine.config = m.config := by
  rcases dispatch_cases m mode event values w with ⟨kept, -⟩ | ⟨_, _, _, -, -, moved⟩
  · rw [kept]
    exact ⟨rfl, rfl, rfl⟩
  · rw [moved]
    exact ⟨rfl, rfl, rfl⟩

/-- Only an executed transition changes the machine. -/
theorem dispatch_unchanged (h : ∀ outcome, (m.dispatch mode event values w).answer = .ok outcome →
    outcome.isExecuted = false) : (m.dispatch mode event values w).machine = m := by
  rcases dispatch_cases m mode event values w with ⟨kept, -⟩ | ⟨_, _, _, -, executed, -⟩
  · exact kept
  · exact Bool.noConfusion (h _ executed)

end Machine

end TableMachine
