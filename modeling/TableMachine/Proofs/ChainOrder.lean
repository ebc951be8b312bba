import TableMachine.Alphabet.Payload
import TableMachine.Proofs.Handling
import TableMachine.Samples.Turnstile

/-!
# In which order actions run

To execute a rule is to go through a chain of actions one by one, and to commit at its end.
`Machine.carryOut` is what remains to be done when a part of the chain is still to be run. Since it
does not touch the machine before the chain is empty, a rule that is half carried out has changed
nothing but the world.

How often an action runs, and with which event, can be seen only in the world: in a *log*, to which
each action adds an entry that tells the event (`Action.Logs`).

**Main statements.** What succeeds at the front of a chain can be taken off
(`Machine.carryOut_append`). A rule that is selected and agrees has its whole chain run, or the
chain up to the first action that fails, each action once and with the dispatched event
(`Machine.dispatch_runs_chain`).
-/

namespace TableMachine

variable {σ ε χ ω τ : Type}

/-! ## Logs -/

namespace Action

/-- Whenever the action is run in the mode, it adds one entry to the log, made for the event. -/
def Logs (mode : Mode χ) (log : ω → List τ) (entry : ε → τ) (action : Action ε χ ω) : Prop :=
  ∀ event w, log (action.run mode event w).2 = log w ++ [entry event]

variable {mode : Mode χ} {event : ε} {log : ω → List τ}

theorem Logs.log_eq {action : Action ε χ ω} {entry : ε → τ} (h : action.Logs mode log entry)
    {w w' : ω} {result : Except ActionError Unit} (hrun : action.run mode event w = (result, w')) :
    log w' = log w ++ [entry event] := by
  have logged := h event w
  rwa [hrun] at logged

/-- Actions that succeed have added their entries in order. -/
theorem Succeed.log_eq {entry : Action ε χ ω → ε → τ} {chain : List (Action ε χ ω)} {w w' : ω}
    (h : Succeed mode event chain w w') (logs : ∀ a ∈ chain, a.Logs mode log (entry a)) :
    log w' = log w ++ chain.map fun a => entry a event := by
  induction h with
  | nil => exact (List.append_nil _).symm
  | cons first _ ih =>
    rw [ih fun a ha => logs a (List.mem_cons_of_mem _ ha), (logs _ List.mem_cons_self).log_eq first,
      List.append_assoc, List.map_cons, List.singleton_append]

/-- A chain either succeeds, or it has a first action that fails. -/
theorem succeed_or_fail (mode : Mode χ) (event : ε) (chain : List (Action ε χ ω)) (w : ω) :
    (∃ w', Succeed mode event chain w w') ∨
      ∃ before action after w₁ cause w₂, chain = before ++ action :: after ∧
        Succeed mode event before w w₁ ∧ action.run mode event w₁ = (.error cause, w₂) := by
  rcases hrun : runChain mode event chain w with ⟨result, w'⟩
  cases result with
  | ok => exact Or.inl ⟨w', runChain_eq_ok_iff.1 hrun⟩
  | error cause =>
    obtain ⟨before, action, after, w₁, split, succeeded, failed⟩ := runChain_eq_error_iff.1 hrun
    exact Or.inr ⟨before, action, after, w₁, cause, w', split, succeeded, failed⟩

end Action

/-! ## Rules half carried out -/

namespace Machine

/-- Carries on with a rule of which some actions remain to be run: runs these in order and commits
after the last of them. -/
def carryOut [State σ] [Event ε] (m : Machine σ ε χ ω) (rule : Rule σ ε χ ω) (mode : Mode χ)
    (event : ε) : List (Action ε χ ω) → ω → Reply σ ε χ ω (Outcome σ ε)
  | [], w => m.commit rule event w
  | action :: rest, w =>
    match action.run mode event w with
    | (.ok (), w') => m.carryOut rule mode event rest w'
    | (.error cause, w') => ⟨.error (.actionFailed m.state event cause), m, w'⟩

variable [State σ] [Event ε] {m : Machine σ ε χ ω} {mode : Mode χ} {event : ε} {values : List Value}
  {rule : Rule σ ε χ ω} {w w₁ : ω}

/-- After actions that succeed, what remains is carried on with on the machine as it was. -/
theorem carryOut_append {done : List (Action ε χ ω)} (h : Action.Succeed mode event done w w₁)
    (rest : List (Action ε χ ω)) :
    m.carryOut rule mode event (done ++ rest) w = m.carryOut rule mode event rest w₁ := by
  induction h with
  | nil => rfl
  | cons first _ ih =>
    rw [List.cons_append, carryOut, first]
    exact ih

/-- To run the chain as a whole and then look at the result is to carry it out action by action. -/
theorem carryOut_eq (m : Machine σ ε χ ω) (rule : Rule σ ε χ ω) (mode : Mode χ) (event : ε)
    (chain : List (Action ε χ ω)) (w : ω) :
    m.carryOut rule mode event chain w =
      match Action.runChain mode event chain w with
      | (.ok (), w') => m.commit rule event w'
      | (.error cause, w') => ⟨.error (.actionFailed m.state event cause), m, w'⟩ := by
  induction chain generalizing w with
  | nil => rfl
  | cons action rest ih =>
    rcases hrun : action.run mode event w with ⟨result, w'⟩
    cases result with
    | ok => simpa only [carryOut, Action.runChain, hrun] using ih w'
    | error cause => simp only [carryOut, Action.runChain, hrun]

variable [DecidableEq σ] [DecidableEq ε] {t : DispatchTable σ ε χ ω}

/-- A rule that is selected and agrees is carried out from the beginning of its chain, unless an
effect is planned without an environment. -/
theorem dispatch_eq_carryOut (selected : m.Selects event values t rule)
    (agreed : rule.Answers w true w₁)
    (unrefused : (m.dispatch mode event values w).answer ≠ .error (.effectInSync m.state event)) :
    m.dispatch mode event values w = m.carryOut rule mode event (t.chain m.state rule) w₁ := by
  rw [dispatch_eq_execute selected agreed] at unrefused ⊢
  rw [carryOut_eq]
  unfold execute at unrefused ⊢
  dsimp only at unrefused ⊢
  split at unrefused
  · next permitted => exact if_pos permitted
  · exact absurd rfl unrefused

/-- The chain of a rule that is selected and agrees consists of the rule's own actions and, if the
state changes, those of leaving the old state and then those of entering the new one. Unless it is
refused for an effect, all of it is run, or all up to and including the first action that fails: in
order, each action once, and each with the event that was dispatched. However far this has gone, it
goes on from the machine as it was. Only after the last action, in the world that this has left,
does the machine move and is the move recorded; if any action fails the machine stays as it was. -/
theorem dispatch_runs_chain (selected : m.Selects event values t rule)
    (agreed : rule.Answers w true w₁)
    (unrefused : (m.dispatch mode event values w).answer ≠ .error (.effectInSync m.state event)) :
    ∃ chain, chain = rule.actions ++
        (if rule.next = m.state then [] else t.exitActions m.state ++ t.entryActions rule.next) ∧
      (∀ done rest v, chain = done ++ rest → Action.Succeed mode event done w₁ v →
        m.dispatch mode event values w = m.carryOut rule mode event rest v) ∧
      ((∃ w₂, Action.Succeed mode event chain w₁ w₂ ∧
          m.dispatch mode event values w =
            { answer := .ok (.executed m.state rule.next event)
              machine := m.moved rule.next event (m.config.clock w₂)
              world := m.config.sink.info (Message.executed rule.summary) w₂ } ∧
          ∀ (log : ω → List τ) (entry : Action ε χ ω → ε → τ),
            (∀ a ∈ chain, a.Logs mode log (entry a)) →
            log w₂ = log w₁ ++ chain.map fun a => entry a event) ∨
        ∃ before action after w₂ cause w₃, chain = before ++ action :: after ∧
          Action.Succeed mode event before w₁ w₂ ∧
          action.run mode event w₂ = (.error cause, w₃) ∧
          m.dispatch mode event values w = ⟨.error (.actionFailed m.state event cause), m, w₃⟩ ∧
          ∀ (log : ω → List τ) (entry : Action ε χ ω → ε → τ),
            (∀ a ∈ chain, a.Logs mode log (entry a)) →
            log w₃ = log w₁ ++ (before ++ [action]).map fun a => entry a event) := by
  have whole := dispatch_eq_carryOut selected agreed unrefused
  have part : ∀ done rest v, t.chain m.state rule = done ++ rest →
      Action.Succeed mode event done w₁ v →
      m.dispatch mode event values w = m.carryOut rule mode event rest v := by
    intro done rest v split succeeded
    rw [whole, split, carryOut_append succeeded]
  refine ⟨t.chain m.state rule, rfl, part, ?_⟩
  rcases Action.succeed_or_fail mode event (t.chain m.state rule) w₁ with
    ⟨w₂, succeeded⟩ | ⟨before, action, after, w₂, cause, w₃, split, succeeded, failed⟩
  · refine Or.inl ⟨w₂, succeeded, ?_, fun log entry logs => succeeded.log_eq logs⟩
    exact part _ [] w₂ (List.append_nil _).symm succeeded
  · refine Or.inr ⟨before, action, after, w₂, cause, w₃, split, succeeded, failed, ?_, ?_⟩
    · rw [part before (action :: after) w₂ split succeeded, carryOut, failed]
    · intro log entry logs
      rw [split] at logs
      rw [(logs action (List.mem_append_right _ List.mem_cons_self)).log_eq failed,
        succeeded.log_eq fun a ha => logs a (List.mem_append_left _ ha), List.append_assoc,
        List.map_append]
      rfl

end Machine

namespace Turnstile

/-- A coin of a given value, or whatever coin. -/
structure Coin where
  /-- The value. -/
  value : Payload Nat
deriving DecidableEq

/-- Whatever coin stands in for a coin of a given value. -/
instance : Event Coin where
  name _ := "Coin"
  wildcard? coin := coin.value.value?.map fun _ => ⟨.any⟩

/-- What ran, and with which coin. -/
abbrev Tape :=
  List (String × Coin)

/-- An action that goes on the tape and then comes to the result. -/
def taped (label : String) (result : Except ActionError Unit := .ok ()) : Action Coin Unit Tape :=
  .plain fun coin w => (result, w ++ [(label, coin)])

/-- Whatever coin unlocks the turnstile. -/
def anyCoin : Rule Gate Coin Unit Tape where
  state := .locked
  event := ⟨.any⟩
  next := .unlocked
  actions := [taped "count"]
  location := here 45

/-- A turnstile that gets stuck when it is to turn. -/
def sticky : Machine Gate Coin Unit Tape :=
  ((Machine.start .locked {}).build
    { rules := [anyCoin]
      exit := [(.locked, [taped "release"])]
      entry := [(.unlocked, [taped "turn" (.error (.failed "stuck")), taped "light"])] }
    (here 46) []).machine

/-- A coin of five is counted and the turnstile lets go before it gets stuck, but no light goes on,
and the turnstile is still locked. -/
theorem sticky_stops_at_turn :
    ∃ t, sticky.Selects ⟨.some 5⟩ [] t anyCoin ∧
      sticky.dispatch .sync ⟨.some 5⟩ [] [] =
        ⟨.error (.actionFailed .locked ⟨.some 5⟩ (.failed "stuck")), sticky,
          [("count", ⟨.some 5⟩), ("release", ⟨.some 5⟩), ("turn", ⟨.some 5⟩)]⟩ := by
  have answer : (sticky.dispatch .sync ⟨.some 5⟩ [] []).answer =
      .error (.actionFailed .locked ⟨.some 5⟩ (.failed "stuck")) := rfl
  obtain ⟨t, selected, hooks⟩ : ∃ t, sticky.Selects ⟨.some 5⟩ [] t anyCoin ∧
      t.exitActions .locked ++ t.entryActions .unlocked =
        [taped "release", taped "turn" (.error (.failed "stuck")), taped "light"] :=
    ⟨_, ⟨rfl, rfl⟩, rfl⟩
  refine ⟨t, selected, ?_⟩
  have unrefused : (sticky.dispatch .sync ⟨.some 5⟩ [] []).answer ≠
      .error (.effectInSync .locked ⟨.some 5⟩) := by
    rw [answer]
    simp
  obtain ⟨chain, hchain, part, -⟩ :=
    Machine.dispatch_runs_chain (τ := String × Coin) selected (.unguarded rfl) unrefused
  exact part [taped "count", taped "release"] _ [("count", ⟨.some 5⟩), ("release", ⟨.some 5⟩)]
    (hchain.trans (congrArg _ hooks)) (.cons rfl (.cons rfl (.nil _)))

end Turnstile

end TableMachine
