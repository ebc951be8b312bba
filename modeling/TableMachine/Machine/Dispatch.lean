import TableMachine.Machine.Basic

/-!
# Building and dispatching

`Machine.build` compiles a draft and installs the table, `Machine.dispatch` handles one event. The
order of the tests in `dispatch` is the order of precedence of its outcomes: no table, no rule, the
guard, an effect without an environment, a failing action, and last the executed transition.
-/

namespace TableMachine

variable {σ ε χ ω : Type} [DecidableEq σ] [DecidableEq ε]

/-- The actions that executing a rule in a state runs: the rule's own and, if the state changes,
those of leaving the old state and of entering the new one. -/
def DispatchTable.chain (t : DispatchTable σ ε χ ω) (state : σ) (rule : Rule σ ε χ ω) :
    List (Action ε χ ω) :=
  rule.actions
    ++ if rule.next = state then [] else t.exitActions state ++ t.entryActions rule.next

/-- Effects are only possible with an environment. -/
def Mode.Permits (mode : Mode χ) (chain : List (Action ε χ ω)) : Prop :=
  match mode with
  | .sync => ∀ action ∈ chain, action.isEffect = false
  | .async _ => True

instance (mode : Mode χ) (chain : List (Action ε χ ω)) : Decidable (mode.Permits chain) :=
  match mode with
  | .sync => inferInstanceAs (Decidable (∀ action ∈ chain, action.isEffect = false))
  | .async _ => .isTrue trivial

namespace Machine

variable [State σ] [Event ε]

/-- Reports a build that succeeded: its warnings, then the size of the table. -/
def reportBuilt (m : Machine σ ε χ ω) (table : DispatchTable σ ε χ ω) (location : Location)
    (w : ω) : ω :=
  m.config.sink.debug (Message.built location table.size) <|
    table.warnings.foldl (fun w fault => m.config.sink.warning fault.message w) w

/-- Compiles a draft and installs the table, unless one was built already. -/
def build (m : Machine σ ε χ ω) (draft : Draft σ ε χ ω) (location : Location) (w : ω) :
    Reply σ ε χ ω Unit :=
  match m.builtAt? with
  | some first => ⟨.error (.alreadyBuilt first location), m, w⟩
  | none =>
    match draft.compile m.config.compile with
    | .error failure => ⟨.error (.build failure), m, m.config.sink.warning failure.message w⟩
    | .ok table =>
      ⟨.ok (), { m with table? := some table, builtAt? := some location },
        m.reportBuilt table location w⟩

/-- Records the execution of a rule, moves to its next state and reports it. -/
def commit (m : Machine σ ε χ ω) (rule : Rule σ ε χ ω) (event : ε) (w : ω) :
    Reply σ ε χ ω (Outcome σ ε) where
  answer := .ok (.executed m.state rule.next event)
  machine :=
    { m with
      state := rule.next
      history := m.history.add ⟨m.state, rule.next, event, m.config.clock w⟩ }
  world := m.config.sink.info (Message.executed rule.summary) w

/-- Runs what executing a rule takes, and commits if all of it succeeds. -/
def execute (m : Machine σ ε χ ω) (table : DispatchTable σ ε χ ω) (rule : Rule σ ε χ ω)
    (mode : Mode χ) (event : ε) (w : ω) : Reply σ ε χ ω (Outcome σ ε) :=
  let chain := table.chain m.state rule
  if mode.Permits chain then
    match Action.runChain mode event chain w with
    | (.ok (), w') => m.commit rule event w'
    | (.error cause, w') => ⟨.error (.actionFailed m.state event cause), m, w'⟩
  else
    ⟨.error (.effectInSync m.state event), m, w⟩

/-- Handles one event under the supplied values. -/
def dispatch (m : Machine σ ε χ ω) (mode : Mode χ) (event : ε) (values : List Value) (w : ω) :
    Reply σ ε χ ω (Outcome σ ε) :=
  match m.table? with
  | none => ⟨.error .notBuilt, m, w⟩
  | some table =>
    match table.find? m.state event values with
    | none =>
      ⟨.ok (.notFound event values), m, m.config.sink.warning (Message.notFound event values) w⟩
    | some rule =>
      match rule.canExecute w with
      | (true, w') => m.execute table rule mode event w'
      | (false, w') =>
        ⟨.ok (.notExecuted rule.summary), m,
          m.config.sink.info (Message.refused rule.summary) w'⟩

/-- Handles one event at once. -/
def send (m : Machine σ ε χ ω) (event : ε) (values : List Value) (w : ω) :
    Reply σ ε χ ω (Outcome σ ε) :=
  m.dispatch .sync event values w

/-- Handles one event asynchronously in an environment. -/
def sendAsync (m : Machine σ ε χ ω) (environment : χ) (event : ε) (values : List Value) (w : ω) :
    Reply σ ε χ ω (Outcome σ ε) :=
  m.dispatch (.async environment) event values w

end Machine

end TableMachine
