/-!
# Actions

An action runs when a transition is executed or when a state is entered or left. It receives the
dispatched event, may change the world and may fail. An *effect* action also needs an environment,
which only asynchronous dispatch supplies.

A chain of actions runs in order and stops at the first failure (`runChain`).
-/

namespace TableMachine

/-- Why an action did not succeed. -/
inductive ActionError where
  /-- The action itself failed. -/
  | failed (message : String)
  /-- An effect action was run without an environment. -/
  | requiresAsync
deriving DecidableEq

/-- The text of an action's failure. -/
def ActionError.message : ActionError → String
  | .failed message => "Action failed: " ++ message
  | .requiresAsync => "Effect action can only run through asynchronous dispatch"

/-- What running an action gives: success or failure, and the world after it. -/
abbrev Attempt (ω : Type) :=
  Except ActionError Unit × ω

/-- A step that the machine takes with the event at hand. -/
inductive Action (ε χ ω : Type) where
  /-- An action that needs nothing but the event. -/
  | plain (run : ε → ω → Attempt ω)
  /-- An action that needs an environment. -/
  | effect (run : ε → χ → ω → Attempt ω)

/-- How a chain of actions is run. -/
inductive Mode (χ : Type) where
  /-- At once, without an environment. -/
  | sync
  /-- Asynchronously, in an environment. -/
  | async (environment : χ)

namespace Action

variable {ε χ ω : Type}

/-- Whether the action needs an environment. -/
def isEffect : Action ε χ ω → Bool
  | plain _ => false
  | effect _ => true

/-- Runs an action in a mode. An effect without an environment fails and changes nothing. -/
def run (mode : Mode χ) (event : ε) (w : ω) : Action ε χ ω → Attempt ω
  | plain step => step event w
  | effect step =>
    match mode with
    | .sync => (.error .requiresAsync, w)
    | .async environment => step event environment w

/-- The text that stands for an action of either kind. -/
def inspect : Action ε χ ω → String
  | plain _ => "Action::Sync(..)"
  | effect _ => "Action::Effect(..)"

/-- Runs actions in order up to and including the first that fails. -/
def runChain (mode : Mode χ) (event : ε) : List (Action ε χ ω) → ω → Attempt ω
  | [], w => (.ok (), w)
  | action :: rest, w =>
    match action.run mode event w with
    | (.ok (), w') => runChain mode event rest w'
    | (.error e, w') => (.error e, w')

end Action

end TableMachine
