import TableMachine.History.Basic
import TableMachine.Machine.Config
import TableMachine.Machine.Message
import TableMachine.Table.Compile

/-!
# Machines

A machine holds its current state, the table installed in it, and the history of what it executed.
It works on a world that its guards and actions read and change, so an operation takes a machine and
a world and gives an answer, the machine after it, and the world after it (`Reply`).

A table can be installed once. Dispatching an event ends in one of the cases of `Outcome` or, if
something is wrong, of `MachineError`; only an executed transition changes the machine.
-/

namespace TableMachine

/-- A machine. -/
structure Machine (σ ε χ ω : Type) where
  /-- The current state. -/
  state : σ
  /-- The table, once one is installed. -/
  table? : Option (DispatchTable σ ε χ ω) := none
  /-- Where the table was built. -/
  builtAt? : Option Location := none
  /-- What was executed. -/
  history : History σ ε := {}
  /-- How the machine works. -/
  config : Config ω := {}

/-- What dispatching an event comes to when nothing goes wrong. -/
inductive Outcome (σ ε : Type) where
  /-- A transition was executed. -/
  | executed (source target : σ) (event : ε)
  /-- No rule handles the event under the supplied values. -/
  | notFound (event : ε) (values : List Value)
  /-- The rule's guard refused. -/
  | notExecuted (rule : Summary σ ε)
deriving DecidableEq

/-- What can go wrong with a machine. -/
inductive MachineError (σ ε : Type) where
  /-- The table cannot be built. -/
  | build (failure : BuildFailure σ ε)
  /-- A table is installed already. -/
  | alreadyBuilt (first attempted : Location)
  /-- No table is installed. -/
  | notBuilt
  /-- An action failed. -/
  | actionFailed (state : σ) (event : ε) (cause : ActionError)
  /-- An effect was reached without an environment. -/
  | effectInSync (state : σ) (event : ε)
deriving DecidableEq

/-- Whether a transition was executed. -/
def Outcome.isExecuted {σ ε : Type} : Outcome σ ε → Bool
  | executed .. => true
  | _ => false

namespace MachineError

variable {σ ε : Type}

/-- The failed build, if that is the error. -/
def buildFailure? : MachineError σ ε → Option (BuildFailure σ ε)
  | build failure => some failure
  | _ => none

/-- The failed action's error, if that is what went wrong. -/
def cause? : MachineError σ ε → Option ActionError
  | actionFailed _ _ cause => some cause
  | _ => none

/-- The wording of the error. -/
def message [State σ] [Event ε] : MachineError σ ε → String
  | build failure => failure.message
  | alreadyBuilt first attempted =>
    "transition table already built at " ++ first.text ++ ", cannot build again at "
      ++ attempted.text
  | notBuilt => "transition table has not been built"
  | actionFailed state event cause =>
    "action failed in state " ++ State.name state ++ " handling " ++ Event.text event ++ ": "
      ++ cause.message
  | effectInSync state event =>
    "effect action reached in state " ++ State.name state ++ " handling " ++ Event.text event
      ++ "; dispatch asynchronously"

end MachineError

/-- What an operation on a machine gives. -/
structure Reply (σ ε χ ω α : Type) where
  /-- The answer. -/
  answer : Except (MachineError σ ε) α
  /-- The machine after the operation. -/
  machine : Machine σ ε χ ω
  /-- The world after the operation. -/
  world : ω

/-- The reply with another answer in case of success. -/
def Reply.map {σ ε χ ω α β : Type} (f : α → β) (r : Reply σ ε χ ω α) : Reply σ ε χ ω β :=
  ⟨r.answer.map f, r.machine, r.world⟩

namespace Machine

variable {σ ε χ ω : Type}

/-- A machine without a table. -/
def start (initial : σ) (config : Config ω) : Machine σ ε χ ω where
  state := initial
  config := config

/-- Whether a table is installed. -/
def isBuilt (m : Machine σ ε χ ω) : Bool :=
  m.table?.isSome

/-- The warnings that came with the table. -/
def warnings (m : Machine σ ε χ ω) : List (Fault σ ε) :=
  (m.table?.map DispatchTable.warnings).getD []

/-- Whether the machine is done. -/
def isFinal [State σ] (m : Machine σ ε χ ω) : Bool :=
  State.isFinal m.state

/-- The long form, with the place of the table and the length of the history. -/
def inspect [State σ] (m : Machine σ ε χ ω) : String :=
  "Fsm \x7b state: " ++ State.name m.state
    ++ ", built_at: " ++ (match m.builtAt? with
      | some location => "Some(" ++ location.inspect ++ ")"
      | none => "None")
    ++ ", history: " ++ toString m.history.size ++ ", .. \x7d"

end Machine

end TableMachine
