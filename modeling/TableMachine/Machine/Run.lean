import TableMachine.Machine.Dispatch

/-!
# Runs of a machine

A run is a sequence of calls, each of which builds a table or dispatches an event, in whatever order
and whatever they come to.
-/

namespace TableMachine

/-- One call on a machine. -/
inductive Call (σ ε χ ω : Type) where
  /-- Build a table at a place. -/
  | build (draft : Draft σ ε χ ω) (location : Location)
  /-- Handle an event in a mode. -/
  | dispatch (mode : Mode χ) (event : ε) (values : List Value)

/-- What a call comes to when nothing goes wrong. -/
inductive Success (σ ε : Type) where
  /-- A table was built. -/
  | built
  /-- An event was handled. -/
  | handled (outcome : Outcome σ ε)
deriving DecidableEq

namespace Machine

variable {σ ε χ ω : Type} [DecidableEq σ] [DecidableEq ε] [State σ] [Event ε]

/-- Makes one call. -/
def call (m : Machine σ ε χ ω) (c : Call σ ε χ ω) (w : ω) : Reply σ ε χ ω (Success σ ε) :=
  match c with
  | .build draft location => (m.build draft location w).map fun () => .built
  | .dispatch mode event values => (m.dispatch mode event values w).map .handled

/-- Makes calls one after another; gives their answers, and the machine and the world at the end. -/
def run (m : Machine σ ε χ ω) (calls : List (Call σ ε χ ω)) (w : ω) :
    List (Except (MachineError σ ε) (Success σ ε)) × Machine σ ε χ ω × ω :=
  match calls with
  | [] => ([], m, w)
  | c :: rest =>
    let reply := m.call c w
    let (answers, last) := reply.machine.run rest reply.world
    (reply.answer :: answers, last)

end Machine

end TableMachine
