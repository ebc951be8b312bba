import TableMachine.Rule.Basic

/-!
# Messages of a machine

The wording of what a machine reports to its sink while it works.
-/

namespace TableMachine.Message

variable {σ ε : Type} [State σ] [Event ε]

/-- No rule handles an event. The values are named if some were supplied. -/
def notFound (event : ε) (values : List Value) : String :=
  "no transition found for event '" ++ Event.name event ++ "'"
    ++ (if values.isEmpty then ""
      else " matching predicates " ++ Text.bracketed (values.map Value.text))

/-- A guard refused a rule. -/
def refused (rule : Summary σ ε) : String :=
  "conditional transition " ++ rule.text ++ " not executed"

/-- A rule was executed. -/
def executed (rule : Summary σ ε) : String :=
  "transition " ++ rule.text ++ " was executed"

/-- A table with some number of keys was built. -/
def built (location : Location) (keys : Nat) : String :=
  "table built at " ++ location.text ++ " with " ++ toString keys ++ " entries"

end TableMachine.Message
