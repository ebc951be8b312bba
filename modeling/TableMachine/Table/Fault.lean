import TableMachine.Authoring.EmptyBlock
import TableMachine.Rule.Basic

/-!
# Faults of a table

The ways in which a table can be wrong. Each fault carries what is needed to find its cause, and
`Fault.message` words it. A failed build reports all faults of the table at once, and at least one
(`BuildFailure`).
-/

namespace TableMachine

/-- A dispatch key on which rules that lead to different states meet. -/
structure Contest (σ ε : Type) where
  /-- The state of the key. -/
  state : σ
  /-- The event of the key. -/
  event : ε
  /-- The combination of the key. -/
  combination : Combination
  /-- The rules that meet there. -/
  rules : List (Summary σ ε)
deriving DecidableEq

/-- What can be wrong with a table. -/
inductive Fault (σ ε : Type) where
  /-- A block is empty. -/
  | emptyBlock (note : EmptyBlock)
  /-- There is no rule at all. -/
  | emptyTable
  /-- A condition mentions a value that its family does not list. -/
  | unlistedValue (value : Value) (location : Location)
  /-- A condition contradicts itself. -/
  | contradiction (cause : Contradiction)
  /-- An overriding rule finds no rule to replace. -/
  | nothingToOverride (rule : Summary σ ε)
  /-- Groups of rules that say the same. -/
  | duplicates (groups : List (List (Summary σ ε)))
  /-- Groups of rules with one declared key that lead to different states, one rule for each. -/
  | clashes (groups : List (List (Summary σ ε)))
  /-- Dispatch keys on which different rules lead to different states. -/
  | contests (keys : List (Contest σ ε))
deriving DecidableEq

/-- The faults of a table that cannot be built. -/
structure BuildFailure (σ ε : Type) where
  /-- The first fault. -/
  first : Fault σ ε
  /-- The other faults, in order. -/
  others : List (Fault σ ε)
deriving DecidableEq

section Messages

variable {σ ε : Type} [State σ] [Event ε]

/-- Rules on lines of their own. -/
def Summary.lines (rules : List (Summary σ ε)) : String :=
  String.join (rules.map fun rule => "\n    " ++ rule.text)

/-- Groups of rules, apart by an empty line. -/
def Summary.groupLines (groups : List (List (Summary σ ε))) : String :=
  Text.joined "\n" (groups.map Summary.lines)

/-- The contested key on a line, then the rules. -/
def Contest.lines (c : Contest σ ε) : String :=
  "\n  " ++ State.name c.state ++ " | " ++ c.combination.text ++ " | " ++ Event.text c.event ++ ":"
    ++ Summary.lines c.rules

/-- The wording of a fault. -/
def Fault.message : Fault σ ε → String
  | .emptyBlock note => note.message
  | .emptyTable => "the table contains no transitions"
  | .unlistedValue value location =>
    "predicate " ++ value.text ++ " at " ++ location.text
      ++ " is missing from its family's case list"
  | .contradiction cause => cause.message
  | .nothingToOverride rule =>
    "overriding transition " ++ rule.text ++ " has no inherited transition to override"
  | .duplicates groups => "duplicate transitions:" ++ Summary.groupLines groups
  | .clashes groups =>
    "the same state, match and event cannot lead to more than one next state:"
      ++ Summary.groupLines groups
  | .contests keys =>
    "overlapping matches lead to different next states:"
      ++ String.join (keys.map Contest.lines)

end Messages

namespace BuildFailure

variable {σ ε : Type}

/-- All faults, in order. -/
def faults (f : BuildFailure σ ε) : List (Fault σ ε) :=
  f.first :: f.others

/-- The number of faults. -/
def size (f : BuildFailure σ ε) : Nat :=
  f.faults.length

/-- The empty blocks among the faults. -/
def emptyBlocks (f : BuildFailure σ ε) : List EmptyBlock :=
  f.faults.filterMap fun
    | .emptyBlock note => some note
    | _ => none

/-- The contradictions among the faults. -/
def contradictions (f : BuildFailure σ ε) : List Contradiction :=
  f.faults.filterMap fun
    | .contradiction cause => some cause
    | _ => none

/-- The groups of duplicates, if they are among the faults. -/
def duplicates? (f : BuildFailure σ ε) : Option (List (List (Summary σ ε))) :=
  f.faults.findSome? fun
    | .duplicates groups => some groups
    | _ => none

/-- The groups of clashing rules, if they are among the faults. -/
def clashes? (f : BuildFailure σ ε) : Option (List (List (Summary σ ε))) :=
  f.faults.findSome? fun
    | .clashes groups => some groups
    | _ => none

/-- The contested keys, if they are among the faults. -/
def contests? (f : BuildFailure σ ε) : Option (List (Contest σ ε)) :=
  f.faults.findSome? fun
    | .contests keys => some keys
    | _ => none

/-- The number of faults, then each on lines of its own. -/
def message [State σ] [Event ε] (f : BuildFailure σ ε) : String :=
  "table build failed with " ++ toString f.size ++ " error(s)"
    ++ String.join (f.faults.map fun fault => "\n- " ++ fault.message)

end BuildFailure

end TableMachine
