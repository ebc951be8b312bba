import TableMachine.Condition.Combination
import TableMachine.Location

/-!
# Conditions on combinations

A condition asks for some values outright and may add alternatives, each a set of values: a
combination satisfies it if it holds the required values and all values of one alternative. No
alternatives at all means no further demand. The *branches* are the alternatives with the required
values added; a combination satisfies a condition exactly if it holds one of its branches.

Two conditions are *alike* if they have the same form: the same required values and the same set of
alternatives, in whatever order these were written and wherever the conditions stand.
-/

namespace TableMachine

/-- A conjunction of values, refined by alternatives. -/
structure Condition where
  /-- The values that must be held in any case. -/
  required : Combination := ∅
  /-- The alternatives, of which one must be held; none means no demand. -/
  alternatives : List Combination := []
  /-- Where the condition was written, if that is known. -/
  location? : Option Location := none
deriving DecidableEq

namespace Condition

instance : Inhabited Condition :=
  ⟨{}⟩

/-- The condition that holds of every combination. -/
def always : Condition :=
  {}

/-- All of the values. -/
def allOf (values : List Value) : Condition :=
  { required := .ofList values }

/-- One more value is required. -/
def and (m : Condition) (v : Value) : Condition :=
  { m with required := insert v m.required }

/-- One more alternative is offered. -/
def or (m : Condition) (values : List Value) : Condition :=
  { m with alternatives := m.alternatives ++ [.ofList values] }

/-- One of the alternatives. -/
def anyOf (alternatives : List (List Value)) : Condition :=
  alternatives.foldl or always

/-- One of the values. -/
def oneOf (values : List Value) : Condition :=
  values.foldl (fun m v => m.or [v]) always

/-- The condition, placed. -/
def placed (m : Condition) (location : Location) : Condition :=
  { m with location? := some location }

/-- The condition with a place, its own if it has one. -/
def placedOr (m : Condition) (location : Location) : Condition :=
  m.placed (m.location?.getD location)

/-- No value is demanded. -/
def isTrivial (m : Condition) : Bool :=
  m.required.isEmpty && m.alternatives.all SortedSet.isEmpty

/-- Every value that is mentioned. -/
def values (m : Condition) : Combination :=
  m.alternatives.foldl (· ∪ ·) m.required

/-- The families of the values mentioned. -/
def families (m : Condition) : SortedSet Family :=
  Combination.families m.values

/-- The alternatives together with the required values; the required values alone if there is no
alternative. -/
def branches (m : Condition) : List Combination :=
  match m.alternatives with
  | [] => [m.required]
  | alternatives => alternatives.map (m.required ∪ ·)

/-- The combination holds a whole branch. -/
def Holds (m : Condition) (c : Combination) : Prop :=
  ∃ branch ∈ m.branches, branch ⊆ c

instance (m : Condition) (c : Combination) : Decidable (m.Holds c) :=
  inferInstanceAs (Decidable (∃ branch ∈ m.branches, branch ⊆ c))

/-- The alternatives of a conjunction: those of one side if the other has none, else every union of
one from the left and one from the right, the left varying slowest. -/
def crossed : List Combination → List Combination → List Combination
  | [], right => right
  | left, [] => left
  | left, right => left.flatMap fun l => right.map (l ∪ ·)

/-- Both conditions at once, at the place of the first that has one. -/
def both (m n : Condition) : Condition where
  required := m.required ∪ n.required
  alternatives := crossed m.alternatives n.alternatives
  location? := m.location?.or n.location?

/-! ## Equality up to order and place -/

/-- What matters of a condition: neither its place nor the order or repetition of alternatives. -/
structure Form where
  /-- The required values. -/
  required : Combination
  /-- The alternatives as a set. -/
  alternatives : SortedSet Combination
deriving DecidableEq

/-- The form of a condition. -/
def form (m : Condition) : Form where
  required := m.required
  alternatives := .ofList m.alternatives

/-- The two conditions have one form. -/
def Alike (m n : Condition) : Prop :=
  m.form = n.form

instance (m n : Condition) : Decidable (m.Alike n) :=
  inferInstanceAs (Decidable (_ = _))

/-! ## Contradictions -/

/-- Neighbours of one family in the order of the combination. -/
def rivals (c : Combination) : List (Value × Value) :=
  (c.toList.zip c.toList.tail).filter fun pair => pair.1.family = pair.2.family

/-- The rivals of all branches, each pair once, in the order of the branches. -/
def conflicts (m : Condition) : List (Value × Value) :=
  (m.branches.flatMap rivals).eraseDups

/-! ## Texts -/

/-- The required values, then the alternatives; only brackets if nothing is demanded. -/
def text (m : Condition) : String :=
  if m.isTrivial then
    Text.bracketed []
  else
    let required := if m.required.isEmpty then [] else ["all: " ++ Combination.text m.required]
    let alternatives :=
      if m.alternatives.isEmpty then []
      else ["any: " ++ Text.joined " | " (m.alternatives.map Combination.text)]
    Text.joined ", " (required ++ alternatives)

end Condition

/-- A condition that no consistent combination can satisfy in one of its branches. -/
structure Contradiction where
  /-- The condition. -/
  condition : Condition
  /-- Pairs of different values of one family that a branch asks for together. -/
  conflicts : List (Value × Value)
deriving DecidableEq

namespace Contradiction

/-- The condition, its place if it has one, and the conflicting pairs. -/
def message (e : Contradiction) : String :=
  "matching(" ++ e.condition.text ++ ")"
    ++ (match e.condition.location? with
      | some location => " at " ++ location.text
      | none => "")
    ++ " can never be satisfied: "
    ++ Text.joined "; " (e.conflicts.map fun pair => pair.1.text ++ ", " ++ pair.2.text)

end Contradiction

namespace Condition

/-- The contradiction in a condition, if one of its branches has rivals. -/
def contradiction? (m : Condition) : Option Contradiction :=
  if m.conflicts.isEmpty then none else some ⟨m, m.conflicts⟩

end Condition

end TableMachine
