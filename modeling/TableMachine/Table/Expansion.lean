import TableMachine.Condition.Coverage
import TableMachine.Order.Classes
import TableMachine.Rule.Basic

/-!
# Rules over their universe

The universe of a table consists of the families that its rules mention. Over it every condition is
expanded into the combinations that it covers. Like conditions share one expansion, made from the
first of them, so that what is reported of a condition does not depend on which rule is looked at.
-/

namespace TableMachine

namespace Rule

variable {σ ε χ ω : Type}

/-- The families mentioned by the rules' conditions, in order of first mention. -/
def mentionedFamilies (rules : List (Rule σ ε χ ω)) : List Family :=
  (rules.flatMap fun r => r.condition.families.toList).eraseDups

/-- The unlisted values mentioned by the rules, each once for every place where it is mentioned. -/
def unlistedValues (rules : List (Rule σ ε χ ω)) : List (Value × Location) :=
  (rules.flatMap fun r =>
    (r.condition.values.toList.filter fun v => ¬v.Listed).map fun v =>
      (v, r.conditionLocation)).eraseDups

/-- The condition that stands for all conditions like `m`: the first of them among the rules. -/
def representative (rules : List (Rule σ ε χ ω)) (m : Condition) : Condition :=
  ((rules.map Rule.condition).find? fun n => n.Alike m).getD m

/-- What a condition covers over the universe, as expanded for all conditions like it. -/
def expansion (rules : List (Rule σ ε χ ω)) (m : Condition) : Except Contradiction Coverage :=
  (representative rules m).coverage (mentionedFamilies rules)

/-- The contradiction in a rule's condition, at its own place or else at the rule's. -/
def contradiction? (rules : List (Rule σ ε χ ω)) (r : Rule σ ε χ ω) : Option Contradiction :=
  (representative rules r.condition).contradiction?.map fun e =>
    { e with condition := r.condition.placedOr r.location }

/-- The contradictions in the rules' conditions, each once for every place of like conditions. -/
def contradictions (rules : List (Rule σ ε χ ω)) : List Contradiction :=
  distinctBy (fun e => (e.condition.form, e.condition.location?))
    (rules.filterMap (contradiction? rules))

end Rule

end TableMachine
