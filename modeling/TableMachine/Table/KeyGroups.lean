import TableMachine.Order.Classes
import TableMachine.Rule.Basic

/-!
# Rules of one declared key

Rules of one declared key form a group. If they all lead to one state they repeat each other, and
the first of them stands for all. If they lead to several states they clash, and none of them takes
part in dispatch. Inside a group the rules are told apart by the states that they lead to.
-/

namespace TableMachine

namespace Rule

variable {σ ε χ ω : Type} [DecidableEq σ] [DecidableEq ε]

/-- The rules by declared key. -/
def groups (rules : List (Rule σ ε χ ω)) : List (List (Rule σ ε χ ω)) :=
  classes Rule.key rules

/-- The rules of a group by the state that they lead to. -/
def byNext (group : List (Rule σ ε χ ω)) : List (List (Rule σ ε χ ω)) :=
  classes Rule.next group

/-- Two or more rules. -/
def isPlural (rules : List (Rule σ ε χ ω)) : Bool :=
  1 < rules.length

/-- The rules that repeat each other: those of one declared key that lead to one state. -/
def repeats (rules : List (Rule σ ε χ ω)) : List (List (Rule σ ε χ ω)) :=
  (groups rules).flatMap fun group => (byNext group).filter isPlural

/-- For every declared key whose rules lead to several states, the first rule for each of these. -/
def clashes (rules : List (Rule σ ε χ ω)) : List (List (Rule σ ε χ ω)) :=
  ((groups rules).map fun group => (byNext group).filterMap List.head?).filter isPlural

/-- The first rule of every declared key whose rules lead to one state. -/
def standing (rules : List (Rule σ ε χ ω)) : List (Rule σ ε χ ω) :=
  (groups rules).filterMap fun group =>
    if (byNext group).length = 1 then group.head? else none

end Rule

end TableMachine
