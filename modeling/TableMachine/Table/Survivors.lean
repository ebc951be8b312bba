import TableMachine.Rule.Basic

/-!
# Overriding

A rule marked as overriding replaces the rules declared before it that have its key, belong to a
super-state other than its own and are not overriding themselves. The rules that no later rule
replaces *survive*. An overriding rule with nothing to replace is idle, which is a fault; it does
not matter whether the rule that it names was already replaced by an earlier one.
-/

namespace TableMachine

namespace Rule

variable {σ ε χ ω : Type}

/-- The rule, if it is declared later, replaces the other one. -/
def Replaces (r earlier : Rule σ ε χ ω) : Prop :=
  r.overriding ∧ ¬earlier.overriding ∧ earlier.group?.isSome ∧ earlier.group? ≠ r.group? ∧
    earlier.SameKey r

variable [DecidableEq σ] [DecidableEq ε]

instance (r earlier : Rule σ ε χ ω) : Decidable (r.Replaces earlier) :=
  inferInstanceAs (Decidable (_ ∧ _ ∧ _ ∧ _ ∧ _))

/-- The rules that no later rule replaces. -/
def survivors : List (Rule σ ε χ ω) → List (Rule σ ε χ ω)
  | [] => []
  | r :: later =>
    if ∃ o ∈ later, o.Replaces r then survivors later else r :: survivors later

/-- The overriding rules among `rules` that replace neither one of `earlier` nor one before them. -/
def idleAfter (earlier : List (Rule σ ε χ ω)) : List (Rule σ ε χ ω) → List (Rule σ ε χ ω)
  | [] => []
  | r :: later =>
    if r.overriding ∧ ¬∃ e ∈ earlier, r.Replaces e then r :: idleAfter (r :: earlier) later
    else idleAfter (r :: earlier) later

/-- The overriding rules that replace none of those before them. -/
def idle (rules : List (Rule σ ε χ ω)) : List (Rule σ ε χ ω) :=
  idleAfter [] rules

end Rule

end TableMachine
