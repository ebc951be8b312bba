import TableMachine.Rule.Basic

/-!
# Rule templates

A template is a rule before it has been given a state. It may handle several events, and it may
leave open where it leads: then it stays in the state that it is given.
-/

namespace TableMachine

/-- A rule that still lacks its state. -/
structure Template (σ ε χ ω : Type) where
  /-- The events, each of which gives a rule. -/
  events : List ε := []
  /-- The condition on the predicate values. -/
  condition : Condition := .always
  /-- The state that the rules lead to, if it is fixed. -/
  next? : Option σ := none
  /-- The guard, if there is one. -/
  guard? : Option (Guard ω) := none
  /-- The actions. -/
  actions : List (Action ε χ ω) := []
  /-- Where the template was written. -/
  location : Location
  /-- The super-state that the template belongs to, if it belongs to one. -/
  group? : Option Group := none
  /-- Whether its rules replace rules of other groups. -/
  overriding : Bool := false

namespace Template

variable {σ ε χ ω : Type}

/-- The template narrowed by a further condition. -/
def matching (t : Template σ ε χ ω) (m : Condition) : Template σ ε χ ω :=
  { t with condition := t.condition.both m }

/-- The rules that the template gives in a state, one for each event in order. -/
def rulesIn (t : Template σ ε χ ω) (state : σ) : List (Rule σ ε χ ω) :=
  t.events.map fun event =>
    { state
      event
      condition := t.condition
      next := t.next?.getD state
      guard? := t.guard?
      actions := t.actions
      location := t.location
      group? := t.group?
      overriding := t.overriding }

end Template

end TableMachine
