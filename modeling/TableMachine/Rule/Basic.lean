import TableMachine.Alphabet.Basic
import TableMachine.Behaviour.Action
import TableMachine.Behaviour.Guard
import TableMachine.Condition.Basic

/-!
# Rules

A rule says: in this state, on this event, if this condition on the predicate values holds, go to
that state. It may carry a guard and actions. A rule that comes from a super-state belongs to that
super-state's group, and a rule may be marked as overriding rules of other groups.

The *declared key* of a rule is its state, its event and the form of its condition. Rules of one key
answer the same question, so they either repeat or contradict each other.
-/

namespace TableMachine

/-- A name for a super-state's share of the rules. -/
abbrev Group :=
  Nat

/-- One row of a transition table. -/
structure Rule (σ ε χ ω : Type) where
  /-- The state in which the rule applies. -/
  state : σ
  /-- The event that it handles. -/
  event : ε
  /-- The condition on the predicate values. -/
  condition : Condition := .always
  /-- The state that it leads to. -/
  next : σ
  /-- The guard asked at dispatch, if there is one. -/
  guard? : Option (Guard ω) := none
  /-- The actions to be run on execution. -/
  actions : List (Action ε χ ω) := []
  /-- Where the rule was written. -/
  location : Location
  /-- The super-state that the rule comes from, if it comes from one. -/
  group? : Option Group := none
  /-- Whether the rule replaces rules of other groups. -/
  overriding : Bool := false

/-- What a rule declares about dispatch, apart from where it leads. -/
structure DeclaredKey (σ ε : Type) where
  /-- The state. -/
  state : σ
  /-- The event. -/
  event : ε
  /-- The condition up to order and place. -/
  form : Condition.Form
deriving DecidableEq

/-- A rule as messages and answers show it: without its guard and actions. -/
structure Summary (σ ε : Type) where
  /-- The state in which the rule applies. -/
  state : σ
  /-- The event that it handles. -/
  event : ε
  /-- The state that it leads to. -/
  next : σ
  /-- The condition on the predicate values. -/
  condition : Condition
  /-- Where the rule was written. -/
  location : Location
  /-- Whether the rule has a guard. -/
  conditional : Bool
deriving DecidableEq

namespace Rule

variable {σ ε χ ω : Type}

/-- The declared key. -/
def key (r : Rule σ ε χ ω) : DeclaredKey σ ε :=
  ⟨r.state, r.event, r.condition.form⟩

/-- The two rules have one declared key. -/
def SameKey (r s : Rule σ ε χ ω) : Prop :=
  r.state = s.state ∧ r.event = s.event ∧ r.condition.Alike s.condition

instance [DecidableEq σ] [DecidableEq ε] (r s : Rule σ ε χ ω) : Decidable (r.SameKey s) :=
  inferInstanceAs (Decidable (_ ∧ _ ∧ _))

theorem sameKey_iff {r s : Rule σ ε χ ω} : r.SameKey s ↔ r.key = s.key := by
  simp [SameKey, key, Condition.Alike]

/-- Where the condition was written: its own place, or else the rule's. -/
def conditionLocation (r : Rule σ ε χ ω) : Location :=
  r.condition.location?.getD r.location

/-- Whether the rule has a guard. -/
def isConditional (r : Rule σ ε χ ω) : Bool :=
  r.guard?.isSome

/-- Whether some action is an effect. -/
def hasEffects (r : Rule σ ε χ ω) : Bool :=
  r.actions.any Action.isEffect

/-- Asks the guard whether the rule may be executed. -/
def canExecute (r : Rule σ ε χ ω) (w : ω) : Bool × ω :=
  Guard.allows r.guard? w

/-- What is shown of the rule. -/
def summary (r : Rule σ ε χ ω) : Summary σ ε where
  state := r.state
  event := r.event
  next := r.next
  condition := r.condition
  location := r.location
  conditional := r.isConditional

/-- The long form, with the number of actions. -/
def inspect [State σ] [Event ε] (r : Rule σ ε χ ω) : String :=
  "Rule \x7b state: " ++ State.name r.state
    ++ ", event: " ++ Event.text r.event
    ++ ", matching: " ++ r.condition.text
    ++ ", next: " ++ State.name r.next
    ++ ", actions: " ++ toString r.actions.length
    ++ ", location: " ++ r.location.inspect ++ " \x7d"

end Rule

namespace Summary

variable {σ ε : Type}

/-- Equality of summaries with conditions compared by form. -/
def Alike (s t : Summary σ ε) : Prop :=
  s.state = t.state ∧ s.event = t.event ∧ s.next = t.next ∧ s.condition.Alike t.condition ∧
    s.location = t.location ∧ s.conditional = t.conditional

instance [DecidableEq σ] [DecidableEq ε] (s t : Summary σ ε) : Decidable (s.Alike t) :=
  inferInstanceAs (Decidable (_ ∧ _ ∧ _ ∧ _ ∧ _ ∧ _))

/-- The rule as it would be declared, and where. A condition that demands nothing is left out. -/
def text [State σ] [Event ε] (s : Summary σ ε) : String :=
  "\x7b define(" ++ State.name s.state ++ ")"
    ++ (if s.condition.isTrivial then "" else " | matching(" ++ s.condition.text ++ ")")
    ++ (if s.conditional then " | condition" else "")
    ++ " | when(" ++ Event.text s.event ++ ") | then(" ++ State.name s.next ++ ") \x7d at "
    ++ s.location.text

end Summary

end TableMachine
