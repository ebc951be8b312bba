/-!
# States and events

A machine needs little of its states and events: that they can be told apart, how they are called in
messages, which states are final, and which event stands in for an event that no rule handles.
-/

namespace TableMachine

/-- The states of a machine. -/
class State (σ : Type) where
  /-- The name shown in messages. -/
  name : σ → String
  /-- Whether the machine is done in this state; by default no state is final. -/
  isFinal : σ → Bool := fun _ => false

/-- The events that a machine reacts to. -/
class Event (ε : Type) where
  /-- The name shown where only the kind of event matters. -/
  name : ε → String
  /-- The full text, payload included; by default the name. -/
  text : ε → String := name
  /-- The event whose rules serve when the event itself has none; by default there is no such
  event. -/
  wildcard? : ε → Option ε := fun _ => none

end TableMachine
