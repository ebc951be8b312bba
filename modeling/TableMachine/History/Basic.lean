import TableMachine.History.Timestamp

/-!
# Histories

A machine keeps a record of every transition that it executed: from where to where, on which event,
and when. Records are only ever added at the end, and adding one gives a new history.
-/

namespace TableMachine

/-- One executed transition. -/
structure TransitionRecord (σ ε : Type) where
  /-- The state before. -/
  source : σ
  /-- The state after. -/
  target : σ
  /-- The event as it was dispatched. -/
  event : ε
  /-- When the transition was executed. -/
  timestamp : Timestamp
deriving DecidableEq

/-- The transition leads back to the state where it began. -/
def TransitionRecord.IsLoop {σ ε : Type} (r : TransitionRecord σ ε) : Prop :=
  r.source = r.target

instance {σ ε : Type} [DecidableEq σ] (r : TransitionRecord σ ε) : Decidable r.IsLoop :=
  inferInstanceAs (Decidable (_ = _))

/-- The executed transitions, the oldest first. -/
structure History (σ ε : Type) where
  /-- The records. -/
  records : List (TransitionRecord σ ε) := []
deriving DecidableEq

namespace History

variable {σ ε : Type}

/-- The history with one more record. -/
def add (h : History σ ε) (r : TransitionRecord σ ε) : History σ ε where
  records := h.records ++ [r]

/-- The number of records. -/
def size (h : History σ ε) : Nat :=
  h.records.length

/-- Whether nothing was executed. -/
def isEmpty (h : History σ ε) : Bool :=
  h.records.isEmpty

/-- The latest record. -/
def last? (h : History σ ε) : Option (TransitionRecord σ ε) :=
  h.records.getLast?

/-- The state in which the first transition began, and the states reached since. -/
def path (h : History σ ε) : List σ :=
  (h.records.head?.map TransitionRecord.source).toList ++ h.records.map TransitionRecord.target

/-- The events in order. -/
def events (h : History σ ε) : List ε :=
  h.records.map TransitionRecord.event

/-- The time from the first to the last record, unless there is none or the clock ran backwards. -/
def duration? (h : History σ ε) : Option Span :=
  h.records.head?.bind fun first =>
    h.last?.bind fun last => first.timestamp.until? last.timestamp

end History

end TableMachine
