import TableMachine.Alphabet.Basic
import TableMachine.Alphabet.Payload

/-!
# Named states and events

States and events given by their names alone, for machines that are described by data. Which states
are final is settled once for a whole machine, by a list of names. An event may carry a whole
number, or stand for any number. An event with a number falls back on its form for any number,
except that events whose names begin with `Raw` never do.
-/

namespace TableMachine.Scripted

/-- A state that is known by its name, among states of which those with the given names are
final. -/
structure NamedState (finals : List String) where
  /-- The name. -/
  name : String
deriving DecidableEq

/-- An event that is known by its name and its payload. -/
structure NamedEvent where
  /-- The name. -/
  name : String
  /-- The payload, if the event carries one. -/
  payload? : Option (Payload Int) := none
deriving DecidableEq

namespace NamedEvent

/-- The name, and the payload in parentheses. -/
def text (e : NamedEvent) : String :=
  match e.payload? with
  | none => e.name
  | some payload => e.name ++ "(" ++ payload.inspect toString ++ ")"

/-- Events of this name stand for themselves only. -/
def isRaw (e : NamedEvent) : Bool :=
  "Raw".toList.isPrefixOf e.name.toList

/-- The same event for any number, if this one carries a number and its name does not forbid it. -/
def wildcard? (e : NamedEvent) : Option NamedEvent :=
  match e.payload? with
  | some (.some n) =>
    if e.isRaw then none else some { e with payload? := some (Payload.some n).widened }
  | _ => none

end NamedEvent

instance (finals : List String) : State (NamedState finals) where
  name := NamedState.name
  isFinal s := finals.contains s.name

instance : Event NamedEvent where
  name := NamedEvent.name
  text := NamedEvent.text
  wildcard? := NamedEvent.wildcard?

/-- A state is exported as its name. -/
instance (finals : List String) : Exported (NamedState finals) where
  document s := .text s.name
  ofDocument? d := d.asText?.map NamedState.mk

/-- An event is exported as its name, with the payload as a field if there is one. -/
instance : Exported NamedEvent where
  document e :=
    match e.payload? with
    | none => .text e.name
    | some payload => .record [(e.name, Exported.document payload)]
  ofDocument?
    | .text name => some { name }
    | .record [(name, d)] => (Exported.ofDocument? d).map fun payload =>
      { name, payload? := some payload }
    | _ => none

end TableMachine.Scripted
