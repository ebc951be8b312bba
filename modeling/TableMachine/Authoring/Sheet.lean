import TableMachine.Authoring.EmptyBlock
import TableMachine.Rule.Template

/-!
# Sheets of templates

A sheet is a list of templates together with notes of the empty blocks met while it was written. The
operations below each apply one field to a whole sheet, the way a block applies it to what stands
inside: a further condition, the events, the state that is led to, or leading actions. Applied to a
sheet without templates each of them notes an empty block instead, before the notes that the sheet
already holds.
-/

namespace TableMachine

/-- Templates and notes of empty blocks. -/
structure Sheet (σ ε χ ω : Type) where
  /-- The templates, in the order in which they were written. -/
  templates : List (Template σ ε χ ω) := []
  /-- The empty blocks met so far. -/
  notes : List EmptyBlock := []

namespace Sheet

variable {σ ε χ ω : Type}

/-- The sheet of one template. -/
def single (t : Template σ ε χ ω) : Sheet σ ε χ ω :=
  { templates := [t] }

/-- One sheet after the other. -/
protected def append (a b : Sheet σ ε χ ω) : Sheet σ ε χ ω where
  templates := a.templates ++ b.templates
  notes := a.notes ++ b.notes

instance : Append (Sheet σ ε χ ω) where
  append := Sheet.append

/-- The number of templates. -/
def size (s : Sheet σ ε χ ω) : Nat :=
  s.templates.length

/-- Whether there is no template. -/
def isEmpty (s : Sheet σ ε χ ω) : Bool :=
  s.templates.isEmpty

/-- The sheet that keeps only the notes, with one of an empty block in front. -/
def emptied (s : Sheet σ ε χ ω) (block : String) (location : Location) : Sheet σ ε χ ω where
  templates := []
  notes := ⟨block, location⟩ :: s.notes

/-- Changes every template. -/
def mapTemplates (f : Template σ ε χ ω → Template σ ε χ ω) (s : Sheet σ ε χ ω) : Sheet σ ε χ ω :=
  { s with templates := s.templates.map f }

/-- Narrows every template by a condition, which stands where the block does unless it has a place
of its own. -/
def matching (s : Sheet σ ε χ ω) (location : Location) (m : Condition) : Sheet σ ε χ ω :=
  if s.isEmpty then s.emptied "matching" location
  else s.mapTemplates (·.matching (m.placedOr location))

/-- Gives the events to every template that names none. -/
def when (s : Sheet σ ε χ ω) (location : Location) (events : List ε) : Sheet σ ε χ ω :=
  if events.isEmpty || s.isEmpty then s.emptied "when" location
  else s.mapTemplates fun t => if t.events.isEmpty then { t with events } else t

/-- Leads every template that leaves it open to the state. -/
def leadingTo (s : Sheet σ ε χ ω) (location : Location) (state : σ) : Sheet σ ε χ ω :=
  if s.isEmpty then s.emptied "then" location
  else s.mapTemplates fun t => { t with next? := t.next?.or (some state) }

/-- Puts actions before those of every template. -/
def acting (s : Sheet σ ε χ ω) (location : Location) (leading : List (Action ε χ ω)) :
    Sheet σ ε χ ω :=
  if s.isEmpty then s.emptied "actions" location
  else s.mapTemplates fun t => { t with actions := leading ++ t.actions }

/-- Marks every template as the share of a super-state. -/
def ofGroup (s : Sheet σ ε χ ω) (group : Group) : Sheet σ ε χ ω :=
  s.mapTemplates fun t => { t with group? := some group }

end Sheet

end TableMachine
