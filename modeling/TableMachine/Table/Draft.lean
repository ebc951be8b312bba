import TableMachine.Authoring.SuperState
import TableMachine.Table.Fault

/-!
# Drafts of a table

A draft is what a table is compiled from: a flat list of rules, the hooks of the states, and the
faults found while it was written. `StateDefinition.draft` flattens a definition of states with its
blocks and super-states, and `Draft.ofSteps` puts definitions and single rules together.
-/

namespace TableMachine

variable {σ ε χ ω : Type}

/-- Actions attached to states, as contributed one after another. -/
abbrev Hooks (σ ε χ ω : Type) :=
  List (σ × List (Action ε χ ω))

/-- All actions attached to a state, in order of contribution. -/
def Hooks.of [DecidableEq σ] (hooks : Hooks σ ε χ ω) (state : σ) : List (Action ε χ ω) :=
  hooks.flatMap fun (s, actions) => if s = state then actions else []

/-- A table before it is compiled. -/
structure Draft (σ ε χ ω : Type) where
  /-- The rules in order of declaration. -/
  rules : List (Rule σ ε χ ω) := []
  /-- The actions to be run when a state is entered. -/
  entry : Hooks σ ε χ ω := []
  /-- The actions to be run when a state is left. -/
  exit : Hooks σ ε χ ω := []
  /-- What was found wrong so far. -/
  faults : List (Fault σ ε) := []

/-- States that are defined together. -/
structure StateDefinition (σ ε χ ω : Type) where
  /-- The states. -/
  states : List σ
  /-- The super-states that they adopt. -/
  adopted : List (SuperState σ ε χ ω) := []
  /-- Their own rules. -/
  blocks : List (Block σ ε χ ω) := []
  /-- Their own actions on entry. -/
  entry : List (Action ε χ ω) := []
  /-- Their own actions on exit. -/
  exit : List (Action ε χ ω) := []
  /-- Where the definition stands. -/
  location : Location

namespace StateDefinition

/-- The definition's own templates and notes. -/
def ownSheet (d : StateDefinition σ ε χ ω) : Sheet σ ε χ ω :=
  Block.sheets d.blocks

/-- All templates: the inherited ones first. -/
def templates (d : StateDefinition σ ε χ ω) : List (Template σ ε χ ω) :=
  SuperState.templatesOf d.adopted ++ d.ownSheet.templates

/-- Whether the definition has no state, or defines nothing about its states. -/
def isEmpty (d : StateDefinition σ ε χ ω) : Bool :=
  d.states.isEmpty || (d.templates.isEmpty && d.adopted.isEmpty)

/-- The empty blocks: the definition itself if it is empty, those inside, and a `when` for every
template that names no event. -/
def notes (d : StateDefinition σ ε χ ω) : List EmptyBlock :=
  (if d.isEmpty then [⟨"define", d.location⟩] else [])
    ++ (SuperState.notesOf d.adopted ++ d.ownSheet.notes)
    ++ (d.templates.filter fun t => t.events.isEmpty).map fun t => ⟨"when", t.location⟩

/-- The actions on entry: the own ones, then the inherited ones. -/
def entryActions (d : StateDefinition σ ε χ ω) : List (Action ε χ ω) :=
  d.entry ++ SuperState.entryOf d.adopted

/-- The actions on exit: the own ones, then the inherited ones. -/
def exitActions (d : StateDefinition σ ε χ ω) : List (Action ε χ ω) :=
  d.exit ++ SuperState.exitOf d.adopted

/-- The flat form: for every state each template's rules and the hooks, and each fault once. -/
def draft (d : StateDefinition σ ε χ ω) : Draft σ ε χ ω where
  rules := d.states.flatMap fun state => d.templates.flatMap fun t => t.rulesIn state
  entry := d.states.map fun state => (state, d.entryActions)
  exit := d.states.map fun state => (state, d.exitActions)
  faults := d.notes.map .emptyBlock

end StateDefinition

namespace Draft

/-- The draft of some rules. -/
def ofRules (rules : List (Rule σ ε χ ω)) : Draft σ ε χ ω :=
  { rules }

/-- The draft with one more rule. -/
def addRule (d : Draft σ ε χ ω) (rule : Rule σ ε χ ω) : Draft σ ε χ ω :=
  { d with rules := d.rules ++ [rule] }

/-- The draft with one more fault. -/
def addFault (d : Draft σ ε χ ω) (fault : Fault σ ε) : Draft σ ε χ ω :=
  { d with faults := d.faults ++ [fault] }

/-- The draft with further actions on entry into a state. -/
def onEntry (d : Draft σ ε χ ω) (state : σ) (actions : List (Action ε χ ω)) : Draft σ ε χ ω :=
  { d with entry := d.entry ++ [(state, actions)] }

/-- The draft with further actions on exit from a state. -/
def onExit (d : Draft σ ε χ ω) (state : σ) (actions : List (Action ε χ ω)) : Draft σ ε χ ω :=
  { d with exit := d.exit ++ [(state, actions)] }

/-- The draft followed by all that another one holds. -/
def extend (d other : Draft σ ε χ ω) : Draft σ ε χ ω where
  rules := d.rules ++ other.rules
  entry := d.entry ++ other.entry
  exit := d.exit ++ other.exit
  faults := d.faults ++ other.faults

/-- What a table is put together from. -/
inductive Step (σ ε χ ω : Type) where
  /-- A definition of states. -/
  | define (definition : StateDefinition σ ε χ ω)
  /-- A single rule. -/
  | row (rule : Rule σ ε χ ω)

/-- The draft with one more step taken. -/
def take (d : Draft σ ε χ ω) : Step σ ε χ ω → Draft σ ε χ ω
  | .define definition => d.extend definition.draft
  | .row rule => d.addRule rule

/-- The draft that the steps give, taken in order. -/
def ofSteps (steps : List (Step σ ε χ ω)) : Draft σ ε χ ω :=
  steps.foldl take {}

end Draft

end TableMachine
