import TableMachine.Table.Draft
import TableMachine.Table.Ruling

/-!
# Dispatch tables

A dispatch table maps every dispatch key that some rule of the table handles to that rule. It also
holds the table's families, which say what a combination must contain, and the hooks of the states.
-/

namespace TableMachine

/-- A compiled table. -/
structure DispatchTable (σ ε χ ω : Type) where
  /-- The rule at each key. -/
  entries : List (DispatchKey σ ε × Rule σ ε χ ω)
  /-- The families that a combination must span. -/
  families : List Family
  /-- The actions to be run when a state is entered. -/
  entry : Hooks σ ε χ ω
  /-- The actions to be run when a state is left. -/
  exit : Hooks σ ε χ ω
  /-- What was found questionable in compiling the table. -/
  warnings : List (Fault σ ε)

namespace DispatchTable

variable {σ ε χ ω : Type}

/-- The number of keys. -/
def size (t : DispatchTable σ ε χ ω) : Nat :=
  t.entries.length

/-- Whether there is no key. -/
def isEmpty (t : DispatchTable σ ε χ ω) : Bool :=
  t.entries.isEmpty

/-- The combination that supplied values amount to: those of the table's families, provided that
there is exactly one of each. -/
def snapshot? (t : DispatchTable σ ε χ ω) (values : List Value) : Option Combination :=
  let known : Combination := .ofList (values.filter fun v => v.family ∈ t.families)
  if Combination.Consistent known ∧ known.size = t.families.length then some known else none

/-- The long form, with the numbers of keys and warnings. -/
def inspect (t : DispatchTable σ ε χ ω) : String :=
  "CompiledTable \x7b entries: " ++ toString t.size
    ++ ", families: " ++ Text.bracketed (t.families.map Family.name)
    ++ ", warnings: " ++ toString t.warnings.length ++ " \x7d"

variable [DecidableEq σ] [DecidableEq ε]

/-- The rule at a key. -/
def at? (t : DispatchTable σ ε χ ω) (k : DispatchKey σ ε) : Option (Rule σ ε χ ω) :=
  (t.entries.find? fun entry => entry.1 = k).map Prod.snd

/-- The rule that handles an event in a state and combination: the rule of the event itself, or else
that of its wildcard. -/
def lookup? [Event ε] (t : DispatchTable σ ε χ ω) (state : σ) (event : ε) (c : Combination) :
    Option (Rule σ ε χ ω) :=
  (t.at? ⟨state, event, c⟩).or <|
    (Event.wildcard? event).bind fun wildcard => t.at? ⟨state, wildcard, c⟩

/-- The rule that handles an event in a state under supplied values. -/
def find? [Event ε] (t : DispatchTable σ ε χ ω) (state : σ) (event : ε) (values : List Value) :
    Option (Rule σ ε χ ω) :=
  (t.snapshot? values).bind fun c => t.lookup? state event c

/-- The actions to be run when a state is entered. -/
def entryActions (t : DispatchTable σ ε χ ω) (state : σ) : List (Action ε χ ω) :=
  t.entry.of state

/-- The actions to be run when a state is left. -/
def exitActions (t : DispatchTable σ ε χ ω) (state : σ) : List (Action ε χ ω) :=
  t.exit.of state

end DispatchTable

end TableMachine
