import TableMachine.Authoring.Sheet

/-!
# Blocks

Rules are written as a tree: transitions at the leaves, and around them blocks that each share one
field among all that stands inside. `Block.sheet` reads a tree off as a sheet of templates, from
left to right and from the inside out. `Block.induct` is induction over such trees.
-/

namespace TableMachine

/-- A tree of rules under shared fields. Every block that shares a field knows where it stands. -/
inductive Block (σ ε χ ω : Type) where
  /-- A single transition. -/
  | transition (template : Template σ ε χ ω)
  /-- Several blocks side by side. -/
  | several (children : List (Block σ ε χ ω))
  /-- All inside holds only under a condition. -/
  | matching (location : Location) (condition : Condition) (children : List (Block σ ε χ ω))
  /-- All inside that names no event reacts to these. -/
  | when (location : Location) (events : List ε) (children : List (Block σ ε χ ω))
  /-- All inside that names no next state leads to this one. -/
  | leadingTo (location : Location) (state : σ) (children : List (Block σ ε χ ω))
  /-- All inside first runs these actions. -/
  | acting (location : Location) (leading : List (Action ε χ ω)) (children : List (Block σ ε χ ω))

namespace Block

variable {σ ε χ ω : Type}

mutual

/-- The templates and notes that a block gives. -/
def sheet : Block σ ε χ ω → Sheet σ ε χ ω
  | transition t => .single t
  | several children => sheets children
  | matching location m children => (sheets children).matching location m
  | when location events children => (sheets children).when location events
  | leadingTo location state children => (sheets children).leadingTo location state
  | acting location leading children => (sheets children).acting location leading

/-- The templates and notes of blocks side by side. -/
def sheets : List (Block σ ε χ ω) → Sheet σ ε χ ω
  | [] => {}
  | block :: rest => block.sheet ++ sheets rest

end

/-! ## Blocks side by side -/

theorem templates_sheets (blocks : List (Block σ ε χ ω)) :
    (sheets blocks).templates = blocks.flatMap fun block => block.sheet.templates := by
  induction blocks with
  | nil => rfl
  | cons block rest ih =>
    rw [List.flatMap_cons, ← ih]
    rfl

theorem notes_sheets (blocks : List (Block σ ε χ ω)) :
    (sheets blocks).notes = blocks.flatMap fun block => block.sheet.notes := by
  induction blocks with
  | nil => rfl
  | cons block rest ih =>
    rw [List.flatMap_cons, ← ih]
    rfl

/-! ## Induction -/

/-- What holds of every block whose children it holds of, holds of every block. -/
@[elab_as_elim]
theorem induct {P : Block σ ε χ ω → Prop}
    (transition : ∀ template, P (.transition template))
    (several : ∀ children, (∀ child ∈ children, P child) → P (.several children))
    (matching : ∀ location condition children, (∀ child ∈ children, P child) →
      P (.matching location condition children))
    (when : ∀ location events children, (∀ child ∈ children, P child) →
      P (.when location events children))
    (leadingTo : ∀ location state children, (∀ child ∈ children, P child) →
      P (.leadingTo location state children))
    (acting : ∀ location leading children, (∀ child ∈ children, P child) →
      P (.acting location leading children))
    (block : Block σ ε χ ω) : P block :=
  @Block.rec σ ε χ ω P (fun blocks => ∀ b ∈ blocks, P b) transition several matching when leadingTo
    acting (fun _ h => absurd h List.not_mem_nil)
    (fun _ _ first rest b h => (List.mem_cons.1 h).elim (fun e => e ▸ first) (rest b)) block

end Block

end TableMachine
