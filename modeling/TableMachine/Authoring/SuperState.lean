import TableMachine.Authoring.Block

/-!
# Super-states

A super-state is a bundle of rules and of entry and exit actions that several states share. It may
adopt further super-states. Whatever it contributes comes after the contributions of the
super-states that it adopts, in their order and at any depth (`SuperState.collect`).
-/

namespace TableMachine

/-- A shared bundle of rules and hooks. -/
inductive SuperState (σ ε χ ω : Type) where
  /-- A super-state with the group that marks its rules, the super-states that it adopts, its own
  blocks, and its own entry and exit actions. -/
  | mk (group : Group) (adopted : List (SuperState σ ε χ ω)) (blocks : List (Block σ ε χ ω))
    (entry exit : List (Action ε χ ω))

namespace SuperState

variable {σ ε χ ω α : Type}

/-- The super-states that the super-state adopts itself. -/
def adopted : SuperState σ ε χ ω → List (SuperState σ ε χ ω)
  | mk _ adopted _ _ _ => adopted

/-- The templates and notes that the super-state contributes itself, its rules marked as its own. -/
def ownSheet : SuperState σ ε χ ω → Sheet σ ε χ ω
  | mk group _ blocks _ _ => (Block.sheets blocks).ofGroup group

/-- The actions on entry that the super-state contributes itself. -/
def ownEntry : SuperState σ ε χ ω → List (Action ε χ ω)
  | mk _ _ _ entry _ => entry

/-- The actions on exit that the super-state contributes itself. -/
def ownExit : SuperState σ ε χ ω → List (Action ε χ ω)
  | mk _ _ _ _ exit => exit

mutual

/-- Gathers contributions depth first: those of the adopted super-states, then the own ones. -/
def collect (own : SuperState σ ε χ ω → List α) : SuperState σ ε χ ω → List α
  | mk group adopted blocks entry exit =>
    collectAll own adopted ++ own (mk group adopted blocks entry exit)

/-- Gathers the contributions of several super-states in order. -/
def collectAll (own : SuperState σ ε χ ω → List α) : List (SuperState σ ε χ ω) → List α
  | [] => []
  | s :: rest => s.collect own ++ collectAll own rest

end

theorem collectAll_eq_flatMap (own : SuperState σ ε χ ω → List α)
    (ss : List (SuperState σ ε χ ω)) : collectAll own ss = ss.flatMap (collect own) := by
  induction ss with
  | nil => rfl
  | cons s rest ih =>
    rw [List.flatMap_cons, ← ih]
    rfl

/-- What a super-state adopts is gathered before what it contributes itself. -/
theorem collect_eq (own : SuperState σ ε χ ω → List α) (s : SuperState σ ε χ ω) :
    s.collect own = s.adopted.flatMap (collect own) ++ own s := by
  cases s
  rw [← collectAll_eq_flatMap]
  rfl

/-- All templates that come with some super-states. -/
def templatesOf (adopted : List (SuperState σ ε χ ω)) : List (Template σ ε χ ω) :=
  collectAll (fun s => s.ownSheet.templates) adopted

/-- All notes of empty blocks that come with some super-states. -/
def notesOf (adopted : List (SuperState σ ε χ ω)) : List EmptyBlock :=
  collectAll (fun s => s.ownSheet.notes) adopted

/-- All entry actions that come with some super-states. -/
def entryOf (adopted : List (SuperState σ ε χ ω)) : List (Action ε χ ω) :=
  collectAll ownEntry adopted

/-- All exit actions that come with some super-states. -/
def exitOf (adopted : List (SuperState σ ε χ ω)) : List (Action ε χ ω) :=
  collectAll ownExit adopted

/-! ## Induction -/

/-- What holds of every super-state if it holds of those that it adopts, holds of all of them. -/
@[elab_as_elim]
theorem induct {P : SuperState σ ε χ ω → Prop}
    (mk : ∀ group adopted blocks entry exit, (∀ s ∈ adopted, P s) →
      P (.mk group adopted blocks entry exit))
    (s : SuperState σ ε χ ω) : P s :=
  @SuperState.rec σ ε χ ω P (fun adopted => ∀ s ∈ adopted, P s) mk
    (fun _ h => absurd h List.not_mem_nil)
    (fun _ _ first rest s h => (List.mem_cons.1 h).elim (fun e => e ▸ first) (rest s)) s

end SuperState

end TableMachine
