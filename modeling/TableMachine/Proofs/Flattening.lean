import TableMachine.Proofs.AuthoringMistakes
import TableMachine.Proofs.StateHooks

/-!
# The rules of a definition, layer by layer

A definition is written in layers: the blocks added to one super-state are a layer, and those added
to the definition itself are another. The rules of a state follow the layers in the order of a walk
through the super-states, which goes depth first and passes each of them after those that it adopts;
the definition's own layer is the last. A rule bears the mark of its layer alone, for blocks do not
touch it (`Leaf.group?_shared`). What the definition says of one state does not depend on its other
states.

**Main statements.** The rules of a draft are those of the layers, state by state, and the draft of
several states holds what the drafts of the single states hold together
(`StateDefinition.rules_of_layers`).
-/

namespace TableMachine

variable {σ ε χ ω α : Type}

/-! ## The walk through super-states -/

namespace SuperState

/-- The group that marks the rules of the super-state. -/
def group : SuperState σ ε χ ω → Group
  | mk group _ _ _ _ => group

/-- The super-states that come with a super-state, depth first, each of them after those that it
adopts. -/
def walk (s : SuperState σ ε χ ω) : List (SuperState σ ε χ ω) :=
  s.collect fun s => [s]

theorem walk_eq (s : SuperState σ ε χ ω) : s.walk = s.adopted.flatMap walk ++ [s] :=
  collect_eq _ s

/-- What is gathered from a super-state is what the walk through it meets. -/
theorem collect_eq_walk (own : SuperState σ ε χ ω → List α) (s : SuperState σ ε χ ω) :
    s.collect own = s.walk.flatMap own := by
  have single : ∀ s : SuperState σ ε χ ω, (own s).flatMap (fun a => [a]) = [s].flatMap own := by
    intro s
    rw [List.flatMap_singleton, List.flatMap_singleton']
  have gathered := flatMap_collect_congr single s
  rwa [List.flatMap_singleton'] at gathered

theorem collectAll_eq_walk (own : SuperState σ ε χ ω → List α) (ss : List (SuperState σ ε χ ω)) :
    collectAll own ss = (ss.flatMap walk).flatMap own := by
  rw [collectAll_eq_flatMap, List.flatMap_assoc]
  apply List.flatMap_congr
  intro s _
  exact collect_eq_walk own s

end SuperState

/-! ## Marks -/

/-- A shared field is not the mark of a super-state. -/
theorem Frame.group?_share (f : Frame σ ε χ ω) (t : Template σ ε χ ω) :
    (f.share t).group? = t.group? := by
  cases f with
  | «when» location events =>
    rw [share]
    split <;> rfl
  | matching | leadingTo | acting => rfl

theorem Leaf.group?_shared (leaf : Leaf σ ε χ ω) : leaf.shared.group? = leaf.template.group? := by
  obtain ⟨t, frames⟩ := leaf
  induction frames generalizing t with
  | nil => rfl
  | cons f rest ih => exact (ih (f.share t)).trans (f.group?_share t)

/-- No transition of the tree bears the mark of a super-state, as is the case when it is written. -/
def Block.IsUnmarked (block : Block σ ε χ ω) : Prop :=
  ∀ leaf ∈ block.leaves, leaf.template.group? = none

theorem Block.IsUnmarked.group?_eq_none {block : Block σ ε χ ω} (h : block.IsUnmarked) :
    ∀ t ∈ block.sheet.templates, t.group? = none := by
  intro t ht
  rw [templates_eq] at ht
  obtain ⟨leaf, hleaf, rfl⟩ := List.mem_map.1 ht
  rw [leaf.group?_shared]
  exact h leaf (List.mem_filter.1 hleaf).1

/-! ## Layers -/

/-- The blocks that were added directly to one super-state, or to a definition itself. -/
structure Layer (σ ε χ ω : Type) where
  /-- The super-state's mark, if it is one. -/
  group? : Option Group
  /-- The blocks. -/
  blocks : List (Block σ ε χ ω)

namespace Layer

/-- The templates that the blocks give, in order. -/
def templates (l : Layer σ ε χ ω) : List (Template σ ε χ ω) :=
  l.blocks.flatMap fun block => block.sheet.templates

/-- The rules of the layer in a state: one for each event of each template, with the mark of the
layer. It leads where the template does, or else stays in the state. -/
def rulesIn (l : Layer σ ε χ ω) (state : σ) : List (Rule σ ε χ ω) :=
  l.templates.flatMap fun t => t.events.map fun event =>
    { state
      event
      condition := t.condition
      next := t.next?.getD state
      guard? := t.guard?
      actions := t.actions
      location := t.location
      group? := l.group?
      overriding := t.overriding }

/-- The templates with the mark of the layer. -/
def marked (l : Layer σ ε χ ω) : List (Template σ ε χ ω) :=
  l.templates.map fun t => { t with group? := l.group? }

theorem rulesIn_eq_marked (l : Layer σ ε χ ω) (state : σ) :
    l.rulesIn state = l.marked.flatMap fun t => t.rulesIn state := by
  rw [marked, List.flatMap_map]
  rfl

end Layer

/-- The super-state's own layer. -/
def SuperState.layer (s : SuperState σ ε χ ω) : Layer σ ε χ ω :=
  ⟨some s.group, s.blocks⟩

theorem SuperState.templates_ownSheet (s : SuperState σ ε χ ω) :
    s.ownSheet.templates = s.layer.marked := by
  cases s with
  | mk group adopted blocks entry exit =>
    rw [Layer.marked, Layer.templates]
    exact congrArg (List.map _) (Block.templates_sheets blocks)

namespace StateDefinition

/-- The layers that a definition is written in: those of the super-states in the order of the walk,
then its own. -/
def layers (d : StateDefinition σ ε χ ω) : List (Layer σ ε χ ω) :=
  (d.adopted.flatMap SuperState.walk).map SuperState.layer ++ [⟨none, d.blocks⟩]

/-- The definition's own transitions bear no mark. -/
def IsUnmarked (d : StateDefinition σ ε χ ω) : Prop :=
  ∀ block ∈ d.blocks, block.IsUnmarked

variable {d : StateDefinition σ ε χ ω}

/-- The templates of a definition are those of its layers. -/
theorem templates_eq_layers (h : d.IsUnmarked) : d.templates = d.layers.flatMap Layer.marked := by
  have inherited : SuperState.templatesOf d.adopted =
      ((d.adopted.flatMap SuperState.walk).map SuperState.layer).flatMap Layer.marked := by
    rw [SuperState.templatesOf, SuperState.collectAll_eq_walk, List.flatMap_map]
    simp only [SuperState.templates_ownSheet]
  have own : d.ownSheet.templates = Layer.marked ⟨none, d.blocks⟩ := by
    have unmarked : ∀ t ∈ Layer.templates ⟨none, d.blocks⟩, { t with group? := none } = t := by
      intro t ht
      obtain ⟨block, hblock, ht⟩ := List.mem_flatMap.1 ht
      rw [← (h block hblock).group?_eq_none t ht]
    rw [Layer.marked, List.map_congr_left unmarked, List.map_id']
    exact Block.templates_sheets d.blocks
  rw [templates, inherited, own, layers, List.flatMap_append, List.flatMap_singleton]

/-- The rules of a draft are those of the layers, state by state. -/
theorem rules_eq_layers (h : d.IsUnmarked) :
    d.draft.rules = d.states.flatMap fun state => d.layers.flatMap fun l => l.rulesIn state := by
  apply List.flatMap_congr
  intro state _
  rw [templates_eq_layers h, List.flatMap_assoc]
  simp only [Layer.rulesIn_eq_marked]

/-- Every state has a rule for each event of each template. -/
theorem length_rules (d : StateDefinition σ ε χ ω) :
    d.draft.rules.length = d.states.length * (d.templates.flatMap Template.events).length := by
  have in_state : ∀ state, (d.templates.flatMap fun t => t.rulesIn state).length =
      (d.templates.flatMap Template.events).length := by
    intro state
    simp only [List.length_flatMap, Template.rulesIn, List.length_map]
  rw [draft, List.length_flatMap]
  simp only [in_state, List.map_const', List.sum_replicate_nat]

/-! ## One state at a time -/

/-- The definition for one state only. -/
def alone (d : StateDefinition σ ε χ ω) (state : σ) : StateDefinition σ ε χ ω :=
  { d with states := [state] }

end StateDefinition

/-- What a draft holds after others were put behind it, of whatever it is that these add up to. -/
theorem Draft.foldl_extend (part : Draft σ ε χ ω → List α)
    (h : ∀ a b, part (a.extend b) = part a ++ part b) (ds : List (Draft σ ε χ ω))
    (d : Draft σ ε χ ω) : part (ds.foldl extend d) = part d ++ ds.flatMap part := by
  induction ds generalizing d with
  | nil => exact (List.append_nil _).symm
  | cons first rest ih => rw [List.foldl_cons, ih, h, List.flatMap_cons, List.append_assoc]

namespace StateDefinition

/-- The drafts for the single states, put one behind the other, hold the rules and the hooks of the
draft for all states. -/
theorem foldl_alone (d : StateDefinition σ ε χ ω) :
    let merged := (d.states.map fun state => (d.alone state).draft).foldl Draft.extend {}
    merged.rules = d.draft.rules ∧ merged.entry = d.draft.entry ∧ merged.exit = d.draft.exit := by
  refine ⟨?_, ?_, ?_⟩
  · rw [Draft.foldl_extend Draft.rules fun _ _ => rfl, List.flatMap_map]
    apply List.flatMap_congr
    intro state _
    exact List.flatMap_singleton ..
  · rw [Draft.foldl_extend Draft.entry fun _ _ => rfl, List.flatMap_map]
    exact List.flatMap_pure_eq_map ..
  · rw [Draft.foldl_extend Draft.exit fun _ _ => rfl, List.flatMap_map]
    exact List.flatMap_pure_eq_map ..

/-- The rules of a definition are, for each state, those of its layers in order, and so there are as
many as states times events in all. The layers follow the walk through the super-states, in which
each comes after those that it adopts. A draft for several states has the rules, and for every state
the actions, of the drafts for the single states put one behind the other. -/
theorem rules_of_layers [DecidableEq σ] (d : StateDefinition σ ε χ ω) (h : d.IsUnmarked) :
    (d.draft.rules = d.states.flatMap fun state => d.layers.flatMap fun l => l.rulesIn state) ∧
    d.draft.rules.length =
      d.states.length * ((d.layers.flatMap Layer.templates).flatMap Template.events).length ∧
    (∀ s : SuperState σ ε χ ω, s.walk = s.adopted.flatMap SuperState.walk ++ [s]) ∧
    let merged := (d.states.map fun state => (d.alone state).draft).foldl Draft.extend {}
    merged.rules = d.draft.rules ∧
    ∀ state, merged.entry.of state = d.draft.entry.of state ∧
      merged.exit.of state = d.draft.exit.of state := by
  have events : (d.layers.flatMap Layer.templates).flatMap Template.events =
      d.templates.flatMap Template.events := by
    rw [templates_eq_layers h, List.flatMap_assoc, List.flatMap_assoc]
    simp only [Layer.marked, List.flatMap_map]
  obtain ⟨rules, entry, exit⟩ := d.foldl_alone
  refine ⟨rules_eq_layers h, ?_, SuperState.walk_eq, rules, fun state => ⟨?_, ?_⟩⟩
  · rw [events]
    exact d.length_rules
  · rw [entry]
  · rw [exit]

end StateDefinition

namespace Turnstile

/-- Two states, one of them named twice, with a super-state that adopts another one and adds to it a
transition in a block. -/
def depot : StateDefinition Gate Input Unit Notes where
  states := [.locked, .alarming, .locked]
  adopted := [
    .mk 1 [.mk 2 [] [.transition { events := [.reset], next? := some .locked, location := here 66 }]
        [note "lamp"] []]
      [.when (here 67) [.kick, .pass] [
        .acting (here 68) [note "count"] [.transition { location := here 69 }]]] [] []]
  blocks := [.transition { events := [.coin], next? := some .unlocked, location := here 70 }]
  entry := [note "close"]
  location := here 71

theorem depot_rules :
    depot.draft.rules.length = 3 * 4 ∧
    (depot.draft.rules.map fun r => (r.state, r.event, r.next, r.group?)) =
      [Gate.locked, .alarming, .locked].flatMap fun state => [
        (state, Input.reset, .locked, some 2), (state, .kick, state, some 1),
        (state, .pass, state, some 1), (state, .coin, .unlocked, none)] := by
  have unmarked : depot.IsUnmarked := by
    intro block hblock leaf hleaf
    obtain rfl := List.mem_singleton.1 hblock
    obtain rfl := List.mem_singleton.1 hleaf
    rfl
  obtain ⟨rules, size, -⟩ := depot.rules_of_layers unmarked
  refine ⟨?_, ?_⟩
  · rw [size]
    rfl
  · rw [rules]
    rfl

end Turnstile

end TableMachine
