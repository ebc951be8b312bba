import TableMachine.Proofs.Enclosures
import TableMachine.Proofs.Outcome
import TableMachine.Samples.Turnstile

/-!
# Mistakes in writing

An empty block leaves a note, and the notes travel with the templates: from a tree of blocks to the
super-state or the definition that it is written in, from there to the draft, and into the failure
of its compilation. No note is lost on the way, and none is repeated for a further state. Of the
transitions, too, none is lost unnoted: those that give no template are under a `when` without
events, and those that get no event from anywhere are noted by the definition.

**Main statements.** The faults of a definition are told from the trees that it is made of, its own
and those that come with super-states from whatever depth, and if there are any, nothing that the
definition is part of compiles (`StateDefinition.mistakes_reported`).
-/

namespace TableMachine

variable {σ ε χ ω α β γ : Type}

/-! ## Trees of a definition -/

/-- The notes that a tree deserves: one for each frame that has nothing to share or nothing to share
it among, a frame before those inside it. -/
def Block.mistakes (block : Block σ ε χ ω) : List EmptyBlock :=
  (block.enclosures.filter Enclosure.isEmpty).map fun e => e.frame.note

/-- The note that a template deserves if no event reaches it. -/
def Template.mistakes (t : Template σ ε χ ω) : List EmptyBlock :=
  if t.events.isEmpty then [⟨"when", t.location⟩] else []

namespace SuperState

/-- The blocks that the super-state contributes itself. -/
def blocks : SuperState σ ε χ ω → List (Block σ ε χ ω)
  | mk _ _ blocks _ _ => blocks

/-- Contributions that come to the same for every super-state come to the same when they are
gathered. -/
theorem flatMap_collect_congr {own : SuperState σ ε χ ω → List α}
    {own' : SuperState σ ε χ ω → List β} {f : α → List γ} {g : β → List γ}
    (h : ∀ s, (own s).flatMap f = (own' s).flatMap g)
    (s : SuperState σ ε χ ω) : (s.collect own).flatMap f = (s.collect own').flatMap g := by
  induction s using SuperState.induct with
  | mk group adopted blocks entry exit ih =>
    rw [collect_eq, collect_eq, List.flatMap_append, List.flatMap_append, h, List.flatMap_assoc,
      List.flatMap_assoc]
    congr 1
    exact List.flatMap_congr ih

end SuperState

namespace StateDefinition

/-- The trees that a definition is made of: those of its super-states from whatever depth, in the
order in which their templates are inherited, and then its own. -/
def trees (d : StateDefinition σ ε χ ω) : List (Block σ ε χ ω) :=
  d.adopted.flatMap (SuperState.collect SuperState.blocks) ++ d.blocks

section Contributions

variable {part : Sheet σ ε χ ω → List α} {f : α → List β}

/-- What the trees of a definition give is what its super-states give, and then what it gives
itself, as far as the mark of a super-state makes no difference. -/
theorem flatMap_trees (d : StateDefinition σ ε χ ω)
    (sheets : ∀ blocks : List (Block σ ε χ ω), part (Block.sheets blocks) =
      blocks.flatMap fun block => part block.sheet)
    (marked : ∀ (s : Sheet σ ε χ ω) group, (part (s.ofGroup group)).flatMap f =
      (part s).flatMap f) :
    d.trees.flatMap (fun block => (part block.sheet).flatMap f) =
      (SuperState.collectAll (fun s => part s.ownSheet) d.adopted ++
        part d.ownSheet).flatMap f := by
  have own (s : SuperState σ ε χ ω) : s.blocks.flatMap (fun block => (part block.sheet).flatMap f) =
      (part s.ownSheet).flatMap f := by
    cases s with
    | mk group adopted blocks entry exit =>
      rw [SuperState.ownSheet, marked, sheets, List.flatMap_assoc]
      rfl
  rw [trees, ownSheet, SuperState.collectAll_eq_flatMap, sheets, List.flatMap_append,
    List.flatMap_append, List.flatMap_assoc, List.flatMap_assoc, List.flatMap_assoc]
  congr 1
  apply List.flatMap_congr
  intro s _
  exact SuperState.flatMap_collect_congr own s

end Contributions

/-- The notes that come with a definition are those that its trees deserve. -/
theorem notes_of_trees (d : StateDefinition σ ε χ ω) :
    SuperState.notesOf d.adopted ++ d.ownSheet.notes = d.trees.flatMap Block.mistakes := by
  have given := flatMap_trees d (f := fun note => [note]) Block.notes_sheets fun _ _ => rfl
  simp only [List.flatMap_singleton'] at given
  rw [SuperState.notesOf, ← given]
  apply List.flatMap_congr
  intro block _
  exact block.notes_eq

/-- So are the notes of templates without events. -/
theorem eventless_of_trees (d : StateDefinition σ ε χ ω) :
    ((d.templates.filter fun t => t.events.isEmpty).map fun t => ⟨"when", t.location⟩) =
      d.trees.flatMap fun block => block.sheet.templates.flatMap Template.mistakes := by
  have marked (s : Sheet σ ε χ ω) (group : Group) :
      (s.ofGroup group).templates.flatMap Template.mistakes =
        s.templates.flatMap Template.mistakes :=
    List.flatMap_map ..
  rw [flatMap_trees d Block.templates_sheets marked]
  change _ = d.templates.flatMap Template.mistakes
  induction d.templates with
  | nil => rfl
  | cons t rest ih =>
    rw [List.flatMap_cons, ← ih, List.filter_cons, Template.mistakes]
    split
    · rfl
    · rfl

/-- A definition without super-states has no templates if none of its trees has. -/
theorem isEmpty_of_trees (d : StateDefinition σ ε χ ω) :
    d.isEmpty = (d.states.isEmpty ||
      (d.adopted.isEmpty && d.trees.all fun block => block.sheet.isEmpty)) := by
  rw [isEmpty]
  congr 1
  cases h : d.adopted with
  | cons s rest => exact Bool.and_false _
  | nil =>
    have own : d.templates = d.blocks.flatMap fun block => block.sheet.templates := by
      rw [templates, h]
      exact Block.templates_sheets d.blocks
    have trees : d.trees = d.blocks := by
      rw [trees, h]
      rfl
    rw [own, trees, Bool.and_comm, Bool.eq_iff_iff]
    simp [Sheet.isEmpty]

/-- The notes that a definition deserves: one in front if it has no state, or neither a super-state
nor a template, then those of its trees, and then one for each template that no event reaches. -/
def mistakes (d : StateDefinition σ ε χ ω) : List EmptyBlock :=
  (if d.states.isEmpty || (d.adopted.isEmpty && d.trees.all fun block => block.sheet.isEmpty) then
      [⟨"define", d.location⟩]
    else [])
    ++ d.trees.flatMap Block.mistakes
    ++ d.trees.flatMap fun block => block.sheet.templates.flatMap Template.mistakes

theorem notes_eq_mistakes (d : StateDefinition σ ε χ ω) : d.notes = d.mistakes := by
  rw [notes, isEmpty_of_trees, notes_of_trees, eventless_of_trees, mistakes]

end StateDefinition

/-! ## Drafts that a definition is part of -/

namespace Draft

/-- The second draft is the first with something put before it and something after it. -/
def PartOf (d whole : Draft σ ε χ ω) : Prop :=
  ∃ before after : Draft σ ε χ ω, whole = (before.extend d).extend after

theorem extend_assoc (a b c : Draft σ ε χ ω) : (a.extend b).extend c = a.extend (b.extend c) := by
  simp only [extend, List.append_assoc]

theorem take_eq_extend (d : Draft σ ε χ ω) (step : Step σ ε χ ω) :
    d.take step = d.extend (ofSteps [step]) := by
  cases step with
  | define definition => rfl
  | row rule => simp [ofSteps, take, addRule, extend]

theorem foldl_take_eq_extend (d : Draft σ ε χ ω) (steps : List (Step σ ε χ ω)) :
    steps.foldl take d = d.extend (ofSteps steps) := by
  induction steps generalizing d with
  | nil => simp [ofSteps, extend]
  | cons step rest ih =>
    have first : ofSteps (step :: rest) = (ofSteps [step]).extend (ofSteps rest) := ih _
    rw [List.foldl_cons, ih, take_eq_extend, first, extend_assoc]

/-- A table that is put together in steps has all of its definitions for parts. -/
theorem partOf_ofSteps {definition : StateDefinition σ ε χ ω} {steps : List (Step σ ε χ ω)}
    (h : .define definition ∈ steps) : definition.draft.PartOf (ofSteps steps) := by
  obtain ⟨before, after, rfl⟩ := List.append_of_mem h
  refine ⟨ofSteps before, ofSteps after, ?_⟩
  rw [ofSteps, List.foldl_append, List.foldl_cons, foldl_take_eq_extend _ after]
  rfl

variable [DecidableEq σ] [DecidableEq ε]

/-- With a part that has faults a draft does not compile, and the failure shows them in one
piece. -/
theorem PartOf.compile_eq_error {d whole : Draft σ ε χ ω} (part : d.PartOf whole)
    (h : d.faults ≠ []) (options : CompileOptions) :
    ∃ failure, whole.compile options = .error failure ∧ d.faults <:+: failure.faults := by
  obtain ⟨before, after, rfl⟩ := part
  have noted : d.faults <:+: ((before.extend d).extend after).faults :=
    ⟨before.faults, after.faults, rfl⟩
  generalize (before.extend d).extend after = whole at noted
  have shown : d.faults <:+: whole.allFaults (Analysis.of options.overlap whole.rules)
      options.duplicates := by
    rw [allFaults, List.append_assoc]
    exact noted.trans (List.prefix_append ..).isInfix
  obtain ⟨first, others, all⟩ := List.exists_cons_of_ne_nil (shown.ne_nil h)
  rw [all] at shown
  exact ⟨⟨first, others⟩, compile_eq_error_iff.2 all, shown⟩

end Draft

/-- A tree deserves a note for each of its empty blocks, a block before those inside it, and it has
these notes and no others. All its transitions become templates but those under a `when` without
events. A definition has each note of its trees once, whatever the number of its states, and the
notes that it deserves itself. With any of them nothing compiles that the definition is part of. -/
theorem StateDefinition.mistakes_reported [DecidableEq σ] [DecidableEq ε]
    (d : StateDefinition σ ε χ ω) :
    (∀ block : Block σ ε χ ω, block.sheet.notes = block.mistakes ∧
      block.sheet.templates = (block.leaves.filter Leaf.isKept).map Leaf.shared) ∧
    d.draft.faults = d.mistakes.map .emptyBlock ∧
    (∀ steps, .define d ∈ steps → d.draft.PartOf (Draft.ofSteps steps)) ∧
    ∀ whole, d.draft.PartOf whole → d.mistakes ≠ [] → ∀ options,
      ∃ failure, whole.compile options = .error failure ∧
        d.mistakes.map .emptyBlock <:+: failure.faults := by
  have faults : d.draft.faults = d.mistakes.map .emptyBlock := by
    rw [← d.notes_eq_mistakes]
    rfl
  refine ⟨fun block => ⟨block.notes_eq, block.templates_eq⟩, faults,
    fun steps => Draft.partOf_ofSteps, fun whole part noted options => ?_⟩
  rw [← faults]
  apply part.compile_eq_error
  rwa [faults, Ne, List.map_eq_nil_iff]

namespace Turnstile

/-- Two states with a transition that no event reaches, one that is lost to a `when` without events,
and super-states with nothing in their blocks. -/
def mislaid : StateDefinition Gate Input Unit Notes where
  states := [.locked, .unlocked]
  adopted := [
    .mk 1 [.mk 2 [] [.leadingTo (here 59) .locked []] [] []]
      [.acting (here 60) [note "count"] [.several []]] [] []]
  blocks := [
    .matching (here 61) (.allOf [Predicate.value Enforcement.weak]) [
      .when (here 62) [] [.transition { location := here 63 }]],
    .transition { next? := some .alarming, location := here 64 }]
  location := here 65

theorem mislaid_reported (options : CompileOptions) :
    mislaid.draft.faults = [
      .emptyBlock ⟨"then", here 59⟩, .emptyBlock ⟨"actions", here 60⟩,
      .emptyBlock ⟨"matching", here 61⟩, .emptyBlock ⟨"when", here 62⟩,
      .emptyBlock ⟨"when", here 64⟩] ∧
    ∃ failure, (Draft.ofSteps [.define alarming, .define mislaid]).compile options =
      .error failure ∧ mislaid.draft.faults <:+: failure.faults := by
  obtain ⟨-, faults, part, fails⟩ := mislaid.mistakes_reported
  refine ⟨?_, ?_⟩
  · rw [faults]
    rfl
  · rw [faults]
    exact fails _ (part _ (by simp)) (by decide) options

end Turnstile

end TableMachine
