import TableMachine.Proofs.Enclosures
import TableMachine.Samples.Turnstile

/-!
# The meaning of nested blocks

A transition inherits from the blocks around it, and each field in a way of its own. Events and next
state come from the innermost block that has them, if the transition has none itself. Conditions are
conjoined from the inside out, at the place of the innermost that has one. Actions are put together
from the outside in. `Leaf.read` says so without going through the tree: it looks only at the
transition and at the frames around it, while a sheet is changed as a whole by one block after
another.

**Main statements.** A tree in which no block is empty gives its transitions read in this way and no
note, and to swap two blocks of different kinds, one right inside the other, changes nothing
(`Block.sheet_of_filled`).
-/

namespace TableMachine

variable {σ ε χ ω : Type}

/-! ## What is inherited -/

namespace Frame

/-- The events of a `when`. -/
def events? : Frame σ ε χ ω → Option (List ε)
  | when _ events => some events
  | _ => none

/-- The state of a `then`. -/
def state? : Frame σ ε χ ω → Option σ
  | leadingTo _ state => some state
  | _ => none

/-- The condition of a `matching`. -/
def condition? : Frame σ ε χ ω → Option Condition
  | matching _ condition => some condition
  | _ => none

/-- The place of the condition of a `matching`, or of the block if the condition has none. -/
def place? : Frame σ ε χ ω → Option Location
  | matching location condition => some (condition.location?.getD location)
  | _ => none

/-- The actions of an `actions` block. -/
def leading : Frame σ ε χ ω → List (Action ε χ ω)
  | acting _ leading => leading
  | _ => []

/-- Only a `when` looks at the events of a template or changes them. -/
theorem share_when_comm {f : Frame σ ε χ ω} (hf : f.kind ≠ "when") (location : Location)
    (events : List ε) (t : Template σ ε χ ω) :
    (Frame.when location events).share (f.share t) =
      f.share ((Frame.when location events).share t) := by
  cases own : t.events.isEmpty <;> cases f
  all_goals first
    | exact absurd rfl hf
    | simp [share, Template.matching, own]

/-- Fields of different kinds may be shared in either order. -/
theorem share_comm {f g : Frame σ ε χ ω} (kinds : f.kind ≠ g.kind) (t : Template σ ε χ ω) :
    f.share (g.share t) = g.share (f.share t) := by
  cases f with
  | «when» location events => exact share_when_comm kinds.symm location events t
  | matching | leadingTo | acting =>
    cases g with
    | «when» location events => exact (share_when_comm kinds location events t).symm
    | matching | leadingTo | acting => first | rfl | exact absurd rfl kinds

end Frame

/-- Where a condition stands does not matter for a conjunction but for its place. -/
theorem Condition.foldl_both_location (ms : List Condition) (m : Condition)
    (p q : Option Location) :
    { ms.foldl both { m with location? := p } with location? := q } =
      { ms.foldl both m with location? := q } := by
  induction ms generalizing m p with
  | nil => rfl
  | cons n rest ih =>
    calc { rest.foldl both (both { m with location? := p } n) with location? := q }
      _ = { rest.foldl both { m.both n with location? := p.or n.location? } with
          location? := q } := rfl
      _ = { rest.foldl both (m.both n) with location? := q } := ih (m.both n) _

namespace Leaf

/-- The own events of a transition, or else those of the innermost `when`. -/
def events (leaf : Leaf σ ε χ ω) : List ε :=
  if leaf.template.events.isEmpty then (leaf.frames.findSome? Frame.events?).getD []
  else leaf.template.events

/-- The own next state of a transition, or else that of the innermost `then`. -/
def next? (leaf : Leaf σ ε χ ω) : Option σ :=
  leaf.template.next?.or (leaf.frames.findSome? Frame.state?)

/-- The own condition of a transition with those of all `matching` blocks, from the inside out. It
stands where the own one does, or else at the place of the innermost block. -/
def condition (leaf : Leaf σ ε χ ω) : Condition :=
  { (leaf.frames.filterMap Frame.condition?).foldl Condition.both leaf.template.condition with
    location? := leaf.template.condition.location?.or (leaf.frames.findSome? Frame.place?) }

/-- The actions of all `actions` blocks from the outside in, and then the own ones. -/
def actions (leaf : Leaf σ ε χ ω) : List (Action ε χ ω) :=
  leaf.frames.reverse.flatMap Frame.leading ++ leaf.template.actions

/-- The template that a transition stands for under its frames. What it does not inherit is its
own. -/
def read (leaf : Leaf σ ε χ ω) : Template σ ε χ ω :=
  { leaf.template with
    events := leaf.events
    next? := leaf.next?
    condition := leaf.condition
    actions := leaf.actions }

/-! Of each field the innermost frame may share its part with the transition first. -/

variable (t : Template σ ε χ ω) (f : Frame σ ε χ ω) (frames : List (Frame σ ε χ ω))

theorem events_cons (hf : f.isEventless = false) :
    events ⟨t, f :: frames⟩ = events ⟨f.share t, frames⟩ := by
  cases f with
  | «when» location given =>
    have given_ne : given.isEmpty = false := hf
    cases own : t.events.isEmpty with
    | true =>
      have inherited : events ⟨t, .when location given :: frames⟩ = given := by
        rw [events, if_pos own]
        rfl
      rw [inherited]
      simp [events, Frame.share, own, given_ne]
    | false => simp [events, Frame.share, own]
  | matching | leadingTo | acting => rfl

theorem next?_cons : next? ⟨t, f :: frames⟩ = next? ⟨f.share t, frames⟩ := by
  cases f with
  | «when» location given =>
    rw [Frame.share]
    split <;> rfl
  | leadingTo location state =>
    change t.next?.or (some state) = (t.next?.or (some state)).or (frames.findSome? Frame.state?)
    rw [Option.or_assoc]
    rfl
  | matching | acting => rfl

theorem condition_cons : condition ⟨t, f :: frames⟩ = condition ⟨f.share t, frames⟩ := by
  cases f with
  | «when» location given =>
    rw [Frame.share]
    split <;> rfl
  | matching location m =>
    let place := t.condition.location?.or (some (m.location?.getD location))
    have settled : place.or (frames.findSome? Frame.place?) = place := by
      rw [Option.or_assoc]
      rfl
    let outer := frames.filterMap Frame.condition?
    -- the block places its condition before it is conjoined, which is of no account further out
    calc condition ⟨t, .matching location m :: frames⟩
      _ = { outer.foldl Condition.both (t.condition.both m) with location? := place } := rfl
      _ = { outer.foldl Condition.both { t.condition.both m with location? := place } with
            location? := place } := (Condition.foldl_both_location _ _ _ _).symm
      _ = { outer.foldl Condition.both { t.condition.both m with location? := place } with
            location? := place.or (frames.findSome? Frame.place?) } := by rw [settled]
      _ = condition ⟨(Frame.matching location m).share t, frames⟩ := rfl
  | leadingTo | acting => rfl

theorem actions_cons : actions ⟨t, f :: frames⟩ = actions ⟨f.share t, frames⟩ := by
  have outermost : actions ⟨t, f :: frames⟩ =
      frames.reverse.flatMap Frame.leading ++ (f.leading ++ t.actions) := by
    simp [actions]
  rw [outermost]
  cases f with
  | «when» location given =>
    rw [Frame.share]
    split <;> rfl
  | matching | leadingTo | acting => rfl

theorem read_cons (hf : f.isEventless = false) :
    read ⟨t, f :: frames⟩ = read ⟨f.share t, frames⟩ := by
  rw [read, events_cons t f frames hf, next?_cons, condition_cons, actions_cons]
  cases f with
  | «when» location given =>
    rw [read, Frame.share]
    split <;> rfl
  | matching | leadingTo | acting => rfl

theorem read_nil : read ⟨t, []⟩ = t := by
  have own : events ⟨t, []⟩ = t.events := by
    cases h : t.events with
    | nil => simp [events, h]
    | cons event rest => simp [events, h]
  simp [read, own, next?, condition, actions]

/-- Under frames that all have something to share, this is what the blocks make of the
transition. -/
theorem shared_eq_read {leaf : Leaf σ ε χ ω} (h : leaf.isKept) : leaf.shared = leaf.read := by
  obtain ⟨t, frames⟩ := leaf
  induction frames generalizing t with
  | nil => exact (read_nil t).symm
  | cons f rest ih =>
    simp only [isKept, List.all_cons, Bool.and_eq_true, Bool.not_eq_true'] at h
    rw [read_cons t f rest h.1, ← ih (f.share t) h.2]
    rfl

end Leaf

namespace Block

/-! ## Trees without empty blocks -/

/-- Every block of the tree has a transition somewhere inside, and every `when` has events. -/
def IsFilled (block : Block σ ε χ ω) : Prop :=
  ∀ e ∈ block.enclosures, e.frame.isEventless = false ∧ (several e.inside).leaves.isEmpty = false

instance (block : Block σ ε χ ω) : Decidable block.IsFilled :=
  inferInstanceAs (Decidable (∀ e ∈ block.enclosures,
    e.frame.isEventless = false ∧ (several e.inside).leaves.isEmpty = false))

theorem isFilled_several {children : List (Block σ ε χ ω)} :
    (several children).IsFilled ↔ ∀ child ∈ children, child.IsFilled := by
  simp only [IsFilled, enclosures_several, List.forall_mem_flatMap]

theorem isFilled_around {f : Frame σ ε χ ω} {children : List (Block σ ε χ ω)} :
    (f.around children).IsFilled ↔
      (f.isEventless = false ∧ (several children).leaves.isEmpty = false) ∧
        (several children).IsFilled := by
  simp only [IsFilled, enclosures_around, List.forall_mem_cons]

namespace IsFilled

variable {block : Block σ ε χ ω}

theorem isKept (h : block.IsFilled) : ∀ leaf ∈ block.leaves, leaf.isKept := by
  induction block using frame_induct with
  | transition t => exact fun leaf hleaf => List.mem_singleton.1 hleaf ▸ rfl
  | several children ih =>
    intro leaf hleaf
    rw [leaves_several] at hleaf
    obtain ⟨child, hchild, hleaf⟩ := List.mem_flatMap.1 hleaf
    exact ih child hchild (isFilled_several.1 h child hchild) leaf hleaf
  | around f children ih =>
    obtain ⟨⟨events, -⟩, inside⟩ := isFilled_around.1 h
    intro leaf hleaf
    rw [leaves_around] at hleaf
    obtain ⟨inner, hinner, rfl⟩ := List.mem_map.1 hleaf
    simp [Leaf.isKept_within, ih inside inner hinner, events]

theorem templates_eq (h : block.IsFilled) :
    block.sheet.templates = block.leaves.map Leaf.shared := by
  rw [Block.templates_eq, List.filter_eq_self.2 h.isKept]

theorem notes_eq (h : block.IsFilled) : block.sheet.notes = [] := by
  induction block using frame_induct with
  | transition t => rfl
  | several children ih =>
    refine (notes_sheets children).trans (List.flatMap_eq_nil_iff.2 fun child hchild => ?_)
    exact ih child hchild (isFilled_several.1 h child hchild)
  | around f children ih =>
    obtain ⟨⟨events, transitions⟩, inside⟩ := isFilled_around.1 h
    have templates : (several children).sheet.isEmpty = false := by
      rw [Sheet.isEmpty, inside.templates_eq, List.isEmpty_map]
      exact transitions
    rw [Frame.notes_around, events, templates, ih inside]
    rfl

theorem sheet_eq (h : block.IsFilled) :
    block.sheet = { templates := block.leaves.map Leaf.shared } :=
  calc block.sheet
    _ = ⟨block.sheet.templates, block.sheet.notes⟩ := rfl
    _ = { templates := block.leaves.map Leaf.shared } := by rw [h.templates_eq, h.notes_eq]

end IsFilled

/-! ## Swapping blocks -/

/-- The trees are the same but for two blocks of different kinds, of which one has just the other
inside and the other way round. -/
inductive Swapped : Block σ ε χ ω → Block σ ε χ ω → Prop
  /-- The blocks stand at the root. -/
  | root {f g : Frame σ ε χ ω} (kinds : f.kind ≠ g.kind) (children : List (Block σ ε χ ω)) :
    Swapped (f.around [g.around children]) (g.around [f.around children])
  /-- They are in one of several blocks. -/
  | several (before after : List (Block σ ε χ ω)) {block block' : Block σ ε χ ω} :
    Swapped block block' →
      Swapped (several (before ++ block :: after)) (several (before ++ block' :: after))
  /-- They are inside a frame. -/
  | inside (f : Frame σ ε χ ω) {children children' : List (Block σ ε χ ω)} :
    Swapped (several children) (several children') →
    Swapped (f.around children) (f.around children')

theorem sheets_congr {block block' : Block σ ε χ ω} (h : block'.sheet = block.sheet)
    (before after : List (Block σ ε χ ω)) :
    sheets (before ++ block' :: after) = sheets (before ++ block :: after) := by
  induction before with
  | nil =>
    change block'.sheet ++ sheets after = block.sheet ++ sheets after
    rw [h]
  | cons b rest ih => exact congrArg (b.sheet ++ ·) ih

theorem Swapped.sheet_eq {block block' : Block σ ε χ ω} (swapped : Swapped block block')
    (h : block.IsFilled) : block'.sheet = block.sheet := by
  induction swapped with
  | @root f g kinds children =>
    have filled : (g.around [f.around children]).IsFilled := by
      simp only [isFilled_around, isFilled_several, List.forall_mem_singleton] at h ⊢
      simp only [leaves_several, leaves_around, List.flatMap_singleton, List.isEmpty_map] at h ⊢
      exact ⟨⟨h.2.1.1, h.1.2⟩, ⟨h.1.1, h.2.1.2⟩, h.2.2⟩
    rw [h.sheet_eq, filled.sheet_eq]
    simp only [leaves_several, leaves_around, List.flatMap_singleton, List.map_map,
      Function.comp_def, Leaf.shared_within, Frame.share_comm kinds]
  | several before after _ ih =>
    have child := isFilled_several.1 h _ (List.mem_append_right before List.mem_cons_self)
    exact sheets_congr (ih child) before after
  | inside f _ ih =>
    rw [Frame.sheet_around, Frame.sheet_around, ih (isFilled_around.1 h).2]

/-- If every block of a tree has a transition inside and every `when` has events, the tree gives no
note and its transitions in order, each read with the frames around it. Two blocks of different
kinds, of which one stands right inside the other, may change places anywhere in it. -/
theorem sheet_of_filled (block : Block σ ε χ ω) (h : block.IsFilled) :
    block.sheet = { templates := block.leaves.map Leaf.read, notes := [] } ∧
      ∀ block', Swapped block block' → block'.sheet = block.sheet := by
  refine ⟨?_, fun block' swapped => swapped.sheet_eq h⟩
  rw [h.sheet_eq]
  congr 1
  apply List.map_congr_left
  intro leaf hleaf
  exact Leaf.shared_eq_read (h.isKept leaf hleaf)

end Block

namespace Turnstile

/-- What happens to those who pass, unless they kick. -/
def passing : List (Block Gate Input Unit Notes) := [
  .when (here 51) [.pass] [
    .transition { location := here 52 },
    .several [
      .leadingTo (here 53) .alarming [
        .acting (here 54) [note "ring"] [
          .transition { location := here 55 },
          .transition
            { events := [.kick], next? := some .broken, actions := [note "break"],
              condition := .allOf [Predicate.value Enforcement.weak], location := here 56 }]]]]]

/-- Strong enforcement. -/
def strictly : Condition :=
  .allOf [Predicate.value Enforcement.strong]

theorem strictly_watched :
    let block : Block Gate Input Unit Notes :=
      .matching (here 57) strictly [.acting (here 58) [note "watch"] passing]
    block.IsFilled ∧
    block.sheet.notes = [] ∧
    block.sheet.templates = [
      { events := [.pass], condition := strictly.placed (here 57), actions := [note "watch"],
        location := here 52 },
      { events := [.pass], condition := strictly.placed (here 57), next? := some .alarming,
        actions := [note "watch", note "ring"], location := here 55 },
      { events := [.kick],
        condition := (strictly.and (Predicate.value Enforcement.weak)).placed (here 57),
        next? := some .broken, actions := [note "watch", note "ring", note "break"],
        location := here 56 }] ∧
    (Block.acting (here 58) [note "watch"] [.matching (here 57) strictly passing]).sheet =
      block.sheet := by
  intro block
  have filled : block.IsFilled := by decide
  obtain ⟨sheet, swap⟩ := Block.sheet_of_filled block filled
  have swapped : Block.Swapped block
      (.acting (here 58) [note "watch"] [.matching (here 57) strictly passing]) :=
    Block.Swapped.root (f := .matching (here 57) strictly) (g := .acting (here 58) [note "watch"])
      (by decide) passing
  refine ⟨filled, ?_, ?_, swap _ swapped⟩
  · rw [sheet]
  · rw [sheet]
    rfl

end Turnstile

end TableMachine
