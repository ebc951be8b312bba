import Mathlib.Data.List.Basic
import TableMachine.Authoring.Block

/-!
# What encloses a transition

Apart from the transitions and the blocks side by side, all blocks are of one kind: a frame around
some children. A transition is read off a tree together with the frames around it (`Block.leaves`),
and a frame together with what stands inside (`Block.enclosures`). Both lists follow the tree from
left to right, and a frame comes before the frames inside it.

**Main statements.** The templates of a tree are its transitions, each with what the frames around
it share, but for those under a `when` without events (`Block.templates_eq`). The notes of a tree
are those of the frames that have nothing to share, or nothing to share it among (`Block.notes_eq`).
-/

namespace TableMachine

variable {σ ε χ ω α : Type}

/-! ## Frames -/

/-- A block that shares a field, taken without what stands inside. -/
inductive Frame (σ ε χ ω : Type) where
  /-- A further condition. -/
  | matching (location : Location) (condition : Condition)
  /-- The events. -/
  | when (location : Location) (events : List ε)
  /-- The next state. -/
  | leadingTo (location : Location) (state : σ)
  /-- Leading actions. -/
  | acting (location : Location) (leading : List (Action ε χ ω))

namespace Frame

/-- The block that the frame forms around some children. -/
def around : Frame σ ε χ ω → List (Block σ ε χ ω) → Block σ ε χ ω
  | matching location condition, children => .matching location condition children
  | when location events, children => .when location events children
  | leadingTo location state, children => .leadingTo location state children
  | acting location leading, children => .acting location leading children

/-- The name of the block. -/
def kind : Frame σ ε χ ω → String
  | matching _ _ => "matching"
  | when _ _ => "when"
  | leadingTo _ _ => "then"
  | acting _ _ => "actions"

/-- Where the block was written. -/
def location : Frame σ ε χ ω → Location
  | matching location _ | when location _ | leadingTo location _ | acting location _ => location

/-- The note that is left of the block if it is empty. -/
def note (f : Frame σ ε χ ω) : EmptyBlock :=
  ⟨f.kind, f.location⟩

/-- A `when` that has no events. -/
def isEventless : Frame σ ε χ ω → Bool
  | when _ events => events.isEmpty
  | _ => false

/-- A template with the field that the frame shares. -/
def share : Frame σ ε χ ω → Template σ ε χ ω → Template σ ε χ ω
  | matching location condition, t => t.matching (condition.placedOr location)
  | when _ events, t => if t.events.isEmpty then { t with events } else t
  | leadingTo _ state, t => { t with next? := t.next?.or (some state) }
  | acting _ leading, t => { t with actions := leading ++ t.actions }

/-- Every frame handles the sheet of its children in one way. -/
theorem sheet_around (f : Frame σ ε χ ω) (children : List (Block σ ε χ ω)) :
    (f.around children).sheet =
      if f.isEventless || (Block.several children).sheet.isEmpty then
        (Block.several children).sheet.emptied f.kind f.location
      else (Block.several children).sheet.mapTemplates f.share := by
  cases f <;> rfl

/-- A frame changes all templates of its children, unless it drops them all for want of events. -/
theorem templates_around (f : Frame σ ε χ ω) (children : List (Block σ ε χ ω)) :
    (f.around children).sheet.templates =
      if f.isEventless then [] else (Block.several children).sheet.templates.map f.share := by
  rw [sheet_around]
  cases f.isEventless with
  | true => rfl
  | false =>
    cases h : (Block.several children).sheet.templates with
    | nil => simp [Sheet.isEmpty, Sheet.emptied, h]
    | cons t rest => simp [Sheet.isEmpty, Sheet.mapTemplates, h]

/-- A frame leaves the notes of its children, and puts its own in front if it is empty. -/
theorem notes_around (f : Frame σ ε χ ω) (children : List (Block σ ε χ ω)) :
    (f.around children).sheet.notes =
      (if f.isEventless || (Block.several children).sheet.isEmpty then [f.note] else [])
        ++ (Block.several children).sheet.notes := by
  rw [sheet_around]
  split
  · rfl
  · rfl

end Frame

namespace Block

/-- Induction over trees in which all frames are alike. -/
@[elab_as_elim]
theorem frame_induct {P : Block σ ε χ ω → Prop}
    (transition : ∀ template, P (.transition template))
    (several : ∀ children, (∀ child ∈ children, P child) → P (.several children))
    (around : ∀ (frame : Frame σ ε χ ω) children, P (.several children) → P (frame.around children))
    (block : Block σ ε χ ω) : P block := by
  induction block using Block.induct with
  | transition t => exact transition t
  | several children ih => exact several children ih
  | matching location m children ih => exact around (.matching location m) children (several _ ih)
  | «when» location events children ih =>
    exact around (.when location events) children (several _ ih)
  | leadingTo location state children ih =>
    exact around (.leadingTo location state) children (several _ ih)
  | acting location leading children ih =>
    exact around (.acting location leading) children (several _ ih)

/-! ## Reading a tree -/

mutual

/-- Goes through a tree from left to right: what each transition gives, and what each frame makes of
its children and of what they give. -/
def gather (leaf : Template σ ε χ ω → List α)
    (frame : Frame σ ε χ ω → List (Block σ ε χ ω) → List α → List α) : Block σ ε χ ω → List α
  | transition t => leaf t
  | several children => gatherAll leaf frame children
  | matching location m children =>
    frame (.matching location m) children (gatherAll leaf frame children)
  | when location events children =>
    frame (.when location events) children (gatherAll leaf frame children)
  | leadingTo location state children =>
    frame (.leadingTo location state) children (gatherAll leaf frame children)
  | acting location leading children =>
    frame (.acting location leading) children (gatherAll leaf frame children)

/-- Goes through blocks side by side. -/
def gatherAll (leaf : Template σ ε χ ω → List α)
    (frame : Frame σ ε χ ω → List (Block σ ε χ ω) → List α → List α) : List (Block σ ε χ ω) → List α
  | [] => []
  | block :: rest => block.gather leaf frame ++ gatherAll leaf frame rest

end

section Gather

variable (leaf : Template σ ε χ ω → List α)
  (frame : Frame σ ε χ ω → List (Block σ ε χ ω) → List α → List α)

theorem gather_several (children : List (Block σ ε χ ω)) :
    (several children).gather leaf frame = children.flatMap (gather leaf frame) := by
  rw [gather]
  induction children with
  | nil => rfl
  | cons block rest ih => rw [gatherAll, ih, List.flatMap_cons]

theorem gather_around (f : Frame σ ε χ ω) (children : List (Block σ ε χ ω)) :
    (f.around children).gather leaf frame =
      frame f children ((several children).gather leaf frame) := by
  cases f <;> rfl

end Gather

end Block

/-- A transition of a tree with all frames around it, the innermost first. -/
structure Leaf (σ ε χ ω : Type) where
  /-- The transition as it is written. -/
  template : Template σ ε χ ω
  /-- The frames around it. -/
  frames : List (Frame σ ε χ ω) := []

namespace Leaf

/-- The transition with one more frame around all others. -/
def within (leaf : Leaf σ ε χ ω) (f : Frame σ ε χ ω) : Leaf σ ε χ ω :=
  { leaf with frames := leaf.frames ++ [f] }

/-- The template with what all its frames share, one after another from the inside out. -/
def shared (leaf : Leaf σ ε χ ω) : Template σ ε χ ω :=
  leaf.frames.foldl (fun t f => f.share t) leaf.template

/-- None of the frames is a `when` without events. -/
def isKept (leaf : Leaf σ ε χ ω) : Bool :=
  leaf.frames.all fun f => !f.isEventless

theorem shared_within (leaf : Leaf σ ε χ ω) (f : Frame σ ε χ ω) :
    (leaf.within f).shared = f.share leaf.shared := by
  rw [shared, within, List.foldl_append]
  rfl

theorem isKept_within (leaf : Leaf σ ε χ ω) (f : Frame σ ε χ ω) :
    (leaf.within f).isKept = (leaf.isKept && !f.isEventless) := by
  simp [isKept, within]

end Leaf

/-- A frame of a tree with what stands inside. -/
structure Enclosure (σ ε χ ω : Type) where
  /-- The frame. -/
  frame : Frame σ ε χ ω
  /-- The children. -/
  inside : List (Block σ ε χ ω)

/-- The frame has nothing to share, or its children give no template to share it among. -/
def Enclosure.isEmpty (e : Enclosure σ ε χ ω) : Bool :=
  e.frame.isEventless || (Block.several e.inside).sheet.isEmpty

namespace Block

/-- The transitions of a tree from left to right, whether or not they become templates. -/
def leaves : Block σ ε χ ω → List (Leaf σ ε χ ω) :=
  gather (fun t => [{ template := t }]) fun f _ leaves => leaves.map (·.within f)

/-- The frames of a tree from left to right, each of them before those inside it. -/
def enclosures : Block σ ε χ ω → List (Enclosure σ ε χ ω) :=
  gather (fun _ => []) fun f children enclosures => ⟨f, children⟩ :: enclosures

theorem leaves_several (children : List (Block σ ε χ ω)) :
    (several children).leaves = children.flatMap leaves :=
  gather_several _ _ children

theorem leaves_around (f : Frame σ ε χ ω) (children : List (Block σ ε χ ω)) :
    (f.around children).leaves = (several children).leaves.map (·.within f) :=
  gather_around _ _ f children

theorem enclosures_several (children : List (Block σ ε χ ω)) :
    (several children).enclosures = children.flatMap enclosures :=
  gather_several _ _ children

theorem enclosures_around (f : Frame σ ε χ ω) (children : List (Block σ ε χ ω)) :
    (f.around children).enclosures = ⟨f, children⟩ :: (several children).enclosures :=
  gather_around _ _ f children

/-! ## The sheet of a tree -/

/-- The templates of a tree are the transitions that are under no `when` without events, in order,
each with what its frames share. -/
theorem templates_eq (block : Block σ ε χ ω) :
    block.sheet.templates = (block.leaves.filter Leaf.isKept).map Leaf.shared := by
  induction block using frame_induct with
  | transition t => rfl
  | several children ih =>
    rw [leaves_several, List.filter_flatMap, List.map_flatMap]
    exact (templates_sheets children).trans (List.flatMap_congr ih)
  | around f children ih =>
    rw [Frame.templates_around, leaves_around, ih, List.filter_map]
    cases h : f.isEventless with
    | true =>
      -- nothing under this frame is kept, whatever stands between
      simp [Function.comp_def, Leaf.isKept_within, h]
    | false =>
      simp [Function.comp_def, Leaf.isKept_within, Leaf.shared_within, h]

/-- The notes of a tree are those of its empty frames, in order. -/
theorem notes_eq (block : Block σ ε χ ω) :
    block.sheet.notes = (block.enclosures.filter Enclosure.isEmpty).map fun e => e.frame.note := by
  induction block using frame_induct with
  | transition t => rfl
  | several children ih =>
    rw [enclosures_several, List.filter_flatMap, List.map_flatMap]
    exact (notes_sheets children).trans (List.flatMap_congr ih)
  | around f children ih =>
    rw [Frame.notes_around, enclosures_around, ih, List.filter_cons, Enclosure.isEmpty]
    split
    · rfl
    · rfl

end Block

end TableMachine
