import Mathlib.Data.List.Perm.Basic
import TableMachine.Proofs.Conjunction
import TableMachine.Proofs.NestedBlocks

/-!
# The laws of conjunction

Conditions with conjunction form a monoid, on the nose: the order of the alternatives and the place
are the same whichever two of three conditions are taken together first. The cases of `crossed` are
no obstacle to this, since a list of alternatives is known from what it offers and whether it is
empty (`Condition.eq_of_offered_eq`). Up to form, conjunction is commutative as well. The form of a
conjunction depends on the forms of its sides only (`Condition.form_both`), so the form of a whole
series depends on the forms in it only, not on their order (`Condition.form_foldl_both_perm`).

**Main statements.** The laws, and what they mean for rules: conditions may be attached to a
transition or put around it in any order without changing the declared keys of its rules, nor those
of any other transition inside the blocks (`Condition.both_laws`).
-/

namespace TableMachine

namespace Condition

/-! ## Alternatives -/

theorem unions_assoc (p q r : List Combination) :
    unions (unions p q) r = unions p (unions q r) := by
  simp only [unions, List.flatMap_assoc, List.flatMap_map, List.map_flatMap, List.map_map,
    Function.comp_def, SortedSet.union_assoc]

theorem crossed_eq_nil_iff {left right : List Combination} :
    crossed left right = [] ↔ left = [] ∧ right = [] := by
  cases left with
  | nil => simp [crossed]
  | cons a left =>
    cases right with
    | nil => simp [crossed]
    | cons b right => simp [crossed]

/-- Alternatives are known from what they offer, but for the one that asks for nothing. -/
theorem eq_of_offered_eq {xs ys : List Combination} (h : offered xs = offered ys)
    (empty : xs = [] ↔ ys = []) : xs = ys := by
  by_cases hx : xs = []
  · rw [hx, empty.1 hx]
  · rwa [offered, if_neg hx, offered, if_neg fun hy => hx (empty.2 hy)] at h

theorem crossed_assoc (p q r : List Combination) :
    crossed (crossed p q) r = crossed p (crossed q r) := by
  apply eq_of_offered_eq
  · simp only [offered_crossed, unions_assoc]
  · simp only [crossed_eq_nil_iff, and_assoc]

theorem crossed_nil_right (left : List Combination) : crossed left [] = left := by
  cases left <;> rfl

theorem mem_offered {xs : List Combination} {c : Combination} :
    c ∈ offered xs ↔ c ∈ xs ∨ xs = [] ∧ c = ∅ := by
  by_cases hx : xs = []
  · simp [offered, hx]
  · simp [offered, hx]

theorem mem_crossed {left right : List Combination} {c : Combination} :
    c ∈ crossed left right ↔
      ¬(left = [] ∧ right = []) ∧ ∃ a ∈ offered left, ∃ b ∈ offered right, c = a ∪ b := by
  rw [← crossed_eq_nil_iff, ← mem_offered_crossed, mem_offered]
  constructor
  · intro h
    exact ⟨List.ne_nil_of_mem h, Or.inl h⟩
  · rintro ⟨some_crossed, h⟩
    exact h.resolve_right fun nothing => some_crossed nothing.1

theorem mem_crossed_comm {left right : List Combination} {c : Combination} :
    c ∈ crossed left right ↔ c ∈ crossed right left := by
  have swapped : ∀ {xs ys : List Combination}, (∃ a ∈ offered xs, ∃ b ∈ offered ys, c = a ∪ b) →
      ∃ b ∈ offered ys, ∃ a ∈ offered xs, c = b ∪ a := by
    rintro xs ys ⟨a, ha, b, hb, rfl⟩
    exact ⟨b, hb, a, ha, SortedSet.union_comm a b⟩
  rw [mem_crossed, mem_crossed, and_comm (a := left = [])]
  exact and_congr_right fun _ => ⟨swapped, swapped⟩

/-- To take alternatives together it matters only which ones there are. -/
theorem mem_crossed_congr {left left' right right' : List Combination}
    (hl : ∀ a, a ∈ left ↔ a ∈ left') (hr : ∀ b, b ∈ right ↔ b ∈ right') {c : Combination} :
    c ∈ crossed left right ↔ c ∈ crossed left' right' := by
  simp only [mem_crossed, mem_offered, List.eq_nil_iff_forall_not_mem, hl, hr]

/-! ## Conditions as a monoid -/

variable (l m n : Condition)

theorem always_both : always.both m = m := by
  obtain ⟨required, alternatives, location?⟩ := m
  simp [both, always, crossed]

theorem both_always : m.both always = m := by
  obtain ⟨required, alternatives, location?⟩ := m
  simp [both, always, crossed_nil_right]

theorem both_assoc : (l.both m).both n = l.both (m.both n) := by
  simp only [both, SortedSet.union_assoc, crossed_assoc, Option.or_assoc]

/-- A series of conditions stands where the first does that has a place. -/
theorem location?_foldl_both (ms : List Condition) (m : Condition) :
    (ms.foldl both m).location? = (m :: ms).findSome? Condition.location? := by
  induction ms generalizing m with
  | nil => cases h : m.location? <;> simp [h]
  | cons n rest ih =>
    rw [List.foldl_cons, ih]
    have place : (m.both n).location? = m.location?.or n.location? := rfl
    simp only [List.findSome?_cons, place]
    cases m.location? <;> rfl

/-! ## Up to form -/

theorem alike_iff {m n : Condition} :
    m.Alike n ↔ m.required = n.required ∧ ∀ a, a ∈ m.alternatives ↔ a ∈ n.alternatives := by
  rw [Alike, form, form, Form.mk.injEq]
  refine and_congr_right fun _ => ⟨fun h a => ?_, fun h => SortedSet.ext fun a => ?_⟩
  · rw [← SortedSet.mem_ofList, h, SortedSet.mem_ofList]
  · rw [SortedSet.mem_ofList, SortedSet.mem_ofList, h a]

theorem alike_both_comm : (m.both n).Alike (n.both m) :=
  alike_iff.2 ⟨SortedSet.union_comm .., fun _ => mem_crossed_comm⟩

theorem Alike.both {m m' n n' : Condition} (hm : m.Alike m') (hn : n.Alike n') :
    (m.both n).Alike (m'.both n') := by
  obtain ⟨hm, hmem⟩ := alike_iff.1 hm
  obtain ⟨hn, hnmem⟩ := alike_iff.1 hn
  refine alike_iff.2 ⟨?_, fun _ => mem_crossed_congr hmem hnmem⟩
  change m.required ∪ n.required = m'.required ∪ n'.required
  rw [hm, hn]

namespace Form

/-- A condition of the form, without a place. -/
def condition (f : Form) : Condition where
  required := f.required
  alternatives := f.alternatives.toList

theorem form_condition (f : Form) : f.condition.form = f := by
  rw [condition, form, SortedSet.ofList_toList]

/-- The form of a conjunction of conditions of the two forms. -/
def both (f g : Form) : Form :=
  (f.condition.both g.condition).form

end Form

theorem form_both : (m.both n).form = m.form.both n.form :=
  Alike.both m.form.form_condition.symm n.form.form_condition.symm

instance : Std.Commutative Form.both where
  comm f g := alike_both_comm f.condition g.condition

instance : Std.Associative Form.both where
  assoc f g h :=
    calc (f.both g).both h
      _ = (f.both g).both h.condition.form := by rw [h.form_condition]
      _ = ((f.condition.both g.condition).both h.condition).form := (form_both ..).symm
      _ = (f.condition.both (g.condition.both h.condition)).form := by rw [both_assoc]
      _ = f.condition.form.both (g.both h) := form_both ..
      _ = f.both (g.both h) := by rw [f.form_condition]

theorem form_foldl_both (ms : List Condition) (m : Condition) :
    (ms.foldl both m).form = (ms.map form).foldl Form.both m.form := by
  induction ms generalizing m with
  | nil => rfl
  | cons n rest ih => rw [List.foldl_cons, ih, form_both, List.map_cons, List.foldl_cons]

/-- The form of a series does not depend on its order, nor on how its conditions are written. -/
theorem form_foldl_both_perm {ms ns : List Condition} (h : (ms.map form).Perm (ns.map form)) :
    (ms.foldl both m).form = (ns.foldl both m).form := by
  rw [form_foldl_both, form_foldl_both, h.foldl_eq]

end Condition

/-! ## The declared keys of a tree -/

variable {σ ε χ ω : Type}

/-- To attach conditions to a transition is to conjoin them with its own one. -/
theorem Template.foldl_matching (ms : List Condition) (t : Template σ ε χ ω) :
    ms.foldl Template.matching t = { t with condition := ms.foldl Condition.both t.condition } := by
  induction ms generalizing t with
  | nil => rfl
  | cons m rest ih => rw [List.foldl_cons, ih, matching, List.foldl_cons]

namespace Leaf

/-- The declared keys of the rules that a transition gives in a state. -/
def keysIn (state : σ) (leaf : Leaf σ ε χ ω) : List (DeclaredKey σ ε) :=
  if leaf.isKept then leaf.events.map fun event => ⟨state, event, leaf.condition.form⟩ else []

theorem map_key_shared {leaf : Leaf σ ε χ ω} (kept : leaf.isKept) (state : σ) :
    (leaf.shared.rulesIn state).map Rule.key = leaf.keysIn state := by
  rw [keysIn, if_pos kept, shared_eq_read kept, Template.rulesIn, List.map_map]
  rfl

theorem isKept_eq_all (leaf : Leaf σ ε χ ω) :
    leaf.isKept = (leaf.frames.filterMap Frame.events?).all fun events => !events.isEmpty := by
  obtain ⟨t, frames⟩ := leaf
  simp only [isKept, List.all_filterMap]
  congr 1
  funext f
  cases f <;> rfl

theorem form_condition (leaf : Leaf σ ε χ ω) :
    leaf.condition.form =
      ((leaf.frames.filterMap Frame.condition?).foldl Condition.both
        leaf.template.condition).form :=
  rfl

/-- The keys of a transition are known from its events, from the events of the blocks around it and
from the forms of the conditions, whether attached or around. -/
theorem keysIn_congr (state : σ) (t : Template σ ε χ ω) (ms ns : List Condition)
    {fs gs : List (Frame σ ε χ ω)} (whens : fs.filterMap Frame.events? = gs.filterMap Frame.events?)
    (forms : ((ms ++ fs.filterMap Frame.condition?).map Condition.form).Perm
      ((ns ++ gs.filterMap Frame.condition?).map Condition.form)) :
    keysIn state ⟨ms.foldl Template.matching t, fs⟩ =
      keysIn state ⟨ns.foldl Template.matching t, gs⟩ := by
  have kept : isKept ⟨ms.foldl Template.matching t, fs⟩ =
      isKept ⟨ns.foldl Template.matching t, gs⟩ := by
    rw [isKept_eq_all, isKept_eq_all, whens]
  have same : events ⟨ms.foldl Template.matching t, fs⟩ =
      events ⟨ns.foldl Template.matching t, gs⟩ := by
    simp only [events, Template.foldl_matching, ← List.head?_filterMap, whens]
  have form : (condition ⟨ms.foldl Template.matching t, fs⟩).form =
      (condition ⟨ns.foldl Template.matching t, gs⟩).form := by
    simp only [form_condition, Template.foldl_matching, ← List.foldl_append]
    exact Condition.form_foldl_both_perm t.condition forms
  rw [keysIn, keysIn, kept, same, form]

end Leaf

namespace Block

/-- The declared keys of the rules that a tree gives in a state. -/
def keysIn (state : σ) (block : Block σ ε χ ω) : List (DeclaredKey σ ε) :=
  (block.sheet.templates.flatMap fun t => t.rulesIn state).map Rule.key

theorem keysIn_eq (state : σ) (block : Block σ ε χ ω) :
    block.keysIn state = block.leaves.flatMap (Leaf.keysIn state) := by
  rw [keysIn, templates_eq, List.map_flatMap, List.flatMap_map]
  induction block.leaves with
  | nil => rfl
  | cons leaf rest ih =>
    rw [List.flatMap_cons, ← ih]
    cases kept : leaf.isKept with
    | true => rw [List.filter_cons_of_pos kept, List.flatMap_cons, Leaf.map_key_shared kept]
    | false => simp [Leaf.keysIn, kept]

/-- The block inside the frames, the innermost first. -/
def under (block : Block σ ε χ ω) (frames : List (Frame σ ε χ ω)) : Block σ ε χ ω :=
  frames.foldl (fun inner f => f.around [inner]) block

theorem leaves_under (block : Block σ ε χ ω) (frames : List (Frame σ ε χ ω)) :
    (block.under frames).leaves =
      block.leaves.map fun leaf => ⟨leaf.template, leaf.frames ++ frames⟩ := by
  induction frames generalizing block with
  | nil => simp [under]
  | cons f rest ih =>
    rw [under, List.foldl_cons, ← under, ih, leaves_around, leaves_several, List.flatMap_singleton,
      List.map_map]
    apply List.map_congr_left
    intro leaf _
    simp [Leaf.within]

end Block

/-! ## The laws -/

/-- Conjunction of conditions holds where both hold, is a monoid with `always`, is commutative up to
form and respects forms, and stands at the first place there is. So a transition gives rules of the
same declared keys in whatever order conditions are attached to it or put around it, and so do all
transitions inside blocks that are nested in another order, as long as the events shared are the
same. -/
theorem Condition.both_laws :
    (∀ (m n : Condition) (c : Combination), (m.both n).Holds c ↔ m.Holds c ∧ n.Holds c) ∧
    (∀ m : Condition, always.both m = m ∧ m.both always = m) ∧
    (∀ l m n : Condition, (l.both m).both n = l.both (m.both n)) ∧
    (∀ m n : Condition, (m.both n).Alike (n.both m)) ∧
    (∀ m m' n n' : Condition, m.Alike m' → n.Alike n' → (m.both n).Alike (m'.both n')) ∧
    (∀ (m : Condition) (ms : List Condition),
      (ms.foldl both m).location? = (m :: ms).findSome? Condition.location?) ∧
    (∀ (state : σ) (t : Template σ ε χ ω) (ms ns : List Condition) (fs gs : List (Frame σ ε χ ω)),
      fs.filterMap Frame.events? = gs.filterMap Frame.events? →
        ((ms ++ fs.filterMap Frame.condition?).map form).Perm
            ((ns ++ gs.filterMap Frame.condition?).map form) →
          ((Block.transition (ms.foldl Template.matching t)).under fs).keysIn state =
            ((Block.transition (ns.foldl Template.matching t)).under gs).keysIn state) ∧
    (∀ (state : σ) (block : Block σ ε χ ω) (fs gs : List (Frame σ ε χ ω)),
      fs.filterMap Frame.events? = gs.filterMap Frame.events? →
        ((fs.filterMap Frame.condition?).map form).Perm ((gs.filterMap Frame.condition?).map form) →
          (block.under fs).keysIn state = (block.under gs).keysIn state) := by
  refine ⟨fun m n c => both_holds_iff, fun m => ⟨always_both m, both_always m⟩, both_assoc,
    alike_both_comm, fun m m' n n' => Alike.both, fun m ms => location?_foldl_both ms m,
    fun state t ms ns fs gs whens forms => ?_, fun state block fs gs whens forms => ?_⟩
  · rw [Block.keysIn_eq, Block.keysIn_eq, Block.leaves_under, Block.leaves_under]
    change [Leaf.mk _ fs].flatMap _ = [Leaf.mk _ gs].flatMap _
    rw [List.flatMap_singleton, List.flatMap_singleton, Leaf.keysIn_congr state t ms ns whens forms]
  · rw [Block.keysIn_eq, Block.keysIn_eq, Block.leaves_under, Block.leaves_under, List.flatMap_map,
      List.flatMap_map]
    apply List.flatMap_congr
    intro leaf _
    refine Leaf.keysIn_congr state leaf.template [] [] ?_ ?_
    · rw [List.filterMap_append, List.filterMap_append, whens]
    · simp only [List.nil_append, List.filterMap_append, List.map_append]
      exact forms.append_left _

namespace Turnstile

/-- Those who kick raise the alarm. -/
def alarm : Template Gate Input Unit Notes where
  events := [.kick]
  next? := some .alarming
  location := here 74

/-- The alarm has the same keys whether two of its three conditions are attached and one is around
it or the other way round, and although the alternatives of one are written in another order.
Whatever happens to those who pass has the same keys if the blocks around it change places. -/
theorem alarm_keys :
    ((Block.transition ([lenient, nightWatch].foldl Template.matching alarm)).under
        [.matching (here 75) watched]).keysIn .locked =
      ((Block.transition ([nightWatch].foldl Template.matching alarm)).under
        [.matching (here 76)
            (.oneOf [Predicate.value Enforcement.strong, Predicate.value Enforcement.weak]),
          .acting (here 77) [note "ring"], .matching (here 78) lenient]).keysIn .locked ∧
    ((Block.several passing).under [.matching (here 79) watched, .when (here 80) [.pass],
        .matching (here 81) lenient]).keysIn .locked =
      ((Block.several passing).under [.matching (here 82) lenient, .matching (here 83) watched,
        .when (here 80) [.pass]]).keysIn .locked := by
  obtain ⟨-, -, -, -, -, -, written, nested⟩ :=
    @Condition.both_laws Gate Input Unit Notes
  refine ⟨written _ _ _ _ _ _ rfl ?_, nested _ _ _ _ rfl ?_⟩
  · decide +kernel
  · decide +kernel

end Turnstile

end TableMachine
