import Mathlib.Logic.Relation
import Mathlib.Tactic.Push
import TableMachine.Proofs.FirstOfKey
import TableMachine.Proofs.FullCombination
import TableMachine.Samples.Turnstile

/-!
# What a contradiction reports

Two values *oppose* each other in a combination if they are different values of one family, the
smaller named first. A condition that is refused has opposing values in some branch. Of these, the
report has the pairs that are neighbours in a branch (`Condition.mem_conflicts_iff`): all of them if
no branch has three values of one family, and else enough to link any two opposing values by pairs
reported (`Condition.linked_of_opposes`). Values with a third one between them in each branch are
not reported as a pair by themselves.
-/

namespace TableMachine

/-! ## Neighbours -/

section Neighbours

universe u

variable {α : Type u} [Ord α] [Std.TransOrd α]

/-- In an ascending list the neighbours are the elements with none between them. -/
theorem mem_zip_tail_iff {xs : List α} (h : xs.Pairwise fun a b => compare a b = .lt) {v w : α} :
    (v, w) ∈ xs.zip xs.tail ↔
      v ∈ xs ∧ w ∈ xs ∧ compare v w = .lt ∧ ∀ u ∈ xs, ¬(compare v u = .lt ∧ compare u w = .lt) := by
  induction xs with
  | nil => simp
  | cons x xs ih =>
    obtain ⟨below, tail⟩ := List.pairwise_cons.1 h
    cases xs with
    | nil => simp +contextual [Std.ReflCmp.compare_self]
    | cons y ys =>
      have belowTail := (List.pairwise_cons.1 tail).1
      change (v, w) ∈ (x, y) :: (y :: ys).zip (y :: ys).tail ↔ _
      rw [List.mem_cons, ih tail]
      constructor
      · rintro (he | ⟨hv, hw, hlt, gap⟩)
        · obtain ⟨rfl, rfl⟩ := Prod.mk.inj he
          refine ⟨List.mem_cons_self, by simp, below w List.mem_cons_self, fun u hu hbetween => ?_⟩
          rcases List.mem_cons.1 hu with rfl | hu
          · exact Std.OrientedCmp.not_lt_of_lt hbetween.1 hbetween.1
          rcases List.mem_cons.1 hu with rfl | hu
          · exact Std.OrientedCmp.not_lt_of_lt hbetween.2 hbetween.2
          · exact Std.OrientedCmp.not_lt_of_lt (belowTail u hu) hbetween.2
        · refine ⟨List.mem_cons_of_mem x hv, List.mem_cons_of_mem x hw, hlt,
            fun u hu hbetween => ?_⟩
          rcases List.mem_cons.1 hu with rfl | hu
          · exact Std.OrientedCmp.not_lt_of_lt (below v hv) hbetween.1
          · exact gap u hu hbetween
      · rintro ⟨hv, hw, hlt, gap⟩
        have hwtail : w ∈ y :: ys := by
          rcases List.mem_cons.1 hw with rfl | hw
          · rcases List.mem_cons.1 hv with rfl | hv
            · exact absurd hlt (Std.OrientedCmp.not_lt_of_lt hlt)
            · exact absurd hlt (Std.OrientedCmp.not_lt_of_lt (below v hv))
          · exact hw
        rcases List.mem_cons.1 hv with rfl | hv
        · -- the least element has only the second one for a neighbour
          rcases List.mem_cons.1 hwtail with rfl | hw
          · exact Or.inl rfl
          · exact absurd ⟨below y List.mem_cons_self, belowTail w hw⟩ (gap y (by simp))
        · exact Or.inr ⟨hv, hwtail, hlt, fun u hu => gap u (List.mem_cons_of_mem x hu)⟩

end Neighbours

/-! ## Opposing values -/

namespace Combination

/-- The combination holds both values, and they are different ones of one family, the smaller
first. -/
structure Opposes (c : Combination) (v w : Value) : Prop where
  /-- The smaller one is held. -/
  left : v ∈ c
  /-- The larger one is held. -/
  right : w ∈ c
  /-- They are of one family. -/
  family : v.family = w.family
  /-- The smaller one is named first. -/
  below : compare v w = .lt

variable {c : Combination} {v w : Value}

/-- A combination without opposing values is consistent. -/
theorem consistent_iff_not_opposes : c.Consistent ↔ ∀ v w, ¬c.Opposes v w := by
  rw [consistent_iff]
  constructor
  · intro h v w hvw
    obtain rfl := h v hvw.left w hvw.right hvw.family
    exact Std.OrientedCmp.not_lt_of_lt hvw.below hvw.below
  · intro h v hv w hw hf
    cases hvw : compare v w with
    | lt => exact absurd ⟨hv, hw, hf, hvw⟩ (h v w)
    | eq => exact Std.LawfulEqOrd.eq_of_compare hvw
    | gt => exact absurd ⟨hw, hv, hf.symm, Std.OrientedCmp.lt_of_gt hvw⟩ (h w v)

end Combination

namespace Condition

/-- The rivals in a combination are the opposing values with no value between them. -/
theorem mem_rivals_iff {c : Combination} {v w : Value} :
    (v, w) ∈ rivals c ↔ c.Opposes v w ∧ ∀ u ∈ c, ¬(compare v u = .lt ∧ compare u w = .lt) := by
  rw [rivals, List.mem_filter, mem_zip_tail_iff c.ascending, decide_eq_true_eq]
  constructor
  · rintro ⟨⟨hv, hw, hlt, gap⟩, hf⟩
    exact ⟨⟨hv, hw, hf, hlt⟩, gap⟩
  · rintro ⟨⟨hv, hw, hf, hlt⟩, gap⟩
    exact ⟨⟨hv, hw, hlt, gap⟩, hf⟩

/-- Between two values of one family there are only values of that family. -/
theorem family_eq_of_between {v u w : Value} (hf : v.family = w.family) (hvu : compare v u = .lt)
    (huw : compare u w = .lt) : v.family = u.family := by
  have hle := Value.isLE_family_of_lt hvu
  have hge := Value.isLE_family_of_lt huw
  rw [← hf] at hge
  exact Std.LawfulEqOrd.eq_of_compare (Std.OrientedCmp.isLE_antisymm hle hge)

/-- In an ascending list of values, any two of one family are linked by neighbours of that
family. -/
theorem linked_neighbours {xs : List Value} (h : xs.Pairwise fun a b => compare a b = .lt)
    {v w : Value} (hv : v ∈ xs) (hw : w ∈ xs) (hlt : compare v w = .lt)
    (hf : v.family = w.family) :
    Relation.TransGen (fun a b => (a, b) ∈ xs.zip xs.tail ∧ a.family = b.family) v w := by
  induction xs generalizing v with
  | nil => exact absurd hv List.not_mem_nil
  | cons x xs ih =>
    obtain ⟨below, tail⟩ := List.pairwise_cons.1 h
    have least : ∀ u ∈ xs, compare u x ≠ .lt :=
      fun u hu => Std.OrientedCmp.not_lt_of_lt (below u hu)
    have irrefl : compare x x ≠ .lt := fun hx => Std.OrientedCmp.not_lt_of_lt hx hx
    rcases List.mem_cons.1 hw with rfl | hwtail
    · rcases List.mem_cons.1 hv with rfl | hv
      · exact absurd hlt irrefl
      · exact absurd hlt (least v hv)
    cases xs with
    | nil => exact absurd hwtail List.not_mem_nil
    | cons y ys =>
      have later : ∀ {u}, u ∈ y :: ys → compare u w = .lt → u.family = w.family →
          Relation.TransGen (fun a b => (a, b) ∈ (x :: y :: ys).zip (y :: ys) ∧ a.family = b.family)
            u w := by
        intro u hu hlt hf
        refine Relation.TransGen.mono ?_ _ _ (ih tail hu hwtail hlt hf)
        rintro a b ⟨hab, hfamily⟩
        exact ⟨List.mem_cons_of_mem _ hab, hfamily⟩
      rcases List.mem_cons.1 hv with rfl | hvtail
      · -- the first step leads from the least value to its neighbour
        rcases List.mem_cons.1 hwtail with rfl | hwlater
        · exact .single ⟨List.mem_cons_self, hf⟩
        · have hyw := (List.pairwise_cons.1 tail).1 w hwlater
          have hfy := family_eq_of_between hf (below y List.mem_cons_self) hyw
          exact .head ⟨List.mem_cons_self, hfy⟩ (later List.mem_cons_self hyw (hfy.symm.trans hf))
      · exact later hvtail hlt hf

/-- Opposing values are linked by rivals. -/
theorem linked_rivals {c : Combination} {v w : Value} (h : c.Opposes v w) :
    Relation.TransGen (fun a b => (a, b) ∈ rivals c) v w := by
  refine Relation.TransGen.mono ?_ _ _
    (linked_neighbours c.ascending h.left h.right h.below h.family)
  rintro a b ⟨hab, hfamily⟩
  exact List.mem_filter.2 ⟨hab, decide_eq_true hfamily⟩

/-! ## Conflicts -/

/-- Some branch asks for both values, which oppose each other. -/
def Opposes (m : Condition) (v w : Value) : Prop :=
  ∃ b ∈ m.branches, Combination.Opposes b v w

variable {m : Condition} {v w : Value}

theorem nodup_conflicts (m : Condition) : m.conflicts.Nodup :=
  nodup_eraseDups _

theorem mem_conflicts_iff_rivals : (v, w) ∈ m.conflicts ↔ ∃ b ∈ m.branches, (v, w) ∈ rivals b := by
  rw [conflicts, List.mem_eraseDups, List.mem_flatMap]

/-- The conflicts are the opposing values that are neighbours in a branch. -/
theorem mem_conflicts_iff :
    (v, w) ∈ m.conflicts ↔ ∃ b ∈ m.branches, Combination.Opposes b v w ∧
      ∀ u ∈ b, ¬(compare v u = .lt ∧ compare u w = .lt) := by
  rw [mem_conflicts_iff_rivals]
  simp only [mem_rivals_iff]

/-- Opposing values are linked by conflicts. -/
theorem linked_of_opposes (h : m.Opposes v w) :
    Relation.TransGen (fun a b => (a, b) ∈ m.conflicts) v w := by
  obtain ⟨b, hb, hvw⟩ := h
  refine Relation.TransGen.mono ?_ _ _ (linked_rivals hvw)
  intro a a' hrivals
  exact mem_conflicts_iff_rivals.2 ⟨b, hb, hrivals⟩

/-- Without three values of one family in a branch the conflicts are all the opposing values. -/
theorem mem_conflicts_iff_opposes
    (h : ∀ b ∈ m.branches, ∀ u v w, Combination.Opposes b u v → ¬Combination.Opposes b v w) :
    (v, w) ∈ m.conflicts ↔ m.Opposes v w := by
  rw [mem_conflicts_iff]
  constructor
  · rintro ⟨b, hb, hvw, -⟩
    exact ⟨b, hb, hvw⟩
  · rintro ⟨b, hb, hvw⟩
    refine ⟨b, hb, hvw, fun u hu hbetween => ?_⟩
    have hf := family_eq_of_between hvw.family hbetween.1 hbetween.2
    exact h b hb v u w ⟨hvw.left, hu, hf, hbetween.1⟩
      ⟨hu, hvw.right, hf.symm.trans hvw.family, hbetween.2⟩

/-- A condition is refused exactly if some values oppose each other, and with its conflicts. -/
theorem contradiction?_eq_some_iff_opposes {e : Contradiction} :
    m.contradiction? = some e ↔ (∃ v w, m.Opposes v w) ∧ e = ⟨m, m.conflicts⟩ := by
  have refused : m.conflicts ≠ [] ↔ ∃ v w, m.Opposes v w := by
    rw [ne_eq, conflicts_eq_nil_iff]
    simp only [Combination.consistent_iff_not_opposes]
    push Not
    constructor
    · rintro ⟨b, hb, v, w, hvw⟩
      exact ⟨v, w, b, hb, hvw⟩
    · rintro ⟨v, w, b, hb, hvw⟩
      exact ⟨b, hb, v, w, hvw⟩
  rw [← refused, contradiction?]
  by_cases h : m.conflicts = []
  · simp [h]
  · rw [if_neg fun he => h (List.isEmpty_iff.1 he), Option.some.injEq]
    exact ⟨fun he => ⟨h, he.symm⟩, fun he => he.2.symm⟩

/-- A condition is refused exactly if some values oppose each other. The report then has, each pair
once, the opposing values that are neighbours in a branch. Any two opposing values are linked by
pairs reported, and unless a branch has three values of one family they are a pair reported
themselves. -/
theorem contradiction_exact (m : Condition) :
    (m.contradiction? = none ↔ ∀ v w, ¬m.Opposes v w) ∧
    ∀ e, m.contradiction? = some e →
      e.condition = m ∧ e.conflicts.Nodup ∧
      (∀ v w, (v, w) ∈ e.conflicts ↔ ∃ b ∈ m.branches, Combination.Opposes b v w ∧
        ∀ u ∈ b, ¬(compare v u = .lt ∧ compare u w = .lt)) ∧
      (∀ v w, m.Opposes v w → Relation.TransGen (fun a b => (a, b) ∈ e.conflicts) v w) ∧
      ((∀ b ∈ m.branches, ∀ u v w, Combination.Opposes b u v → ¬Combination.Opposes b v w) →
        ∀ v w, (v, w) ∈ e.conflicts ↔ m.Opposes v w) := by
  constructor
  · rw [Option.eq_none_iff_forall_ne_some]
    simp only [ne_eq, contradiction?_eq_some_iff_opposes, not_and]
    constructor
    · intro h v w hvw
      exact h _ ⟨v, w, hvw⟩ rfl
    · rintro h e ⟨v, w, hvw⟩
      exact absurd hvw (h v w)
  · intro e he
    obtain ⟨-, rfl⟩ := contradiction?_eq_some_iff_opposes.1 he
    exact ⟨rfl, nodup_conflicts m, fun v w => mem_conflicts_iff, fun v w => linked_of_opposes,
      fun h v w => mem_conflicts_iff_opposes h⟩

end Condition

namespace Turnstile

/-- How the turnstile is run. -/
def runningMode : Family :=
  .ofLabels "Mode" ["Free", "Paid", "Closed"]

/-- All modes at once. -/
def everyMode : Condition :=
  .allOf runningMode.cases

/-- The first mode and the last oppose each other, but as there is one between them they are not
reported as a pair. -/
theorem everyMode_unreported :
    ∃ e, everyMode.contradiction? = some e ∧
      everyMode.Opposes (runningMode.value "Free") (runningMode.value "Closed") ∧
      (runningMode.value "Free", runningMode.value "Closed") ∉ e.conflicts := by
  refine ⟨⟨everyMode, everyMode.conflicts⟩, by decide +kernel, ?_, by decide +kernel⟩
  refine ⟨everyMode.required, by decide +kernel, ?_, ?_, rfl, ?_⟩
  · decide +kernel
  · decide +kernel
  · decide +kernel

/-- They are linked by the pairs that are reported. -/
theorem everyMode_linked :
    ∃ e, everyMode.contradiction? = some e ∧
      Relation.TransGen (fun a b => (a, b) ∈ e.conflicts) (runningMode.value "Free")
        (runningMode.value "Closed") := by
  have opposed : everyMode.Opposes (runningMode.value "Free") (runningMode.value "Closed") := by
    refine ⟨everyMode.required, by decide +kernel, ?_, ?_, rfl, ?_⟩
    · decide +kernel
    · decide +kernel
    · decide +kernel
  have refused : everyMode.contradiction? = some ⟨everyMode, everyMode.conflicts⟩ := by
    decide +kernel
  obtain ⟨-, reported⟩ := Condition.contradiction_exact everyMode
  obtain ⟨-, -, -, linked, -⟩ := reported _ refused
  exact ⟨_, refused, linked _ _ opposed⟩

/-- Modes that are not listed are one, and so they do not oppose each other. -/
example :
    (Condition.allOf [runningMode.value "Leased", runningMode.value "Rented"]).contradiction? =
      none := by
  decide +kernel

end Turnstile

end TableMachine
