import TableMachine.Proofs.FirstOfKey
import TableMachine.Proofs.FullCombination
import TableMachine.Table.Expansion

/-!
# Rules over the families that they mention

A list of rules has no unlisted value and no contradiction exactly if every condition is on listed
values and coherent. The condition that stands for all conditions like it has their branches, so the
shared expansion covers what each of them covers by itself (`Rule.expansion_eq_ok_iff`).
-/

namespace TableMachine

namespace Rule

variable {σ ε χ ω : Type}

/-- The families mentioned are those of the values mentioned. -/
theorem mem_mentionedFamilies {rules : List (Rule σ ε χ ω)} {f : Family} :
    f ∈ mentionedFamilies rules ↔ ∃ r ∈ rules, ∃ v ∈ r.condition.values, v.family = f := by
  rw [mentionedFamilies, List.mem_eraseDups, List.mem_flatMap]
  constructor
  · rintro ⟨r, hr, hf⟩
    exact ⟨r, hr, Combination.mem_families.1 hf⟩
  · rintro ⟨r, hr, hf⟩
    exact ⟨r, hr, Combination.mem_families.2 hf⟩

/-- What a condition on listed values mentions is listed and of a family mentioned. -/
theorem mentions_of_listed {rules : List (Rule σ ε χ ω)} {r : Rule σ ε χ ω} (hr : r ∈ rules)
    (hl : ∀ v ∈ r.condition.values, v.Listed) :
    ∀ v ∈ r.condition.values, v.Listed ∧ v.family ∈ mentionedFamilies rules := by
  intro v hv
  exact ⟨hl v hv, mem_mentionedFamilies.2 ⟨r, hr, v, hv, rfl⟩⟩

/-- Each family is mentioned once. -/
theorem nodup_mentionedFamilies (rules : List (Rule σ ε χ ω)) : (mentionedFamilies rules).Nodup :=
  nodup_eraseDups _

/-- Which families are mentioned depends on the set of rules only. -/
theorem mem_mentionedFamilies_congr {rules rules' : List (Rule σ ε χ ω)}
    (h : ∀ r, r ∈ rules ↔ r ∈ rules') (f : Family) :
    f ∈ mentionedFamilies rules ↔ f ∈ mentionedFamilies rules' := by
  rw [mem_mentionedFamilies, mem_mentionedFamilies]
  simp only [h]

/-! ## Unlisted values -/

/-- The unlisted values are found where rules mention them. -/
theorem mem_unlistedValues {rules : List (Rule σ ε χ ω)} {v : Value} {place : Location} :
    (v, place) ∈ unlistedValues rules ↔
      ∃ r ∈ rules, v ∈ r.condition.values ∧ ¬v.Listed ∧ r.conditionLocation = place := by
  rw [unlistedValues]
  simp only [List.mem_eraseDups, List.mem_flatMap, List.mem_map, List.mem_filter, decide_eq_true_eq]
  constructor
  · rintro ⟨r, hr, w, ⟨hw, hl⟩, he⟩
    obtain ⟨rfl, rfl⟩ := Prod.mk.inj he
    exact ⟨r, hr, hw, hl, rfl⟩
  · rintro ⟨r, hr, hv, hl, rfl⟩
    exact ⟨r, hr, v, ⟨hv, hl⟩, rfl⟩

theorem nodup_unlistedValues (rules : List (Rule σ ε χ ω)) : (unlistedValues rules).Nodup :=
  nodup_eraseDups _

theorem unlistedValues_eq_nil_iff {rules : List (Rule σ ε χ ω)} :
    unlistedValues rules = [] ↔ ∀ r ∈ rules, ∀ v ∈ r.condition.values, v.Listed := by
  rw [List.eq_nil_iff_forall_not_mem]
  constructor
  · intro h r hr v hv
    by_contra hl
    exact h (v, r.conditionLocation) (mem_unlistedValues.2 ⟨r, hr, hv, hl, rfl⟩)
  · rintro h ⟨v, place⟩ hv
    obtain ⟨r, hr, hv, hl, -⟩ := mem_unlistedValues.1 hv
    exact hl (h r hr v hv)

/-- A family that a listed value belongs to has a case. -/
theorem cases_ne_nil {rules : List (Rule σ ε χ ω)}
    (h : ∀ r ∈ rules, ∀ v ∈ r.condition.values, v.Listed) {f : Family}
    (hf : f ∈ mentionedFamilies rules) : f.cases ≠ [] := by
  obtain ⟨r, hr, v, hv, rfl⟩ := mem_mentionedFamilies.1 hf
  exact List.ne_nil_of_mem ((Value.listed_iff_mem_cases v).1 (h r hr v hv))

/-! ## Shared expansion -/

/-- The condition that stands for the conditions like `m` is like `m`. -/
theorem representative_alike (rules : List (Rule σ ε χ ω)) (m : Condition) :
    (representative rules m).Alike m := by
  unfold representative
  cases h : (rules.map condition).find? fun n => n.Alike m with
  | none => exact Eq.refl m.form
  | some n =>
    have alike := List.find?_some h
    exact of_decide_eq_true alike

/-- A rule is found contradictory if its condition is not coherent. What is told then is the
condition, at its own place or else at the rule's, and the conflicts of the condition that stands
for it. -/
theorem contradiction?_eq_some_iff {rules : List (Rule σ ε χ ω)} {r : Rule σ ε χ ω}
    {e : Contradiction} :
    contradiction? rules r = some e ↔ ¬r.condition.Coherent ∧
      e = ⟨r.condition.placedOr r.location, (representative rules r.condition).conflicts⟩ := by
  have coherent : (representative rules r.condition).conflicts = [] ↔ r.condition.Coherent :=
    Condition.conflicts_eq_nil_iff.trans (representative_alike rules r.condition).coherent_iff
  unfold contradiction? Condition.contradiction?
  by_cases h : r.condition.Coherent
  · simp [coherent.2 h, h]
  · have conflicts : ¬(representative rules r.condition).conflicts.isEmpty = true :=
      fun he => h (coherent.1 (List.isEmpty_iff.1 he))
    rw [if_neg conflicts, Option.map_some, Option.some.injEq]
    exact ⟨fun he => ⟨h, he.symm⟩, fun he => he.2.symm⟩

theorem contradiction?_eq_none_iff {rules : List (Rule σ ε χ ω)} {r : Rule σ ε χ ω} :
    contradiction? rules r = none ↔ r.condition.Coherent := by
  rw [contradiction?, Option.map_eq_none_iff, Condition.contradiction?_eq_none_iff]
  exact (representative_alike rules r.condition).coherent_iff

theorem contradictions_eq_nil_iff {rules : List (Rule σ ε χ ω)} :
    contradictions rules = [] ↔ ∀ r ∈ rules, r.condition.Coherent := by
  rw [contradictions, distinctBy_eq_nil_iff, List.filterMap_eq_nil_iff]
  simp only [contradiction?_eq_none_iff]

/-- A coherent condition covers the extensions of the branches of the condition standing for it, and
no other condition covers anything. -/
theorem expansion_eq_ok_iff {rules : List (Rule σ ε χ ω)} {m : Condition} {coverage : Coverage} :
    expansion rules m = .ok coverage ↔ m.Coherent ∧
      coverage = .ofBranches (representative rules m).branches (mentionedFamilies rules) := by
  rw [expansion, Condition.coverage_eq_ok_iff, (representative_alike rules m).coherent_iff]

end Rule

end TableMachine
