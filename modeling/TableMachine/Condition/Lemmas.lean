import TableMachine.Condition.Coverage

/-!
# What conditions hold of, and what they cover

**Main statements.** A condition holds of a combination exactly if the required values and one
alternative, if there is any, are held (`Condition.holds_iff`). It has conflicts exactly if one of
its branches is inconsistent (`Condition.conflicts_eq_nil_iff`). A combination is covered exactly if
it extends a branch, and then it is among the combinations of the coverage and has a rank there
(`Coverage.covers_ofBranches`, `Coverage.mem_combinations`, `Coverage.isSome_rankOf?`).
-/

namespace TableMachine

/-! ## Truth and mention -/

namespace Condition

theorem holds_iff (m : Condition) (c : Combination) :
    m.Holds c ↔ m.required ⊆ c ∧ (m.alternatives = [] ∨ ∃ a ∈ m.alternatives, a ⊆ c) := by
  unfold Holds branches
  cases h : m.alternatives with
  | nil => simp
  | cons a rest =>
    constructor
    · rintro ⟨branch, hbranch, hc⟩
      obtain ⟨b, hb, rfl⟩ := List.mem_map.1 hbranch
      exact ⟨(SortedSet.union_subset.1 hc).1, .inr ⟨b, hb, (SortedSet.union_subset.1 hc).2⟩⟩
    · rintro ⟨hr, h | ⟨b, hb, hc⟩⟩
      · cases h
      · exact ⟨m.required ∪ b, List.mem_map.2 ⟨b, hb, rfl⟩, SortedSet.union_subset.2 ⟨hr, hc⟩⟩

theorem mem_foldl_union {v : Value} {cs : List Combination} {c : Combination} :
    v ∈ cs.foldl (· ∪ ·) c ↔ v ∈ c ∨ ∃ a ∈ cs, v ∈ a := by
  induction cs generalizing c with
  | nil => simp
  | cons b rest ih => simp [ih, or_assoc]

theorem mem_values {v : Value} {m : Condition} :
    v ∈ m.values ↔ v ∈ m.required ∨ ∃ a ∈ m.alternatives, v ∈ a :=
  mem_foldl_union

/-! ## Conflicts -/

/-- In an ascending list of values, neighbours of different families are enough for all families to
be different, since values of one family stand together. -/
theorem nodup_families_iff {xs : List Value}
    (h : xs.Pairwise fun a b => compare a b = .lt) :
    (xs.map Value.family).Nodup ↔ ∀ p ∈ xs.zip xs.tail, p.1.family ≠ p.2.family := by
  induction xs with
  | nil => simp
  | cons x xs ih =>
    obtain ⟨below, tail⟩ := List.pairwise_cons.1 h
    cases xs with
    | nil => simp
    | cons y ys =>
      change (x.family :: (y :: ys).map Value.family).Nodup ↔
        ∀ p ∈ (x, y) :: (y :: ys).zip ys, p.1.family ≠ p.2.family
      rw [List.nodup_cons, ih tail, List.forall_mem_cons]
      refine and_congr_left fun _ => ⟨fun hx e => hx ?_, fun hne hx => hne ?_⟩
      · exact List.mem_map.2 ⟨y, by simp, e.symm⟩
      · obtain ⟨w, hw, hwf⟩ := List.mem_map.1 hx
        rcases List.mem_cons.1 hw with rfl | hw
        · exact hwf.symm
        have hxy := Value.isLE_family_of_lt (below y (by simp))
        have hyw := Value.isLE_family_of_lt ((List.pairwise_cons.1 tail).1 w hw)
        rw [hwf] at hyw
        exact Std.LawfulEqOrd.eq_of_compare (Std.OrientedCmp.isLE_antisymm hxy hyw)

theorem rivals_eq_nil_iff {c : Combination} : rivals c = [] ↔ c.Consistent := by
  unfold rivals Combination.Consistent
  rw [nodup_families_iff c.ascending, List.filter_eq_nil_iff]
  simp

/-- A condition has conflicts exactly if one of its branches is inconsistent. -/
theorem conflicts_eq_nil_iff {m : Condition} :
    m.conflicts = [] ↔ ∀ branch ∈ m.branches, Combination.Consistent branch := by
  unfold conflicts
  rw [List.eq_nil_iff_forall_not_mem]
  simp only [List.mem_eraseDups, List.mem_flatMap, not_exists, not_and]
  constructor
  · exact fun h branch hb => rivals_eq_nil_iff.1 <|
      List.eq_nil_iff_forall_not_mem.2 fun p => h p branch hb
  · exact fun h p branch hb =>
      List.eq_nil_iff_forall_not_mem.1 (rivals_eq_nil_iff.2 (h branch hb)) p

theorem contradiction?_eq_none_iff {m : Condition} :
    m.contradiction? = none ↔ ∀ branch ∈ m.branches, Combination.Consistent branch := by
  rw [← conflicts_eq_nil_iff, ← List.isEmpty_iff]
  simp [contradiction?]

end Condition

/-! ## Coverage -/

namespace Coverage

theorem covers_ofBranches {branches : List Combination} {fs : List Family} {c : Combination} :
    (ofBranches branches fs).Covers c ↔ ∃ branch ∈ branches, Combination.Extends fs branch c := by
  unfold Covers ofBranches
  constructor
  · rintro ⟨s, hs, hc⟩
    obtain ⟨branch, hb, rfl⟩ := List.mem_map.1 hs
    exact ⟨branch, hb, Combination.spread_covers.1 hc⟩
  · rintro ⟨branch, hb, hc⟩
    exact ⟨_, List.mem_map.2 ⟨branch, hb, rfl⟩, Combination.spread_covers.2 hc⟩

/-- To extend over the span of a spread is to extend over the universe that it was made for. -/
theorem extends_span {fs : List Family} {branch c : Combination} :
    Combination.Extends (branch.spread fs).span.toList branch c ↔
      Combination.Extends fs branch c := by
  have span : SortedSet.ofList (branch.spread fs).span.toList ∪ Combination.families branch
      = SortedSet.ofList fs ∪ Combination.families branch := by
    rw [SortedSet.ofList_toList]
    change SortedSet.ofList fs ∪ _ ∪ _ = _
    rw [SortedSet.union_assoc, SortedSet.union_self]
  exact ⟨fun ⟨s, h, l⟩ => ⟨span ▸ s, h, l⟩, fun ⟨s, h, l⟩ => ⟨span ▸ s, h, l⟩⟩

/-- The combinations of a coverage are those that it covers. -/
theorem mem_combinations {branches : List Combination} {fs : List Family} {c : Combination} :
    c ∈ (ofBranches branches fs).combinations ↔ (ofBranches branches fs).Covers c := by
  rw [covers_ofBranches]
  unfold combinations ofBranches
  induction branches with
  | nil => simp
  | cons branch rest ih =>
    rw [List.map_cons, List.foldr_cons, SortedSet.mem_union, ih]
    change c ∈ branch.extensions (branch.spread fs).span.toList ∨ _ ↔ _
    rw [Combination.mem_extensions, extends_span]
    simp

/-- What is covered has a rank, and nothing else has. -/
theorem isSome_rankOf? {k : Coverage} {c : Combination} :
    (k.rankOf? c).isSome ↔ k.Covers c := by
  unfold rankOf? Covers
  rw [List.isSome_max?_iff]
  simp

end Coverage

end TableMachine
