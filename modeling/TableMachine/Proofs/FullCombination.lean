import Mathlib.Data.List.Nodup
import TableMachine.Condition.Lemmas

/-!
# Conditions on full combinations

A combination is *full* over some families if it holds one listed value of each of them and nothing
else. If a condition mentions listed values of these families only, then to be covered comes down to
be held: the full combinations that a condition covers are those that it holds of, and the rank is
the size of its largest branch there (`Condition.rankOf?_branches`). Nothing of this depends on how
a condition is written down: conditions of one form have the same branches
(`Condition.Alike.branches`).
-/

namespace TableMachine

/-! ## Full combinations -/

namespace Combination

theorem consistent_iff {c : Combination} :
    c.Consistent ↔ ∀ v ∈ c, ∀ w ∈ c, v.family = w.family → v = w := by
  constructor
  · intro h v hv w hw
    exact h.eq hv hw
  · intro h
    exact List.Nodup.map_on h c.nodup_toList

/-- One listed value of each of the families, and nothing else. -/
structure Full (fs : List Family) (c : Combination) : Prop where
  /-- One value of each of the families, and nothing else. -/
  spans : c.Spans (SortedSet.ofList fs)
  /-- All of them are listed. -/
  listed : ∀ v ∈ c, v.Listed

instance (fs : List Family) (c : Combination) : Decidable (c.Full fs) :=
  decidable_of_iff (c.Spans (SortedSet.ofList fs) ∧ ∀ v ∈ c.toList, v.Listed)
    ⟨fun h => ⟨h.1, h.2⟩, fun h => ⟨h.spans, h.listed⟩⟩

/-- A consistent combination spans its own families: its values are in the order of these. -/
theorem Consistent.spans_families {c : Combination} (h : c.Consistent) : c.Spans c.families := by
  have ascending : (c.toList.map Value.family).Pairwise fun a b => compare a b = .lt := by
    rw [List.pairwise_map]
    refine (c.ascending.and (List.pairwise_map.1 h)).imp ?_
    rintro v w ⟨hlt, hne⟩
    have hle := Value.isLE_family_of_lt hlt
    cases hf : compare v.family w.family with
    | lt => rfl
    | eq => exact absurd (Std.LawfulEqOrd.eq_of_compare hf) hne
    | gt => simp [hf] at hle
  refine SortedSet.eq_of_mem_iff ascending c.families.ascending ?_
  intro f
  exact SortedSet.mem_ofList.symm

/-- To span families is to be consistent and to have a value of just these. -/
theorem spans_ofList_iff {fs : List Family} {c : Combination} :
    c.Spans (SortedSet.ofList fs) ↔ c.Consistent ∧ ∀ f, f ∈ c.families ↔ f ∈ fs := by
  constructor
  · intro h
    refine ⟨h.consistent, ?_⟩
    intro f
    rw [families, h, SortedSet.ofList_toList, SortedSet.mem_ofList]
  · rintro ⟨hc, hf⟩
    have same : c.families = SortedSet.ofList fs := by
      ext f
      rw [hf f, SortedSet.mem_ofList]
    rw [← same]
    exact hc.spans_families

/-- Which combinations are full depends on the set of families only. -/
theorem full_congr {fs gs : List Family} (h : ∀ f, f ∈ fs ↔ f ∈ gs) {c : Combination} :
    c.Full fs ↔ c.Full gs := by
  have same : SortedSet.ofList fs = SortedSet.ofList gs := by
    ext f
    rw [SortedSet.mem_ofList, SortedSet.mem_ofList, h f]
  constructor
  · intro hc
    exact ⟨same ▸ hc.spans, hc.listed⟩
  · intro hc
    exact ⟨same ▸ hc.spans, hc.listed⟩

/-- Which combinations extend a base depends on the set of families only. -/
theorem extends_congr {fs gs : List Family} (h : ∀ f, f ∈ fs ↔ f ∈ gs) {base c : Combination} :
    Extends fs base c ↔ Extends gs base c := by
  have same : SortedSet.ofList fs = SortedSet.ofList gs := by
    ext f
    rw [SortedSet.mem_ofList, SortedSet.mem_ofList, h f]
  constructor
  · intro hc
    exact ⟨same ▸ hc.spans, hc.holds, hc.listed⟩
  · intro hc
    exact ⟨same ▸ hc.spans, hc.holds, hc.listed⟩

/-- Where the base takes listed values of the families, its extensions are the full combinations
that hold it. -/
theorem extends_iff_full {fs : List Family} {base c : Combination}
    (hb : ∀ v ∈ base, v.Listed ∧ v.family ∈ fs) : Extends fs base c ↔ c.Full fs ∧ base ⊆ c := by
  have span : SortedSet.ofList fs ∪ Combination.families base = SortedSet.ofList fs := by
    ext f
    rw [SortedSet.mem_union, SortedSet.mem_ofList, mem_families]
    constructor
    · rintro (hf | ⟨v, hv, rfl⟩)
      · exact hf
      · exact (hb v hv).2
    · exact Or.inl
  constructor
  · intro h
    refine ⟨⟨span ▸ h.spans, fun v hv => ?_⟩, h.holds⟩
    rcases h.listed v hv with hvb | hvl
    · exact (hb v hvb).1
    · exact hvl
  · rintro ⟨hc, h⟩
    exact ⟨span.symm ▸ hc.spans, h, fun v hv => Or.inr (hc.listed v hv)⟩

/-- A combination that spans families has exactly one value of each. -/
theorem Spans.existsUnique {fs : SortedSet Family} {c : Combination} (h : c.Spans fs) {f : Family}
    (hf : f ∈ fs) : ∃! v, v ∈ c ∧ v.family = f := by
  have hfc : f ∈ c.families := by
    rwa [families, h, SortedSet.ofList_toList]
  obtain ⟨v, hv, rfl⟩ := mem_families.1 hfc
  exact ⟨v, ⟨hv, rfl⟩, fun w hw => h.consistent.eq hw.1 hv hw.2⟩

/-- An extension holds one value of each family. -/
theorem Extends.existsUnique {fs : List Family} {base c : Combination}
    (h : Extends fs base c) {f : Family} (hf : f ∈ fs) : ∃! v, v ∈ c ∧ v.family = f :=
  h.spans.existsUnique (SortedSet.mem_union.2 (Or.inl (SortedSet.mem_ofList.2 hf)))

/-- A full combination has exactly one value of each family. -/
theorem Full.existsUnique {fs : List Family} {c : Combination} (h : c.Full fs) {f : Family}
    (hf : f ∈ fs) : ∃! v, v ∈ c ∧ v.family = f :=
  h.spans.existsUnique (SortedSet.mem_ofList.2 hf)

/-- The values of a full combination are of the families. -/
theorem Full.family_mem {fs : List Family} {c : Combination} (h : c.Full fs) {v : Value}
    (hv : v ∈ c) : v.family ∈ fs :=
  ((spans_ofList_iff.1 h.spans).2 v.family).1 (mem_families.2 ⟨v, hv, rfl⟩)

theorem choices_ne_nil {α : Type} {axes : List (List α)} (h : ∀ axis ∈ axes, axis ≠ []) :
    choices axes ≠ [] := by
  induction axes with
  | nil => simp [choices]
  | cons axis rest ih =>
    obtain ⟨a, ha⟩ := List.exists_mem_of_ne_nil axis (h axis (by simp))
    obtain ⟨pick, hpick⟩ := List.exists_mem_of_ne_nil _ (ih fun b hb => h b (by simp [hb]))
    apply List.ne_nil_of_mem (a := a :: pick)
    rw [choices, List.mem_flatMap]
    exact ⟨a, ha, List.mem_map_of_mem hpick⟩

/-- A consistent combination of listed values can be completed, if every family has a case. -/
theorem exists_full {fs : List Family} {base : Combination} (hb : base.Consistent)
    (hl : ∀ v ∈ base, v.Listed ∧ v.family ∈ fs) (hf : ∀ f ∈ fs, f.cases ≠ []) :
    ∃ c : Combination, c.Full fs ∧ base ⊆ c := by
  have options_ne_nil : ∀ axis ∈ ((SortedSet.ofList fs ∪ Combination.families base).toList.map
      (options base)), axis ≠ [] := by
    intro axis haxis
    obtain ⟨f, hfs, rfl⟩ := List.mem_map.1 haxis
    have hf' : f ∈ fs := by
      rcases SortedSet.mem_union.1 hfs with h | h
      · exact SortedSet.mem_ofList.1 h
      · obtain ⟨v, hv, rfl⟩ := mem_families.1 h
        exact (hl v hv).2
    unfold options
    cases valueOf? base f with
    | some v => simp
    | none => exact hf f hf'
  obtain ⟨xs, hxs⟩ := List.exists_mem_of_ne_nil _ (choices_ne_nil options_ne_nil)
  have hmem : SortedSet.ofList xs ∈ extensions base fs := by
    rw [extensions, if_pos hb, SortedSet.mem_ofList]
    exact List.mem_map_of_mem hxs
  exact ⟨_, (extends_iff_full hl).1 (mem_extensions.1 hmem)⟩

end Combination

/-! ## Branches and ranks -/

namespace Coverage

/-- The rank is the size of the largest branch that the combination extends. -/
theorem rankOf?_eq_some_iff {branches : List Combination} {fs : List Family} {c : Combination}
    {n : Nat} : (ofBranches branches fs).rankOf? c = some n ↔
      (∃ b ∈ branches, Combination.Extends fs b c ∧ b.size = n) ∧
        ∀ b ∈ branches, Combination.Extends fs b c → b.size ≤ n := by
  have sizes : ∀ k, k ∈ ((ofBranches branches fs).spreads.filter fun s => s.Covers c).map
      (fun s => s.base.size) ↔ ∃ b ∈ branches, Combination.Extends fs b c ∧ b.size = k := by
    intro k
    rw [List.mem_map]
    constructor
    · rintro ⟨s, hs, rfl⟩
      obtain ⟨hs, hc⟩ := List.mem_filter.1 hs
      obtain ⟨b, hb, rfl⟩ := List.mem_map.1 hs
      exact ⟨b, hb, Combination.spread_covers.1 (of_decide_eq_true hc), rfl⟩
    · rintro ⟨b, hb, hc, rfl⟩
      refine ⟨b.spread fs, List.mem_filter.2 ⟨List.mem_map_of_mem hb, ?_⟩, rfl⟩
      exact decide_eq_true (Combination.spread_covers.2 hc)
  rw [rankOf?, List.max?_eq_some_iff, sizes n]
  simp only [sizes]
  apply and_congr_right
  intro _
  constructor
  · intro h b hb hc
    exact h b.size ⟨b, hb, hc, rfl⟩
  · rintro h _ ⟨b, hb, hc, rfl⟩
    exact h b hb hc

/-- Ranks depend on the sets of branches and of families only. -/
theorem rankOf?_congr {branches branches' : List Combination} {fs gs : List Family}
    (hb : ∀ b, b ∈ branches ↔ b ∈ branches') (hf : ∀ f, f ∈ fs ↔ f ∈ gs) (c : Combination) :
    (ofBranches branches fs).rankOf? c = (ofBranches branches' gs).rankOf? c := by
  apply Option.ext
  intro n
  rw [rankOf?_eq_some_iff, rankOf?_eq_some_iff]
  simp only [hb, Combination.extends_congr hf]

end Coverage

namespace Condition

/-- No branch asks for two values of one family. -/
def Coherent (m : Condition) : Prop :=
  ∀ branch ∈ m.branches, Combination.Consistent branch

instance (m : Condition) : Decidable m.Coherent :=
  inferInstanceAs (Decidable (∀ branch ∈ m.branches, Combination.Consistent branch))

theorem coherent_iff {m : Condition} :
    m.Coherent ↔ ∀ branch ∈ m.branches, ∀ v ∈ branch, ∀ w ∈ branch,
      v.family = w.family → v = w := by
  unfold Coherent
  simp only [Combination.consistent_iff]

/-- Coherent conditions cover the extensions of their branches, and the others cover nothing. -/
theorem coverage_eq_ok_iff {m : Condition} {fs : List Family} {k : Coverage} :
    m.coverage fs = .ok k ↔ m.Coherent ∧ k = .ofBranches m.branches fs := by
  have coherent : m.contradiction? = none ↔ m.Coherent := contradiction?_eq_none_iff
  unfold coverage
  cases h : m.contradiction? with
  | none => simp [← coherent, h, eq_comm]
  | some e => simp [← coherent, h]

/-- The size of the largest branch that the combination holds. -/
def rankAt (m : Condition) (c : Combination) : Nat :=
  ((m.branches.filter (· ⊆ c)).map SortedSet.size).max?.getD 0

/-- There is always a branch. -/
theorem branches_ne_nil (m : Condition) : m.branches ≠ [] := by
  unfold branches
  cases m.alternatives with
  | nil => simp
  | cons a rest => simp

/-- What a condition mentions is what its branches ask for. -/
theorem mem_values_iff {m : Condition} {v : Value} : v ∈ m.values ↔ ∃ b ∈ m.branches, v ∈ b := by
  rw [mem_values]
  unfold branches
  cases h : m.alternatives with
  | nil => simp
  | cons a rest =>
    simp only [List.mem_map]
    constructor
    · rintro (hv | ⟨b, hb, hv⟩)
      · exact ⟨_, ⟨a, List.mem_cons_self, rfl⟩, SortedSet.mem_union.2 (Or.inl hv)⟩
      · exact ⟨_, ⟨b, hb, rfl⟩, SortedSet.mem_union.2 (Or.inr hv)⟩
    · rintro ⟨_, ⟨b, hb, rfl⟩, hv⟩
      rcases SortedSet.mem_union.1 hv with hv | hv
      · exact Or.inl hv
      · exact Or.inr ⟨b, hb, hv⟩

/-! ### Conditions of one form -/

namespace Alike

variable {m n : Condition}

/-- Conditions of one form have the same branches. -/
theorem branches (h : m.Alike n) (b : Combination) : b ∈ m.branches ↔ b ∈ n.branches := by
  have hreq : m.required = n.required := congrArg Form.required h
  have halt : ∀ a, a ∈ m.alternatives ↔ a ∈ n.alternatives := by
    intro a
    have := congrArg Form.alternatives h
    change SortedSet.ofList m.alternatives = SortedSet.ofList n.alternatives at this
    rw [← SortedSet.mem_ofList, this, SortedSet.mem_ofList]
  unfold Condition.branches
  cases hm : m.alternatives with
  | nil =>
    have hn : n.alternatives = [] := by
      rw [List.eq_nil_iff_forall_not_mem]
      intro a ha
      have := (halt a).2 ha
      rw [hm] at this
      exact List.not_mem_nil this
    rw [hn, hreq]
  | cons a rest =>
    cases hn : n.alternatives with
    | nil =>
      have := (halt a).1 (by simp [hm])
      simp [hn] at this
    | cons a' rest' =>
      simp only [hm, hn] at halt
      simp only [List.mem_map, halt, hreq]

theorem coherent_iff (h : m.Alike n) : m.Coherent ↔ n.Coherent := by
  unfold Coherent
  simp only [h.branches]

theorem holds_iff (h : m.Alike n) (c : Combination) : m.Holds c ↔ n.Holds c := by
  unfold Holds
  simp only [h.branches]

end Alike

/-! ### Ranks at full combinations -/

variable {m : Condition} {fs : List Family} {c : Combination}

/-- At a full combination a condition that mentions listed values of the families is covered where
it holds, and ranks there as its largest branch does. -/
theorem rankOf?_branches (hm : ∀ v ∈ m.values, v.Listed ∧ v.family ∈ fs) (hc : c.Full fs) :
    (Coverage.ofBranches m.branches fs).rankOf? c =
      if m.Holds c then some (m.rankAt c) else none := by
  have reaches : ∀ b ∈ m.branches, Combination.Extends fs b c ↔ b ⊆ c := by
    intro b hb
    rw [Combination.extends_iff_full fun v hv => hm v (mem_values_iff.2 ⟨b, hb, hv⟩)]
    exact and_iff_right hc
  split
  · next h =>
    obtain ⟨b, hb, hbc⟩ := h
    have some_max : (((m.branches.filter (· ⊆ c)).map SortedSet.size).max?).isSome := by
      rw [List.isSome_max?_iff, ne_eq, List.map_eq_nil_iff]
      exact List.ne_nil_of_mem (List.mem_filter.2 ⟨hb, by simpa using hbc⟩)
    obtain ⟨n, hn⟩ := Option.isSome_iff_exists.1 some_max
    have rank : m.rankAt c = n := by rw [rankAt, hn, Option.getD_some]
    rw [rank, Coverage.rankOf?_eq_some_iff]
    rw [List.max?_eq_some_iff] at hn
    obtain ⟨hmem, hmax⟩ := hn
    obtain ⟨d, hd, hdn⟩ := List.mem_map.1 hmem
    obtain ⟨hd, hdc⟩ := List.mem_filter.1 hd
    refine ⟨⟨d, hd, (reaches d hd).2 (by simpa using hdc), hdn⟩, fun e he hec => hmax _ ?_⟩
    apply List.mem_map_of_mem
    exact List.mem_filter.2 ⟨he, by simpa using (reaches e he).1 hec⟩
  · next h =>
    rw [Option.eq_none_iff_forall_ne_some]
    intro n hn
    obtain ⟨⟨b, hb, hbc, -⟩, -⟩ := Coverage.rankOf?_eq_some_iff.1 hn
    exact h ⟨b, hb, (reaches b hb).1 hbc⟩

/-- What extends a branch of such a condition is full. -/
theorem full_of_extends (hm : ∀ v ∈ m.values, v.Listed ∧ v.family ∈ fs) {b : Combination}
    (hb : b ∈ m.branches) (h : Combination.Extends fs b c) : c.Full fs :=
  ((Combination.extends_iff_full fun v hv => hm v (mem_values_iff.2 ⟨b, hb, hv⟩)).1 h).1

/-- A coherent condition on listed values holds of some full combination. -/
theorem exists_full_holds (hm : ∀ v ∈ m.values, v.Listed ∧ v.family ∈ fs) (hco : m.Coherent)
    (hf : ∀ f ∈ fs, f.cases ≠ []) : ∃ c : Combination, c.Full fs ∧ m.Holds c := by
  obtain ⟨b, hb⟩ := List.exists_mem_of_ne_nil _ m.branches_ne_nil
  obtain ⟨c, hc, hbc⟩ := Combination.exists_full (hco b hb)
    (fun v hv => hm v (mem_values_iff.2 ⟨b, hb, hv⟩)) hf
  exact ⟨c, hc, b, hb, hbc⟩

end Condition

end TableMachine
