import TableMachine.Proofs.DirectMatching

/-!
# Conditions taken together

The branches of a conjunction are the unions of a branch of one side and a branch of the other
(`Condition.mem_branches_both`). So it holds exactly where both sides hold
(`Condition.both_holds_iff`). Whether it makes sense is another matter: a condition is refused as
soon as one of its branches asks for two values of one family, even if another branch does not. Two
conditions are *compatible* if no branch of one asks for another value of some family than a branch
of the other does. Just then their conjunction is coherent (`Condition.coherent_both_iff`), and
covers what both sides cover.
-/

namespace TableMachine

namespace Condition

variable {m n : Condition}

/-! ## Branches of a conjunction -/

/-- The alternatives, or the one that asks for nothing if there are none. -/
def offered (alternatives : List Combination) : List Combination :=
  if alternatives = [] then [∅] else alternatives

theorem mem_branches_iff {c : Combination} :
    c ∈ m.branches ↔ ∃ a ∈ offered m.alternatives, c = m.required ∪ a := by
  unfold branches offered
  cases m.alternatives with
  | nil => simp
  | cons a rest => simp [eq_comm]

/-- Every union of one from the left and one from the right, the left varying slowest. -/
def unions (left right : List Combination) : List Combination :=
  left.flatMap fun a => right.map (a ∪ ·)

/-- In terms of what is offered, there is no special case to take alternatives together. -/
theorem offered_crossed (left right : List Combination) :
    offered (crossed left right) = unions (offered left) (offered right) := by
  cases left with
  | nil =>
    have neutral : unions [∅] (offered right) = offered right := by simp [unions]
    exact neutral.symm
  | cons a left =>
    cases right with
    | nil => simp [offered, unions, crossed]
    | cons b right => simp [offered, unions, crossed]

/-- What a conjunction offers are the unions of what either side offers. -/
theorem mem_offered_crossed {left right : List Combination} {c : Combination} :
    c ∈ offered (crossed left right) ↔ ∃ a ∈ offered left, ∃ b ∈ offered right, c = a ∪ b := by
  simp only [offered_crossed, unions, List.mem_flatMap, List.mem_map, eq_comm]

/-- The branches of a conjunction are the unions of a branch of either side. -/
theorem mem_branches_both {c : Combination} :
    c ∈ (m.both n).branches ↔ ∃ a ∈ m.branches, ∃ b ∈ n.branches, c = a ∪ b := by
  have regroup : ∀ p q r s : Combination, p ∪ q ∪ (r ∪ s) = p ∪ r ∪ (q ∪ s) := by
    intro p q r s
    rw [SortedSet.union_assoc, ← SortedSet.union_assoc q, SortedSet.union_comm q r,
      SortedSet.union_assoc r, ← SortedSet.union_assoc]
  rw [mem_branches_iff]
  change (∃ x ∈ offered (crossed m.alternatives n.alternatives),
      c = m.required ∪ n.required ∪ x) ↔ _
  constructor
  · rintro ⟨x, hx, rfl⟩
    obtain ⟨a, ha, b, hb, rfl⟩ := mem_offered_crossed.1 hx
    exact ⟨_, mem_branches_iff.2 ⟨a, ha, rfl⟩, _, mem_branches_iff.2 ⟨b, hb, rfl⟩, regroup ..⟩
  · rintro ⟨_, hp, _, hq, rfl⟩
    obtain ⟨a, ha, rfl⟩ := mem_branches_iff.1 hp
    obtain ⟨b, hb, rfl⟩ := mem_branches_iff.1 hq
    exact ⟨a ∪ b, mem_offered_crossed.2 ⟨a, ha, b, hb, rfl⟩, (regroup ..).symm⟩

/-- A conjunction holds where both sides hold. -/
theorem both_holds_iff {c : Combination} : (m.both n).Holds c ↔ m.Holds c ∧ n.Holds c := by
  unfold Holds
  simp only [mem_branches_both]
  constructor
  · rintro ⟨_, ⟨a, ha, b, hb, rfl⟩, hc⟩
    obtain ⟨hac, hbc⟩ := SortedSet.union_subset.1 hc
    exact ⟨⟨a, ha, hac⟩, b, hb, hbc⟩
  · rintro ⟨⟨a, ha, hac⟩, b, hb, hbc⟩
    exact ⟨a ∪ b, ⟨a, ha, b, hb, rfl⟩, SortedSet.union_subset.2 ⟨hac, hbc⟩⟩

/-- A conjunction mentions nothing new. -/
theorem mem_values_of_both {v : Value} (hv : v ∈ (m.both n).values) :
    v ∈ m.values ∨ v ∈ n.values := by
  obtain ⟨_, hc, hv⟩ := mem_values_iff.1 hv
  obtain ⟨a, ha, b, hb, rfl⟩ := mem_branches_both.1 hc
  rcases SortedSet.mem_union.1 hv with hva | hvb
  · exact Or.inl (mem_values_iff.2 ⟨a, ha, hva⟩)
  · exact Or.inr (mem_values_iff.2 ⟨b, hb, hvb⟩)

/-! ## Compatible conditions -/

/-- No branch of one condition asks for another value of some family than a branch of the other
does. -/
def Compatible (m n : Condition) : Prop :=
  ∀ a ∈ m.branches, ∀ b ∈ n.branches, ∀ v ∈ a, ∀ w ∈ b, v.family = w.family → v = w

/-- Two consistent combinations that agree wherever they have a family in common are consistent
together. -/
theorem consistent_union_iff {a b : Combination} :
    Combination.Consistent (a ∪ b) ↔ a.Consistent ∧ b.Consistent ∧
      ∀ v ∈ a, ∀ w ∈ b, v.family = w.family → v = w := by
  simp only [Combination.consistent_iff, SortedSet.mem_union]
  constructor
  · intro h
    exact ⟨fun v hv w hw => h v (Or.inl hv) w (Or.inl hw),
      fun v hv w hw => h v (Or.inr hv) w (Or.inr hw),
      fun v hv w hw => h v (Or.inl hv) w (Or.inr hw)⟩
  · rintro ⟨ha, hb, hab⟩ v (hv | hv) w (hw | hw) hf
    · exact ha v hv w hw hf
    · exact hab v hv w hw hf
    · exact (hab w hw v hv hf.symm).symm
    · exact hb v hv w hw hf

/-- A conjunction is coherent exactly if both sides are and go together. -/
theorem coherent_both_iff : (m.both n).Coherent ↔ m.Coherent ∧ n.Coherent ∧ m.Compatible n := by
  unfold Coherent Compatible
  constructor
  · intro h
    obtain ⟨a₀, ha₀⟩ := List.exists_mem_of_ne_nil _ m.branches_ne_nil
    obtain ⟨b₀, hb₀⟩ := List.exists_mem_of_ne_nil _ n.branches_ne_nil
    have together : ∀ a ∈ m.branches, ∀ b ∈ n.branches, Combination.Consistent (a ∪ b) :=
      fun a ha b hb => h _ (mem_branches_both.2 ⟨a, ha, b, hb, rfl⟩)
    refine ⟨?_, ?_, ?_⟩
    · intro a ha
      exact (consistent_union_iff.1 (together a ha b₀ hb₀)).1
    · intro b hb
      exact (consistent_union_iff.1 (together a₀ ha₀ b hb)).2.1
    · intro a ha b hb
      exact (consistent_union_iff.1 (together a ha b hb)).2.2
  · rintro ⟨hm, hn, hmn⟩ c hc
    obtain ⟨a, ha, b, hb, rfl⟩ := mem_branches_both.1 hc
    exact consistent_union_iff.2 ⟨hm a ha, hn b hb, hmn a ha b hb⟩

/-! ## What a conjunction covers -/

/-- A conjunction holds where both conditions do. If both have a coverage over families that list
all values mentioned, then the conjunction has one exactly if they are compatible, and in that case
it covers what both of them cover. -/
theorem coverage_both (m n : Condition) (fs : List Family)
    (hm : ∀ v ∈ m.values, v.Listed ∧ v.family ∈ fs) (hn : ∀ v ∈ n.values, v.Listed ∧ v.family ∈ fs)
    {j k : Coverage} (hj : m.coverage fs = .ok j) (hk : n.coverage fs = .ok k) :
    (∀ c, (m.both n).Holds c ↔ m.Holds c ∧ n.Holds c) ∧
    ((∃ l, (m.both n).coverage fs = .ok l) ↔ m.Compatible n) ∧
    ∀ l, (m.both n).coverage fs = .ok l →
      ∀ c, c ∈ l.combinations ↔ c ∈ j.combinations ∧ c ∈ k.combinations := by
  refine ⟨fun c => both_holds_iff, ?_, ?_⟩
  · have coherent : m.Coherent ∧ n.Coherent :=
      ⟨(coverage_eq_ok_iff.1 hj).1, (coverage_eq_ok_iff.1 hk).1⟩
    simp only [coverage_eq_ok_iff, exists_and_left, exists_eq, and_true, coherent_both_iff,
      coherent, true_and]
  · intro l hl c
    have mentions : ∀ v ∈ (m.both n).values, v.Listed ∧ v.family ∈ fs := by
      intro v hv
      rcases mem_values_of_both hv with hvm | hvn
      · exact hm v hvm
      · exact hn v hvn
    rw [mem_combinations_iff mentions hl, mem_combinations_iff hm hj, mem_combinations_iff hn hk,
      both_holds_iff]
    exact and_and_left

end Condition

namespace Turnstile

/-- Any enforcement will do. -/
def watched : Condition :=
  .oneOf [Predicate.value Enforcement.weak, Predicate.value Enforcement.strong]

/-- Enforcement must be weak. -/
def lenient : Condition :=
  .allOf [Predicate.value Enforcement.weak]

/-- Weak enforcement at night goes together with weak enforcement, although both conditions name the
same family. What they cover together is the weak night. -/
theorem lenient_night_coverage :
    ∃ l, (lenient.both nightWatch).coverage [hours, Predicate.family Enforcement] = .ok l ∧
      .ofList [Predicate.value Enforcement.weak, hours.value "Night"] ∈ l.combinations ∧
      .ofList [Predicate.value Enforcement.strong, hours.value "Night"] ∉ l.combinations := by
  have listed : ∀ m ∈ [lenient, nightWatch], ∀ v ∈ SortedSet.toList m.values,
      v.Listed ∧ v.family ∈ [hours, Predicate.family Enforcement] := by
    decide +kernel
  have hj : lenient.coverage [hours, Predicate.family Enforcement] = .ok _ :=
    Condition.coverage_eq_ok_iff.2 ⟨by decide +kernel, rfl⟩
  have hk : nightWatch.coverage [hours, Predicate.family Enforcement] = .ok _ :=
    Condition.coverage_eq_ok_iff.2 ⟨by decide +kernel, rfl⟩
  obtain ⟨-, compatible, common⟩ := Condition.coverage_both lenient nightWatch _
    (listed _ (by simp)) (listed _ (by simp)) hj hk
  have together : lenient.Compatible nightWatch := by
    change ∀ a ∈ lenient.branches, ∀ b ∈ nightWatch.branches, ∀ v ∈ SortedSet.toList a,
      ∀ w ∈ SortedSet.toList b, v.family = w.family → v = w
    decide +kernel
  obtain ⟨l, hl⟩ := compatible.2 together
  refine ⟨l, hl, ?_, ?_⟩
  · rw [common l hl]
    decide +kernel
  · rw [common l hl]
    decide +kernel

/-- To watch the turnstile and to be lenient is possible, but the conjunction has no coverage: one
of its branches asks for weak and strong enforcement. So conditions that some combination satisfies
together may have a conjunction that is refused. -/
theorem watched_lenient_refused :
    ¬∀ (m n : Condition) (fs : List Family) (j k : Coverage),
      (∀ v ∈ m.values, v.Listed ∧ v.family ∈ fs) → (∀ v ∈ n.values, v.Listed ∧ v.family ∈ fs) →
        m.coverage fs = .ok j → n.coverage fs = .ok k →
          (∃ c ∈ Combination.all fs, m.Holds c ∧ n.Holds c) →
            ∃ l, (m.both n).coverage fs = .ok l ∧
              ∀ c, c ∈ l.combinations ↔ c ∈ j.combinations ∧ c ∈ k.combinations := by
  intro h
  have listed : ∀ m ∈ [watched, lenient], ∀ v ∈ SortedSet.toList m.values,
      v.Listed ∧ v.family ∈ [Predicate.family Enforcement] := by
    decide +kernel
  obtain ⟨l, hl, -⟩ := h watched lenient [Predicate.family Enforcement] _ _
    (listed _ (by simp)) (listed _ (by simp))
    (Condition.coverage_eq_ok_iff.2 ⟨by decide +kernel, rfl⟩)
    (Condition.coverage_eq_ok_iff.2 ⟨by decide +kernel, rfl⟩)
    ⟨.ofList [Predicate.value Enforcement.weak], by decide +kernel, by decide +kernel,
      by decide +kernel⟩
  have coherent := (Condition.coverage_eq_ok_iff.1 hl).1
  revert coherent
  decide +kernel

end Turnstile

end TableMachine
