import TableMachine.Proofs.FullCombination
import TableMachine.Samples.Turnstile

/-!
# Expansion and direct matching

The coverage of a condition is found by completing its branches, each by itself, while whether the
condition holds of a combination is a test of the combination at hand. Over families to which all
values mentioned belong, and which list them, the two agree: what is covered are the full
combinations of which the condition holds (`Condition.mem_combinations_iff`), and the rank is the
size of the largest branch that is held (`Condition.rankOf?_iff`). It makes no difference whether
branches overlap, contain each other or are repeated, nor in which order and how often the families
are listed.
-/

namespace TableMachine

/-- The combinations produced for some families are the full ones. -/
theorem Combination.mem_all_iff {fs : List Family} {c : Combination} :
    c ∈ Combination.all fs ↔ c.Full fs := by
  rw [all, mem_extensions, extends_iff_full fun v hv => absurd hv (SortedSet.not_mem_empty v)]
  apply and_iff_left
  intro v hv
  exact absurd hv List.not_mem_nil

namespace Condition

variable {m : Condition} {fs : List Family} {k : Coverage} {c : Combination}

/-- Where the values mentioned are listed values of the families, the extensions of a branch are the
full combinations that hold it. -/
theorem extends_branch_iff (hm : ∀ v ∈ m.values, v.Listed ∧ v.family ∈ fs) {b : Combination}
    (hb : b ∈ m.branches) : Combination.Extends fs b c ↔ c ∈ Combination.all fs ∧ b ⊆ c := by
  rw [Combination.extends_iff_full fun v hv => hm v (mem_values_iff.2 ⟨b, hb, hv⟩),
    Combination.mem_all_iff]

/-- A condition covers the full combinations of which it holds. -/
theorem mem_combinations_iff (hm : ∀ v ∈ m.values, v.Listed ∧ v.family ∈ fs)
    (hk : m.coverage fs = .ok k) : c ∈ k.combinations ↔ c ∈ Combination.all fs ∧ m.Holds c := by
  obtain ⟨-, rfl⟩ := coverage_eq_ok_iff.1 hk
  rw [Coverage.mem_combinations, Coverage.covers_ofBranches]
  constructor
  · rintro ⟨b, hb, hc⟩
    obtain ⟨hall, hbc⟩ := (extends_branch_iff hm hb).1 hc
    exact ⟨hall, b, hb, hbc⟩
  · rintro ⟨hall, b, hb, hbc⟩
    exact ⟨b, hb, (extends_branch_iff hm hb).2 ⟨hall, hbc⟩⟩

/-- The rank is the size of the largest branch that is held. -/
theorem rankOf?_iff (hm : ∀ v ∈ m.values, v.Listed ∧ v.family ∈ fs) (hk : m.coverage fs = .ok k)
    {n : Nat} :
    k.rankOf? c = some n ↔ c ∈ Combination.all fs ∧ (∃ b ∈ m.branches, b ⊆ c ∧ b.size = n) ∧
      ∀ b ∈ m.branches, b ⊆ c → b.size ≤ n := by
  obtain ⟨-, rfl⟩ := coverage_eq_ok_iff.1 hk
  rw [Coverage.rankOf?_eq_some_iff]
  constructor
  · rintro ⟨⟨b, hb, hc, hsize⟩, hmax⟩
    obtain ⟨hall, hbc⟩ := (extends_branch_iff hm hb).1 hc
    refine ⟨hall, ⟨b, hb, hbc, hsize⟩, ?_⟩
    intro b' hb' hbc'
    exact hmax b' hb' ((extends_branch_iff hm hb').2 ⟨hall, hbc'⟩)
  · rintro ⟨hall, ⟨b, hb, hbc, hsize⟩, hmax⟩
    refine ⟨⟨b, hb, (extends_branch_iff hm hb).2 ⟨hall, hbc⟩, hsize⟩, ?_⟩
    intro b' hb' hc'
    exact hmax b' hb' ((extends_branch_iff hm hb').1 hc').2

/-- There is no coverage exactly if some branch asks for two values of one family. -/
theorem exists_coverage_eq_error_iff :
    (∃ e, m.coverage fs = .error e) ↔
      ∃ b ∈ m.branches, ∃ v ∈ b, ∃ w ∈ b, v.family = w.family ∧ v ≠ w := by
  have refused : (∃ e, m.coverage fs = .error e) ↔ ¬m.Coherent := by
    constructor
    · rintro ⟨e, he⟩ hco
      rw [coverage_eq_ok_iff.2 ⟨hco, rfl⟩] at he
      cases he
    · intro hco
      cases hk : m.coverage fs with
      | error e => exact ⟨e, rfl⟩
      | ok k => exact absurd (coverage_eq_ok_iff.1 hk).1 hco
  rw [refused, coherent_iff]
  push Not
  rfl

/-- Over families that list all values mentioned, a condition has no coverage exactly if some branch
asks for two values of one family. Otherwise it covers those of all combinations of which it holds,
each once, with the size of the largest branch held as rank, and it gives no rank to any other. -/
theorem coverage_exact (m : Condition) (fs : List Family)
    (hm : ∀ v ∈ m.values, v.Listed ∧ v.family ∈ fs) :
    ((∃ e, m.coverage fs = .error e) ↔
      ∃ b ∈ m.branches, ∃ v ∈ b, ∃ w ∈ b, v.family = w.family ∧ v ≠ w) ∧
    ∀ k, m.coverage fs = .ok k →
      (∀ c, c ∈ k.combinations ↔ c ∈ Combination.all fs ∧ m.Holds c) ∧
      k.combinations.toList.Nodup ∧
      (∀ c ∈ k.combinations, ∃ n, k.rankOf? c = some n ∧ (∃ b ∈ m.branches, b ⊆ c ∧ b.size = n) ∧
        ∀ b ∈ m.branches, b ⊆ c → b.size ≤ n) ∧
      ∀ c, c ∉ k.combinations → k.rankOf? c = none := by
  refine ⟨exists_coverage_eq_error_iff, ?_⟩
  intro k hk
  have ranked : ∀ c, (k.rankOf? c).isSome ↔ c ∈ k.combinations := by
    intro c
    obtain ⟨-, rfl⟩ := coverage_eq_ok_iff.1 hk
    rw [Coverage.isSome_rankOf?, Coverage.mem_combinations]
  refine ⟨fun c => mem_combinations_iff hm hk, SortedSet.nodup_toList _, ?_, ?_⟩
  · intro c hc
    obtain ⟨n, hn⟩ := Option.isSome_iff_exists.1 ((ranked c).2 hc)
    obtain ⟨-, hlargest⟩ := (rankOf?_iff hm hk).1 hn
    exact ⟨n, hn, hlargest⟩
  · intro c hc
    rw [← Option.not_isSome_iff_eq_none, ranked c]
    exact hc

end Condition

namespace Turnstile

/-- The hours at which the turnstile is watched. -/
def hours : Family :=
  .ofLabels "Hours" ["Day", "Night"]

/-- A condition with a branch inside another one, and with one branch twice. -/
def nightWatch : Condition :=
  .anyOf [[Predicate.value Enforcement.weak],
    [Predicate.value Enforcement.weak, hours.value "Night"], [Predicate.value Enforcement.weak]]

/-- It covers a weak night by its larger branch, although the other two reach it as well, and no
strong night at all. One of the families is listed twice. -/
theorem nightWatch_coverage :
    ∃ k, nightWatch.coverage [hours, Predicate.family Enforcement, hours] = .ok k ∧
      k.rankOf? (.ofList [Predicate.value Enforcement.weak, hours.value "Night"]) = some 2 ∧
      .ofList [Predicate.value Enforcement.strong, hours.value "Night"] ∉ k.combinations := by
  have listed : ∀ v ∈ nightWatch.values,
      v.Listed ∧ v.family ∈ [hours, Predicate.family Enforcement, hours] := by
    change ∀ v ∈ nightWatch.values.toList, _
    decide +kernel
  obtain ⟨refused, covered⟩ := Condition.coverage_exact nightWatch _ listed
  cases hk : nightWatch.coverage [hours, Predicate.family Enforcement, hours] with
  | error e =>
    obtain ⟨b, hb, v, hv, w, hw, hfamily, hne⟩ := refused.1 ⟨e, hk⟩
    have coherent : nightWatch.Coherent := by decide +kernel
    exact absurd (Condition.coherent_iff.1 coherent b hb v hv w hw hfamily) hne
  | ok k =>
    obtain ⟨members, -, ranks, -⟩ := covered k hk
    refine ⟨k, rfl, ?_, ?_⟩
    · have weak : .ofList [Predicate.value Enforcement.weak, hours.value "Night"] ∈
        k.combinations := by
        rw [members]
        decide +kernel
      obtain ⟨n, hn, ⟨b, hb, -, rfl⟩, hmax⟩ := ranks _ weak
      rw [hn, Option.some.injEq]
      have small : ∀ b ∈ nightWatch.branches, SortedSet.size b ≤ 2 := by decide +kernel
      apply Nat.le_antisymm
      · exact small b hb
      · exact hmax (.ofList [Predicate.value Enforcement.weak, hours.value "Night"])
          (by decide +kernel) (by decide +kernel)
    · rw [members]
      decide +kernel

end Turnstile

end TableMachine
