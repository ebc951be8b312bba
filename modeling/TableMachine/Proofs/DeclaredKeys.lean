import TableMachine.Proofs.FirstOfKey
import TableMachine.Table.KeyGroups

/-!
# Rules of one declared key

A rule is *settled* if all rules of its declared key lead to one state. Being settled belongs to the
key, not to the rule. The standing rules are the first rules of the settled keys
(`Rule.standing_eq`), a key that is not settled makes a clash (`Rule.mem_clashes_iff`), and rules
repeat each other exactly if they agree in key and next state (`Rule.mem_repeats_iff`). Clashes are
of different keys, and no two groups of repeats agree in key and next state.
-/

namespace TableMachine

namespace Rule

variable {σ ε χ ω : Type}

/-- All rules of the rule's declared key lead to one state. -/
def Settled (rules : List (Rule σ ε χ ω)) (r : Rule σ ε χ ω) : Prop :=
  ∀ p ∈ rules, ∀ q ∈ rules, p.key = r.key → q.key = r.key → p.next = q.next

/-- Being settled belongs to the key. -/
theorem settled_congr {rules : List (Rule σ ε χ ω)} {r q : Rule σ ε χ ω} (h : r.key = q.key) :
    Settled rules r ↔ Settled rules q := by
  unfold Settled
  rw [h]

/-- Being settled depends on the set of rules only. -/
theorem settled_of_mem_iff {rules rules' : List (Rule σ ε χ ω)} (h : ∀ r, r ∈ rules ↔ r ∈ rules')
    (r : Rule σ ε χ ω) : Settled rules r ↔ Settled rules' r := by
  unfold Settled
  simp only [h]

variable [DecidableEq σ] [DecidableEq ε]

instance (rules : List (Rule σ ε χ ω)) (r : Rule σ ε χ ω) : Decidable (Settled rules r) :=
  inferInstanceAs (Decidable (∀ p ∈ rules, ∀ q ∈ rules, _ → _ → _))

/-- The rules of the declared key of `r`. -/
def sharing (rules : List (Rule σ ε χ ω)) (r : Rule σ ε χ ω) : List (Rule σ ε χ ω) :=
  rules.filter fun q => q.key = r.key

theorem mem_sharing {rules : List (Rule σ ε χ ω)} {r q : Rule σ ε χ ω} :
    q ∈ sharing rules r ↔ q ∈ rules ∧ q.key = r.key := by
  rw [sharing, List.mem_filter, decide_eq_true_eq]

theorem groups_eq (rules : List (Rule σ ε χ ω)) :
    groups rules = (distinctBy key rules).map (sharing rules) :=
  classes_eq_map_distinctBy rules

/-- Rules of one key that are not settled are told apart by two next states at least. -/
theorem one_lt_length_next_iff {rules : List (Rule σ ε χ ω)} {r : Rule σ ε χ ω} :
    1 < (distinctBy next (sharing rules r)).length ↔ ¬Settled rules r := by
  rw [one_lt_length_distinctBy]
  constructor
  · rintro ⟨p, hp, q, hq, hne⟩ hs
    obtain ⟨hp, hpr⟩ := mem_sharing.1 hp
    obtain ⟨hq, hqr⟩ := mem_sharing.1 hq
    exact hne (hs p hp q hq hpr hqr)
  · intro h
    unfold Settled at h
    push Not at h
    obtain ⟨p, hp, q, hq, hpr, hqr, hne⟩ := h
    exact ⟨p, mem_sharing.2 ⟨hp, hpr⟩, q, mem_sharing.2 ⟨hq, hqr⟩, hne⟩

theorem length_byNext_eq_one_iff {rules : List (Rule σ ε χ ω)} {r : Rule σ ε χ ω} (hr : r ∈ rules) :
    (byNext (sharing rules r)).length = 1 ↔ Settled rules r := by
  have some_rule : distinctBy next (sharing rules r) ≠ [] := by
    rw [ne_eq, distinctBy_eq_nil_iff]
    exact List.ne_nil_of_mem (mem_sharing.2 ⟨hr, rfl⟩)
  have pos := List.length_pos_of_ne_nil some_rule
  have plural : 1 < (distinctBy next (sharing rules r)).length ↔ ¬Settled rules r :=
    one_lt_length_next_iff
  rw [byNext, length_classes]
  constructor
  · intro h
    by_contra hn
    have := plural.2 hn
    omega
  · intro h
    by_contra hn
    exact plural.1 (by omega) h

/-! ## Standing rules -/

/-- The standing rules are the first rules of the settled keys. -/
theorem standing_eq (rules : List (Rule σ ε χ ω)) :
    standing rules = (distinctBy key rules).filter fun r => Settled rules r := by
  have leads : ∀ r ∈ distinctBy key rules,
      (if (byNext (sharing rules r)).length = 1 then (sharing rules r).head? else none) =
        Option.guard (fun r => decide (Settled rules r)) r := by
    intro r hr
    have hone := length_byNext_eq_one_iff (mem_of_mem_distinctBy hr)
    by_cases hs : Settled rules r
    · rw [if_pos (hone.2 hs), sharing, head?_class hr]
      simp [Option.guard, hs]
    · rw [if_neg fun h => hs (hone.1 h)]
      simp [Option.guard, hs]
  rw [standing, groups_eq, List.filterMap_map, ← List.filterMap_eq_filter]
  exact List.filterMap_congr leads

/-! ## Clashes -/

/-- The clashes are the keys that are not settled, with the first rule for each next state. -/
theorem mem_clashes_iff {rules : List (Rule σ ε χ ω)} {g : List (Rule σ ε χ ω)} :
    g ∈ clashes rules ↔
      ∃ r ∈ distinctBy key rules, ¬Settled rules r ∧ g = distinctBy next (sharing rules r) := by
  have firsts : ∀ r, (byNext (sharing rules r)).filterMap List.head? =
      distinctBy next (sharing rules r) := fun r => filterMap_head?_classes _
  rw [clashes, groups_eq, List.mem_filter, List.map_map, List.mem_map]
  constructor
  · rintro ⟨⟨r, hr, rfl⟩, hplural⟩
    rw [Function.comp_apply, firsts] at hplural ⊢
    exact ⟨r, hr, one_lt_length_next_iff.1 (of_decide_eq_true hplural), rfl⟩
  · rintro ⟨r, hr, hs, rfl⟩
    exact ⟨⟨r, hr, firsts r⟩, decide_eq_true (one_lt_length_next_iff.2 hs)⟩

/-- Every rule whose key is not settled has a clash, which lists the first rule for each state that
the rules of its key lead to. -/
theorem exists_mem_clashes {rules : List (Rule σ ε χ ω)} {r : Rule σ ε χ ω} (hr : r ∈ rules)
    (hs : ¬Settled rules r) : distinctBy next (sharing rules r) ∈ clashes rules := by
  obtain ⟨q, hq, hqr⟩ := exists_mem_distinctBy key hr
  have same : sharing rules q = sharing rules r := by
    unfold sharing
    rw [hqr]
  rw [mem_clashes_iff]
  exact ⟨q, hq, fun h => hs ((settled_congr hqr).1 h), by rw [same]⟩

theorem clashes_eq_nil_iff {rules : List (Rule σ ε χ ω)} :
    clashes rules = [] ↔ ∀ r ∈ rules, ∀ q ∈ rules, r.key = q.key → r.next = q.next := by
  constructor
  · intro h r hr q hq hrq
    by_contra hne
    have clash : ¬Settled rules q := fun hs => hne (hs r hr q hq hrq rfl)
    have := exists_mem_clashes hq clash
    rw [h] at this
    exact List.not_mem_nil this
  · intro h
    rw [List.eq_nil_iff_forall_not_mem]
    intro g hg
    obtain ⟨r, -, hs, -⟩ := mem_clashes_iff.1 hg
    exact hs fun p hp q hq hpr hqr => h p hp q hq (hpr.trans hqr.symm)

/-- Clashes are of different declared keys. -/
theorem pairwise_clashes (rules : List (Rule σ ε χ ω)) :
    (clashes rules).Pairwise fun g g' => ∀ p ∈ g, ∀ q ∈ g', p.key ≠ q.key := by
  have shared : ∀ (r : Rule σ ε χ ω), ∀ p ∈ (byNext (sharing rules r)).filterMap List.head?,
      p.key = r.key := by
    intro r p hp
    rw [byNext, filterMap_head?_classes] at hp
    exact (mem_sharing.1 (mem_of_mem_distinctBy hp)).2
  rw [clashes, groups_eq, List.map_map]
  apply List.Pairwise.filter
  rw [List.pairwise_map]
  refine (pairwise_distinctBy key rules).imp ?_
  intro r r' hne p hp q hq e
  exact hne ((shared r p hp).symm.trans (e.trans (shared r' q hq)))

/-! ## Repeats -/

/-- The rules that agree with `r` in declared key and next state. -/
def agreeing (rules : List (Rule σ ε χ ω)) (r : Rule σ ε χ ω) : List (Rule σ ε χ ω) :=
  rules.filter fun q => q.key = r.key ∧ q.next = r.next

theorem mem_agreeing {rules : List (Rule σ ε χ ω)} {r q : Rule σ ε χ ω} :
    q ∈ agreeing rules r ↔ q ∈ rules ∧ q.key = r.key ∧ q.next = r.next := by
  rw [agreeing, List.mem_filter, decide_eq_true_eq]

/-- Among the rules of a declared key, those for one next state are the rules that agree with any
one of them. -/
theorem filter_next_sharing {rules : List (Rule σ ε χ ω)} {p q : Rule σ ε χ ω} (h : q.key = p.key) :
    (sharing rules p).filter (fun x => x.next = q.next) = agreeing rules q := by
  rw [sharing, List.filter_filter, agreeing, h]
  congr 1
  funext x
  rw [Bool.decide_and, Bool.and_comm]

/-- The repeats are the groups of two rules or more that agree with one of them. -/
theorem mem_repeats_iff {rules g : List (Rule σ ε χ ω)} :
    g ∈ repeats rules ↔ (∃ r ∈ rules, g = agreeing rules r) ∧ 1 < g.length := by
  rw [repeats, groups_eq, List.flatMap_map, List.mem_flatMap]
  constructor
  · rintro ⟨p, -, hg⟩
    obtain ⟨hg, hplural⟩ := List.mem_filter.1 hg
    obtain ⟨q, hq, rfl⟩ := mem_classes.1 hg
    obtain ⟨hq, hqp⟩ := mem_sharing.1 hq
    exact ⟨⟨q, hq, filter_next_sharing hqp⟩, of_decide_eq_true hplural⟩
  · rintro ⟨⟨r, hr, rfl⟩, hplural⟩
    obtain ⟨p, hp, hpr⟩ := exists_mem_distinctBy key hr
    refine ⟨p, hp, List.mem_filter.2 ⟨?_, decide_eq_true hplural⟩⟩
    rw [← filter_next_sharing hpr.symm]
    exact mem_classes.2 ⟨r, mem_sharing.2 ⟨hr, hpr.symm⟩, rfl⟩

/-- Two rules that agree, one declared after the other, are in one group of repeats. -/
theorem exists_mem_repeats {rules : List (Rule σ ε χ ω)} {r q : Rule σ ε χ ω}
    (h : [q, r].Sublist rules) (hkey : q.key = r.key) (hnext : q.next = r.next) :
    ∃ g ∈ repeats rules, [q, r].Sublist g := by
  have both := h.filter fun x => decide (x.key = r.key ∧ x.next = r.next)
  rw [List.filter_cons_of_pos (by simp [hkey, hnext]), List.filter_cons_of_pos (by simp),
    List.filter_nil] at both
  exact ⟨agreeing rules r, mem_repeats_iff.2 ⟨⟨r, h.subset (by simp), rfl⟩, both.length_le⟩, both⟩

/-- No rules repeat each other exactly if no two agree in key and next state. -/
theorem repeats_eq_nil_iff {rules : List (Rule σ ε χ ω)} :
    repeats rules = [] ↔ (rules.map fun r => (r.key, r.next)).Nodup := by
  rw [List.eq_nil_iff_forall_not_mem]
  constructor
  · intro h
    rw [List.Nodup, List.pairwise_map, List.pairwise_iff_forall_sublist]
    intro q r hqr e
    obtain ⟨hkey, hnext⟩ := Prod.mk.inj e
    obtain ⟨g, hg, -⟩ := exists_mem_repeats hqr hkey hnext
    exact h g hg
  · intro h g hg
    obtain ⟨⟨r, -, rfl⟩, hplural⟩ := mem_repeats_iff.1 hg
    have single : (agreeing rules r).length ≤ 1 := by
      apply length_le_one_of_key (k := (r.key, r.next)) (h.sublist (List.filter_sublist.map _))
      intro q hq
      obtain ⟨-, hkey, hnext⟩ := mem_agreeing.1 hq
      exact Prod.ext hkey hnext
    omega

/-- Rules of different groups of repeats differ in declared key or next state. -/
theorem pairwise_repeats (rules : List (Rule σ ε χ ω)) :
    (repeats rules).Pairwise fun g g' =>
      ∀ p ∈ g, ∀ q ∈ g', (p.key, p.next) ≠ (q.key, q.next) := by
  have of_byNext : ∀ {p : Rule σ ε χ ω} {g}, g ∈ (byNext (sharing rules p)).filter isPlural →
      ∀ q ∈ g, q.key = p.key := by
    intro p g hg q hq
    obtain ⟨x, -, rfl⟩ := mem_classes.1 (List.mem_filter.1 hg).1
    exact (mem_sharing.1 (List.mem_filter.1 hq).1).2
  rw [repeats, groups_eq, List.flatMap_map, List.pairwise_flatMap]
  constructor
  · -- inside the group of a declared key the next states differ
    intro p _
    apply List.Pairwise.filter
    rw [byNext, classes_eq_map_distinctBy, List.pairwise_map]
    refine (pairwise_distinctBy next _).imp ?_
    intro x y hne a ha b hb e
    have ha := of_decide_eq_true (List.mem_filter.1 ha).2
    have hb := of_decide_eq_true (List.mem_filter.1 hb).2
    exact hne (ha.symm.trans ((Prod.mk.inj e).2.trans hb))
  · refine (pairwise_distinctBy key rules).imp ?_
    intro x y hne g hg g' hg' a ha b hb e
    exact hne ((of_byNext hg a ha).symm.trans ((Prod.mk.inj e).1.trans (of_byNext hg' b hb)))

end Rule

end TableMachine
