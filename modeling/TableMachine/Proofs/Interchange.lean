import TableMachine.Proofs.ConjunctionLaws
import TableMachine.Proofs.Contradictions
import TableMachine.Proofs.Rulings

/-!
# Rules that stand for each other

Conditions of one form are interchangeable: they hold of the same combinations, mention the same
values, have the same conflicts, and cover the same combinations with the same ranks
(`Condition.Alike.coverage_eq`). So rules of one declared key claim the same dispatch keys with the
same ranks. What becomes of a key depends on the ranks at which states are proposed for it, and not
on who proposes them (`Claimant.mem_targets_congr`). Of rules that agree in declared key and next
state it is therefore enough to keep one.

**Main statements.** To keep the first rule of each declared key and next state changes neither
which keys are contested nor where the others lead; nor does it that the rules of a key share one
expansion (`Rule.alike_interchangeable`).
-/

namespace TableMachine

variable {σ ε χ ω : Type}

/-! ## Conditions of one form -/

/-- What is covered depends on the sets of branches and of families only. -/
theorem Coverage.combinations_congr {branches branches' : List Combination} {fs gs : List Family}
    (hb : ∀ b, b ∈ branches ↔ b ∈ branches') (hf : ∀ f, f ∈ fs ↔ f ∈ gs) :
    (ofBranches branches fs).combinations = (ofBranches branches' gs).combinations := by
  ext c
  rw [mem_combinations, mem_combinations, covers_ofBranches, covers_ofBranches]
  simp only [hb, Combination.extends_congr hf]

namespace Condition.Alike

variable {m n : Condition}

theorem values_eq (h : m.Alike n) : m.values = n.values := by
  ext v
  rw [mem_values_iff, mem_values_iff]
  simp only [h.branches]

theorem families_eq (h : m.Alike n) : m.families = n.families := by
  rw [families, families, h.values_eq]

theorem mem_conflicts_iff (h : m.Alike n) (pair : Value × Value) :
    pair ∈ m.conflicts ↔ pair ∈ n.conflicts := by
  simp only [conflicts, List.mem_eraseDups, List.mem_flatMap, h.branches]

theorem contradiction?_eq_none_iff (h : m.Alike n) :
    m.contradiction? = none ↔ n.contradiction? = none := by
  rw [Condition.contradiction?_eq_none_iff, Condition.contradiction?_eq_none_iff]
  exact h.coherent_iff

/-- What is told of a contradiction are the same conflicts. -/
theorem mem_contradiction_iff (h : m.Alike n) {e e' : Contradiction}
    (he : m.contradiction? = some e) (he' : n.contradiction? = some e') (pair : Value × Value) :
    pair ∈ e.conflicts ↔ pair ∈ e'.conflicts := by
  obtain ⟨-, rfl⟩ := contradiction?_eq_some_iff_opposes.1 he
  obtain ⟨-, rfl⟩ := contradiction?_eq_some_iff_opposes.1 he'
  exact h.mem_conflicts_iff pair

/-- Conditions of one form cover the same combinations with the same ranks. -/
theorem coverage_eq (h : m.Alike n) {fs : List Family} {k : Coverage} (hk : m.coverage fs = .ok k) :
    ∃ k', n.coverage fs = .ok k' ∧ k'.combinations = k.combinations ∧
      ∀ c, k'.rankOf? c = k.rankOf? c := by
  obtain ⟨coherent, rfl⟩ := coverage_eq_ok_iff.1 hk
  refine ⟨_, coverage_eq_ok_iff.2 ⟨h.coherent_iff.1 coherent, rfl⟩, ?_, ?_⟩
  · exact Coverage.combinations_congr (fun b => (h.branches b).symm) fun _ => Iff.rfl
  · exact Coverage.rankOf?_congr (fun b => (h.branches b).symm) fun _ => Iff.rfl

end Condition.Alike

/-! ## Selection -/

/-- The policy picks all claims or, if it picks the most specific ones, those that no claim
outranks. -/
theorem OverlapPolicy.mem_select_iff {policy : OverlapPolicy} {ranked : List (Rule σ ε χ ω × Nat)}
    {r : Rule σ ε χ ω} :
    r ∈ policy.select ranked ↔ ∃ rank, (r, rank) ∈ ranked ∧
      (policy = .mostSpecific → ∀ claim ∈ ranked, claim.2 ≤ rank) := by
  cases policy with
  | strict => simp [select]
  | mostSpecific =>
    simp only [select, List.mem_map, List.mem_filter, decide_eq_true_eq, true_implies]
    constructor
    · rintro ⟨⟨r, rank⟩, ⟨hclaim, htop⟩, rfl⟩
      obtain ⟨top, hmax⟩ := Option.isSome_iff_exists.1
        (List.isSome_max?_of_mem (List.mem_map_of_mem (f := Prod.snd) hclaim))
      rw [hmax, Option.getD_some] at htop
      subst htop
      refine ⟨rank, hclaim, fun claim hother => ?_⟩
      exact (List.max?_eq_some_iff.1 hmax).2 _ (List.mem_map_of_mem hother)
    · rintro ⟨rank, hclaim, highest⟩
      have hmax : (ranked.map Prod.snd).max? = some rank := by
        refine List.max?_eq_some_iff.2 ⟨List.mem_map_of_mem (f := Prod.snd) hclaim, ?_⟩
        intro other hother
        obtain ⟨claim, hclaim', rfl⟩ := List.mem_map.1 hother
        exact highest claim hclaim'
      exact ⟨(r, rank), ⟨hclaim, by rw [hmax, Option.getD_some]⟩, rfl⟩

/-! ## Rules expanded by themselves -/

namespace Claimant

/-- The rule with what its own condition covers, unless that contradicts itself. -/
def ofRule? (fs : List Family) (r : Rule σ ε χ ω) : Option (Claimant σ ε χ ω) :=
  (r.condition.coverage fs).toOption.map (Claimant.mk r)

/-- The rules that do not contradict themselves, each with what its own condition covers. -/
def each (fs : List Family) (rules : List (Rule σ ε χ ω)) : List (Claimant σ ε χ ω) :=
  rules.filterMap (ofRule? fs)

variable {fs : List Family} {r q : Rule σ ε χ ω} {c d : Claimant σ ε χ ω}

theorem ofRule?_eq_some_iff :
    ofRule? fs r = some c ↔ r.condition.Coherent ∧
      c = ⟨r, .ofBranches r.condition.branches fs⟩ := by
  have covered : ∀ {k}, r.condition.coverage fs = .ok k ↔ _ := Condition.coverage_eq_ok_iff
  unfold ofRule?
  cases hk : r.condition.coverage fs with
  | error e =>
    have incoherent : ¬r.condition.Coherent := by
      intro hco
      have := covered.2 ⟨hco, rfl⟩
      rw [hk] at this
      cases this
    simp [Except.toOption, incoherent]
  | ok k =>
    obtain ⟨hco, rfl⟩ := covered.1 hk
    simp [Except.toOption, hco, eq_comm]

theorem mem_each_iff {rules : List (Rule σ ε χ ω)} :
    c ∈ each fs rules ↔ ∃ r ∈ rules, r.condition.Coherent ∧
      c = ⟨r, .ofBranches r.condition.branches fs⟩ := by
  rw [each, List.mem_filterMap]
  simp only [ofRule?_eq_some_iff]

variable [DecidableEq σ] [DecidableEq ε]

omit [DecidableEq σ] [DecidableEq ε] in
/-- Rules expanded by themselves claim the keys that they list. -/
theorem mem_keys_iff_of_mem_each {rules : List (Rule σ ε χ ω)} (hc : c ∈ each fs rules)
    (k : DispatchKey σ ε) : k ∈ c.keys ↔ c.Claims k := by
  obtain ⟨r, -, -, rfl⟩ := mem_each_iff.1 hc
  exact mem_keys_ofBranches

/-- Rules of one declared key have the same rank at each key. -/
theorem rankAt?_congr (h : r.SameKey q) {k : DispatchKey σ ε} :
    (Claimant.mk r (.ofBranches r.condition.branches fs)).rankAt? k =
      (Claimant.mk q (.ofBranches q.condition.branches fs)).rankAt? k := by
  obtain ⟨state, event, alike⟩ := h
  unfold rankAt?
  simp only [state, event]
  rw [Coverage.rankOf?_congr alike.branches fun _ => Iff.rfl]

/-- Rules of one declared key claim the same keys with the same ranks. -/
theorem exists_ofRule?_of_sameKey (h : r.SameKey q) (hc : ofRule? fs r = some c) :
    ∃ d, ofRule? fs q = some d ∧ d.keys = c.keys ∧ ∀ k, d.rankAt? k = c.rankAt? k := by
  obtain ⟨state, event, alike⟩ := h
  obtain ⟨coherent, rfl⟩ := ofRule?_eq_some_iff.1 hc
  refine ⟨_, ofRule?_eq_some_iff.2 ⟨alike.coherent_iff.1 coherent, rfl⟩, ?_, fun k => ?_⟩
  · unfold keys
    simp only [state, event]
    rw [Coverage.combinations_congr (fun b => (alike.branches b).symm) fun _ => Iff.rfl]
  · exact (rankAt?_congr ⟨state, event, alike⟩).symm

/-! ## Where keys lead -/

/-- The states to which the claimants lead that have the say at the key. -/
def targets (policy : OverlapPolicy) (claimants : List (Claimant σ ε χ ω)) (k : DispatchKey σ ε) :
    List σ :=
  (policy.select (ranked claimants k)).map Rule.next

/-- A claimant proposes its next state for a key, at the rank that it has there. -/
def Proposes (claimants : List (Claimant σ ε χ ω)) (k : DispatchKey σ ε) (target : σ) (rank : Nat) :
    Prop :=
  ∃ c ∈ claimants, c.rankAt? k = some rank ∧ c.rule.next = target

variable {policy : OverlapPolicy} {claimants claimants' : List (Claimant σ ε χ ω)}
  {k : DispatchKey σ ε} {target : σ}

theorem mem_ranked_iff {claim : Rule σ ε χ ω × Nat} :
    claim ∈ ranked claimants k ↔ ∃ c ∈ claimants, c.rankAt? k = some claim.2 ∧
      c.rule = claim.1 := by
  obtain ⟨r, rank⟩ := claim
  rw [ranked, List.mem_filterMap]
  simp only [Option.map_eq_some_iff, Prod.mk.injEq]
  constructor
  · rintro ⟨c, hc, rank', hrank, rfl, rfl⟩
    exact ⟨c, hc, hrank, rfl⟩
  · rintro ⟨c, hc, hrank, rfl⟩
    exact ⟨c, hc, rank, hrank, rfl, rfl⟩

/-- The targets are the states proposed; under the policy that picks the most specific claimants,
those proposed at the highest rank. -/
theorem mem_targets_iff :
    target ∈ targets policy claimants k ↔ ∃ rank, Proposes claimants k target rank ∧
      (policy = .mostSpecific → ∀ target' rank', Proposes claimants k target' rank' →
        rank' ≤ rank) := by
  rw [targets, List.mem_map]
  simp only [OverlapPolicy.mem_select_iff, mem_ranked_iff, Proposes]
  constructor
  · rintro ⟨r, ⟨rank, ⟨c, hc, hrank, rfl⟩, highest⟩, hnext⟩
    refine ⟨rank, ⟨c, hc, hrank, hnext⟩, ?_⟩
    rintro hpolicy target' rank' ⟨d, hd, hrank', -⟩
    exact highest hpolicy (d.rule, rank') ⟨d, hd, hrank', rfl⟩
  · rintro ⟨rank, ⟨c, hc, hrank, hnext⟩, highest⟩
    refine ⟨c.rule, ⟨rank, ⟨c, hc, hrank, rfl⟩, ?_⟩, hnext⟩
    rintro hpolicy claim ⟨d, hd, hrank', -⟩
    exact highest hpolicy d.rule.next claim.2 ⟨d, hd, hrank', rfl⟩

/-- Where the same states are proposed at the same ranks, the targets are the same. -/
theorem mem_targets_congr
    (h : ∀ target rank, Proposes claimants k target rank ↔ Proposes claimants' k target rank) :
    target ∈ targets policy claimants k ↔ target ∈ targets policy claimants' k := by
  rw [mem_targets_iff, mem_targets_iff]
  simp only [h]

end Claimant

namespace Ruling

/-- The state that the key leads to, unless it is contested or not claimed. -/
def nextAt? [DecidableEq σ] [DecidableEq ε] (rulings : List (Ruling σ ε χ ω))
    (k : DispatchKey σ ε) : Option σ :=
  (((entries rulings).find? fun entry => entry.1 = k).map Prod.snd).map Rule.next

/-- The same keys are contested, and the others lead to the same states. -/
structure SameVerdicts [DecidableEq σ] [DecidableEq ε] (rulings rulings' : List (Ruling σ ε χ ω)) :
    Prop where
  /-- The same keys are contested. -/
  contested : ∀ k, k ∈ (contested rulings).map key ↔ k ∈ (Ruling.contested rulings').map key
  /-- The other keys lead to the same states. -/
  next : ∀ k, nextAt? rulings k = nextAt? rulings' k

variable [DecidableEq σ] [DecidableEq ε] {policy : OverlapPolicy}
  {claimants claimants' : List (Claimant σ ε χ ω)} {k : DispatchKey σ ε}

/-- Those who have the say agree exactly if there is one target at most. -/
theorem agreed_iff_targets :
    (Ruling.mk k (policy.select (Claimant.ranked claimants k))).Agreed ↔
      ∀ s ∈ Claimant.targets policy claimants k,
      ∀ s' ∈ Claimant.targets policy claimants k, s = s' := by
  rw [agreed_iff, Claimant.targets, List.forall_mem_map]
  simp only [List.forall_mem_map]

/-- A key is contested exactly if it has two targets. -/
theorem mem_contested_iff_targets (h : ∀ c ∈ claimants, ∀ k, k ∈ c.keys ↔ c.Claims k) :
    k ∈ (contested (all policy claimants)).map key ↔
      ¬∀ s ∈ Claimant.targets policy claimants k, ∀ s' ∈ Claimant.targets policy claimants k,
        s = s' := by
  rw [← agreed_iff_targets, List.mem_map]
  constructor
  · rintro ⟨r, hr, rfl⟩
    obtain ⟨hr, ha⟩ := (mem_contested_iff_select h).1 hr
    rw [← hr]
    exact ha
  · intro ha
    exact ⟨_, (mem_contested_iff_select h).2 ⟨rfl, ha⟩, rfl⟩

/-- A key leads to its target, if it has just one. -/
theorem nextAt?_eq_some_iff (h : ∀ c ∈ claimants, ∀ k, k ∈ c.keys ↔ c.Claims k) {s : σ} :
    nextAt? (all policy claimants) k = some s ↔ s ∈ Claimant.targets policy claimants k ∧
      ∀ s ∈ Claimant.targets policy claimants k,
      ∀ s' ∈ Claimant.targets policy claimants k, s = s' := by
  rw [← agreed_iff_targets, nextAt?, find?_entries_select h, Option.map_eq_some_iff]
  simp only [Option.ite_none_right_eq_some]
  constructor
  · rintro ⟨w, ⟨ha, hw⟩, rfl⟩
    exact ⟨List.mem_map_of_mem (List.mem_of_head? hw), ha⟩
  · rintro ⟨hs, ha⟩
    obtain ⟨r, hr, rfl⟩ := List.mem_map.1 hs
    -- the entry is the first of those who have the say, and it leads where they all do
    obtain ⟨w, hw⟩ := Option.isSome_iff_exists.1 (List.isSome_head?.2 (List.ne_nil_of_mem hr))
    exact ⟨w, ⟨ha, hw⟩, agreed_iff.1 ha w (List.mem_of_head? hw) r hr⟩

/-- Claimants that propose the same states at the same ranks lead to the same verdicts. -/
theorem sameVerdicts_of_proposes (h : ∀ c ∈ claimants, ∀ k, k ∈ c.keys ↔ c.Claims k)
    (h' : ∀ c ∈ claimants', ∀ k, k ∈ c.keys ↔ c.Claims k)
    (same : ∀ k s rank, Claimant.Proposes claimants k s rank ↔
      Claimant.Proposes claimants' k s rank) :
    SameVerdicts (all policy claimants) (all policy claimants') := by
  have targets : ∀ k s, s ∈ Claimant.targets policy claimants k ↔
      s ∈ Claimant.targets policy claimants' k :=
    fun k s => Claimant.mem_targets_congr (same k)
  refine ⟨fun k => ?_, fun k => Option.ext fun s => ?_⟩
  · rw [mem_contested_iff_targets h, mem_contested_iff_targets h']
    simp only [targets]
  · rw [nextAt?_eq_some_iff h, nextAt?_eq_some_iff h']
    simp only [targets]

end Ruling

/-! ## Representatives -/

namespace Claimant

variable [DecidableEq σ] [DecidableEq ε] {fs : List Family} {rules : List (Rule σ ε χ ω)}
  {k : DispatchKey σ ε} {s : σ} {rank : Nat}

/-- Some rule that does not contradict itself leads to the state, and its condition reaches the key
with that rank. -/
theorem proposes_each_iff :
    Proposes (each fs rules) k s rank ↔ ∃ r ∈ rules, r.condition.Coherent ∧ r.next = s ∧
      (Claimant.mk r (.ofBranches r.condition.branches fs)).rankAt? k = some rank := by
  unfold Proposes
  constructor
  · rintro ⟨c, hc, hrank, rfl⟩
    obtain ⟨r, hr, hco, rfl⟩ := mem_each_iff.1 hc
    exact ⟨r, hr, hco, rfl, hrank⟩
  · rintro ⟨r, hr, hco, rfl, hrank⟩
    exact ⟨_, mem_each_iff.2 ⟨r, hr, hco, rfl⟩, hrank, rfl⟩

/-- The first rules of each declared key and next state propose what all rules do. -/
theorem proposes_distinctBy_iff :
    Proposes (each fs (distinctBy (fun r => (r.key, r.next)) rules)) k s rank ↔
      Proposes (each fs rules) k s rank := by
  rw [proposes_each_iff, proposes_each_iff]
  constructor
  · rintro ⟨r, hr, rest⟩
    exact ⟨r, mem_of_mem_distinctBy hr, rest⟩
  · rintro ⟨r, hr, hco, rfl, hrank⟩
    obtain ⟨q, hq, same⟩ := exists_mem_distinctBy (fun r => (r.key, r.next)) hr
    obtain ⟨hkey, hnext⟩ := Prod.mk.inj same
    obtain ⟨state, event, alike⟩ := Rule.sameKey_iff.2 hkey
    refine ⟨q, hq, alike.coherent_iff.2 hco, hnext, ?_⟩
    rw [← hrank]
    exact rankAt?_congr ⟨state, event, alike⟩

/-- The first rules of the settled keys propose what all settled rules do by themselves. -/
theorem proposes_ofRules_iff :
    Proposes (ofRules rules) k s rank ↔
      Proposes (each (Rule.mentionedFamilies rules) (rules.filter (Rule.Settled rules)))
        k s rank := by
  have claims : ∀ r, Rule.claim? rules k r = some rank ↔
      Rule.Settled rules r ∧ r.condition.Coherent ∧
      (Claimant.mk r (.ofBranches r.condition.branches (Rule.mentionedFamilies rules))).rankAt? k =
        some rank := by
    intro r
    rw [Rule.claim?_iff, rankAt?]
    simp only [Option.ite_none_right_eq_some, and_assoc]
  have proposed : Proposes (ofRules rules) k s rank ↔
      ∃ r ∈ distinctBy Rule.key rules, Rule.claim? rules k r = some rank ∧ r.next = s := by
    have ranked : ∀ r, (r, rank) ∈ ranked (ofRules rules) k ↔
        r ∈ distinctBy Rule.key rules ∧ Rule.claim? rules k r = some rank := by
      intro r
      rw [ranked_eq, List.mem_filterMap]
      constructor
      · rintro ⟨q, hq, hclaim⟩
        obtain ⟨rank', hrank', h⟩ := Option.map_eq_some_iff.1 hclaim
        cases h
        exact ⟨hq, hrank'⟩
      · rintro ⟨hr, hclaim⟩
        exact ⟨r, hr, by rw [hclaim, Option.map_some]⟩
    constructor
    · rintro ⟨c, hc, hrank, rfl⟩
      obtain ⟨hr, hclaim⟩ := (ranked c.rule).1 (mem_ranked_iff.2 ⟨c, hc, hrank, rfl⟩)
      exact ⟨c.rule, hr, hclaim, rfl⟩
    · rintro ⟨r, hr, hclaim, rfl⟩
      obtain ⟨c, hc, hrank, hcr⟩ := mem_ranked_iff.1 ((ranked r).2 ⟨hr, hclaim⟩)
      exact ⟨c, hc, hrank, by rw [hcr]⟩
  rw [proposed, proposes_each_iff]
  simp only [List.mem_filter, decide_eq_true_eq]
  constructor
  · rintro ⟨r, hr, hclaim, rfl⟩
    obtain ⟨settled, hco, hrank⟩ := (claims r).1 hclaim
    exact ⟨r, ⟨mem_of_mem_distinctBy hr, settled⟩, hco, rfl, hrank⟩
  · rintro ⟨r, ⟨hr, settled⟩, hco, rfl, hrank⟩
    -- the first rule of the key claims what this rule does, and the key leads to one state
    obtain ⟨q, hq, hkey⟩ := exists_mem_distinctBy Rule.key hr
    refine ⟨q, hq, ?_, settled q (mem_of_mem_distinctBy hq) r hr hkey rfl⟩
    rw [Rule.claim?_congr hkey]
    exact (claims r).2 ⟨settled, hco, hrank⟩

end Claimant

/-- Conditions are alike if they have the same required values and the same set of alternatives.
They are then satisfied by the same combinations, mention the same values and families, contradict
themselves both or neither and with the same conflicts, and cover the same combinations with the
same ranks over all families. Hence rules of one declared key claim the same dispatch keys with the
same ranks. In every list of rules one may keep the first rule of each declared key and next state:
the same keys are contested, and the others lead to the same states. That the first rule of each
settled key is expanded for all of them makes no difference either. -/
theorem Rule.alike_interchangeable [DecidableEq σ] [DecidableEq ε] :
    (∀ m n : Condition,
      (m.Alike n ↔ m.required = n.required ∧ ∀ a, a ∈ m.alternatives ↔ a ∈ n.alternatives) ∧
      (m.Alike n →
        (∀ c, m.Holds c ↔ n.Holds c) ∧ m.values = n.values ∧ m.families = n.families ∧
        (m.contradiction? = none ↔ n.contradiction? = none) ∧
        (∀ e e', m.contradiction? = some e → n.contradiction? = some e' →
          ∀ pair, pair ∈ e.conflicts ↔ pair ∈ e'.conflicts) ∧
        ∀ fs k, m.coverage fs = .ok k → ∃ k', n.coverage fs = .ok k' ∧
          k'.combinations = k.combinations ∧ ∀ c, k'.rankOf? c = k.rankOf? c)) ∧
    (∀ (fs : List Family) (r q : Rule σ ε χ ω), r.SameKey q → ∀ c, Claimant.ofRule? fs r = some c →
      ∃ d, Claimant.ofRule? fs q = some d ∧ d.keys = c.keys ∧ ∀ k, d.rankAt? k = c.rankAt? k) ∧
    (∀ (policy : OverlapPolicy) (fs : List Family) (rules : List (Rule σ ε χ ω)),
      Ruling.SameVerdicts
        (Ruling.all policy (Claimant.each fs (distinctBy (fun r => (r.key, r.next)) rules)))
        (Ruling.all policy (Claimant.each fs rules))) ∧
    ∀ (policy : OverlapPolicy) (rules : List (Rule σ ε χ ω)),
      Ruling.SameVerdicts (Ruling.all policy (Claimant.ofRules rules))
        (Ruling.all policy
          (Claimant.each (mentionedFamilies rules) (rules.filter (Settled rules)))) := by
  refine ⟨fun m n => ⟨Condition.alike_iff, fun h => ?_⟩, ?_, ?_, ?_⟩
  · exact ⟨h.holds_iff, h.values_eq, h.families_eq, h.contradiction?_eq_none_iff,
      fun _ _ he he' => h.mem_contradiction_iff he he', fun _ _ hk => h.coverage_eq hk⟩
  · intro fs r q h c hc
    exact Claimant.exists_ofRule?_of_sameKey h hc
  · intro policy fs rules
    exact Ruling.sameVerdicts_of_proposes (fun _ hc => Claimant.mem_keys_iff_of_mem_each hc)
      (fun _ hc => Claimant.mem_keys_iff_of_mem_each hc)
      fun _ _ _ => Claimant.proposes_distinctBy_iff
  · intro policy rules
    exact Ruling.sameVerdicts_of_proposes (fun _ hc _ => Claimant.mem_keys_iff hc)
      (fun _ hc => Claimant.mem_keys_iff_of_mem_each hc)
      fun _ _ _ => Claimant.proposes_ofRules_iff

namespace Turnstile

/-- Watched in one way or the other. -/
def eitherWay : Condition :=
  .oneOf [Predicate.value Enforcement.weak, Predicate.value Enforcement.strong]

/-- The same in another order, with a repetition, and at a place. -/
def eitherWayAgain : Condition :=
  (Condition.oneOf [Predicate.value Enforcement.strong, Predicate.value Enforcement.weak,
    Predicate.value Enforcement.strong]).placed (here 84)

/-- Passing is ignored, the turnstile stays locked. -/
def ignoring (condition : Condition) (line : Nat) : Rule Gate Input Unit Notes where
  state := .locked
  event := .pass
  condition := condition
  next := .locked
  location := here line

/-- Two rules with these conditions claim the same two keys, at rank one. -/
theorem ignoring_interchangeable :
    eitherWay ≠ eitherWayAgain ∧ (ignoring eitherWay 85).SameKey (ignoring eitherWayAgain 84) ∧
    (∃ k, eitherWayAgain.coverage [Predicate.family Enforcement] = .ok k ∧
      k.rankOf? (.ofList [Predicate.value Enforcement.strong]) = some 1) ∧
    ∃ d, Claimant.ofRule? [Predicate.family Enforcement] (ignoring eitherWayAgain 84) = some d ∧
      d.keys.length = 2 := by
  obtain ⟨conditions, claims, -, -⟩ :=
    Rule.alike_interchangeable (σ := Gate) (ε := Input) (χ := Unit) (ω := Notes)
  obtain ⟨-, interchangeable⟩ := conditions eitherWay eitherWayAgain
  have alike : eitherWay.Alike eitherWayAgain := by decide +kernel
  refine ⟨by decide +kernel, ⟨rfl, rfl, alike⟩, ?_, ?_⟩
  · obtain ⟨-, -, -, -, -, covered⟩ := interchangeable alike
    obtain ⟨k, hk, -, ranks⟩ := covered [Predicate.family Enforcement]
      (.ofBranches eitherWay.branches [Predicate.family Enforcement]) rfl
    refine ⟨k, hk, ?_⟩
    rw [ranks]
    decide +kernel
  · obtain ⟨d, hd, keys, -⟩ := claims [Predicate.family Enforcement] (ignoring eitherWay 85)
      (ignoring eitherWayAgain 84) ⟨rfl, rfl, alike⟩
      ⟨ignoring eitherWay 85, .ofBranches eitherWay.branches [Predicate.family Enforcement]⟩ rfl
    refine ⟨d, hd, ?_⟩
    rw [keys]
    decide +kernel

end Turnstile

end TableMachine
