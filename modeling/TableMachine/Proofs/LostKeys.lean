import TableMachine.Proofs.Findings
import TableMachine.Proofs.Policies

/-!
# Keys that a rule loses

At a full key the table has one rule only, while others may have the say there as well. None of
these loses the key in silence: the rule in the table was declared earlier and leads to the same
state, and the warning of duplicates connects the two (`Draft.at?_or_lostTo`).

If the rule in the table is of the same declared key, both are in one group of repeats. If not, the
contenders of the key are a group, which holds the rule in the table and the first rule of the
declared key of the one that lost. That first rule either is the one that lost or is repeated by it.
-/

namespace TableMachine

variable {σ ε χ ω : Type}

namespace Rule

/-- Some group shows the two rules, in this order. -/
def ListedTogether (groups : List (List (Summary σ ε))) (p q : Rule σ ε χ ω) : Prop :=
  ∃ g ∈ groups, [p.summary, q.summary].Sublist g

/-- The groups show how `r` lost to `q`. They show both in one group, or each of them together with
the first rule of the declared key of `r`. -/
def LostTo (rules : List (Rule σ ε χ ω)) (groups : List (List (Summary σ ε)))
    (r q : Rule σ ε χ ω) : Prop :=
  ListedTogether groups q r ∨
    ∃ p, IsFirst rules p ∧ p.SameKey r ∧ ListedTogether groups p r ∧ ListedTogether groups q p

variable [DecidableEq σ] [DecidableEq ε]

variable {policy : OverlapPolicy} {rules before after : List (Rule σ ε χ ω)} {k : DispatchKey σ ε}
  {r q : Rule σ ε χ ω}

omit [DecidableEq σ] [DecidableEq ε] in
/-- A rule stands before the one that it is declared earlier than. -/
theorem pair_sublist (hrules : rules = before ++ r :: after) (hq : q ∈ before) :
    [q, r].Sublist rules := by
  rw [hrules]
  exact (List.singleton_sublist.2 hq).append (List.singleton_sublist.2 List.mem_cons_self)

/-- The first rule of a declared key is declared before all others of that key. -/
theorem eq_or_mem_before {p : Rule σ ε χ ω} (hrules : rules = before ++ r :: after)
    (hp : p ∈ distinctBy key rules) (hpr : p.key = r.key) : p = r ∨ p ∈ before := by
  rw [mem_distinctBy_iff, hrules, List.find?_append] at hp
  cases hfound : before.find? fun q => q.key = p.key with
  | some q =>
    rw [hfound, Option.some_or, Option.some.injEq] at hp
    exact Or.inr (hp ▸ List.mem_of_find?_eq_some hfound)
  | none =>
    rw [hfound, Option.none_or, List.find?_cons_of_pos (by simp [hpr]), Option.some.injEq] at hp
    exact Or.inl hp.symm

/-- The first rule that leads contends before the contender of any other declared key. -/
theorem exists_contender_after (hfirst : rules.find? (leads policy rules k) = some q)
    (hr : r ∈ rules) (hl : leads policy rules k r = true) (hne : q.key ≠ r.key) :
    ∃ p, p.key = r.key ∧ p ∈ distinctBy key rules ∧ [q, p].Sublist (contenders policy rules k) := by
  obtain ⟨p, hp, hpr, -⟩ := exists_contender hr hl
  refine ⟨p, hpr, contenders_subset_distinctBy hp, ?_⟩
  have head : (contenders policy rules k).head? = some q := by
    rw [contenders, head?_distinctBy, List.head?_filter, hfirst]
  obtain ⟨rest, hrest⟩ := List.head?_eq_some_iff.1 head
  rw [hrest] at hp ⊢
  rcases List.mem_cons.1 hp with rfl | hp
  · exact absurd hpr hne
  · exact (List.singleton_sublist.2 hp).cons_cons q

end Rule

variable [DecidableEq σ] [DecidableEq ε]

namespace Analysis

variable {policy : OverlapPolicy} {rules before after : List (Rule σ ε χ ω)} {k : DispatchKey σ ε}
  {r q : Rule σ ε χ ω}

/-- A group of duplicates is shown by its summaries. -/
theorem listedTogether_of_mem {g : List (Rule σ ε χ ω)} (hg : g ∈ (of policy rules).duplicates)
    (h : [q, r].Sublist g) :
    Rule.ListedTogether (Rule.summaries (of policy rules).duplicates) q r :=
  ⟨_, List.mem_map_of_mem hg, h.map Rule.summary⟩

theorem listedTogether_of_agree (h : [q, r].Sublist (Rule.survivors rules)) (hkey : q.key = r.key)
    (hnext : q.next = r.next) :
    Rule.ListedTogether (Rule.summaries (of policy rules).duplicates) q r := by
  obtain ⟨g, hg, hqr⟩ := Rule.exists_mem_repeats h hkey hnext
  exact listedTogether_of_mem (List.mem_append_left _ hg) hqr

theorem listedTogether_of_contend (hk : Rule.Undisputed policy (Rule.survivors rules) k)
    (h : [q, r].Sublist (Rule.contenders policy (Rule.survivors rules) k)) :
    Rule.ListedTogether (Rule.summaries (of policy rules).duplicates) q r :=
  listedTogether_of_mem
    (List.mem_append_right _ (Ruling.mem_overlaps_iff.2 ⟨⟨k, hk, rfl⟩, h.length_le⟩)) h

/-- A rule that leads at an undisputed key loses it to the first one that does so. -/
theorem lostTo_of_leads (hrules : Rule.survivors rules = before ++ r :: after)
    (hk : Rule.Undisputed policy (Rule.survivors rules) k)
    (hl : Rule.leads policy (Rule.survivors rules) k r = true) (hq : q ∈ before)
    (hfirst : (Rule.survivors rules).find? (Rule.leads policy (Rule.survivors rules) k) = some q) :
    q.next = r.next ∧
      Rule.LostTo (Rule.survivors rules) (Rule.summaries (of policy rules).duplicates) r q := by
  have hr : r ∈ Rule.survivors rules := by simp [hrules]
  have next : q.next = r.next :=
    hk q (List.mem_of_find?_eq_some hfirst) r hr (List.find?_some hfirst) hl
  refine ⟨next, ?_⟩
  by_cases hkey : q.key = r.key
  · exact Or.inl (listedTogether_of_agree (Rule.pair_sublist hrules hq) hkey next)
  · obtain ⟨p, hpr, hp, hqp⟩ := Rule.exists_contender_after hfirst hr hl hkey
    have overlap := listedTogether_of_contend hk hqp
    rcases Rule.eq_or_mem_before hrules hp hpr with rfl | hbefore
    · exact Or.inl overlap
    · -- the rule lost the key to the first of its own declared key, and that one to `q`
      obtain ⟨hpc, hpl⟩ := Rule.mem_of_mem_contenders (hqp.subset (by simp : p ∈ [q, p]))
      have repeated : Rule.ListedTogether (Rule.summaries (of policy rules).duplicates) p r :=
        listedTogether_of_agree (Rule.pair_sublist hrules hbefore) hpr (hk p hpc r hr hpl hl)
      exact Or.inr ⟨p, Rule.isFirst_iff.2 hp, Rule.sameKey_iff.2 hpr, repeated, overlap⟩

end Analysis

namespace Draft

variable {d : Draft σ ε χ ω} {overlap : OverlapPolicy} {t : DispatchTable σ ε χ ω}

/-- A surviving rule that has the say at a full key is the rule of the table there, and then none
before it has the say; or else the table has an earlier rule that leads to the same state, and the
warning says why. -/
theorem at?_or_lostTo (h : d.compile ⟨.warn, overlap⟩ = .ok t)
    {before after : List (Rule σ ε χ ω)} {r : Rule σ ε χ ω}
    (hrules : Rule.survivors d.rules = before ++ r :: after) {k : DispatchKey σ ε}
    (hk : k.combination.Full t.families)
    (hr : r ∈ overlap.deciding
      (Rule.covering (Rule.survivors d.rules) k.state k.event k.combination) k.combination) :
    (t.at? k = some r ∧
      ∀ q ∈ before, q ∉ overlap.deciding
        (Rule.covering (Rule.survivors d.rules) k.state k.event k.combination) k.combination) ∨
    ∃ q ∈ before, t.at? k = some q ∧ q.next = r.next ∧
      ∃ groups, t.warnings = [.duplicates groups] ∧
        Rule.LostTo (Rule.survivors d.rules) groups r q := by
  have sound := (exists_compile_eq_ok_iff.1 ⟨t, h⟩).sound
  rw [families_eq h] at hk
  rw [← Rule.filter_leads overlap sound hk] at hr ⊢
  obtain ⟨-, hl⟩ := List.mem_filter.1 hr
  have entry : t.at? k =
      (before.find? (Rule.leads overlap (Rule.survivors d.rules) k)).or (some r) := by
    rw [at?_eq_find? h]
    conv_lhs => arg 2; rw [hrules]
    rw [List.find?_append, List.find?_cons_of_pos hl]
  cases hfound : before.find? (Rule.leads overlap (Rule.survivors d.rules) k) with
  | none =>
    left
    refine ⟨by rw [entry, hfound, Option.none_or], ?_⟩
    intro q hq hmem
    exact List.find?_eq_none.1 hfound q hq (List.mem_filter.1 hmem).2
  | some q =>
    right
    rw [hfound, Option.some_or] at entry
    have hq := List.mem_of_find?_eq_some hfound
    obtain ⟨next, lost⟩ := Analysis.lostTo_of_leads hrules (undisputed_of_compile h k) hl hq
      ((at?_eq_find? h k).symm.trans entry)
    refine ⟨q, hq, entry, next, _, ?_, lost⟩
    have some_group : Rule.summaries (Analysis.of overlap d.rules).duplicates ≠ [] := by
      rcases lost with ⟨g, hg, -⟩ | ⟨-, -, -, ⟨g, hg, -⟩, -⟩
      · exact List.ne_nil_of_mem hg
      · exact List.ne_nil_of_mem hg
    rw [warnings_eq h, Analysis.duplicateFaults, Fault.ofNonempty_of_ne_nil some_group]

end Draft

namespace Turnstile

/-- A coin unlocks the turnstile. -/
def unlocking (condition : Condition) (line : Nat) : Rule Gate Input Unit Notes where
  state := .locked
  event := .coin
  condition
  next := .unlocked
  location := here line

/-- A coin unlocks the turnstile if enforcement is weak, and unlocks it always, which is said
twice. -/
def thriceCoin : Draft Gate Input Unit Notes :=
  .ofRules [unlocking (.allOf [Predicate.value Enforcement.weak]) 31, unlocking .always 32,
    unlocking .always 33]

/-- If enforcement is weak the last rule has the say as well, but the table has an earlier one. -/
theorem thriceCoin_lostTo :
    ∃ t, thriceCoin.compile {} = .ok t ∧
      ∃ q, t.at? ⟨.locked, .coin, .ofList [Predicate.value Enforcement.weak]⟩ = some q ∧
        q.location ≠ here 33 ∧
        ∃ groups, t.warnings = [.duplicates groups] ∧
          Rule.LostTo (Rule.survivors thriceCoin.rules) groups (unlocking .always 33) q := by
  obtain ⟨t, h⟩ := Draft.exists_compile_of_toBool (by rfl : (thriceCoin.compile {}).toBool)
  have full : Combination.Full t.families (.ofList [Predicate.value Enforcement.weak]) := by
    rw [Draft.families_eq h]
    decide +kernel
  have survivors : Rule.survivors thriceCoin.rules =
      [unlocking (.allOf [Predicate.value Enforcement.weak]) 31, unlocking .always 32] ++
        unlocking .always 33 :: [] := by
    rfl
  have applies : ∀ r ∈ Rule.survivors thriceCoin.rules,
      r.Applies .locked .coin (.ofList [Predicate.value Enforcement.weak]) := by
    decide +kernel
  have say : ∀ r ∈ Rule.survivors thriceCoin.rules, r ∈ OverlapPolicy.strict.deciding
      (Rule.covering (Rule.survivors thriceCoin.rules) .locked .coin
        (.ofList [Predicate.value Enforcement.weak]))
      (.ofList [Predicate.value Enforcement.weak]) :=
    fun r hr => Rule.mem_covering.2 ⟨hr, applies r hr⟩
  refine ⟨t, h, ?_⟩
  obtain ⟨-, none_before⟩ | ⟨q, hq, entry, -, groups, hgroups, lost⟩ :=
    Draft.at?_or_lostTo h survivors (k := ⟨.locked, .coin, _⟩) full (say _ (by simp [survivors]))
  · exact absurd (say (unlocking .always 32) (by simp [survivors])) (none_before _ (by simp))
  · refine ⟨q, entry, ?_, groups, hgroups, lost⟩
    rcases List.mem_pair.1 hq with rfl | rfl
    · decide
    · decide

end Turnstile

end TableMachine
