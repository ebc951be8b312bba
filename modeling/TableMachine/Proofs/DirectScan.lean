import TableMachine.Proofs.Rulings

/-!
# Rules scanned directly

What a table should do can be said without any table: go through the rules, keep those that hold of
the combination at hand, and let the overlap policy pick among them. A list of rules is *sound* if
its conditions are coherent and on listed values and every declared key leads to one state. For a
sound list the rules that have the say at a full key are those found by such a scan
(`Rule.filter_leads`), and at any other key no rule has the say (`Rule.full_of_leads`).
-/

namespace TableMachine

variable {σ ε χ ω : Type} [DecidableEq σ] [DecidableEq ε]

namespace Rule

/-- The rule is for the state and the event, and its condition holds of the combination. -/
def Applies (r : Rule σ ε χ ω) (state : σ) (event : ε) (c : Combination) : Prop :=
  r.state = state ∧ r.event = event ∧ r.condition.Holds c

instance (r : Rule σ ε χ ω) (state : σ) (event : ε) (c : Combination) :
    Decidable (r.Applies state event c) :=
  inferInstanceAs (Decidable (_ ∧ _ ∧ _))

/-- The rules that apply. -/
def covering (rules : List (Rule σ ε χ ω)) (state : σ) (event : ε) (c : Combination) :
    List (Rule σ ε χ ω) :=
  rules.filter fun r => r.Applies state event c

theorem mem_covering {rules : List (Rule σ ε χ ω)} {state : σ} {event : ε} {c : Combination}
    {r : Rule σ ε χ ω} : r ∈ covering rules state event c ↔
      r ∈ rules ∧ r.Applies state event c := by
  rw [covering, List.mem_filter, decide_eq_true_eq]

end Rule

omit [DecidableEq σ] [DecidableEq ε] in
/-- The rules that have the say among those that apply: all of them, or those with the largest
branch that the combination holds. -/
def OverlapPolicy.deciding (policy : OverlapPolicy) (rules : List (Rule σ ε χ ω))
    (c : Combination) : List (Rule σ ε χ ω) :=
  match policy with
  | .strict => rules
  | .mostSpecific =>
    rules.filter fun r => ∀ q ∈ rules, q.condition.rankAt c ≤ r.condition.rankAt c

omit [DecidableEq σ] [DecidableEq ε] in
theorem OverlapPolicy.deciding_sublist (policy : OverlapPolicy) (rules : List (Rule σ ε χ ω))
    (c : Combination) : (policy.deciding rules c).Sublist rules := by
  cases policy with
  | strict => exact List.Sublist.refl _
  | mostSpecific => exact List.filter_sublist

namespace Rule

/-- A list of rules without unlisted values, contradictory conditions and clashes. -/
structure Sound (rules : List (Rule σ ε χ ω)) : Prop where
  /-- All values mentioned are listed. -/
  listed : ∀ r ∈ rules, ∀ v ∈ r.condition.values, v.Listed
  /-- No condition contradicts itself. -/
  coherent : ∀ r ∈ rules, r.condition.Coherent
  /-- Rules of one declared key lead to one state. -/
  settled : ∀ r ∈ rules, ∀ q ∈ rules, r.key = q.key → r.next = q.next

variable {policy : OverlapPolicy} {rules : List (Rule σ ε χ ω)} {k : DispatchKey σ ε}
  {r : Rule σ ε χ ω}

omit [DecidableEq σ] [DecidableEq ε] in
theorem Sound.mentions (h : Sound rules) (hr : r ∈ rules) :
    ∀ v ∈ r.condition.values, v.Listed ∧ v.family ∈ mentionedFamilies rules :=
  mentions_of_listed hr (h.listed r hr)

/-- At a full key a settled rule with a coherent condition on listed values has a claim if it
applies, with the rank of its largest branch. -/
theorem claim?_eq (hs : Settled rules r) (hco : r.condition.Coherent)
    (hm : ∀ v ∈ r.condition.values, v.Listed ∧ v.family ∈ mentionedFamilies rules)
    (hc : k.combination.Full (mentionedFamilies rules)) :
    claim? rules k r =
      if r.Applies k.state k.event k.combination then some (r.condition.rankAt k.combination)
      else none := by
  unfold claim? Applies
  rw [Condition.rankOf?_branches hm hc]
  by_cases hstate : r.state = k.state
  · by_cases hevent : r.event = k.event
    · simp [hs, hco, hstate, hevent]
    · simp [hevent]
  · simp [hstate]

theorem Sound.claim?_eq (h : Sound rules) (hr : r ∈ rules)
    (hc : k.combination.Full (mentionedFamilies rules)) :
    claim? rules k r =
      if r.Applies k.state k.event k.combination then some (r.condition.rankAt k.combination)
      else none := by
  have settled : Settled rules r := by
    intro p hp q hq hpr hqr
    exact h.settled p hp q hq (hpr.trans hqr.symm)
  exact Rule.claim?_eq settled (h.coherent r hr) (h.mentions hr) hc

/-- At a full key the rules that have the say are those that a direct scan finds. -/
theorem filter_leads (policy : OverlapPolicy) (h : Sound rules)
    (hc : k.combination.Full (mentionedFamilies rules)) :
    rules.filter (leads policy rules k) =
      policy.deciding (covering rules k.state k.event k.combination) k.combination := by
  cases policy with
  | strict =>
    apply List.filter_congr
    intro r hr
    rw [Bool.eq_iff_iff, leads_iff, h.claim?_eq hr hc, decide_eq_true_eq]
    by_cases ha : r.Applies k.state k.event k.combination
    · simp [ha]
    · simp [ha]
  | mostSpecific =>
    rw [OverlapPolicy.deciding, covering, List.filter_filter]
    apply List.filter_congr
    intro r hr
    rw [Bool.eq_iff_iff, leads_iff, h.claim?_eq hr hc, Bool.and_eq_true, decide_eq_true_eq,
      decide_eq_true_eq]
    by_cases ha : r.Applies k.state k.event k.combination
    · -- to lead is to be outranked by no rule with a claim, and these are the rules that apply
      rw [if_pos ha]
      simp only [Option.some.injEq, exists_eq_left', true_implies, ha, and_true]
      constructor
      · intro hmax q hq
        obtain ⟨hq, hqa⟩ := mem_covering.1 hq
        exact hmax q hq _ (by rw [h.claim?_eq hq hc, if_pos hqa])
      · intro hmax q hq other hother
        rw [h.claim?_eq hq hc] at hother
        by_cases hqa : q.Applies k.state k.event k.combination
        · rw [if_pos hqa] at hother
          obtain rfl := Option.some.inj hother
          exact hmax q (mem_covering.2 ⟨hq, hqa⟩)
        · rw [if_neg hqa] at hother
          simp at hother
    · simp [ha]

/-- A rule has the say at full keys only. -/
theorem full_of_leads (h : Sound rules) (hr : r ∈ rules) (hl : leads policy rules k r = true) :
    k.combination.Full (mentionedFamilies rules) := by
  obtain ⟨rank, hrank, -⟩ := leads_iff.1 hl
  obtain ⟨-, -, -, -, hrank⟩ := claim?_iff.1 hrank
  obtain ⟨⟨b, hb, hbk, -⟩, -⟩ := Coverage.rankOf?_eq_some_iff.1 hrank
  exact Condition.full_of_extends (h.mentions hr) hb hbk

/-- No key is disputed exactly if at every full key the rules that have the say agree. -/
theorem undisputed_iff (h : Sound rules) :
    (∀ k, Undisputed policy rules k) ↔
      ∀ state event c, Combination.Full (mentionedFamilies rules) c →
        ∀ p ∈ policy.deciding (covering rules state event c) c,
          ∀ q ∈ policy.deciding (covering rules state event c) c, p.next = q.next := by
  constructor
  · intro hu state event c hc p hp q hq
    have scan := filter_leads (k := ⟨state, event, c⟩) policy h hc
    change _ = policy.deciding (covering rules state event c) c at scan
    rw [← scan, List.mem_filter] at hp hq
    exact hu ⟨state, event, c⟩ p hp.1 q hq.1 hp.2 hq.2
  · intro ha k p hp q hq hpl hql
    have hc := full_of_leads h hp hpl
    apply ha k.state k.event k.combination hc
    · rw [← filter_leads policy h hc]
      exact List.mem_filter.2 ⟨hp, hpl⟩
    · rw [← filter_leads policy h hc]
      exact List.mem_filter.2 ⟨hq, hql⟩

end Rule

end TableMachine
