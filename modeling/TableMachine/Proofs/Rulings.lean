import TableMachine.Proofs.Contenders

/-!
# Rulings read off the rules

There is a ruling for every key at which some rule has the say, and its contenders are known without
the claimants (`Ruling.mem_all_iff`). So it can be read off the list of rules where a table has an
entry, and which (`Ruling.find?_entries`), which keys are contested (`Ruling.mem_contested_iff`),
and where rules overlap without being at odds (`Ruling.mem_overlaps_iff`).
-/

namespace TableMachine

variable {σ ε χ ω : Type} [DecidableEq σ] [DecidableEq ε]

namespace Rule

/-- All rules that have the say at the key lead to one state. -/
def Undisputed (policy : OverlapPolicy) (rules : List (Rule σ ε χ ω))
    (k : DispatchKey σ ε) : Prop :=
  ∀ p ∈ rules, ∀ q ∈ rules, leads policy rules k p = true → leads policy rules k q = true →
    p.next = q.next

instance (policy : OverlapPolicy) (rules : List (Rule σ ε χ ω)) (k : DispatchKey σ ε) :
    Decidable (Undisputed policy rules k) :=
  inferInstanceAs (Decidable (∀ p ∈ rules, ∀ q ∈ rules, _ → _ → _))

/-- A key is undisputed exactly if its contenders lead to one state. -/
theorem undisputed_iff_contenders {policy : OverlapPolicy} {rules : List (Rule σ ε χ ω)}
    {k : DispatchKey σ ε} : Undisputed policy rules k ↔
      ∀ p ∈ contenders policy rules k, ∀ q ∈ contenders policy rules k, p.next = q.next := by
  constructor
  · intro h p hp q hq
    obtain ⟨hp, hpl⟩ := mem_of_mem_contenders hp
    obtain ⟨hq, hql⟩ := mem_of_mem_contenders hq
    exact h p hp q hq hpl hql
  · intro h p hp q hq hpl hql
    obtain ⟨p', hp', -, ep⟩ := exists_contender hp hpl
    obtain ⟨q', hq', -, eq⟩ := exists_contender hq hql
    rw [← ep, ← eq]
    exact h p' hp' q' hq'

end Rule

namespace Ruling

variable {policy : OverlapPolicy} {rules : List (Rule σ ε χ ω)} {k : DispatchKey σ ε}

/-- There is a ruling for every key at which some claimant has the say. -/
theorem mem_all_iff_select {claimants : List (Claimant σ ε χ ω)}
    (h : ∀ c ∈ claimants, ∀ k, k ∈ c.keys ↔ c.Claims k) {r : Ruling σ ε χ ω} :
    r ∈ all policy claimants ↔
      r.contenders = policy.select (Claimant.ranked claimants r.key) ∧ r.contenders ≠ [] := by
  have claimed : ∀ k, k ∈ Claimant.claimedKeys claimants ↔
      policy.select (Claimant.ranked claimants k) ≠ [] := by
    intro k
    rw [Claimant.mem_claimedKeys_iff_ranked h]
    exact not_congr OverlapPolicy.select_eq_nil_iff.symm
  rw [all, List.mem_map]
  constructor
  · rintro ⟨k, hk, rfl⟩
    exact ⟨rfl, (claimed k).1 hk⟩
  · rintro ⟨hr, hne⟩
    exact ⟨r.key, (claimed r.key).2 (hr ▸ hne), by rw [← hr]⟩

/-- There is a ruling for every key with contenders. -/
theorem mem_all_iff {r : Ruling σ ε χ ω} :
    r ∈ all policy (Claimant.ofRules rules) ↔
      r.contenders = Rule.contenders policy rules r.key ∧ r.contenders ≠ [] := by
  rw [mem_all_iff_select fun _ hc _ => Claimant.mem_keys_iff hc, OverlapPolicy.select_ranked]

/-- There is one ruling for a key. -/
theorem nodup_key_all (policy : OverlapPolicy) (rules : List (Rule σ ε χ ω)) :
    ((all policy (Claimant.ofRules rules)).map key).Nodup := by
  rw [all, List.map_map]
  change ((Claimant.claimedKeys _).map id).Nodup
  rw [List.map_id]
  exact Claimant.nodup_newKeys fun c hc k => Claimant.mem_keys_iff hc

omit [DecidableEq σ] [DecidableEq ε] in
theorem agreed_iff {r : Ruling σ ε χ ω} :
    r.Agreed ↔ ∀ p ∈ r.contenders, ∀ q ∈ r.contenders, p.next = q.next := by
  unfold Agreed
  cases r.contenders with
  | nil => simp
  | cons first rest =>
    constructor
    · intro h p hp q hq
      exact (h first rfl p hp).trans (h first rfl q hq).symm
    · intro h f hf other hother
      obtain rfl := Option.some.inj hf
      exact h other hother first List.mem_cons_self

/-- The contenders of a key agree exactly if the key is undisputed. -/
theorem agreed_iff_undisputed {r : Ruling σ ε χ ω}
    (hr : r.contenders = Rule.contenders policy rules r.key) :
    r.Agreed ↔ Rule.Undisputed policy rules r.key := by
  rw [agreed_iff, hr, Rule.undisputed_iff_contenders]

/-! ## Entries -/

omit [DecidableEq ε] in
/-- Entries are for keys of rulings, in their order. -/
theorem keys_entries_sublist (rulings : List (Ruling σ ε χ ω)) :
    ((entries rulings).map Prod.fst).Sublist (rulings.map key) := by
  induction rulings with
  | nil => exact List.Sublist.refl _
  | cons r rest ih =>
    have tail : ((entries rest).map Prod.fst).Sublist ((r :: rest).map key) :=
      ih.trans (List.sublist_cons_self ..)
    by_cases ha : r.Agreed
    · cases hw : r.contenders.head? with
      | none => simpa [entries, ha, hw] using tail
      | some w => simpa [entries, ha, hw] using ih
    · simpa [entries, ha] using tail

/-- A key has an entry if those who have the say agree; the entry is the first of them. -/
theorem mem_entries_iff_select {claimants : List (Claimant σ ε χ ω)}
    (h : ∀ c ∈ claimants, ∀ k, k ∈ c.keys ↔ c.Claims k) {w : Rule σ ε χ ω} :
    (k, w) ∈ entries (all policy claimants) ↔
      (Ruling.mk k (policy.select (Claimant.ranked claimants k))).Agreed ∧
        (policy.select (Claimant.ranked claimants k)).head? = some w := by
  rw [entries, List.mem_filterMap]
  constructor
  · rintro ⟨r, hr, hw⟩
    obtain ⟨hr, -⟩ := (mem_all_iff_select h).1 hr
    by_cases ha : r.Agreed
    · rw [if_pos ha, Option.map_eq_some_iff] at hw
      obtain ⟨winner, hwinner, he⟩ := hw
      obtain ⟨rfl, rfl⟩ := Prod.mk.inj he
      rw [← hr]
      exact ⟨ha, hwinner⟩
    · rw [if_neg ha] at hw
      simp at hw
  · rintro ⟨ha, hw⟩
    refine ⟨⟨k, policy.select (Claimant.ranked claimants k)⟩,
      (mem_all_iff_select h).2 ⟨rfl, ?_⟩, ?_⟩
    · exact List.ne_nil_of_mem (List.mem_of_head? hw)
    · rw [if_pos ha, hw, Option.map_some]

/-- What a look-up of a key among the entries finds, if those who have the say agree. -/
theorem find?_entries_select {claimants : List (Claimant σ ε χ ω)}
    (h : ∀ c ∈ claimants, ∀ k, k ∈ c.keys ↔ c.Claims k) (k : DispatchKey σ ε) :
    ((entries (all policy claimants)).find? fun entry => entry.1 = k).map Prod.snd =
      if (Ruling.mk k (policy.select (Claimant.ranked claimants k))).Agreed then
        (policy.select (Claimant.ranked claimants k)).head?
      else none := by
  cases hf : (entries (all policy claimants)).find? fun entry => entry.1 = k with
  | some entry =>
    obtain ⟨key, w⟩ := entry
    have hkey : key = k := by simpa using List.find?_some hf
    subst hkey
    obtain ⟨ha, hw⟩ := (mem_entries_iff_select h).1 (List.mem_of_find?_eq_some hf)
    rw [if_pos ha, hw, Option.map_some]
  | none =>
    split
    · next ha =>
      cases hw : (policy.select (Claimant.ranked claimants k)).head? with
      | none => rfl
      | some w =>
        have absent := List.find?_eq_none.1 hf (k, w) ((mem_entries_iff_select h).2 ⟨ha, hw⟩)
        simp at absent
    · rfl

/-- The first contender of a key is the first rule that has the say there. -/
theorem head?_contenders :
    (Rule.contenders policy rules k).head? = rules.find? (Rule.leads policy rules k) := by
  rw [Rule.contenders, head?_distinctBy, List.head?_filter]

/-- A key has an entry if it is undisputed; the entry is the first rule that has the say there. -/
theorem mem_entries_iff {w : Rule σ ε χ ω} :
    (k, w) ∈ entries (all policy (Claimant.ofRules rules)) ↔
      Rule.Undisputed policy rules k ∧ rules.find? (Rule.leads policy rules k) = some w := by
  rw [mem_entries_iff_select fun _ hc _ => Claimant.mem_keys_iff hc, OverlapPolicy.select_ranked,
    agreed_iff_undisputed rfl, head?_contenders]

/-- What a look-up of a key among the entries finds. -/
theorem find?_entries (policy : OverlapPolicy) (rules : List (Rule σ ε χ ω)) (k : DispatchKey σ ε) :
    ((entries (all policy (Claimant.ofRules rules))).find? fun entry => entry.1 = k).map Prod.snd =
      if Rule.Undisputed policy rules k then rules.find? (Rule.leads policy rules k) else none := by
  rw [find?_entries_select fun _ hc _ => Claimant.mem_keys_iff hc, OverlapPolicy.select_ranked,
    head?_contenders]
  exact if_congr (agreed_iff_undisputed rfl) rfl rfl

/-! ## Contested keys -/

/-- The contested keys are those at which the ones who have the say do not agree. -/
theorem mem_contested_iff_select {claimants : List (Claimant σ ε χ ω)}
    (h : ∀ c ∈ claimants, ∀ k, k ∈ c.keys ↔ c.Claims k) {r : Ruling σ ε χ ω} :
    r ∈ contested (all policy claimants) ↔
      r.contenders = policy.select (Claimant.ranked claimants r.key) ∧ ¬r.Agreed := by
  rw [contested, List.mem_filter, mem_all_iff_select h, decide_eq_true_eq]
  constructor
  · rintro ⟨⟨hr, -⟩, ha⟩
    exact ⟨hr, ha⟩
  · rintro ⟨hr, ha⟩
    refine ⟨⟨hr, fun hnil => ha ?_⟩, ha⟩
    rw [agreed_iff, hnil]
    simp

/-- The contested keys are those at which rules with the say lead to different states. -/
theorem mem_contested_iff {r : Ruling σ ε χ ω} :
    r ∈ contested (all policy (Claimant.ofRules rules)) ↔
      r.contenders = Rule.contenders policy rules r.key ∧ ¬Rule.Undisputed policy rules r.key := by
  rw [mem_contested_iff_select fun _ hc _ => Claimant.mem_keys_iff hc, OverlapPolicy.select_ranked]
  exact and_congr_right fun hr => not_congr (agreed_iff_undisputed hr)

theorem contested_eq_nil_iff :
    contested (all policy (Claimant.ofRules rules)) = [] ↔
      ∀ k, Rule.Undisputed policy rules k := by
  rw [List.eq_nil_iff_forall_not_mem]
  constructor
  · intro h k
    by_contra hu
    exact h ⟨k, Rule.contenders policy rules k⟩ (mem_contested_iff.2 ⟨rfl, hu⟩)
  · intro h r hr
    exact (mem_contested_iff.1 hr).2 (h r.key)

/-! ## Overlaps -/

/-- The overlaps are the contenders of the undisputed keys that have two contenders or more. -/
theorem mem_overlaps_iff {g : List (Rule σ ε χ ω)} :
    g ∈ overlaps (all policy (Claimant.ofRules rules)) ↔
      (∃ k, Rule.Undisputed policy rules k ∧ g = Rule.contenders policy rules k) ∧
        1 < g.length := by
  have found : ∀ g, g ∈ ((all policy (Claimant.ofRules rules)).filter fun r =>
      r.Agreed ∧ Rule.isPlural r.contenders).map contenders ↔
        (∃ k, Rule.Undisputed policy rules k ∧ g = Rule.contenders policy rules k) ∧
        1 < g.length := by
    intro g
    simp only [List.mem_map, List.mem_filter, decide_eq_true_eq, Rule.isPlural]
    constructor
    · rintro ⟨r, ⟨hr, hagreed, hplural⟩, rfl⟩
      obtain ⟨hr, -⟩ := mem_all_iff.1 hr
      exact ⟨⟨r.key, (agreed_iff_undisputed hr).1 hagreed, hr⟩, hplural⟩
    · rintro ⟨⟨k, hk, rfl⟩, hplural⟩
      refine ⟨⟨k, _⟩, ⟨mem_all_iff.2 ⟨rfl, ?_⟩, (agreed_iff_undisputed rfl).2 hk, hplural⟩, rfl⟩
      exact List.ne_nil_of_length_pos (Nat.lt_of_succ_lt hplural)
  rw [overlaps]
  constructor
  · intro hg
    exact (found g).1 (mem_of_mem_distinctBy hg)
  · intro hg
    obtain ⟨g', hg', hkeys⟩ := exists_mem_distinctBy (List.map Rule.key) ((found g).2 hg)
    -- the group that is kept for these keys is the group itself
    obtain ⟨⟨k', -, rfl⟩, -⟩ := (found g').1 (mem_of_mem_distinctBy hg')
    obtain ⟨⟨k, -, rfl⟩, -⟩ := hg
    rwa [← Rule.contenders_eq_of_map_key_eq hkeys]

/-- There are no overlaps to be reported exactly if no undisputed key has two contenders. -/
theorem overlaps_eq_nil_iff :
    overlaps (all policy (Claimant.ofRules rules)) = [] ↔
      ∀ k, Rule.Undisputed policy rules k → (Rule.contenders policy rules k).length ≤ 1 := by
  rw [List.eq_nil_iff_forall_not_mem]
  constructor
  · intro h k hk
    by_contra hlen
    exact h _ (mem_overlaps_iff.2 ⟨⟨k, hk, rfl⟩, by omega⟩)
  · intro h g hg
    obtain ⟨⟨k, hk, rfl⟩, hplural⟩ := mem_overlaps_iff.1 hg
    have single := h k hk
    omega

end Ruling

end TableMachine
