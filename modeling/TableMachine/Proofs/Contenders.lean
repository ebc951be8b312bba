import TableMachine.Proofs.DeclaredKeys
import TableMachine.Proofs.Universe
import TableMachine.Table.Ruling

/-!
# Who has the say at a dispatch key

A rule *claims* a key if it is settled, its condition is coherent and some branch reaches the
combination of the key; it *leads* there if the policy gives it the say among all that claim the
key. Both belong to the declared key of the rule. What the policy picks among the ranked claimants
are the first rules of the declared keys that lead (`OverlapPolicy.select_ranked`), and a key is
claimed exactly if some claimant is ranked there (`Claimant.mem_claimedKeys_iff_ranked`).
-/

namespace TableMachine

variable {σ ε χ ω : Type} [DecidableEq σ] [DecidableEq ε]

namespace Rule

/-! ## Claims -/

/-- The rank at which the rule claims the key, if it does. -/
def claim? (rules : List (Rule σ ε χ ω)) (k : DispatchKey σ ε) (r : Rule σ ε χ ω) : Option Nat :=
  if Settled rules r ∧ r.condition.Coherent ∧ r.state = k.state ∧ r.event = k.event then
    (Coverage.ofBranches r.condition.branches (mentionedFamilies rules)).rankOf? k.combination
  else
    none

/-- The policy gives the rule the say at the key. -/
def leads (policy : OverlapPolicy) (rules : List (Rule σ ε χ ω)) (k : DispatchKey σ ε)
    (r : Rule σ ε χ ω) : Bool :=
  match claim? rules k r with
  | none => false
  | some rank =>
    match policy with
    | .strict => true
    | .mostSpecific => rules.all fun q => (claim? rules k q).all fun other => other ≤ rank

/-- The first rules of the declared keys that have the say at the key. -/
def contenders (policy : OverlapPolicy) (rules : List (Rule σ ε χ ω)) (k : DispatchKey σ ε) :
    List (Rule σ ε χ ω) :=
  distinctBy key (rules.filter (leads policy rules k))

variable {rules rules' : List (Rule σ ε χ ω)} {k : DispatchKey σ ε} {policy : OverlapPolicy}

/-- A rule claims a key if it is settled and its condition coherent, if it is for the state and the
event of the key, and if a branch reaches the combination. The rank is the one that the coverage
gives. -/
theorem claim?_iff {r : Rule σ ε χ ω} {rank : Nat} :
    claim? rules k r = some rank ↔
      Settled rules r ∧ r.condition.Coherent ∧ r.state = k.state ∧ r.event = k.event ∧
        (Coverage.ofBranches r.condition.branches (mentionedFamilies rules)).rankOf? k.combination =
          some rank := by
  unfold claim?
  by_cases h : Settled rules r ∧ r.condition.Coherent ∧ r.state = k.state ∧ r.event = k.event
  · rw [if_pos h]
    simp only [h.1, h.2.1, h.2.2.1, h.2.2.2, true_and]
  · rw [if_neg h]
    simp only [reduceCtorEq, false_iff]
    rintro ⟨hsettled, hcoherent, hs, he, -⟩
    exact h ⟨hsettled, hcoherent, hs, he⟩

/-- Claims belong to the declared key. -/
theorem claim?_congr {r q : Rule σ ε χ ω} (h : r.key = q.key) :
    claim? rules k r = claim? rules k q := by
  have alike : r.condition.Alike q.condition := congrArg DeclaredKey.form h
  have state : r.state = q.state := congrArg DeclaredKey.state h
  have event : r.event = q.event := congrArg DeclaredKey.event h
  unfold claim?
  rw [Coverage.rankOf?_congr alike.branches (fun _ => Iff.rfl) k.combination, state, event]
  simp only [settled_congr h, alike.coherent_iff]

/-- Claims depend on the set of rules only. -/
theorem claim?_of_mem_iff (h : ∀ r, r ∈ rules ↔ r ∈ rules') (r : Rule σ ε χ ω) :
    claim? rules k r = claim? rules' k r := by
  unfold claim?
  rw [Coverage.rankOf?_congr (fun _ => Iff.rfl) (mem_mentionedFamilies_congr h) k.combination]
  simp only [settled_of_mem_iff h]

theorem leads_iff {r : Rule σ ε χ ω} :
    leads policy rules k r = true ↔ ∃ rank, claim? rules k r = some rank ∧
      (policy = .mostSpecific →
        ∀ q ∈ rules, ∀ other, claim? rules k q = some other → other ≤ rank) := by
  unfold leads
  cases hr : claim? rules k r with
  | none => simp
  | some rank =>
    cases policy with
    | strict => simp
    | mostSpecific =>
      simp only [List.all_eq_true, Option.all_eq_true, decide_eq_true_eq, Option.some.injEq,
        exists_eq_left', true_implies]

/-- Having the say belongs to the declared key. -/
theorem leads_congr (r q : Rule σ ε χ ω) (h : r.key = q.key) :
    leads policy rules k r = leads policy rules k q := by
  rw [Bool.eq_iff_iff, leads_iff, leads_iff, claim?_congr h]

/-- Having the say depends on the set of rules only. -/
theorem leads_of_mem_iff (h : ∀ r, r ∈ rules ↔ r ∈ rules') (r : Rule σ ε χ ω) :
    leads policy rules k r = leads policy rules' k r := by
  rw [Bool.eq_iff_iff, leads_iff, leads_iff]
  simp only [claim?_of_mem_iff h, h]

theorem mem_of_mem_contenders {r : Rule σ ε χ ω} (h : r ∈ contenders policy rules k) :
    r ∈ rules ∧ leads policy rules k r = true :=
  List.mem_filter.1 (mem_of_mem_distinctBy h)

/-- Contenders are first rules of their declared keys. -/
theorem contenders_subset_distinctBy : contenders policy rules k ⊆ distinctBy key rules := by
  rw [contenders, distinctBy_filter leads_congr]
  exact List.filter_sublist.subset

/-- Contenders are in order of declaration. -/
theorem contenders_sublist : (contenders policy rules k).Sublist rules :=
  (distinctBy_sublist _).trans List.filter_sublist

/-- Contenders are told apart by their declared keys. -/
theorem nodup_key_contenders : ((contenders policy rules k).map key).Nodup :=
  List.pairwise_map.2 (pairwise_distinctBy key _)

/-- The declared keys of contenders tell who the contenders are. -/
theorem contenders_eq_of_map_key_eq
    (h : (contenders policy rules k).map key = (contenders policy rules k').map key) :
    contenders policy rules k = contenders policy rules k' := by
  rw [← filterMap_find?_key (contenders_subset_distinctBy (k := k)), h,
    filterMap_find?_key contenders_subset_distinctBy]

/-- A rule that leads has a contender of its declared key, which leads to the same state. -/
theorem exists_contender {r : Rule σ ε χ ω} (hr : r ∈ rules) (h : leads policy rules k r = true) :
    ∃ q ∈ contenders policy rules k, q.key = r.key ∧ q.next = r.next := by
  obtain ⟨q, hq, hqr⟩ := exists_mem_distinctBy key (List.mem_filter.2 ⟨hr, h⟩)
  obtain ⟨rank, hrank, -⟩ := leads_iff.1 h
  obtain ⟨settled, -⟩ := claim?_iff.1 hrank
  exact ⟨q, hq, hqr, settled q (mem_of_mem_contenders hq).1 r hr hqr rfl⟩

end Rule

/-! ## Claimants -/

namespace Claimant

variable {rules : List (Rule σ ε χ ω)} {k : DispatchKey σ ε}

/-- The claimants are the standing rules with coherent conditions. -/
theorem mem_ofRules_iff {c : Claimant σ ε χ ω} :
    c ∈ ofRules rules ↔ c.rule ∈ Rule.standing rules ∧
      Rule.expansion rules c.rule.condition = .ok c.coverage := by
  rw [ofRules, List.mem_filterMap]
  constructor
  · rintro ⟨r, hr, hc⟩
    cases he : Rule.expansion rules r.condition with
    | error e => simp [he] at hc
    | ok coverage =>
      rw [he] at hc
      obtain rfl := Option.some.inj hc
      exact ⟨hr, he⟩
  · rintro ⟨hr, he⟩
    exact ⟨c.rule, hr, by rw [he]⟩

omit [DecidableEq σ] [DecidableEq ε] in
/-- A rule claims the keys that are listed for it, whatever branches and families it is expanded
from. -/
theorem mem_keys_ofBranches {r : Rule σ ε χ ω} {branches : List Combination} {fs : List Family} :
    k ∈ (Claimant.mk r (.ofBranches branches fs)).keys ↔
      (Claimant.mk r (.ofBranches branches fs)).Claims k := by
  rw [keys, List.mem_map]
  constructor
  · rintro ⟨d, hd, rfl⟩
    exact ⟨rfl, rfl, Coverage.mem_combinations.1 hd⟩
  · rintro ⟨hs, he, hd⟩
    refine ⟨k.combination, Coverage.mem_combinations.2 hd, ?_⟩
    rw [hs, he]

/-- A claimant claims the keys that it lists. -/
theorem mem_keys_iff {c : Claimant σ ε χ ω} (hc : c ∈ ofRules rules) :
    k ∈ c.keys ↔ c.Claims k := by
  obtain ⟨r, coverage⟩ := c
  have expanded : coverage = .ofBranches (Rule.representative rules r.condition).branches
      (Rule.mentionedFamilies rules) := (Rule.expansion_eq_ok_iff.1 (mem_ofRules_iff.1 hc).2).2
  rw [expanded]
  exact mem_keys_ofBranches

/-- The new keys are those that someone claims and nobody claimed before. -/
theorem mem_newKeys_iff {earlier later : List (Claimant σ ε χ ω)}
    (h : ∀ c ∈ later, ∀ k, k ∈ c.keys ↔ c.Claims k) :
    k ∈ newKeys earlier later ↔ (∃ c ∈ later, c.Claims k) ∧ ¬∃ e ∈ earlier, e.Claims k := by
  induction later generalizing earlier with
  | nil => simp [newKeys]
  | cons c later ih =>
    rw [newKeys, List.mem_append, List.mem_filter, h c (by simp),
      ih fun d hd => h d (List.mem_cons_of_mem c hd), decide_eq_true_eq]
    constructor
    · rintro (⟨hc, hn⟩ | ⟨⟨d, hd, hdk⟩, hn⟩)
      · exact ⟨⟨c, by simp, hc⟩, hn⟩
      · refine ⟨⟨d, List.mem_cons_of_mem c hd, hdk⟩, ?_⟩
        rintro ⟨e, he, hek⟩
        exact hn ⟨e, List.mem_cons_of_mem c he, hek⟩
    · rintro ⟨⟨d, hd, hdk⟩, hn⟩
      by_cases hc : c.Claims k
      · exact Or.inl ⟨hc, hn⟩
      · refine Or.inr ⟨⟨d, ?_, hdk⟩, ?_⟩
        · rcases List.mem_cons.1 hd with rfl | hd
          · exact absurd hdk hc
          · exact hd
        · rintro ⟨e, he, hek⟩
          rcases List.mem_cons.1 he with rfl | he
          · exact hc hek
          · exact hn ⟨e, he, hek⟩

/-- No key is claimed anew twice. -/
theorem nodup_newKeys {earlier later : List (Claimant σ ε χ ω)}
    (h : ∀ c ∈ later, ∀ k, k ∈ c.keys ↔ c.Claims k) : (newKeys earlier later).Nodup := by
  induction later generalizing earlier with
  | nil => exact List.nodup_nil
  | cons c later ih =>
    have once : c.keys.Nodup := by
      refine (SortedSet.nodup_toList _).map ?_
      intro a b hab
      exact congrArg DispatchKey.combination hab
    have rest : ∀ d ∈ later, ∀ k, k ∈ d.keys ↔ d.Claims k :=
      fun d hd => h d (List.mem_cons_of_mem c hd)
    rw [newKeys]
    refine List.Nodup.append (once.filter _) (ih rest) ?_
    intro k hk hk'
    -- the claimant that a new key was found for is among the earlier ones later on
    have claimed := (h c List.mem_cons_self k).1 (List.mem_filter.1 hk).1
    exact ((mem_newKeys_iff rest).1 hk').2 ⟨c, List.mem_cons_self, claimed⟩

/-- What a claimant has at a key is the claim of its rule. -/
theorem rankAt?_eq {r : Rule σ ε χ ω} {coverage : Coverage} (hr : Rule.Settled rules r)
    (he : Rule.expansion rules r.condition = .ok coverage) :
    (Claimant.mk r coverage).rankAt? k = Rule.claim? rules k r := by
  obtain ⟨hco, rfl⟩ := Rule.expansion_eq_ok_iff.1 he
  have alike := Rule.representative_alike rules r.condition
  unfold rankAt? Rule.claim?
  rw [Coverage.rankOf?_congr alike.branches (fun _ => Iff.rfl) k.combination]
  simp only [hr, hco, true_and]

/-- The ranked claimants of a key are the first rules of the declared keys that claim it. -/
theorem ranked_eq (rules : List (Rule σ ε χ ω)) (k : DispatchKey σ ε) :
    ranked (ofRules rules) k =
      (distinctBy Rule.key rules).filterMap fun r => (Rule.claim? rules k r).map (r, ·) := by
  rw [ranked, ofRules, Rule.standing_eq, List.filterMap_filterMap, List.filterMap_filter]
  apply List.filterMap_congr
  intro r _
  by_cases hs : Rule.Settled rules r
  · rw [if_pos (decide_eq_true hs)]
    cases he : Rule.expansion rules r.condition with
    | ok coverage => rw [Option.bind_some, rankAt?_eq hs he]
    | error e =>
      have hco : ¬r.condition.Coherent := by
        intro hco
        have ok : ∃ coverage, Rule.expansion rules r.condition = .ok coverage :=
          ⟨_, Rule.expansion_eq_ok_iff.2 ⟨hco, rfl⟩⟩
        simp [he] at ok
      rw [Option.bind_none, Rule.claim?, if_neg fun h => hco h.2.1, Option.map_none]
  · rw [if_neg fun h => hs (of_decide_eq_true h), Rule.claim?, if_neg fun h => hs h.1,
      Option.map_none]

/-- The claimed keys are those at which some claimant is ranked. -/
theorem mem_claimedKeys_iff_ranked {claimants : List (Claimant σ ε χ ω)}
    (h : ∀ c ∈ claimants, ∀ k, k ∈ c.keys ↔ c.Claims k) :
    k ∈ claimedKeys claimants ↔ ranked claimants k ≠ [] := by
  rw [claimedKeys, mem_newKeys_iff h]
  have isSome : ∀ c : Claimant σ ε χ ω, (c.rankAt? k).isSome ↔ c.Claims k := by
    intro c
    unfold rankAt? Claims
    by_cases h : c.rule.state = k.state ∧ c.rule.event = k.event
    · rw [if_pos h, Coverage.isSome_rankOf?]
      simp [h.1, h.2]
    · rw [if_neg h]
      simp only [Option.isSome_none, Bool.false_eq_true, false_iff]
      exact fun hc => h ⟨hc.1, hc.2.1⟩
  constructor
  · rintro ⟨⟨c, hc, hck⟩, -⟩
    obtain ⟨rank, hrank⟩ := Option.isSome_iff_exists.1 ((isSome c).2 hck)
    exact List.ne_nil_of_mem (List.mem_filterMap.2 ⟨c, hc, by rw [hrank, Option.map_some]⟩)
  · intro h
    obtain ⟨claim, hclaim⟩ := List.exists_mem_of_ne_nil _ h
    obtain ⟨c, hc, hck⟩ := List.mem_filterMap.1 hclaim
    have some_rank : (c.rankAt? k).isSome := by
      rw [← Option.isSome_map, hck, Option.isSome_some]
    exact ⟨⟨c, hc, (isSome c).1 some_rank⟩, by simp⟩

end Claimant

/-! ## Selection -/

namespace OverlapPolicy

/-- To rank elements, keep some ranks and forget them again is to keep the elements of such
ranks. -/
theorem map_fst_filter_filterMap {α β : Type} (rank? : α → Option β) (p : β → Bool) (xs : List α) :
    ((xs.filterMap fun x => (rank? x).map (x, ·)).filter fun y => p y.2).map Prod.fst =
      xs.filter fun x => (rank? x).any p := by
  induction xs with
  | nil => rfl
  | cons x xs ih =>
    cases hx : rank? x with
    | none =>
      rw [List.filterMap_cons_none (by rw [hx, Option.map_none]), ih]
      simp [hx]
    | some rank =>
      rw [List.filterMap_cons_some (by rw [hx, Option.map_some])]
      by_cases hp : p rank = true
      · simp [hx, hp, ih]
      · simp [hx, hp, ih]

/-- The policy picks the contenders among the ranked claimants. -/
theorem select_ranked (policy : OverlapPolicy) (rules : List (Rule σ ε χ ω)) (k : DispatchKey σ ε) :
    policy.select (Claimant.ranked (Claimant.ofRules rules) k) =
      Rule.contenders policy rules k := by
  rw [Rule.contenders, distinctBy_filter Rule.leads_congr, Claimant.ranked_eq]
  cases policy with
  | strict =>
    have all_kept := map_fst_filter_filterMap (Rule.claim? rules k) (fun _ => true)
      (distinctBy Rule.key rules)
    rw [List.filter_eq_self.2 fun _ _ => rfl] at all_kept
    rw [select, all_kept]
    apply List.filter_congr
    intro r _
    unfold Rule.leads
    cases Rule.claim? rules k r <;> rfl
  | mostSpecific =>
    generalize hranks : ((distinctBy Rule.key rules).filterMap fun r =>
      (Rule.claim? rules k r).map (r, ·)) = ranks
    -- the ranks of the claimants are those of all rules, since a claim belongs to the declared key
    have mem_ranks : ∀ n, n ∈ ranks.map Prod.snd ↔ ∃ r ∈ rules, Rule.claim? rules k r = some n := by
      intro n
      rw [← hranks, List.mem_map]
      constructor
      · rintro ⟨claim, hclaim, rfl⟩
        obtain ⟨r, hr, hrk⟩ := List.mem_filterMap.1 hclaim
        obtain ⟨m, hm, rfl⟩ := Option.map_eq_some_iff.1 hrk
        exact ⟨r, mem_of_mem_distinctBy hr, hm⟩
      · rintro ⟨r, hr, hrn⟩
        obtain ⟨q, hq, hqr⟩ := exists_mem_distinctBy Rule.key hr
        refine ⟨(q, n), List.mem_filterMap.2 ⟨q, hq, ?_⟩, rfl⟩
        rw [Rule.claim?_congr hqr, hrn, Option.map_some]
    have top := map_fst_filter_filterMap (Rule.claim? rules k)
      (fun n => decide (n = (ranks.map Prod.snd).max?.getD 0)) (distinctBy Rule.key rules)
    rw [hranks] at top
    rw [select, top]
    apply List.filter_congr
    intro r hr
    rw [Bool.eq_iff_iff, Rule.leads_iff]
    cases hrk : Rule.claim? rules k r with
    | none => simp
    | some n =>
      have hn : n ∈ ranks.map Prod.snd := (mem_ranks n).2 ⟨r, mem_of_mem_distinctBy hr, hrk⟩
      obtain ⟨m, hm⟩ := Option.isSome_iff_exists.1 (List.isSome_max?_of_mem hn)
      have greatest := List.max?_eq_some_iff.1 hm
      rw [hm, Option.getD_some, Option.any_some, decide_eq_true_eq]
      constructor
      · rintro rfl
        refine ⟨n, rfl, fun _ q hq other hother => ?_⟩
        exact greatest.2 other ((mem_ranks other).2 ⟨q, hq, hother⟩)
      · rintro ⟨rank, hrank, hmax⟩
        obtain rfl := Option.some.inj hrank
        obtain ⟨q, hq, hqm⟩ := (mem_ranks m).1 greatest.1
        exact Nat.le_antisymm (greatest.2 n hn) (hmax rfl q hq m hqm)

omit [DecidableEq σ] [DecidableEq ε] in
/-- Where there are claimants, somebody has the say. -/
theorem select_eq_nil_iff {policy : OverlapPolicy} {ranked : List (Rule σ ε χ ω × Nat)} :
    policy.select ranked = [] ↔ ranked = [] := by
  cases policy with
  | strict => rw [select, List.map_eq_nil_iff]
  | mostSpecific =>
    rw [select, List.map_eq_nil_iff]
    constructor
    · intro h
      by_contra hne
      obtain ⟨claim, hclaim⟩ := List.exists_mem_of_ne_nil _ hne
      obtain ⟨top, htop⟩ := Option.isSome_iff_exists.1
        (List.isSome_max?_of_mem (List.mem_map_of_mem (f := Prod.snd) hclaim))
      obtain ⟨best, hbest, hrank⟩ := List.mem_map.1 (List.max?_eq_some_iff.1 htop).1
      have := List.filter_eq_nil_iff.1 h best hbest
      simp [htop, hrank] at this
    · rintro rfl
      rfl

end OverlapPolicy

end TableMachine
