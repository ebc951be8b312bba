import Mathlib.Data.List.Perm.Subperm
import TableMachine.Proofs.DirectScan
import TableMachine.Proofs.Reports

/-!
# Reported conflicts are real

Compilation remarks on a draft either by the faults of a failure or by the warnings of a table.
Whatever it remarks about rules at odds, or about rules that say the same, can be checked against
the surviving rules without running it again (`Genuine`), and is remarked once only.

Nothing is assumed about the rules. Where a condition contradicts itself or mentions unlisted
values, the draft is refused, but the conflicts reported besides are as real as in any other draft
(`Draft.genuine_remarks`).
-/

namespace TableMachine

variable {σ ε χ ω : Type}

/-! ## Conflicts among rules -/

namespace Rule

/-- Two rules or more, in order, that have one declared key and lead to different states each. -/
structure Clashing (rules group : List (Rule σ ε χ ω)) : Prop where
  /-- They are among the rules, in order of declaration. -/
  declared : group.Sublist rules
  /-- They are two at least. -/
  plural : 2 ≤ group.length
  /-- They are for one state and one event, and their conditions are alike. -/
  sameKey : ∀ p ∈ group, ∀ q ∈ group, p.SameKey q
  /-- No two of them lead to one state. -/
  apart : group.Pairwise fun p q => p.next ≠ q.next

/-- Two rules or more, in order, that apply at the key and do not all lead to one state. -/
structure Contesting (policy : OverlapPolicy) (rules : List (Rule σ ε χ ω)) (k : DispatchKey σ ε)
    (group : List (Rule σ ε χ ω)) : Prop where
  /-- They are among the rules, in order of declaration. -/
  declared : group.Sublist rules
  /-- They are two at least. -/
  plural : 2 ≤ group.length
  /-- Two of them lead to different states. -/
  apart : ∃ p ∈ group, ∃ q ∈ group, p.next ≠ q.next
  /-- No two of them have like conditions. -/
  unlike : group.Pairwise fun p q => ¬p.condition.Alike q.condition
  /-- They are for the state and the event, and their conditions hold of the combination. -/
  applying : ∀ r ∈ group, r.Applies k.state k.event k.combination
  /-- If the most specific rules have the say, they have one rank at the combination. -/
  ranked : policy = .mostSpecific → ∃ rank, ∀ r ∈ group, ∃ coverage,
    r.condition.coverage (mentionedFamilies rules) = .ok coverage ∧
      coverage.rankOf? k.combination = some rank
  /-- The combination holds one value of every family that the rules mention. -/
  spanning : ∀ f ∈ mentionedFamilies rules, ∃! v, v ∈ k.combination ∧ v.family = f

/-- Two rules or more, in order, that say the same. -/
structure Duplicating (rules group : List (Rule σ ε χ ω)) : Prop where
  /-- They are among the rules, in order of declaration. -/
  declared : group.Sublist rules
  /-- They are two at least. -/
  plural : 2 ≤ group.length
  /-- They lead from one state, on one event, to one state. -/
  agreeing : ∀ p ∈ group, ∀ q ∈ group, p.state = q.state ∧ p.event = q.event ∧ p.next = q.next
  /-- All their conditions are alike, or all of them cover some combination. -/
  meeting : (∀ p ∈ group, ∀ q ∈ group, p.condition.Alike q.condition) ∨
    ∃ c, ∀ r ∈ group, ∃ coverage,
      r.condition.coverage (mentionedFamilies rules) = .ok coverage ∧ c ∈ coverage.combinations

end Rule

/-! ## Remarks -/

namespace Fault

/-- The groups of clashing rules that a fault shows. -/
def clashGroups : Fault σ ε → List (List (Summary σ ε))
  | .clashes groups => groups
  | _ => []

/-- The contested keys that a fault shows. -/
def contestedKeys : Fault σ ε → List (Contest σ ε)
  | .contests keys => keys
  | _ => []

/-- The groups of rules that say the same that a fault shows. -/
def duplicateGroups : Fault σ ε → List (List (Summary σ ε))
  | .duplicates groups => groups
  | _ => []

end Fault

/-- What faults show of clashes, contested keys and duplicates is the case, and is shown once. -/
structure Genuine (policy : OverlapPolicy) (rules : List (Rule σ ε χ ω))
    (faults : List (Fault σ ε)) : Prop where
  /-- The groups of clashing rules are such. -/
  clashes : ∀ g ∈ faults.flatMap Fault.clashGroups,
    ∃ group, Rule.Clashing rules group ∧ g = group.map Rule.summary
  /-- No declared key has two of them. -/
  clashes_once : (faults.flatMap Fault.clashGroups).Pairwise fun g g' =>
    ∀ s ∈ g, ∀ s' ∈ g', s.key ≠ s'.key
  /-- The contested keys are such, and the rules shown contest them. -/
  contests : ∀ c ∈ faults.flatMap Fault.contestedKeys,
    ∃ group, Rule.Contesting policy rules c.key group ∧ c.rules = group.map Rule.summary
  /-- No key is contested twice. -/
  contests_once : ((faults.flatMap Fault.contestedKeys).map Contest.key).Nodup
  /-- The groups of rules that say the same are such. -/
  duplicates : ∀ g ∈ faults.flatMap Fault.duplicateGroups,
    ∃ group, Rule.Duplicating rules group ∧ g = group.map Rule.summary
  /-- No group is shown twice. -/
  duplicates_once : (faults.flatMap Fault.duplicateGroups).Nodup

variable [DecidableEq σ] [DecidableEq ε]

/-- What compilation has to say about a draft, be it in warnings or in a failure. -/
def Draft.remarks (d : Draft σ ε χ ω) (options : CompileOptions) : List (Fault σ ε) :=
  match d.compile options with
  | .ok t => t.warnings
  | .error f => f.faults

/-! ## Clashes -/

namespace Rule

variable {rules group : List (Rule σ ε χ ω)}

theorem clashing_of_mem (h : group ∈ clashes rules) : Clashing rules group := by
  obtain ⟨r, -, hs, rfl⟩ := mem_clashes_iff.1 h
  have shared : ∀ p ∈ distinctBy next (sharing rules r), p.key = r.key :=
    fun p hp => (mem_sharing.1 (mem_of_mem_distinctBy hp)).2
  exact {
    declared := (distinctBy_sublist _).trans List.filter_sublist
    plural := one_lt_length_next_iff.2 hs
    sameKey p hp q hq := sameKey_iff.2 ((shared p hp).trans (shared q hq).symm)
    apart := pairwise_distinctBy next _ }

end Rule

/-! ## Contested keys -/

namespace Rule

variable {policy : OverlapPolicy} {rules : List (Rule σ ε χ ω)} {k : DispatchKey σ ε}
  {r : Rule σ ε χ ω}

/-- A rule covers the combinations of the keys that it claims, with the rank of the claim. -/
theorem exists_coverage_of_claim {rank : Nat} (h : claim? rules k r = some rank) :
    ∃ coverage, r.condition.coverage (mentionedFamilies rules) = .ok coverage ∧
      k.combination ∈ coverage.combinations ∧ coverage.rankOf? k.combination = some rank := by
  obtain ⟨-, hcoherent, -, -, hrank⟩ := claim?_iff.1 h
  refine ⟨_, Condition.coverage_eq_ok_iff.2 ⟨hcoherent, rfl⟩, ?_, hrank⟩
  rw [Coverage.mem_combinations, ← Coverage.isSome_rankOf?, hrank, Option.isSome_some]

/-- The combination of a claimed key extends a branch of the condition. -/
theorem exists_extends_of_claim {rank : Nat} (h : claim? rules k r = some rank) :
    ∃ b ∈ r.condition.branches, Combination.Extends (mentionedFamilies rules) b k.combination := by
  obtain ⟨-, -, -, -, hrank⟩ := claim?_iff.1 h
  obtain ⟨⟨b, hb, hbk, -⟩, -⟩ := Coverage.rankOf?_eq_some_iff.1 hrank
  exact ⟨b, hb, hbk⟩

theorem exists_claim_of_mem_contenders (h : r ∈ contenders policy rules k) :
    ∃ rank, claim? rules k r = some rank ∧ (policy = .mostSpecific →
      ∀ q ∈ contenders policy rules k, ∀ other, claim? rules k q = some other → other ≤ rank) := by
  obtain ⟨-, hl⟩ := mem_of_mem_contenders h
  obtain ⟨rank, hrank, hmax⟩ := leads_iff.1 hl
  exact ⟨rank, hrank, fun hpolicy q hq => hmax hpolicy q (mem_of_mem_contenders hq).1⟩

theorem applies_of_mem_contenders (h : r ∈ contenders policy rules k) :
    r.Applies k.state k.event k.combination := by
  obtain ⟨rank, hrank, -⟩ := exists_claim_of_mem_contenders h
  obtain ⟨-, -, hs, he, -⟩ := claim?_iff.1 hrank
  obtain ⟨b, hb, hbk⟩ := exists_extends_of_claim hrank
  exact ⟨hs, he, b, hb, hbk.holds⟩

/-- The contenders of a key that is not undisputed contest it. -/
theorem contesting_contenders (h : ¬Undisputed policy rules k) :
    Contesting policy rules k (contenders policy rules k) := by
  rw [undisputed_iff_contenders] at h
  push Not at h
  obtain ⟨p, hp, q, hq, hne⟩ := h
  obtain ⟨top, htop, hmax⟩ := exists_claim_of_mem_contenders hp
  exact {
    declared := contenders_sublist
    plural := by
      have two : [p, q].Nodup := by
        rw [List.nodup_cons, List.mem_singleton]
        exact ⟨fun e => hne (congrArg next e), List.nodup_singleton q⟩
      exact (List.subperm_of_subset two (by simp [hp, hq])).length_le
    apart := ⟨p, hp, q, hq, hne⟩
    unlike := by
      refine (List.pairwise_map.1 nodup_key_contenders).imp_of_mem ?_
      intro a b ha hb hkey halike
      obtain ⟨has, hae, -⟩ := applies_of_mem_contenders ha
      obtain ⟨hbs, hbe, -⟩ := applies_of_mem_contenders hb
      exact hkey (sameKey_iff.1 ⟨has.trans hbs.symm, hae.trans hbe.symm, halike⟩)
    applying _ := applies_of_mem_contenders
    ranked := by
      intro hpolicy
      refine ⟨top, ?_⟩
      intro r hr
      obtain ⟨rank, hrank, hmax'⟩ := exists_claim_of_mem_contenders hr
      have same : rank = top :=
        Nat.le_antisymm (hmax hpolicy r hr rank hrank) (hmax' hpolicy p hp top htop)
      obtain ⟨coverage, hcoverage, -, hc⟩ := exists_coverage_of_claim hrank
      exact ⟨coverage, hcoverage, same ▸ hc⟩
    spanning := by
      intro f hf
      obtain ⟨b, -, hbk⟩ := exists_extends_of_claim htop
      exact hbk.existsUnique hf }

/-! ## Duplicates -/

theorem duplicating_of_mem_repeats {group : List (Rule σ ε χ ω)} (h : group ∈ repeats rules) :
    Duplicating rules group := by
  obtain ⟨⟨r, -, rfl⟩, hplural⟩ := mem_repeats_iff.1 h
  have same : ∀ p ∈ agreeing rules r, p.SameKey r ∧ p.next = r.next := by
    intro p hp
    obtain ⟨-, hkey, hnext⟩ := mem_agreeing.1 hp
    exact ⟨sameKey_iff.2 hkey, hnext⟩
  exact {
    declared := List.filter_sublist
    plural := hplural
    agreeing := by
      intro p hp q hq
      obtain ⟨⟨hps, hpe, -⟩, hpn⟩ := same p hp
      obtain ⟨⟨hqs, hqe, -⟩, hqn⟩ := same q hq
      exact ⟨hps.trans hqs.symm, hpe.trans hqe.symm, hpn.trans hqn.symm⟩
    meeting := by
      left
      intro p hp q hq
      exact (same p hp).1.2.2.trans (same q hq).1.2.2.symm }

/-- The contenders of an undisputed key say the same, if there are two of them. -/
theorem duplicating_contenders (h : Undisputed policy rules k)
    (hplural : 1 < (contenders policy rules k).length) :
    Duplicating rules (contenders policy rules k) where
  declared := contenders_sublist
  plural := hplural
  agreeing := by
    intro p hp q hq
    obtain ⟨hps, hpe, -⟩ := applies_of_mem_contenders hp
    obtain ⟨hqs, hqe, -⟩ := applies_of_mem_contenders hq
    exact ⟨hps.trans hqs.symm, hpe.trans hqe.symm, undisputed_iff_contenders.1 h p hp q hq⟩
  meeting := by
    right
    refine ⟨k.combination, ?_⟩
    intro r hr
    obtain ⟨rank, hrank, -⟩ := exists_claim_of_mem_contenders hr
    obtain ⟨coverage, hcoverage, hc, -⟩ := exists_coverage_of_claim hrank
    exact ⟨coverage, hcoverage, hc⟩

end Rule

namespace Analysis

variable {policy : OverlapPolicy} {rules : List (Rule σ ε χ ω)}

theorem duplicating_of_mem {group : List (Rule σ ε χ ω)}
    (h : group ∈ (of policy rules).duplicates) :
    Rule.Duplicating (Rule.survivors rules) group := by
  rcases List.mem_append.1 h with hrepeats | hoverlaps
  · exact Rule.duplicating_of_mem_repeats hrepeats
  · obtain ⟨⟨k, hk, rfl⟩, hplural⟩ := Ruling.mem_overlaps_iff.1 hoverlaps
    exact Rule.duplicating_contenders hk hplural

/-- A group of duplicates is found once only: no other one says the same in the same order. -/
theorem pairwise_duplicates (policy : OverlapPolicy) (rules : List (Rule σ ε χ ω)) :
    (of policy rules).duplicates.Pairwise fun g g' =>
      g.map (fun r => (r.key, r.next)) ≠ g'.map fun r => (r.key, r.next) := by
  have keys : ∀ {g g' : List (Rule σ ε χ ω)},
      g.map (fun r => (r.key, r.next)) = g'.map (fun r => (r.key, r.next)) →
        g.map Rule.key = g'.map Rule.key := by
    intro g g' e
    have := congrArg (List.map Prod.fst) e
    rwa [List.map_map, List.map_map] at this
  change (Rule.repeats _ ++ Ruling.overlaps (Ruling.all policy (Claimant.ofRules _))).Pairwise _
  rw [List.pairwise_append]
  refine ⟨?_, ?_, ?_⟩
  · refine (Rule.pairwise_repeats _).imp_of_mem ?_
    intro g g' hg _ apart e
    obtain ⟨-, hplural⟩ := Rule.mem_repeats_iff.1 hg
    obtain ⟨p, hp⟩ := List.exists_mem_of_length_pos (Nat.lt_of_succ_lt hplural)
    have hp' := List.mem_map_of_mem (f := fun r : Rule σ ε χ ω => (r.key, r.next)) hp
    rw [e] at hp'
    obtain ⟨q, hq, hqp⟩ := List.mem_map.1 hp'
    exact apart p hp q hq hqp.symm
  · refine (pairwise_distinctBy (List.map Rule.key) _).imp ?_
    intro g g' hne e
    exact hne (keys e)
  · -- repeats have one declared key and contenders different ones
    intro g hg g' hg' e
    obtain ⟨⟨r, -, rfl⟩, hplural⟩ := Rule.mem_repeats_iff.1 hg
    obtain ⟨⟨k, -, rfl⟩, -⟩ := Ruling.mem_overlaps_iff.1 hg'
    have nodup : ((Rule.contenders policy (Rule.survivors rules) k).map Rule.key).Nodup :=
      Rule.nodup_key_contenders
    rw [← keys e] at nodup
    have single : (Rule.agreeing (of policy rules).survivors r).length ≤ 1 :=
      length_le_one_of_key nodup fun q hq => (Rule.mem_agreeing.1 hq).2.1
    omega

end Analysis

/-! ## All remarks -/

/-- Faults that show nothing else than what the analysis finds are genuine. -/
theorem Genuine.of_sublist {policy : OverlapPolicy} {rules : List (Rule σ ε χ ω)}
    {faults : List (Fault σ ε)}
    (hclashes : (faults.flatMap Fault.clashGroups).Sublist
      (Rule.summaries (Rule.clashes (Rule.survivors rules))))
    (hcontests : (faults.flatMap Fault.contestedKeys).Sublist
      ((Ruling.contested (Analysis.of policy rules).rulings).map Ruling.contest))
    (hduplicates : (faults.flatMap Fault.duplicateGroups).Sublist
      (Rule.summaries (Analysis.of policy rules).duplicates)) :
    Genuine policy (Rule.survivors rules) faults where
  clashes := by
    intro g hg
    obtain ⟨group, hgroup, rfl⟩ := List.mem_map.1 (hclashes.subset hg)
    exact ⟨group, Rule.clashing_of_mem hgroup, rfl⟩
  clashes_once := by
    refine List.Pairwise.sublist hclashes (List.pairwise_map.2 ?_)
    refine (Rule.pairwise_clashes _).imp ?_
    intro g g' apart s hs s' hs'
    obtain ⟨p, hp, rfl⟩ := List.mem_map.1 hs
    obtain ⟨q, hq, rfl⟩ := List.mem_map.1 hs'
    exact apart p hp q hq
  contests := by
    intro c hc
    obtain ⟨r, hr, rfl⟩ := List.mem_map.1 (hcontests.subset hc)
    obtain ⟨hr, hdisputed⟩ := Ruling.mem_contested_iff.1 hr
    refine ⟨r.contenders, ?_, rfl⟩
    rw [hr]
    exact Rule.contesting_contenders hdisputed
  contests_once := by
    refine (hcontests.map Contest.key).nodup ?_
    rw [List.map_map]
    exact (Ruling.nodup_key_all policy _).sublist (List.filter_sublist.map Ruling.key)
  duplicates := by
    intro g hg
    obtain ⟨group, hgroup, rfl⟩ := List.mem_map.1 (hduplicates.subset hg)
    exact ⟨group, Analysis.duplicating_of_mem hgroup, rfl⟩
  duplicates_once := by
    refine hduplicates.nodup (List.pairwise_map.2 ?_)
    refine (Analysis.pairwise_duplicates policy rules).imp ?_
    intro g g' hne e
    have said : ∀ g : List (Rule σ ε χ ω), g.map (fun r => (r.key, r.next)) =
        (g.map Rule.summary).map fun s => (s.key, s.next) := by
      intro g
      rw [List.map_map]
      rfl
    exact hne (by rw [said, said, e])

omit [DecidableEq σ] [DecidableEq ε] in
/-- A fault that is not reported for an empty list may be read as if it were. -/
theorem Fault.flatMap_ofNonempty {α β : Type} {fault : List α → Fault σ ε}
    {read : Fault σ ε → List β} {xs : List α} (h : read (fault []) = []) :
    (ofNonempty fault xs).flatMap read = read (fault xs) := by
  cases xs with
  | nil => exact h.symm
  | cons x xs => simp [ofNonempty]

namespace Analysis

/-- Duplicates, where the policy wants them among the warnings or the faults, are read off there. -/
theorem flatMap_duplicateFaults {β : Type} {a : Analysis σ ε χ ω} {read : Fault σ ε → List β}
    (h : read (.duplicates []) = []) :
    a.duplicateFaults.flatMap read = read (.duplicates (Rule.summaries a.duplicates)) :=
  Fault.flatMap_ofNonempty h

theorem genuine_warnings (policy : OverlapPolicy) (duplicates : DuplicatePolicy)
    (rules : List (Rule σ ε χ ω)) :
    Genuine policy (Rule.survivors rules) ((of policy rules).warnings duplicates) := by
  cases duplicates with
  | warn =>
    rw [warnings]
    apply Genuine.of_sublist
    · rw [flatMap_duplicateFaults rfl]
      exact List.nil_sublist _
    · rw [flatMap_duplicateFaults rfl]
      exact List.nil_sublist _
    · rw [flatMap_duplicateFaults rfl]
      exact List.Sublist.refl _
  | reject =>
    exact Genuine.of_sublist (List.nil_sublist _) (List.nil_sublist _) (List.nil_sublist _)

end Analysis

namespace Draft

/-- What is found in the rules of a draft besides the faults noted in writing it. -/
def found (d : Draft σ ε χ ω) (a : Analysis σ ε χ ω) (duplicates : DuplicatePolicy) :
    List (Fault σ ε) :=
  (if d.isEmpty then [.emptyTable] else []) ++ a.faults duplicates

/-- Whoever reads a fault for conflicts among rules finds them in three places. -/
theorem flatMap_found {β : Type} {d : Draft σ ε χ ω} {a : Analysis σ ε χ ω}
    {read : Fault σ ε → List β} (hempty : read .emptyTable = [])
    (hidle : ∀ rule, read (.nothingToOverride rule) = [])
    (hunlisted : ∀ v place, read (.unlistedValue v place) = [])
    (hcontradiction : ∀ cause, read (.contradiction cause) = [])
    (hclashes : read (.clashes []) = []) (hcontests : read (.contests []) = []) :
    (d.found a duplicates).flatMap read = (a.rejected duplicates).flatMap read
      ++ read (.clashes (Rule.summaries (Rule.clashes a.survivors)))
      ++ read (.contests ((Ruling.contested a.rulings).map Ruling.contest)) := by
  have blank : (if d.isEmpty then [Fault.emptyTable] else []).flatMap read = [] := by
    split
    · simpa using hempty
    · rfl
  have silent : ∀ {α : Type} (fault : α → Fault σ ε) (xs : List α), (∀ x, read (fault x) = []) →
      (xs.map fault).flatMap read = [] := by
    intro α fault xs h
    rw [List.flatMap_map, List.flatMap_eq_nil_iff]
    exact fun x _ => h x
  have idle : (a.idle.map fun r => Fault.nothingToOverride r.summary).flatMap read = [] :=
    silent _ _ fun r => hidle r.summary
  have unlisted : ((Rule.unlistedValues a.survivors).map fun place =>
      Fault.unlistedValue place.1 place.2).flatMap read = [] :=
    silent _ _ fun place => hunlisted place.1 place.2
  rw [found, Analysis.faults]
  simp only [List.flatMap_append, blank, idle, unlisted, silent _ _ hcontradiction,
    Fault.flatMap_ofNonempty hclashes, Fault.flatMap_ofNonempty hcontests, List.nil_append]

theorem genuine_found (d : Draft σ ε χ ω) (policy : OverlapPolicy) (duplicates : DuplicatePolicy) :
    Genuine policy (Rule.survivors d.rules) (d.found (Analysis.of policy d.rules) duplicates) := by
  have rejected : ∀ {β : Type} (read : Fault σ ε → List β), read (.duplicates []) = [] →
      (((Analysis.of policy d.rules).rejected duplicates).flatMap read).Sublist
        (read (.duplicates (Rule.summaries (Analysis.of policy d.rules).duplicates))) := by
    intro β read h
    cases duplicates with
    | warn => exact List.nil_sublist _
    | reject => rw [Analysis.rejected, Analysis.flatMap_duplicateFaults h]
  have clashes_rejected := List.sublist_nil.1 (rejected Fault.clashGroups rfl)
  have contests_rejected := List.sublist_nil.1 (rejected Fault.contestedKeys rfl)
  apply Genuine.of_sublist
  · rw [flatMap_found rfl (fun _ => rfl) (fun _ _ => rfl) (fun _ => rfl) rfl rfl, clashes_rejected]
    simp [Fault.clashGroups, Analysis.of]
  · rw [flatMap_found rfl (fun _ => rfl) (fun _ _ => rfl) (fun _ => rfl) rfl rfl, contests_rejected]
    simp [Fault.contestedKeys]
  · rw [flatMap_found rfl (fun _ => rfl) (fun _ _ => rfl) (fun _ => rfl) rfl rfl]
    simpa [Fault.duplicateGroups] using rejected Fault.duplicateGroups rfl

/-- What is remarked on a draft is what was noted in writing it, then what is found in its rules.
Whatever of this is about clashes, contested keys and duplicates is genuine. -/
theorem genuine_remarks (d : Draft σ ε χ ω) (options : CompileOptions) :
    ∃ found, d.remarks options = d.faults ++ found ∧
      Genuine options.overlap (Rule.survivors d.rules) found := by
  unfold remarks
  cases h : d.compile options with
  | ok t =>
    obtain ⟨hnone, rfl⟩ := compile_eq_ok_iff.1 h
    obtain ⟨hnoted, -, -⟩ := allFaults_eq_nil_iff.1 hnone
    refine ⟨(Analysis.of options.overlap d.rules).warnings options.duplicates, ?_,
      Analysis.genuine_warnings ..⟩
    rw [hnoted, List.nil_append]
    rfl
  | error f =>
    refine ⟨d.found (Analysis.of options.overlap d.rules) options.duplicates, ?_, genuine_found ..⟩
    change f.faults = _
    rw [← compile_eq_error_iff.1 h, allFaults, found, List.append_assoc]

end Draft

end TableMachine
