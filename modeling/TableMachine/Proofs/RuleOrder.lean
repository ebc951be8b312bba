import Mathlib.Data.List.Perm.Basic
import TableMachine.Proofs.Acceptance
import TableMachine.Proofs.Reports

/-!
# The order of rules

Many steps of compilation go by the order of declaration: which family comes first, which rule
stands for its key, which contender wins. All of them only choose among rules that say the same. The
notions that decide the outcome depend on the set of rules alone, so reordering rules, none of which
is overriding, changes neither whether a draft compiles nor where its table leads nor which keys a
failure reports.

**Main statements.** A reordered draft remains acceptable (`Draft.Acceptable.perm`), and its table
leads to the same states (`Draft.at?_next_of_mem_iff`).
-/

namespace TableMachine

variable {σ ε χ ω : Type} [DecidableEq σ] [DecidableEq ε]

/-! ## Scans of reordered rules -/

namespace Rule

variable {rules rules' : List (Rule σ ε χ ω)}

theorem covering_perm (h : rules.Perm rules') (state : σ) (event : ε) (c : Combination) :
    (covering rules state event c).Perm (covering rules' state event c) :=
  h.filter _

/-- Whether a key is disputed depends on the set of rules only. -/
theorem undisputed_of_mem_iff (h : ∀ r, r ∈ rules ↔ r ∈ rules') {policy : OverlapPolicy}
    {k : DispatchKey σ ε} : Undisputed policy rules k ↔ Undisputed policy rules' k := by
  unfold Undisputed
  simp only [h, leads_of_mem_iff h]

omit [DecidableEq σ] [DecidableEq ε] in
/-- Whether no two rules have one declared key does not depend on their order. -/
theorem pairwise_not_sameKey_perm (h : rules.Perm rules') :
    (rules.Pairwise fun r q => ¬r.SameKey q) ↔ rules'.Pairwise fun r q => ¬r.SameKey q := by
  rw [← nodup_key_iff, ← nodup_key_iff]
  exact (h.map key).nodup_iff

end Rule

omit [DecidableEq σ] [DecidableEq ε] in
theorem OverlapPolicy.deciding_perm (policy : OverlapPolicy) {rules rules' : List (Rule σ ε χ ω)}
    (h : rules.Perm rules') (c : Combination) :
    (policy.deciding rules c).Perm (policy.deciding rules' c) := by
  cases policy with
  | strict => exact h
  | mostSpecific =>
    have same : (fun r : Rule σ ε χ ω =>
        decide (∀ q ∈ rules, q.condition.rankAt c ≤ r.condition.rankAt c)) =
        fun r => decide (∀ q ∈ rules', q.condition.rankAt c ≤ r.condition.rankAt c) := by
      funext r
      simp only [h.mem_iff]
    unfold deciding
    rw [same]
    exact h.filter _

/-! ## Reordered drafts -/

namespace Draft

variable {d : Draft σ ε χ ω} {rules : List (Rule σ ε χ ω)} {options : CompileOptions}

/-- An acceptable draft without overriding rules remains so if its rules are reordered. -/
theorem Acceptable.perm (h : d.Acceptable options) (hp : d.rules.Perm rules)
    (hov : ∀ r ∈ d.rules, r.overriding = false) :
    Acceptable { d with rules } options := by
  have hov' : ∀ r ∈ rules, r.overriding = false := fun r hr => hov r (hp.mem_iff.2 hr)
  have mem : ∀ r, r ∈ Rule.survivors rules ↔ r ∈ Rule.survivors d.rules := by
    intro r
    rw [Rule.survivors_eq_self hov, Rule.survivors_eq_self hov', hp.mem_iff]
  have survivors : (Rule.survivors d.rules).Perm (Rule.survivors rules) := by
    rw [Rule.survivors_eq_self hov, Rule.survivors_eq_self hov']
    exact hp
  have full : ∀ c, Combination.Full (Rule.mentionedFamilies (Rule.survivors rules)) c →
      Combination.Full (Rule.mentionedFamilies (Rule.survivors d.rules)) c := by
    intro c hc
    exact (Combination.full_congr (Rule.mem_mentionedFamilies_congr mem)).1 hc
  have scan : ∀ state event c, (options.overlap.deciding
      (Rule.covering (Rule.survivors d.rules) state event c) c).Perm
      (options.overlap.deciding (Rule.covering (Rule.survivors rules) state event c) c) := by
    intro state event c
    exact options.overlap.deciding_perm (Rule.covering_perm survivors state event c) c
  refine
    { unnoted := h.unnoted
      inhabited := fun hnil => h.inhabited (hp.trans (List.Perm.of_eq hnil)).eq_nil
      replacing := Rule.allReplace_of_not_overriding hov'
      listed := fun r hr => h.listed r ((mem r).1 hr)
      coherent := fun r hr => h.coherent r ((mem r).1 hr)
      settled := fun r hr q hq => h.settled r ((mem r).1 hr) q ((mem q).1 hq)
      agreed := ?_
      distinct := fun hreject => (Rule.pairwise_not_sameKey_perm survivors).1 (h.distinct hreject)
      single := ?_ }
  · intro state event c hc p hp q hq
    exact h.agreed state event c (full c hc) p ((scan state event c).mem_iff.2 hp) q
      ((scan state event c).mem_iff.2 hq)
  · intro hreject state event c hc
    rw [← (scan state event c).length_eq]
    exact h.single hreject state event c (full c hc)

/-- Reordered rules lead to the same state at every key, if they compile in both orders. -/
theorem at?_next_of_mem_iff {d' : Draft σ ε χ ω} {t t' : DispatchTable σ ε χ ω}
    (h : d.compile options = .ok t) (h' : d'.compile options = .ok t')
    (hmem : ∀ r, r ∈ Rule.survivors d.rules ↔ r ∈ Rule.survivors d'.rules) (k : DispatchKey σ ε) :
    (t.at? k).map Rule.next = (t'.at? k).map Rule.next := by
  have undisputed := undisputed_of_compile h k
  rw [at?_eq_find? h, at?_eq_find? h']
  cases hf : (Rule.survivors d.rules).find?
      (Rule.leads options.overlap (Rule.survivors d.rules) k) with
  | none =>
    have nobody : (Rule.survivors d'.rules).find?
        (Rule.leads options.overlap (Rule.survivors d'.rules) k) = none := by
      rw [List.find?_eq_none]
      intro r hr hl
      rw [← Rule.leads_of_mem_iff hmem] at hl
      exact List.find?_eq_none.1 hf r ((hmem r).2 hr) hl
    rw [nobody]
  | some w =>
    have hw := List.find?_some hf
    cases hf' : (Rule.survivors d'.rules).find?
        (Rule.leads options.overlap (Rule.survivors d'.rules) k) with
    | none =>
      have absent := List.find?_eq_none.1 hf' w ((hmem w).1 (List.mem_of_find?_eq_some hf))
      rw [← Rule.leads_of_mem_iff hmem] at absent
      exact absurd hw absent
    | some w' =>
      have hw' := List.find?_some hf'
      rw [← Rule.leads_of_mem_iff hmem] at hw'
      rw [Option.map_some, Option.map_some, undisputed w (List.mem_of_find?_eq_some hf) w'
        ((hmem w').2 (List.mem_of_find?_eq_some hf')) hw hw']

/-- Reordering rules, none of which is overriding, decides nothing: the draft compiles in one order
exactly if it compiles in the other. If it does, the tables have the same keys and families and lead
to the same states; if not, the failures report the same contested keys and the same clashes. -/
theorem order_irrelevant (hp : d.rules.Perm rules) (hov : ∀ r ∈ d.rules, r.overriding = false)
    (options : CompileOptions) :
    ((∃ t, d.compile options = .ok t) ↔ ∃ t, Draft.compile { d with rules } options = .ok t) ∧
    (∀ t t', d.compile options = .ok t → Draft.compile { d with rules } options = .ok t' →
      (∀ k, k ∈ t.entries.map Prod.fst ↔ k ∈ t'.entries.map Prod.fst) ∧
      (∀ f, f ∈ t.families ↔ f ∈ t'.families) ∧
      ∀ k, (t.at? k).map Rule.next = (t'.at? k).map Rule.next) ∧
    ∀ f f', d.compile options = .error f → Draft.compile { d with rules } options = .error f' →
      (∀ k, Fault.ReportContest f.faults k ↔ Fault.ReportContest f'.faults k) ∧
      ∀ key, Fault.ReportClash f.faults key ↔ Fault.ReportClash f'.faults key := by
  have hov' : ∀ r ∈ rules, r.overriding = false := fun r hr => hov r (hp.mem_iff.2 hr)
  have mem : ∀ r, r ∈ Rule.survivors d.rules ↔ r ∈ Rule.survivors rules := by
    intro r
    rw [Rule.survivors_eq_self hov, Rule.survivors_eq_self hov', hp.mem_iff]
  refine ⟨?_, ?_, ?_⟩
  · rw [exists_compile_eq_ok_iff, exists_compile_eq_ok_iff]
    constructor
    · intro h
      exact h.perm hp hov
    · intro h
      exact h.perm hp.symm hov'
  · intro t t' h h'
    -- the next states also tell where there is an entry
    have next := at?_next_of_mem_iff h h' mem
    refine ⟨?_, ?_, next⟩
    · intro k
      rw [← DispatchTable.isSome_at?_iff, ← DispatchTable.isSome_at?_iff, ← Option.isSome_map,
        next k, Option.isSome_map]
    · intro f
      rw [families_eq h, families_eq h']
      exact Rule.mem_mentionedFamilies_congr mem f
  · intro f f' h h'
    constructor
    · intro k
      rw [reportContest_iff h, reportContest_iff h', Rule.undisputed_of_mem_iff mem]
    · intro key
      rw [reportClash_iff h, reportClash_iff h']
      simp only [mem, Rule.settled_of_mem_iff mem]

/-- The turnstile compiles with its rules in reverse order. -/
theorem turnstile_reversed_compiles :
    ∃ t, Draft.compile
      { Turnstile.draft true with rules := (Turnstile.draft true).rules.reverse } {} = .ok t := by
  have compiles : ∃ t, (Turnstile.draft true).compile {} = .ok t :=
    exists_compile_of_toBool (by rfl)
  have none_overriding : ∀ r ∈ (Turnstile.draft true).rules, r.overriding = false := by
    decide +kernel
  exact (order_irrelevant (List.reverse_perm _).symm none_overriding {}).1.1 compiles

end Draft

end TableMachine
