import TableMachine.Proofs.Lookup

/-!
# What the policies change

Both policies only decide what is refused and which of several agreeing rules a table has. Under the
strict overlap policy all rules that apply have the say and must agree, under the other one only the
most specific of them. So a draft that the strict policy accepts is accepted by the other one too
(`Draft.Acceptable.relax`), and leads to the same states (`Draft.at?_next_relax`). If duplicates are
rejected, a draft compiles into the table that it compiles into without a warning otherwise
(`Draft.compile_reject_iff`).
-/

namespace TableMachine

variable {σ ε χ ω : Type} [DecidableEq σ] [DecidableEq ε]

/-! ## Duplicates -/

namespace Analysis

variable {a : Analysis σ ε χ ω}

/-- To reject duplicates adds them to the faults, and nothing else. -/
theorem faults_reject_eq_nil_iff :
    a.faults .reject = [] ↔ a.faults .warn = [] ∧ a.duplicateFaults = [] := by
  simp only [faults, rejected, List.append_eq_nil_iff]
  tauto

end Analysis

omit [DecidableEq σ] [DecidableEq ε] in
theorem Fault.length_ofNonempty_le {α : Type} (fault : List α → Fault σ ε) (xs : List α) :
    (Fault.ofNonempty fault xs).length ≤ 1 := by
  cases xs with
  | nil => exact Nat.zero_le 1
  | cons x xs => exact Nat.le_refl 1

/-- Tables that lead to the same states have the same keys. -/
theorem DispatchTable.mem_keys_iff_of_next_eq {t t' : DispatchTable σ ε χ ω}
    (h : ∀ k, (t'.at? k).map Rule.next = (t.at? k).map Rule.next) (k : DispatchKey σ ε) :
    k ∈ t'.entries.map Prod.fst ↔ k ∈ t.entries.map Prod.fst := by
  rw [← isSome_at?_iff, ← isSome_at?_iff, ← Option.isSome_map, h k, Option.isSome_map]

namespace Draft

variable {d : Draft σ ε χ ω} {overlap : OverlapPolicy} {t : DispatchTable σ ε χ ω}

/-- What is warned of is the duplicates, together in one fault. -/
theorem warnings_eq (h : d.compile ⟨.warn, overlap⟩ = .ok t) :
    t.warnings = (Analysis.of overlap d.rules).duplicateFaults := by
  obtain ⟨-, rfl⟩ := compile_eq_ok_iff.1 h
  rfl

/-- Where duplicates are rejected a draft compiles if it does so without a warning of them, and into
the same table. -/
theorem compile_reject_iff :
    d.compile ⟨.reject, overlap⟩ = .ok t ↔
      d.compile ⟨.warn, overlap⟩ = .ok t ∧ t.warnings = [] := by
  rw [compile_eq_ok_iff, compile_eq_ok_iff, allFaults_eq_nil_iff, allFaults_eq_nil_iff,
    Analysis.faults_reject_eq_nil_iff]
  refine ⟨?_, ?_⟩
  · rintro ⟨⟨hnoted, hrules, hfaults, hduplicates⟩, rfl⟩
    refine ⟨⟨⟨hnoted, hrules, hfaults⟩, ?_⟩, rfl⟩
    rw [tabulate, tabulate, Analysis.warnings, Analysis.warnings, hduplicates]
  · rintro ⟨⟨⟨hnoted, hrules, hfaults⟩, rfl⟩, hduplicates⟩
    have hduplicates : (Analysis.of overlap d.rules).duplicateFaults = [] := hduplicates
    refine ⟨⟨hnoted, hrules, hfaults, hduplicates⟩, ?_⟩
    rw [tabulate, tabulate, Analysis.warnings, Analysis.warnings, hduplicates]

/-! ## Overlaps -/

variable {duplicates : DuplicatePolicy} {t' : DispatchTable σ ε χ ω}

/-- A draft whose rules agree wherever they apply is acceptable if only some of them have the
say. -/
theorem Acceptable.relax (h : d.Acceptable ⟨duplicates, .strict⟩) :
    d.Acceptable ⟨duplicates, .mostSpecific⟩ where
  unnoted := h.unnoted
  inhabited := h.inhabited
  replacing := h.replacing
  listed := h.listed
  coherent := h.coherent
  settled := h.settled
  agreed state event c hc p hp q hq := by
    have sub := OverlapPolicy.deciding_sublist .mostSpecific
      (Rule.covering (Rule.survivors d.rules) state event c) c
    exact h.agreed state event c hc p (sub.subset hp) q (sub.subset hq)
  distinct := h.distinct
  single hreject state event c hc := by
    have sub := OverlapPolicy.deciding_sublist .mostSpecific
      (Rule.covering (Rule.survivors d.rules) state event c) c
    exact Nat.le_trans sub.length_le (h.single hreject state event c hc)

/-- The most specific rules lead where all rules that apply do. -/
theorem at?_next_relax (h : d.compile ⟨duplicates, .strict⟩ = .ok t)
    (h' : d.compile ⟨duplicates, .mostSpecific⟩ = .ok t') (k : DispatchKey σ ε) :
    (t'.at? k).map Rule.next = (t.at? k).map Rule.next := by
  have acceptable := exists_compile_eq_ok_iff.1 ⟨t, h⟩
  rw [at?_eq h, at?_eq h', families_eq h, families_eq h']
  by_cases hc : k.combination.Full (Rule.mentionedFamilies (Rule.survivors d.rules))
  · rw [if_pos hc, if_pos hc]
    generalize hcover : Rule.covering (Rule.survivors d.rules) k.state k.event k.combination = cover
    have agreed := acceptable.agreed k.state k.event k.combination hc
    rw [hcover] at agreed
    change _ = cover.head?.map Rule.next
    cases hbest : OverlapPolicy.deciding .mostSpecific cover k.combination with
    | nil => rw [OverlapPolicy.deciding_eq_nil_iff.1 hbest]
    | cons best others =>
      -- the rule found under either policy is one of those that apply
      have hmem : best ∈ cover := by
        apply (OverlapPolicy.deciding_sublist .mostSpecific cover k.combination).subset
        rw [hbest]
        exact List.mem_cons_self
      obtain ⟨first, hfirst⟩ := Option.isSome_iff_exists.1
        (List.isSome_head?.2 (List.ne_nil_of_mem hmem))
      rw [hfirst, List.head?_cons, Option.map_some, Option.map_some,
        agreed best hmem first (List.mem_of_head? hfirst)]
  · rw [if_neg hc, if_neg hc]

/-- What compiles under the strict overlap policy compiles under the other one, with the same keys
and the same states to lead to. What compiles if duplicates are rejected is what compiles without a
warning otherwise, into the same table. There is one warning at most, and it is of duplicates. -/
theorem compile_policies (d : Draft σ ε χ ω) :
    (∀ duplicates t, d.compile ⟨duplicates, .strict⟩ = .ok t →
      ∃ t', d.compile ⟨duplicates, .mostSpecific⟩ = .ok t' ∧
        (∀ k, k ∈ t'.entries.map Prod.fst ↔ k ∈ t.entries.map Prod.fst) ∧
        ∀ k, (t'.at? k).map Rule.next = (t.at? k).map Rule.next) ∧
    (∀ overlap t, d.compile ⟨.reject, overlap⟩ = .ok t ↔
      d.compile ⟨.warn, overlap⟩ = .ok t ∧ t.warnings = []) ∧
    ∀ overlap t, d.compile ⟨.warn, overlap⟩ = .ok t →
      t.warnings.length ≤ 1 ∧ ∀ fault ∈ t.warnings, ∃ groups, fault = .duplicates groups := by
  refine ⟨?_, fun overlap t => compile_reject_iff, ?_⟩
  · intro duplicates t h
    obtain ⟨t', h'⟩ := exists_compile_eq_ok_iff.2 (exists_compile_eq_ok_iff.1 ⟨t, h⟩).relax
    have next := at?_next_relax h h'
    exact ⟨t', h', DispatchTable.mem_keys_iff_of_next_eq next, next⟩
  · intro overlap t h
    rw [warnings_eq h]
    refine ⟨?_, fun fault hfault => ⟨_, (Fault.mem_ofNonempty.1 hfault).2⟩⟩
    exact Fault.length_ofNonempty_le _ _

end Draft

namespace Turnstile

/-- A coin unlocks the turnstile, and again so if enforcement is weak. -/
def twofoldCoin : Draft Gate Input Unit Notes :=
  .ofRules [
    { state := .locked, event := .coin, next := .unlocked, location := here 19 },
    { state := .locked, event := .coin, condition := .allOf [Predicate.value Enforcement.weak],
      next := .unlocked, location := here 20 }]

/-- The two rules overlap, which is warned of and makes no difference to where a coin leads. -/
theorem twofoldCoin_policies :
    ∃ t t', twofoldCoin.compile {} = .ok t ∧
      twofoldCoin.compile { overlap := .mostSpecific } = .ok t' ∧
      (∀ k, (t'.at? k).map Rule.next = (t.at? k).map Rule.next) ∧
      ∃ groups, t.warnings = [.duplicates groups] := by
  obtain ⟨t, h⟩ := Draft.exists_compile_of_toBool (by rfl : (twofoldCoin.compile {}).toBool)
  obtain ⟨relaxed, rejected, warned⟩ := Draft.compile_policies twofoldCoin
  obtain ⟨t', h', -, next⟩ := relaxed .warn t h
  obtain ⟨few, duplicates⟩ := warned .strict t h
  refine ⟨t, t', h, h', next, ?_⟩
  cases hwarnings : t.warnings with
  | nil =>
    -- without the warning the draft would compile even if duplicates are rejected
    have compiled := (rejected .strict t).2 ⟨h, hwarnings⟩
    have refused : (twofoldCoin.compile ⟨.reject, .strict⟩).toBool = false := by rfl
    rw [compiled] at refused
    exact Bool.noConfusion refused
  | cons fault others =>
    rw [hwarnings] at few duplicates
    obtain rfl := List.eq_nil_of_length_eq_zero (Nat.le_zero.1 (Nat.le_of_succ_le_succ few))
    obtain ⟨groups, rfl⟩ := duplicates fault List.mem_cons_self
    exact ⟨groups, rfl⟩

end Turnstile

end TableMachine
