import TableMachine.Proofs.Outcome

/-!
# What a failure reports

Faults name contested dispatch keys and the declared keys of rules that clash. Besides what was
noted in writing the draft, these are the disputed dispatch keys (`Draft.reportContest_iff`) and
the declared keys that are not settled (`Draft.reportClash_iff`).
-/

namespace TableMachine

variable {σ ε χ ω : Type}

/-! ## Reported keys -/

/-- The dispatch key that is contested. -/
def Contest.key (c : Contest σ ε) : DispatchKey σ ε :=
  ⟨c.state, c.event, c.combination⟩

/-- The declared key of the rule that is shown. -/
def Summary.key (s : Summary σ ε) : DeclaredKey σ ε :=
  ⟨s.state, s.event, s.condition.form⟩

namespace Fault

/-- Some fault names the dispatch key as contested. -/
def ReportContest (faults : List (Fault σ ε)) (k : DispatchKey σ ε) : Prop :=
  ∃ contests, Fault.contests contests ∈ faults ∧ ∃ c ∈ contests, c.key = k

/-- Some fault shows a group of clashing rules of the declared key. -/
def ReportClash (faults : List (Fault σ ε)) (key : DeclaredKey σ ε) : Prop :=
  ∃ groups, Fault.clashes groups ∈ faults ∧ ∃ group ∈ groups, ∃ s ∈ group, s.key = key

end Fault

variable [DecidableEq σ] [DecidableEq ε]

namespace Draft

variable {d : Draft σ ε χ ω} {options : CompileOptions} {f : BuildFailure σ ε}

/-- A failure reports each contested key with its contenders. -/
theorem contest_mem_of_compile (h : d.compile options = .error f) {k : DispatchKey σ ε}
    (hk : ¬Rule.Undisputed options.overlap (Rule.survivors d.rules) k) :
    ∃ contests, Fault.contests contests ∈ f.faults ∧
      (Ruling.mk k (Rule.contenders options.overlap (Rule.survivors d.rules) k)).contest ∈
        contests := by
  have contested : Ruling.mk k (Rule.contenders options.overlap (Rule.survivors d.rules) k) ∈
      Ruling.contested (Analysis.of options.overlap d.rules).rulings :=
    Ruling.mem_contested_iff.2 ⟨rfl, hk⟩
  refine ⟨_, ?_, List.mem_map_of_mem contested⟩
  rw [← compile_eq_error_iff.1 h]
  exact contests_mem_allFaults_iff.2 (Or.inr ⟨List.ne_nil_of_mem contested, rfl⟩)

/-- A failure reports each declared key that is not settled, with the first rule for each state that
the rules of the key lead to. -/
theorem clash_mem_of_compile (h : d.compile options = .error f) {r : Rule σ ε χ ω}
    (hr : r ∈ Rule.survivors d.rules) (hs : ¬Rule.Settled (Rule.survivors d.rules) r) :
    ∃ groups, Fault.clashes groups ∈ f.faults ∧
      (distinctBy Rule.next (Rule.sharing (Rule.survivors d.rules) r)).map Rule.summary
        ∈ groups := by
  have clash := Rule.exists_mem_clashes hr hs
  refine ⟨_, ?_, List.mem_map_of_mem clash⟩
  rw [← compile_eq_error_iff.1 h]
  exact clashes_mem_allFaults_iff.2 (Or.inr ⟨List.ne_nil_of_mem clash, rfl⟩)

/-- The dispatch keys reported as contested are the disputed ones, and those noted before. -/
theorem reportContest_iff (h : d.compile options = .error f) {k : DispatchKey σ ε} :
    Fault.ReportContest f.faults k ↔ Fault.ReportContest d.faults k ∨
      ¬Rule.Undisputed options.overlap (Rule.survivors d.rules) k := by
  constructor
  · rintro ⟨contests, hmem, c, hc, rfl⟩
    rw [← compile_eq_error_iff.1 h] at hmem
    rcases contests_mem_allFaults_iff.1 hmem with hnoted | ⟨-, rfl⟩
    · exact Or.inl ⟨contests, hnoted, c, hc, rfl⟩
    · obtain ⟨r, hr, rfl⟩ := List.mem_map.1 hc
      exact Or.inr (Ruling.mem_contested_iff.1 hr).2
  · rintro (⟨contests, hmem, c, hc, rfl⟩ | hk)
    · refine ⟨contests, ?_, c, hc, rfl⟩
      rw [← compile_eq_error_iff.1 h]
      exact contests_mem_allFaults_iff.2 (Or.inl hmem)
    · obtain ⟨contests, hmem, hc⟩ := contest_mem_of_compile h hk
      exact ⟨contests, hmem, _, hc, rfl⟩

/-- The declared keys reported to clash are the ones that are not settled, and those noted
before. -/
theorem reportClash_iff (h : d.compile options = .error f) {key : DeclaredKey σ ε} :
    Fault.ReportClash f.faults key ↔ Fault.ReportClash d.faults key ∨
      ∃ r ∈ Rule.survivors d.rules, r.key = key ∧ ¬Rule.Settled (Rule.survivors d.rules) r := by
  constructor
  · rintro ⟨groups, hmem, group, hgroup, s, hs, rfl⟩
    rw [← compile_eq_error_iff.1 h] at hmem
    rcases clashes_mem_allFaults_iff.1 hmem with hnoted | ⟨-, rfl⟩
    · exact Or.inl ⟨groups, hnoted, group, hgroup, s, hs, rfl⟩
    · obtain ⟨rules, hrules, rfl⟩ := List.mem_map.1 hgroup
      obtain ⟨r, hr, hsettled, rfl⟩ := Rule.mem_clashes_iff.1 hrules
      obtain ⟨q, hq, rfl⟩ := List.mem_map.1 hs
      obtain ⟨-, hqr⟩ := Rule.mem_sharing.1 (mem_of_mem_distinctBy hq)
      exact Or.inr ⟨r, mem_of_mem_distinctBy hr, hqr.symm, hsettled⟩
  · rintro (⟨groups, hmem, group, hgroup, s, hs, rfl⟩ | ⟨r, hr, rfl, hs⟩)
    · refine ⟨groups, ?_, group, hgroup, s, hs, rfl⟩
      rw [← compile_eq_error_iff.1 h]
      exact clashes_mem_allFaults_iff.2 (Or.inl hmem)
    · obtain ⟨groups, hmem, hgroup⟩ := clash_mem_of_compile h hr hs
      obtain ⟨q, hq, -⟩ := exists_mem_distinctBy Rule.next (Rule.mem_sharing.2 ⟨hr, rfl⟩)
      obtain ⟨-, hqr⟩ := Rule.mem_sharing.1 (mem_of_mem_distinctBy hq)
      exact ⟨groups, hmem, _, hgroup, q.summary, List.mem_map_of_mem hq, hqr⟩

end Draft

end TableMachine
