import TableMachine.Proofs.Overriding
import TableMachine.Proofs.Rulings
import TableMachine.Table.Compile

/-!
# The outcome of compilation

A draft compiles exactly if none of the checks finds a fault (`Draft.compile_eq_ok_iff`), and else
the failure holds all faults (`Draft.compile_eq_error_iff`). What each check demands of the rules is
known from the modules before, and is put together here (`Analysis.faults_eq_nil_iff`).
-/

namespace TableMachine

variable {σ ε χ ω : Type}

/-! ## Faults of a draft -/

theorem Fault.ofNonempty_eq_nil_iff {α : Type} {fault : List α → Fault σ ε} {xs : List α} :
    Fault.ofNonempty fault xs = [] ↔ xs = [] := by
  cases xs with
  | nil => simp [Fault.ofNonempty]
  | cons x xs => simp [Fault.ofNonempty]

theorem Fault.mem_ofNonempty {α : Type} {fault : List α → Fault σ ε} {xs : List α} {f : Fault σ ε} :
    f ∈ Fault.ofNonempty fault xs ↔ xs ≠ [] ∧ f = fault xs := by
  cases xs with
  | nil => simp [Fault.ofNonempty]
  | cons x xs => simp [Fault.ofNonempty]

theorem Fault.ofNonempty_of_ne_nil {α : Type} {fault : List α → Fault σ ε} {xs : List α}
    (h : xs ≠ []) : Fault.ofNonempty fault xs = [fault xs] := by
  cases xs with
  | nil => exact absurd rfl h
  | cons x xs => rfl

variable [DecidableEq σ] [DecidableEq ε]

namespace Analysis

variable {policy : OverlapPolicy} {rules : List (Rule σ ε χ ω)}

/-- Duplicates are among the faults only if the policy rejects them. -/
theorem rejected_eq_nil_iff {a : Analysis σ ε χ ω} {duplicates : DuplicatePolicy} :
    a.rejected duplicates = [] ↔ duplicates = .reject → a.duplicates = [] := by
  cases duplicates with
  | warn => simp [rejected]
  | reject => simp [rejected, duplicateFaults, Fault.ofNonempty_eq_nil_iff, Rule.summaries]

/-- There are no faults exactly if every overriding rule replaces something and the surviving rules
are listed, coherent, settled and undisputed, and without duplicates if these are rejected. -/
theorem faults_eq_nil_iff {duplicates : DuplicatePolicy} :
    (Analysis.of policy rules).faults duplicates = [] ↔
      Rule.AllReplace rules ∧
      (∀ r ∈ Rule.survivors rules, ∀ v ∈ r.condition.values, v.Listed) ∧
      (∀ r ∈ Rule.survivors rules, r.condition.Coherent) ∧
      (duplicates = .reject → (Analysis.of policy rules).duplicates = []) ∧
      (∀ r ∈ Rule.survivors rules, ∀ q ∈ Rule.survivors rules, r.key = q.key → r.next = q.next) ∧
      ∀ k, Rule.Undisputed policy (Rule.survivors rules) k := by
  rw [← Rule.idle_eq_nil_iff, ← Rule.unlistedValues_eq_nil_iff, ← Rule.contradictions_eq_nil_iff,
    ← rejected_eq_nil_iff, ← Rule.clashes_eq_nil_iff, ← Ruling.contested_eq_nil_iff]
  simp only [faults, Analysis.of, List.append_eq_nil_iff, List.map_eq_nil_iff,
    Fault.ofNonempty_eq_nil_iff, Rule.summaries, and_assoc]

/-- Nothing is duplicated exactly if no two rules agree in key and next state and no undisputed key
has two contenders. -/
theorem duplicates_eq_nil_iff :
    (Analysis.of policy rules).duplicates = [] ↔
      ((Rule.survivors rules).map fun r => (r.key, r.next)).Nodup ∧
      ∀ k, Rule.Undisputed policy (Rule.survivors rules) k →
        (Rule.contenders policy (Rule.survivors rules) k).length ≤ 1 := by
  rw [duplicates, List.append_eq_nil_iff]
  exact and_congr Rule.repeats_eq_nil_iff Ruling.overlaps_eq_nil_iff

end Analysis

/-- A table has a rule at each of its keys, and at no other. -/
theorem DispatchTable.isSome_at?_iff {t : DispatchTable σ ε χ ω} {k : DispatchKey σ ε} :
    (t.at? k).isSome ↔ k ∈ t.entries.map Prod.fst := by
  rw [at?, Option.isSome_map, List.find?_isSome, List.mem_map]
  simp only [decide_eq_true_eq]

/-! ## Success and failure -/

namespace Draft

variable {d : Draft σ ε χ ω} {options : CompileOptions}

/-- A draft compiles exactly if it has no faults, and into its table. -/
theorem compile_eq_ok_iff {t : DispatchTable σ ε χ ω} :
    d.compile options = .ok t ↔
      d.allFaults (Analysis.of options.overlap d.rules) options.duplicates = [] ∧
        t = d.tabulate (Analysis.of options.overlap d.rules) options.duplicates := by
  unfold compile
  cases h : d.allFaults (Analysis.of options.overlap d.rules) options.duplicates with
  | nil => simp [h, eq_comm]
  | cons first others => simp [h]

/-- A draft fails exactly if it has faults, and with all of them. -/
theorem compile_eq_error_iff {f : BuildFailure σ ε} :
    d.compile options = .error f ↔
      d.allFaults (Analysis.of options.overlap d.rules) options.duplicates = f.faults := by
  unfold compile
  cases h : d.allFaults (Analysis.of options.overlap d.rules) options.duplicates with
  | nil => simp [h, BuildFailure.faults]
  | cons first others =>
    simp only [h, BuildFailure.faults, Except.error.injEq, List.cons.injEq]
    constructor
    · rintro rfl
      exact ⟨rfl, rfl⟩
    · rintro ⟨rfl, rfl⟩
      rfl

/-- To evaluate compilation shows whether there is a table. -/
theorem exists_compile_of_toBool (h : (d.compile options).toBool) :
    ∃ t, d.compile options = .ok t := by
  cases hc : d.compile options with
  | ok t => exact ⟨t, rfl⟩
  | error f =>
    rw [hc] at h
    exact absurd h Bool.false_ne_true

/-- There is no fault exactly if none was noted, there is a rule, and the rules have none. -/
theorem allFaults_eq_nil_iff {a : Analysis σ ε χ ω} {policy : DuplicatePolicy} :
    d.allFaults a policy = [] ↔ d.faults = [] ∧ d.rules ≠ [] ∧ a.faults policy = [] := by
  rw [allFaults, List.append_eq_nil_iff, List.append_eq_nil_iff, and_assoc]
  apply and_congr_right
  intro hnoted
  apply and_congr_left
  intro _
  cases hrules : d.rules with
  | nil => simp [isEmpty, hnoted, hrules]
  | cons r rest => simp [isEmpty, hrules]

/-! ## The table of a draft -/

variable {t : DispatchTable σ ε χ ω}

/-- The families of a table are those that the surviving rules mention. -/
theorem families_eq (h : d.compile options = .ok t) :
    t.families = Rule.mentionedFamilies (Rule.survivors d.rules) := by
  obtain ⟨-, rfl⟩ := compile_eq_ok_iff.1 h
  rfl

/-- The rules of a table and its hooks are from the draft. -/
theorem subset_of_compile (h : d.compile options = .ok t) :
    t.entries.map Prod.snd ⊆ d.rules ∧ t.entry = d.entry ∧ t.exit = d.exit := by
  obtain ⟨-, rfl⟩ := compile_eq_ok_iff.1 h
  refine ⟨fun rule hrule => ?_, rfl, rfl⟩
  obtain ⟨⟨k, r⟩, hentry, rfl⟩ := List.mem_map.1 hrule
  obtain ⟨-, hfirst⟩ := Ruling.mem_entries_iff.1 hentry
  exact (Rule.survivors_sublist d.rules).subset (List.mem_of_find?_eq_some hfirst)

/-- In a draft that compiles no key is disputed. -/
theorem undisputed_of_compile (h : d.compile options = .ok t) (k : DispatchKey σ ε) :
    Rule.Undisputed options.overlap (Rule.survivors d.rules) k := by
  obtain ⟨-, -, hfaults⟩ := allFaults_eq_nil_iff.1 (compile_eq_ok_iff.1 h).1
  obtain ⟨-, -, -, -, -, undisputed⟩ := Analysis.faults_eq_nil_iff.1 hfaults
  exact undisputed k

/-- A table has the first of the rules that have the say at the key. -/
theorem at?_eq_find? (h : d.compile options = .ok t) (k : DispatchKey σ ε) :
    t.at? k =
      (Rule.survivors d.rules).find? (Rule.leads options.overlap (Rule.survivors d.rules) k) := by
  have entries := Ruling.find?_entries options.overlap (Rule.survivors d.rules) k
  rw [if_pos (undisputed_of_compile h k)] at entries
  obtain ⟨-, rfl⟩ := compile_eq_ok_iff.1 h
  exact entries

/-! ## Reported clashes and contests -/

/-- Only clashes are reported as clashes, apart from what was noted before. -/
theorem clashes_mem_allFaults_iff {a : Analysis σ ε χ ω} {policy : DuplicatePolicy}
    {groups : List (List (Summary σ ε))} :
    .clashes groups ∈ d.allFaults a policy ↔ .clashes groups ∈ d.faults ∨
      Rule.clashes a.survivors ≠ [] ∧ groups = Rule.summaries (Rule.clashes a.survivors) := by
  have rejected : Fault.clashes groups ∉ a.rejected policy := by
    cases policy with
    | warn => simp [Analysis.rejected]
    | reject => simp [Analysis.rejected, Analysis.duplicateFaults, Fault.mem_ofNonempty]
  have empty : Fault.clashes groups ∉ if d.isEmpty then [Fault.emptyTable] else [] := by
    split <;> simp
  simp [allFaults, Analysis.faults, rejected, empty, Fault.mem_ofNonempty, Rule.summaries]

/-- Only contested keys are reported as contested, apart from what was noted before. -/
theorem contests_mem_allFaults_iff {a : Analysis σ ε χ ω} {policy : DuplicatePolicy}
    {keys : List (Contest σ ε)} :
    .contests keys ∈ d.allFaults a policy ↔ .contests keys ∈ d.faults ∨
      Ruling.contested a.rulings ≠ [] ∧ keys = (Ruling.contested a.rulings).map Ruling.contest := by
  have rejected : Fault.contests keys ∉ a.rejected policy := by
    cases policy with
    | warn => simp [Analysis.rejected]
    | reject => simp [Analysis.rejected, Analysis.duplicateFaults, Fault.mem_ofNonempty]
  have empty : Fault.contests keys ∉ if d.isEmpty then [Fault.emptyTable] else [] := by
    split <;> simp
  simp [allFaults, Analysis.faults, rejected, empty, Fault.mem_ofNonempty]

end Draft

end TableMachine
