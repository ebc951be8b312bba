import TableMachine.Table.DispatchTable
import TableMachine.Table.Survivors

/-!
# Compiling a draft

All checks are made on every draft, and a draft that fails any of them is refused with the list of
all its faults. The order of the list is fixed: what was noted in writing the draft, an empty table,
overriding rules with nothing to override, unlisted values, contradictory conditions, duplicates (if
the policy rejects them), clashes and contested keys.
-/

namespace TableMachine

variable {σ ε χ ω : Type} [DecidableEq σ] [DecidableEq ε]

/-- What compilation finds out about the rules of a draft. -/
structure Analysis (σ ε χ ω : Type) where
  /-- The overriding rules with nothing to override. -/
  idle : List (Rule σ ε χ ω)
  /-- The rules that are not overridden. -/
  survivors : List (Rule σ ε χ ω)
  /-- The rulings on the keys that the surviving rules claim. -/
  rulings : List (Ruling σ ε χ ω)

namespace Analysis

/-- The analysis of a list of rules. -/
def of (policy : OverlapPolicy) (rules : List (Rule σ ε χ ω)) : Analysis σ ε χ ω :=
  let survivors := Rule.survivors rules
  { idle := Rule.idle rules
    survivors
    rulings := Ruling.all policy (Claimant.ofRules survivors) }

/-- The groups of rules that say the same: those of one declared key, then those that overlap. -/
def duplicates (a : Analysis σ ε χ ω) : List (List (Rule σ ε χ ω)) :=
  Rule.repeats a.survivors ++ Ruling.overlaps a.rulings

end Analysis

/-- Nothing for an empty list, else the one fault made of it. -/
def Fault.ofNonempty {α : Type} (fault : List α → Fault σ ε) (xs : List α) : List (Fault σ ε) :=
  if xs.isEmpty then [] else [fault xs]

/-- Groups of rules as a fault shows them. -/
def Rule.summaries (groups : List (List (Rule σ ε χ ω))) : List (List (Summary σ ε)) :=
  groups.map (List.map Rule.summary)

/-- A contested key as a fault shows it. -/
def Ruling.contest (r : Ruling σ ε χ ω) : Contest σ ε where
  state := r.key.state
  event := r.key.event
  combination := r.key.combination
  rules := r.contenders.map Rule.summary

namespace Analysis

/-- The duplicates as a fault, if there are any. -/
def duplicateFaults (a : Analysis σ ε χ ω) : List (Fault σ ε) :=
  Fault.ofNonempty .duplicates (Rule.summaries a.duplicates)

/-- The duplicates as the policy wants them listed among the warnings. -/
def warnings (a : Analysis σ ε χ ω) (policy : DuplicatePolicy) : List (Fault σ ε) :=
  match policy with
  | .warn => a.duplicateFaults
  | .reject => []

/-- The duplicates as the policy wants them listed among the faults. -/
def rejected (a : Analysis σ ε χ ω) (policy : DuplicatePolicy) : List (Fault σ ε) :=
  match policy with
  | .warn => []
  | .reject => a.duplicateFaults

/-- What is wrong with the rules. -/
def faults (a : Analysis σ ε χ ω) (policy : DuplicatePolicy) : List (Fault σ ε) :=
  (a.idle.map fun r => .nothingToOverride r.summary)
    ++ ((Rule.unlistedValues a.survivors).map fun place => .unlistedValue place.1 place.2)
    ++ ((Rule.contradictions a.survivors).map .contradiction)
    ++ a.rejected policy
    ++ Fault.ofNonempty .clashes (Rule.summaries (Rule.clashes a.survivors))
    ++ Fault.ofNonempty .contests ((Ruling.contested a.rulings).map Ruling.contest)

end Analysis

namespace Draft

/-- A draft without rules is empty, unless a fault was noted in writing it. -/
def isEmpty (d : Draft σ ε χ ω) : Bool :=
  d.rules.isEmpty && d.faults.isEmpty

/-- All faults of a draft, given the analysis of its rules. -/
def allFaults (d : Draft σ ε χ ω) (a : Analysis σ ε χ ω) (policy : DuplicatePolicy) :
    List (Fault σ ε) :=
  d.faults ++ (if d.isEmpty then [.emptyTable] else []) ++ a.faults policy

/-- The table of a draft, given the analysis of its rules. -/
def tabulate (d : Draft σ ε χ ω) (a : Analysis σ ε χ ω) (policy : DuplicatePolicy) :
    DispatchTable σ ε χ ω where
  entries := Ruling.entries a.rulings
  families := Rule.mentionedFamilies a.survivors
  entry := d.entry
  exit := d.exit
  warnings := a.warnings policy

/-- Compiles a draft into a table, or refuses it with all its faults. -/
def compile (d : Draft σ ε χ ω) (options : CompileOptions) :
    Except (BuildFailure σ ε) (DispatchTable σ ε χ ω) :=
  let a := Analysis.of options.overlap d.rules
  match d.allFaults a options.duplicates with
  | [] => .ok (d.tabulate a options.duplicates)
  | first :: others => .error ⟨first, others⟩

end Draft

end TableMachine
