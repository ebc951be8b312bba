import TableMachine.Condition.Lemmas
import TableMachine.History.Export
import TableMachine.Machine.Run
import TableMachine.Samples.Defaults
import TableMachine.Samples.Turnstile
import TableMachine.Scripted.Behaviour
import TableMachine.Proofs.Calls
import TableMachine.Proofs.Chronicle
import TableMachine.Proofs.GuardTrace
import TableMachine.Proofs.Handling
import TableMachine.Proofs.Isolation
import TableMachine.Proofs.Lookup
import TableMachine.Proofs.Policies
import TableMachine.Proofs.Provenance
import TableMachine.Proofs.RuleOrder
import TableMachine.Proofs.OverrideChains
import TableMachine.Proofs.StateHooks
import TableMachine.Proofs.Findings
import TableMachine.Proofs.Views
import TableMachine.Proofs.BuildOnce
import TableMachine.Proofs.Conjunction
import TableMachine.Proofs.LostKeys
import TableMachine.Proofs.ConflictReports
import TableMachine.Proofs.ChainOrder
import TableMachine.Proofs.Modes
import TableMachine.Proofs.Enclosures
import TableMachine.Proofs.AuthoringMistakes
import TableMachine.Proofs.NestedBlocks
import TableMachine.Proofs.Flattening
import TableMachine.Proofs.Snapshots
import TableMachine.Proofs.Completions
import TableMachine.Proofs.ConjunctionLaws
import TableMachine.Proofs.Contradictions
import TableMachine.Proofs.Interchange
import TableMachine.Proofs.Vacuity
import TableMachine.Proofs.Diagnostics
import TableMachine.Proofs.Replacement
import TableMachine.Proofs.SharedExpansion
