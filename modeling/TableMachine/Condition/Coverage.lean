import TableMachine.Condition.Basic

/-!
# The combinations that a condition covers

Over a universe of families each branch of a condition stands for the full combinations that extend
it. The coverage of a condition gathers them; a combination that several branches reach has the rank
of the largest of these branches, so that a more demanding branch makes a condition more specific.
-/

namespace TableMachine

/-- The extensions of all branches of a condition. -/
structure Coverage where
  /-- One spread for each branch. -/
  spreads : List Combination.Spread

namespace Coverage

/-- The coverage of some branches over a universe. -/
def ofBranches (branches : List Combination) (fs : List Family) : Coverage :=
  ⟨branches.map fun branch => branch.spread fs⟩

/-- The combinations that some branch reaches. -/
def combinations (k : Coverage) : SortedSet Combination :=
  k.spreads.foldr (fun s reached => s.base.extensions s.span.toList ∪ reached) ∅

/-- The size of the largest branch that reaches the combination; nothing if none does. -/
def rankOf? (k : Coverage) (c : Combination) : Option Nat :=
  ((k.spreads.filter fun s => s.Covers c).map fun s => s.base.size).max?

/-- Some branch reaches the combination. -/
def Covers (k : Coverage) (c : Combination) : Prop :=
  ∃ s ∈ k.spreads, s.Covers c

instance (k : Coverage) (c : Combination) : Decidable (k.Covers c) :=
  inferInstanceAs (Decidable (∃ s ∈ k.spreads, s.Covers c))

end Coverage

namespace Condition

/-- The combinations that a condition covers over a universe, unless it contradicts itself. -/
def coverage (m : Condition) (fs : List Family) : Except Contradiction Coverage :=
  match m.contradiction? with
  | some e => .error e
  | none => .ok (.ofBranches m.branches fs)

end Condition

end TableMachine
