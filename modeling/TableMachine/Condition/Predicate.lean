import TableMachine.Condition.Value

/-!
# Typed predicates

A type whose elements are the cases of a predicate gives a family, and each element gives a value of
it, which is listed if the element is among the cases (`Predicate.listed_value_iff`) and is then
shown under the element's label (`Predicate.label_value`).
-/

namespace TableMachine

/-- A predicate as a type. -/
class Predicate (π : Type) where
  /-- The name of the family. -/
  familyName : String
  /-- Tells predicates of one name apart. -/
  serial : Nat := 0
  /-- The listed cases in order. -/
  cases : List π
  /-- The label of a case. -/
  label : π → String
  /-- The label of all that is not among the cases. -/
  strayLabel : String := ""

namespace Predicate

variable {π : Type} [DecidableEq π] [Predicate π]

/-- An element as a case. -/
def toCase (p : π) : Case where
  key := cases.idxOf p
  label := label p

variable (π) in
/-- The family of a predicate. -/
def family : Family where
  name := familyName π
  serial := serial π
  declared := (cases : List π).map toCase
  strayLabel := strayLabel π

/-- An element as a predicate value. -/
def value (p : π) : Value :=
  (family π).valueOf (toCase p)

theorem toCase_mem_declared_iff {p : π} : toCase p ∈ (family π).declared ↔ p ∈ cases := by
  constructor
  · intro h
    obtain ⟨q, hq, same⟩ := List.mem_map.1 h
    have first : cases.idxOf q = cases.idxOf p := congrArg Case.key same
    exact List.idxOf_lt_length_iff.1 (first ▸ List.idxOf_lt_length_of_mem hq)
  · exact List.mem_map_of_mem

theorem listed_value_iff {p : π} : (value p).Listed ↔ p ∈ cases :=
  Value.listed_valueOf_iff.trans toCase_mem_declared_iff

/-- A listed element is shown under its own label. -/
theorem label_value {p : π} (h : p ∈ cases) : (value p).label = label p :=
  Value.label_valueOf (toCase_mem_declared_iff.2 h)

end Predicate

end TableMachine
