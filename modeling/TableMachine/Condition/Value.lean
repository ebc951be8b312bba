import TableMachine.Order.SortedSet

/-!
# Families of predicate values

A *family* is a finite enumeration, the cases of one predicate. A *value* of a family is known by
its ordinal: the position at which its case is first declared or, if the family does not declare it,
the number of cases. So all *unlisted* values of a family are one value, which comes after all
cases. Labels are only what cases are shown as. Families are ordered by name.

**Main statements.** The orders are lawful (`TransOrd`, `LawfulEqOrd`), so that values form sorted
sets. The listed values are those of the declared cases (`Value.listed_iff_mem_cases`), and the
unlisted values of a family are one (`Value.eq_of_not_listed`).
-/

namespace TableMachine

/-- A case of a predicate. -/
structure Case where
  /-- Tells it apart from other cases. -/
  key : Nat
  /-- What it is shown as. -/
  label : String
deriving DecidableEq

/-- Cases are ordered by key, and cases of one key by label. -/
instance : Ord Case where
  compare := compareLex (compareOn Case.key) (compareOn Case.label)

instance : Std.TransOrd Case :=
  inferInstanceAs <| Std.TransCmp <| compareLex (compareOn Case.key) (compareOn Case.label)

instance : Std.LawfulEqOrd Case where
  compare_self :=
    @Std.ReflCmp.compare_self _ (compareLex (compareOn Case.key) (compareOn Case.label)) _
  eq_of_compare {a b} h := by
    obtain ⟨hkey, hlabel⟩ := compareLex_eq_eq.1 h
    cases a
    cases b
    simp only [compareOn] at hkey hlabel
    simp [Std.LawfulEqOrd.eq_of_compare hkey, Std.LawfulEqOrd.eq_of_compare hlabel]

/-- A predicate. -/
structure Family where
  /-- The name under which the family is shown and ordered. -/
  name : String
  /-- Tells predicates of one name apart. -/
  serial : Nat := 0
  /-- The cases in the order of declaration. A case may be declared again. -/
  declared : List Case
  /-- What values are shown as that are not among the cases. -/
  strayLabel : String := ""
deriving DecidableEq

/-- One value of a predicate, whether or not the family lists it. -/
structure Value where
  /-- The predicate. -/
  family : Family
  /-- Where its case is first declared; the number of cases if it is not. -/
  ordinal : Nat
  /-- There is a case, declared or not, with this position. -/
  position : ∃ c, family.declared.idxOf c = ordinal

/-- Values are equal if family and ordinal are. -/
instance : DecidableEq Value := fun v w =>
  decidable_of_iff (v.family = w.family ∧ v.ordinal = w.ordinal) <| by
    cases v
    cases w
    simp

namespace Family

/-- The value of a case. -/
def valueOf (f : Family) (c : Case) : Value :=
  ⟨f, f.declared.idxOf c, c, rfl⟩

/-- The value that a label names: that of the first case so labelled, else the unlisted one. -/
def value (f : Family) (label : String) : Value :=
  f.valueOf ((f.declared.find? fun c => c.label = label).getD ⟨f.declared.length, label⟩)

/-- The cases as values, in the order of declaration. -/
def cases (f : Family) : List Value :=
  f.declared.map f.valueOf

/-- The number of cases, repeats counted. -/
def size (f : Family) : Nat :=
  f.declared.length

/-- The family whose cases are told apart by their labels. -/
def ofLabels (name : String) (labels : List String) : Family where
  name
  declared := labels.map fun label => ⟨labels.idxOf label, label⟩

/-- Families are ordered by name, and families of one name by what tells them apart. -/
instance : Ord Family where
  compare := compareLex (compareOn Family.name) (compareLex (compareOn Family.serial)
    (compareLex (compareOn Family.declared) (compareOn Family.strayLabel)))

instance : Std.TransOrd Family :=
  inferInstanceAs <| Std.TransCmp <| compareLex (compareOn Family.name)
    (compareLex (compareOn Family.serial)
      (compareLex (compareOn Family.declared) (compareOn Family.strayLabel)))

instance : Std.LawfulEqOrd Family where
  compare_self := @Std.ReflCmp.compare_self _ (compareLex (compareOn Family.name)
    (compareLex (compareOn Family.serial)
      (compareLex (compareOn Family.declared) (compareOn Family.strayLabel)))) _
  eq_of_compare {a b} h := by
    obtain ⟨hname, hrest⟩ := compareLex_eq_eq.1 h
    obtain ⟨hserial, hrest⟩ := compareLex_eq_eq.1 hrest
    obtain ⟨hdeclared, hstray⟩ := compareLex_eq_eq.1 hrest
    cases a
    cases b
    simp only [compareOn] at hname hserial hdeclared hstray
    simp [Std.LawfulEqOrd.eq_of_compare hname, Std.LawfulEqOrd.eq_of_compare hserial,
      Std.LawfulEqOrd.eq_of_compare hdeclared, Std.LawfulEqOrd.eq_of_compare hstray]

end Family

namespace Value

/-- The value is one of the family's cases. -/
def Listed (v : Value) : Prop :=
  v.ordinal < v.family.size

instance (v : Value) : Decidable v.Listed :=
  inferInstanceAs (Decidable (v.ordinal < v.family.size))

/-- What the value is shown as within its family. -/
def label (v : Value) : String :=
  (v.family.declared[v.ordinal]?).elim v.family.strayLabel Case.label

/-- The family's name, a dot and the label. -/
def text (v : Value) : String :=
  v.family.name ++ "." ++ v.label

/-- Family and ordinal are all there is to a value. -/
theorem ext {v w : Value} (hfamily : v.family = w.family) (hordinal : v.ordinal = w.ordinal) :
    v = w := by
  cases v
  cases w
  simp_all

theorem listed_valueOf_iff {f : Family} {c : Case} : (f.valueOf c).Listed ↔ c ∈ f.declared :=
  List.idxOf_lt_length_iff

/-- A declared case is shown as its value. -/
theorem label_valueOf {f : Family} {c : Case} (h : c ∈ f.declared) :
    (f.valueOf c).label = c.label := by
  have found : f.declared[f.declared.idxOf c]? = some c := by
    rw [List.getElem?_eq_getElem (List.idxOf_lt_length_of_mem h), List.getElem_idxOf]
  exact congrArg (fun c? => c?.elim f.strayLabel Case.label) found

/-- A label names a listed value if some case is labelled so. -/
theorem listed_value_iff {f : Family} {label : String} :
    (f.value label).Listed ↔ ∃ c ∈ f.declared, c.label = label := by
  rw [Family.value, listed_valueOf_iff]
  cases hfind : f.declared.find? fun c => c.label = label with
  | some c =>
    have named : c.label = label := by simpa using List.find?_some hfind
    have declared : c ∈ f.declared := List.mem_of_find?_eq_some hfind
    exact iff_of_true declared ⟨c, declared, named⟩
  | none =>
    have nameless : ∀ c ∈ f.declared, c.label ≠ label := by simpa using hfind
    exact iff_of_false (fun h => nameless _ h rfl) fun ⟨c, hc, named⟩ => nameless c hc named

/-- The ordinal of a value is at most the number of cases. -/
theorem ordinal_le (v : Value) : v.ordinal ≤ v.family.size := by
  obtain ⟨f, _, c, rfl⟩ := v
  exact List.idxOf_le_length

theorem listed_iff_mem_cases (v : Value) : v.Listed ↔ v ∈ v.family.cases := by
  obtain ⟨f, _, c, rfl⟩ := v
  change (f.valueOf c).Listed ↔ f.valueOf c ∈ f.declared.map f.valueOf
  constructor
  · exact fun h => List.mem_map_of_mem (listed_valueOf_iff.1 h)
  · intro h
    obtain ⟨c', hc', same⟩ := List.mem_map.1 h
    exact same ▸ listed_valueOf_iff.2 hc'

/-- All unlisted values of a family are one. -/
theorem eq_of_not_listed {v w : Value} (hv : ¬v.Listed) (hw : ¬w.Listed)
    (hfamily : v.family = w.family) : v = w := by
  have last : ∀ {u : Value}, ¬u.Listed → u.ordinal = u.family.size := fun hu =>
    Nat.le_antisymm (ordinal_le _) (Nat.le_of_not_lt hu)
  exact ext hfamily (by rw [last hv, last hw, hfamily])

theorem family_of_mem_cases {f : Family} {v : Value} (h : v ∈ f.cases) : v.family = f := by
  obtain ⟨_, _, rfl⟩ := List.mem_map.1 h
  rfl

/-- Values are ordered by family, then by ordinal. -/
instance : Ord Value where
  compare := compareLex (compareOn Value.family) (compareOn Value.ordinal)

instance : Std.TransOrd Value :=
  inferInstanceAs <| Std.TransCmp <| compareLex (compareOn Value.family) (compareOn Value.ordinal)

instance : Std.LawfulEqOrd Value where
  compare_self :=
    @Std.ReflCmp.compare_self _ (compareLex (compareOn Value.family) (compareOn Value.ordinal)) _
  eq_of_compare {a b} h := by
    obtain ⟨hfamily, hordinal⟩ := compareLex_eq_eq.1 h
    exact ext (Std.LawfulEqOrd.eq_of_compare hfamily) (Std.LawfulEqOrd.eq_of_compare hordinal)

/-- A smaller value is not of a larger family. -/
theorem isLE_family_of_lt {v w : Value} (h : compare v w = .lt) :
    (compare v.family w.family).isLE := by
  change compareLex (compareOn Value.family) _ v w = .lt at h
  simp only [compareLex, compareOn] at h
  cases hf : compare v.family w.family with
  | lt => rfl
  | eq => rfl
  | gt => simp [hf] at h

end Value

end TableMachine
