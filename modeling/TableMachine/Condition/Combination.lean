import TableMachine.Condition.Value
import TableMachine.Text.Listing

/-!
# Combinations of predicate values

A combination is a finite set of values. It is *consistent* if it holds at most one value of each
family, and it *spans* a set of families if it holds one value of each of them and nothing else. The
*extensions* of a combination over a universe of families are the spanning combinations that hold it
and take listed values elsewhere.

**Main statements.** `mem_extensions` says which combinations the expansion produces, without
mentioning the expansion: `c ∈ base.extensions fs ↔ Extends fs base c`.
-/

namespace TableMachine

/-- A set of predicate values. -/
abbrev Combination :=
  SortedSet Value

/-- Every way to pick one element from each of the lists, the first list varying slowest. -/
def choices {α : Type} : List (List α) → List (List α)
  | [] => [[]]
  | options :: rest => options.flatMap fun a => (choices rest).map (a :: ·)

namespace Combination

/-- The families of the values. -/
def families (c : Combination) : SortedSet Family :=
  .ofList (c.toList.map Value.family)

/-- No two values are of one family. -/
def Consistent (c : Combination) : Prop :=
  (c.toList.map Value.family).Nodup

instance (c : Combination) : Decidable c.Consistent :=
  inferInstanceAs (Decidable (c.toList.map Value.family).Nodup)

/-- The first value of a family, if there is one. -/
def valueOf? (c : Combination) (f : Family) : Option Value :=
  c.toList.find? fun v => v.family = f

/-- The values between brackets, in order. -/
def text (c : Combination) : String :=
  Text.bracketed (c.toList.map Value.text)

/-- One value of each of the families, and nothing else. -/
def Spans (c : Combination) (fs : SortedSet Family) : Prop :=
  c.toList.map Value.family = fs.toList

instance (c : Combination) (fs : SortedSet Family) : Decidable (c.Spans fs) :=
  inferInstanceAs (Decidable (_ = _))

theorem Spans.consistent {c : Combination} {fs : SortedSet Family} (h : c.Spans fs) :
    c.Consistent := by
  unfold Consistent
  rw [h]
  exact fs.nodup_toList

theorem Consistent.eq {c : Combination} (h : c.Consistent) {v w : Value} (hv : v ∈ c) (hw : w ∈ c)
    (hf : v.family = w.family) : v = w := by
  have key : ∀ {xs : List Value}, (xs.map Value.family).Nodup → v ∈ xs → w ∈ xs → v = w := by
    intro xs
    induction xs with
    | nil => simp
    | cons x xs ih =>
      intro hn hv hw
      obtain ⟨hx, hn⟩ := List.nodup_cons.1 hn
      rcases List.mem_cons.1 hv with rfl | hv' <;> rcases List.mem_cons.1 hw with rfl | hw'
      · rfl
      · exact absurd (List.mem_map.2 ⟨w, hw', hf.symm⟩) hx
      · exact absurd (List.mem_map.2 ⟨v, hv', hf⟩) hx
      · exact ih hn hv' hw'
  exact key h hv hw

theorem mem_families {c : Combination} {f : Family} :
    f ∈ c.families ↔ ∃ v ∈ c, v.family = f := by
  rw [families, SortedSet.mem_ofList, List.mem_map]
  rfl

theorem valueOf?_eq_some {c : Combination} (h : c.Consistent) {f : Family} {v : Value} :
    c.valueOf? f = some v ↔ v ∈ c ∧ v.family = f := by
  constructor
  · intro hv
    exact ⟨List.mem_of_find?_eq_some hv, by simpa using List.find?_some hv⟩
  · rintro ⟨hv, hf⟩
    cases hw : c.valueOf? f with
    | none =>
      have := List.find?_eq_none.1 hw v hv
      simp [hf] at this
    | some w =>
      have hwc : w ∈ c := List.mem_of_find?_eq_some hw
      have hwf : w.family = f := by simpa using List.find?_some hw
      rw [h.eq hwc hv (hwf.trans hf.symm)]

theorem valueOf?_eq_none {c : Combination} {f : Family} :
    c.valueOf? f = none ↔ f ∉ c.families := by
  rw [valueOf?, List.find?_eq_none, mem_families]
  simp [SortedSet.mem_def]

/-! ## Extensions -/

/-- The values open to an extension in one family: the value that the combination already holds, or
else all cases. -/
def options (base : Combination) (f : Family) : List Value :=
  match base.valueOf? f with
  | some v => [v]
  | none => f.cases

/-- The full combinations over the families and those of `base` that hold `base` and take a listed
value wherever `base` leaves the choice open. There are none if `base` is inconsistent, or if a
family left open has no case. -/
def extensions (base : Combination) (fs : List Family) : SortedSet Combination :=
  if base.Consistent then
    .ofList <| (choices ((SortedSet.ofList fs ∪ base.families).toList.map base.options)).map .ofList
  else
    ∅

/-- The full combinations of listed values over the families. -/
def all (fs : List Family) : SortedSet Combination :=
  extensions ∅ fs

/-- The extensions of `base`, described without producing them. -/
structure Extends (fs : List Family) (base c : Combination) : Prop where
  /-- One value of each family of either kind. -/
  spans : c.Spans (SortedSet.ofList fs ∪ base.families)
  /-- Nothing of `base` is lost. -/
  holds : base ⊆ c
  /-- What `base` does not fix is listed. -/
  listed : ∀ v ∈ c, v ∈ base ∨ v.Listed

/-- A spread tests for extension with the families computed once. -/
structure Spread where
  /-- The values that are fixed. -/
  base : Combination
  /-- The families to be spanned. -/
  span : SortedSet Family

/-- The spread of a combination over a universe. -/
def spread (base : Combination) (fs : List Family) : Spread where
  base := base
  span := SortedSet.ofList fs ∪ base.families

/-- The combination belongs to the spread. -/
def Spread.Covers (s : Spread) (c : Combination) : Prop :=
  s.base ⊆ c ∧ c.Spans s.span ∧ ∀ v ∈ c.toList, v ∈ s.base ∨ v.Listed

instance (s : Spread) (c : Combination) : Decidable (s.Covers c) :=
  inferInstanceAs (Decidable (_ ∧ _ ∧ _))

theorem spread_covers {base : Combination} {fs : List Family} {c : Combination} :
    (base.spread fs).Covers c ↔ Extends fs base c :=
  ⟨fun ⟨h, s, l⟩ => ⟨s, h, l⟩, fun ⟨s, h, l⟩ => ⟨h, s, l⟩⟩

/-! ## What the expansion produces -/

/-- The choices from a list of options per family are the lists with one value per family, each
taken from its family's options. -/
theorem mem_choices_map {g : Family → List Value} (hg : ∀ f, ∀ v ∈ g f, v.family = f)
    {fs : List Family} {xs : List Value} :
    xs ∈ choices (fs.map g) ↔ xs.map Value.family = fs ∧ ∀ v ∈ xs, v ∈ g v.family := by
  induction fs generalizing xs with
  | nil =>
    constructor
    · intro h
      have : xs = [] := by simpa [choices] using h
      simp [this]
    · intro h
      have : xs = [] := by simpa using h.1
      simp [this, choices]
  | cons f fs ih =>
    simp only [List.map_cons, choices, List.mem_flatMap, List.mem_map]
    constructor
    · rintro ⟨v, hv, rest, hrest, rfl⟩
      obtain ⟨hf, hall⟩ := ih.1 hrest
      have hvf := hg f v hv
      refine ⟨by simp [hf, hvf], fun w hw => ?_⟩
      rcases List.mem_cons.1 hw with rfl | hw
      · rwa [hvf]
      · exact hall w hw
    · rintro ⟨hf, hall⟩
      cases xs with
      | nil => simp at hf
      | cons v rest =>
        simp only [List.map_cons, List.cons.injEq] at hf
        obtain ⟨rfl, hrest⟩ := hf
        exact ⟨v, hall v (by simp), rest,
          ih.2 ⟨hrest, fun w hw => hall w (List.mem_cons_of_mem v hw)⟩, rfl⟩

theorem family_of_mem_options {base : Combination} {f : Family} {v : Value}
    (h : v ∈ base.options f) : v.family = f := by
  unfold options at h
  split at h
  · next w hw =>
    obtain rfl := List.mem_singleton.1 h
    simpa using List.find?_some hw
  · exact Value.family_of_mem_cases h

/-- Values with ascending families are an ascending list. -/
theorem ascending_of_families {xs : List Value}
    (h : (xs.map Value.family).Pairwise fun a b => compare a b = .lt) :
    xs.Pairwise fun a b => compare a b = .lt := by
  refine (List.pairwise_map.1 h).imp fun {a b} hab => ?_
  change compareLex (compareOn Value.family) _ a b = .lt
  simp [compareLex, compareOn, hab]

theorem toList_ofList_of_spans {xs : List Value} {fs : SortedSet Family}
    (h : xs.map Value.family = fs.toList) : (SortedSet.ofList xs).toList = xs :=
  SortedSet.eq_of_mem_iff (SortedSet.ascending _)
    (ascending_of_families (h ▸ fs.ascending)) fun _ => SortedSet.mem_ofList

theorem mem_options_iff {base : Combination} (hb : base.Consistent) {v : Value} :
    v ∈ base.options v.family ↔ v ∈ base ∨ (v.family ∉ base.families ∧ v.Listed) := by
  unfold options
  cases h : base.valueOf? v.family with
  | some w =>
    obtain ⟨hw, hwf⟩ := (valueOf?_eq_some hb).1 h
    have hmem : v.family ∈ base.families := mem_families.2 ⟨w, hw, hwf⟩
    simp only [List.mem_singleton, hmem, not_true, false_and, or_false]
    exact ⟨fun e => e ▸ hw, fun hv => hb.eq hv hw hwf.symm⟩
  | none =>
    have hmem : v.family ∉ base.families := valueOf?_eq_none.1 h
    have hv : v ∉ base := fun hv => hmem (mem_families.2 ⟨v, hv, rfl⟩)
    simp [hmem, hv, Value.listed_iff_mem_cases]

/-- The expansion produces the extensions and nothing else. -/
theorem mem_extensions {fs : List Family} {base c : Combination} :
    c ∈ base.extensions fs ↔ Extends fs base c := by
  unfold extensions
  split
  · next hb =>
    simp only [SortedSet.mem_ofList, List.mem_map, mem_choices_map fun _ _ => family_of_mem_options]
    constructor
    · rintro ⟨xs, ⟨hf, hopt⟩, rfl⟩
      have hx := toList_ofList_of_spans hf
      refine ⟨by rw [Spans, hx, hf], fun v hv => ?_, fun v hv => ?_⟩
      · have hfam : v.family ∈ xs.map Value.family := by
          rw [hf]
          exact SortedSet.mem_union.2 (.inr (mem_families.2 ⟨v, hv, rfl⟩))
        obtain ⟨w, hw, hwf⟩ := List.mem_map.1 hfam
        have hfw : w.family ∈ base.families := mem_families.2 ⟨v, hv, hwf.symm⟩
        rcases (mem_options_iff hb).1 (hopt w hw) with hwb | ⟨hn, _⟩
        · exact SortedSet.mem_ofList.2 (hb.eq hv hwb hwf.symm ▸ hw)
        · exact absurd hfw hn
      · exact ((mem_options_iff hb).1 (hopt v (SortedSet.mem_ofList.1 hv))).imp_right And.right
    · rintro ⟨hs, hh, hl⟩
      refine ⟨c.toList, ⟨hs, fun v hv => (mem_options_iff hb).2 ?_⟩, SortedSet.ofList_toList c⟩
      by_cases hvb : v ∈ base
      · exact .inl hvb
      · refine .inr ⟨fun hfam => ?_, (hl v hv).resolve_left hvb⟩
        obtain ⟨w, hw, hwf⟩ := mem_families.1 hfam
        exact hvb (hs.consistent.eq (hh w hw) hv hwf ▸ hw)
  · next hb =>
    refine ⟨fun h => absurd h (SortedSet.not_mem_empty _), fun ⟨hs, hh, _⟩ => absurd ?_ hb⟩
    unfold Consistent
    have inj : ∀ v ∈ base.toList, ∀ w ∈ base.toList, v.family = w.family → v = w :=
      fun v hv w hw hf => hs.consistent.eq (hh v hv) (hh w hw) hf
    have key : ∀ {xs : List Value}, xs.Nodup →
        (∀ v ∈ xs, ∀ w ∈ xs, v.family = w.family → v = w) → (xs.map Value.family).Nodup := by
      intro xs hn hi
      refine List.pairwise_map.2 (hn.imp_of_mem fun {a b} ha hb hab e => hab (hi a ha b hb e))
    exact key base.nodup_toList inj

end Combination

end TableMachine
