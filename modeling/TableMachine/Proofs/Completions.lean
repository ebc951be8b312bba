import Mathlib.Algebra.BigOperators.GroupWithZero.Finset
import Mathlib.Algebra.GroupWithZero.Nat
import Mathlib.Algebra.Order.BigOperators.Group.Finset
import TableMachine.Proofs.DirectMatching

/-!
# Completing some values

Some values are *completed* over a list of families by one value of each family that they leave
open, taken from its cases. To complete them is to choose a case of one open family first and then
to complete the rest: the completions are the disjoint union, over the cases of the family, of the
completions with the case added (`Combination.completes_append_iff`). By induction on the open
families their number is the product of the numbers of cases (`Combination.size_extensions`).

**Main statements.** The expansion of values over families holds the completions and nothing else,
their number is that product, and it splits along any open family (`Combination.extensions_exact`).
-/

namespace TableMachine

namespace Combination

/-! ## Completions -/

/-- None of the values is of the family. -/
def LeftOpen (values : List Value) (f : Family) : Prop :=
  ∀ w ∈ values, w.family ≠ f

instance (values : List Value) (f : Family) : Decidable (LeftOpen values f) :=
  inferInstanceAs (Decidable (∀ w ∈ values, w.family ≠ f))

/-- Two of the values are different ones of one family. -/
def Contradictory (values : List Value) : Prop :=
  ∃ v ∈ values, ∃ w ∈ values, v.family = w.family ∧ v ≠ w

instance (values : List Value) : Decidable (Contradictory values) :=
  inferInstanceAs (Decidable (∃ v ∈ values, ∃ w ∈ values, v.family = w.family ∧ v ≠ w))

/-- The combination completes the values over the families. -/
structure Completes (values : List Value) (fs : List Family) (c : Combination) : Prop where
  /-- It holds one value of each of the families and of each family of the values. -/
  one : ∀ f, f ∈ fs ∨ ¬LeftOpen values f → ∃! v, v ∈ c ∧ v.family = f
  /-- It holds no value of any other family. -/
  only : ∀ v ∈ c, v.family ∈ fs ∨ ¬LeftOpen values v.family
  /-- It holds all of the values. -/
  holds : ∀ v ∈ values, v ∈ c
  /-- Its values of families left open are cases. -/
  case : ∀ v ∈ c, LeftOpen values v.family → v ∈ v.family.cases

variable {values : List Value} {fs : List Family} {c : Combination} {f : Family} {v : Value}

theorem not_leftOpen_iff : ¬LeftOpen values f ↔ f ∈ families (.ofList values) := by
  rw [mem_families, LeftOpen]
  push Not
  simp only [SortedSet.mem_ofList]

theorem not_leftOpen_of_mem (h : v ∈ values) : ¬LeftOpen values v.family :=
  fun opened => opened v h rfl

theorem Completes.eq (h : Completes values fs c) {w : Value} (hv : v ∈ c) (hw : w ∈ c)
    (hf : v.family = w.family) : v = w :=
  (h.one v.family (h.only v hv)).unique ⟨hv, rfl⟩ ⟨hw, hf.symm⟩

/-- To extend the set of the values is to complete them. -/
theorem extends_iff_completes : Extends fs (.ofList values) c ↔ Completes values fs c := by
  have span : ∀ f, f ∈ SortedSet.ofList fs ∪ families (.ofList values) ↔
      f ∈ fs ∨ ¬LeftOpen values f := by
    intro f
    rw [SortedSet.mem_union, SortedSet.mem_ofList, not_leftOpen_iff]
  have spans : c.Spans (SortedSet.ofList fs ∪ families (.ofList values)) ↔
      c.Consistent ∧ ∀ f, f ∈ c.families ↔ f ∈ fs ∨ ¬LeftOpen values f := by
    rw [← SortedSet.ofList_toList (SortedSet.ofList fs ∪ families (.ofList values)),
      spans_ofList_iff]
    simp only [← SortedSet.mem_def, span]
  constructor
  · rintro ⟨hs, hh, hl⟩
    obtain ⟨consistent, hf⟩ := spans.1 hs
    refine ⟨fun f hfs => ?_, fun v hv => ?_, fun v hv => ?_, fun v hv opened => ?_⟩
    · obtain ⟨v, hv, rfl⟩ := mem_families.1 ((hf f).2 hfs)
      exact ⟨v, ⟨hv, rfl⟩, fun w hw => consistent.eq hw.1 hv hw.2⟩
    · exact (hf v.family).1 (mem_families.2 ⟨v, hv, rfl⟩)
    · exact hh v (SortedSet.mem_ofList.2 hv)
    · refine (Value.listed_iff_mem_cases v).1 ((hl v hv).resolve_left fun hvb => ?_)
      exact not_leftOpen_of_mem (SortedSet.mem_ofList.1 hvb) opened
  · intro h
    refine ⟨spans.2 ⟨?_, fun f => ?_⟩, fun v hv => ?_, fun v hv => ?_⟩
    · rw [consistent_iff]
      intro v hv w hw
      exact h.eq hv hw
    · rw [mem_families]
      refine ⟨?_, fun hf => ?_⟩
      · rintro ⟨v, hv, rfl⟩
        exact h.only v hv
      · obtain ⟨v, ⟨hv, hvf⟩, -⟩ := h.one f hf
        exact ⟨v, hv, hvf⟩
    · exact h.holds v (SortedSet.mem_ofList.1 hv)
    · by_cases opened : LeftOpen values v.family
      · exact Or.inr ((Value.listed_iff_mem_cases v).2 (h.case v hv opened))
      · -- the family is one of the values, and there is only one value of it
        obtain ⟨w, hw, hwf⟩ := mem_families.1 (not_leftOpen_iff.1 opened)
        have hwc := h.holds w (SortedSet.mem_ofList.1 hw)
        exact Or.inl (h.eq hwc hv hwf ▸ hw)

theorem mem_extensions_iff_completes :
    c ∈ extensions (.ofList values) fs ↔ Completes values fs c :=
  mem_extensions.trans extends_iff_completes

/-- Values that contradict each other have no completion. -/
theorem not_completes_of_contradictory (h : Contradictory values) : ¬Completes values fs c := by
  obtain ⟨v, hv, w, hw, hf, hne⟩ := h
  intro hc
  exact hne (hc.eq (hc.holds v hv) (hc.holds w hw) hf)

/-! ## One family after another -/

/-- What is left open after a case of a family is added is all but this family. -/
theorem leftOpen_append_iff {g : Family} :
    LeftOpen (values ++ [v]) g ↔ LeftOpen values g ∧ v.family ≠ g := by
  simp only [LeftOpen, List.forall_mem_append, List.forall_mem_singleton]

/-- To complete values is to add a case of an open family and to complete them then. -/
theorem completes_append_iff (hf : f ∈ fs) (opened : LeftOpen values f) :
    Completes values fs c ↔ ∃ v ∈ f.cases, Completes (values ++ [v]) fs c := by
  constructor
  · intro h
    obtain ⟨v, ⟨hv, rfl⟩, -⟩ := h.one f (Or.inl hf)
    refine ⟨v, h.case v hv opened, fun g hg => ?_, fun w hw => ?_,
      fun w hw => ?_, fun w hw hopen => ?_⟩
    · refine h.one g ?_
      by_cases e : v.family = g
      · exact Or.inl (e ▸ hf)
      · exact hg.imp_right fun closed hopen => closed (leftOpen_append_iff.2 ⟨hopen, e⟩)
    · refine (h.only w hw).imp_right fun closed hopen => ?_
      exact closed (leftOpen_append_iff.1 hopen).1
    · rcases List.mem_append.1 hw with hw | hw
      · exact h.holds w hw
      · exact List.mem_singleton.1 hw ▸ hv
    · exact h.case w hw (leftOpen_append_iff.1 hopen).1
  · rintro ⟨v, hv, h⟩
    obtain rfl := Value.family_of_mem_cases hv
    have hvc : v ∈ c := h.holds v (List.mem_append_right values (List.mem_singleton_self v))
    refine ⟨fun g hg => ?_, fun w hw => ?_, fun w hw => ?_, fun w hw hopen => ?_⟩
    · refine h.one g (hg.imp_right fun closed hopen => ?_)
      exact closed (leftOpen_append_iff.1 hopen).1
    · by_cases e : v.family = w.family
      · exact Or.inl (e ▸ hf)
      · exact (h.only w hw).imp_right fun closed hopen => closed (leftOpen_append_iff.2 ⟨hopen, e⟩)
    · exact h.holds w (List.mem_append_left [v] hw)
    · by_cases e : v.family = w.family
      · rwa [← h.eq hvc hw e]
      · exact h.case w hw (leftOpen_append_iff.2 ⟨hopen, e⟩)

/-- Completions that take different cases of one family are different. -/
theorem Completes.append_unique {w : Value} (hv : Completes (values ++ [v]) fs c)
    (hw : Completes (values ++ [w]) fs c) (hf : v.family = w.family) : v = w :=
  hv.eq (hv.holds v (List.mem_append_right values (List.mem_singleton_self v)))
    (hw.holds w (List.mem_append_right values (List.mem_singleton_self w))) hf

/-! ## How many there are -/

/-- The different families among those given that the values leave open. -/
def openFamilies (values : List Value) (fs : List Family) : Finset Family :=
  fs.toFinset.filter (LeftOpen values)

theorem mem_openFamilies : f ∈ openFamilies values fs ↔ f ∈ fs ∧ LeftOpen values f := by
  rw [openFamilies, Finset.mem_filter, List.mem_toFinset]

theorem openFamilies_eq_empty_iff : openFamilies values fs = ∅ ↔ ∀ f ∈ fs, ¬LeftOpen values f := by
  simp only [Finset.eq_empty_iff_forall_notMem, mem_openFamilies, not_and]

/-- The completions as a finite set. -/
def completions (values : List Value) (fs : List Family) : Finset Combination :=
  (extensions (.ofList values) fs).toList.toFinset

theorem mem_completions : c ∈ completions values fs ↔ Completes values fs c := by
  rw [completions, List.mem_toFinset]
  exact mem_extensions_iff_completes

theorem card_completions :
    (completions values fs).card = (extensions (.ofList values) fs).size :=
  List.toFinset_card_of_nodup (SortedSet.nodup_toList _)

/-- Where no family is left open, the values themselves are their only completion. -/
theorem completes_iff_of_closed (consistent : ¬Contradictory values)
    (closed : ∀ f ∈ fs, ¬LeftOpen values f) : Completes values fs c ↔ c = .ofList values := by
  have fixed : ∀ f, f ∈ fs ∨ ¬LeftOpen values f → ∃ w ∈ values, w.family = f := by
    intro f hf
    have hf : ¬LeftOpen values f := hf.elim (closed f) id
    unfold LeftOpen at hf
    push Not at hf
    exact hf
  constructor
  · intro h
    ext v
    rw [SortedSet.mem_ofList]
    refine ⟨fun hv => ?_, h.holds v⟩
    obtain ⟨w, hw, hf⟩ := fixed v.family (h.only v hv)
    exact h.eq (h.holds w hw) hv hf ▸ hw
  · rintro rfl
    simp only [Contradictory] at consistent
    push Not at consistent
    refine ⟨fun f hf => ?_, fun v hv => ?_, fun v hv => ?_, fun v hv opened => ?_⟩
    · obtain ⟨w, hw, rfl⟩ := fixed f hf
      refine ⟨w, ⟨SortedSet.mem_ofList.2 hw, rfl⟩, fun v hv => ?_⟩
      exact consistent v (SortedSet.mem_ofList.1 hv.1) w hw hv.2
    · exact Or.inr (not_leftOpen_of_mem (SortedSet.mem_ofList.1 hv))
    · exact SortedSet.mem_ofList.2 hv
    · exact absurd opened (not_leftOpen_of_mem (SortedSet.mem_ofList.1 hv))

/-- Values stay free of contradictions if one of an open family is added. -/
theorem not_contradictory_append (consistent : ¬Contradictory values)
    (opened : LeftOpen values v.family) : ¬Contradictory (values ++ [v]) := by
  rintro ⟨a, ha, b, hb, hf, hne⟩
  simp only [List.mem_append, List.mem_singleton] at ha hb
  rcases ha with ha | rfl <;> rcases hb with hb | rfl
  · exact consistent ⟨a, ha, b, hb, hf, hne⟩
  · exact opened a ha hf
  · exact opened b hb hf.symm
  · exact hne rfl

/-- The completions, sorted by the case that they take of an open family. -/
theorem completions_eq_biUnion (hf : f ∈ fs) (opened : LeftOpen values f) :
    completions values fs = f.cases.toFinset.biUnion fun v => completions (values ++ [v]) fs := by
  ext c
  simp only [Finset.mem_biUnion, mem_completions, List.mem_toFinset, completes_append_iff hf opened]

theorem pairwiseDisjoint_completions :
    (f.cases.toFinset : Set Value).PairwiseDisjoint fun v => completions (values ++ [v]) fs := by
  intro v hv w hw hne
  rw [Function.onFun, Finset.disjoint_left]
  intro c hcv hcw
  have hv := Value.family_of_mem_cases (List.mem_toFinset.1 hv)
  have hw := Value.family_of_mem_cases (List.mem_toFinset.1 hw)
  exact hne ((mem_completions.1 hcv).append_unique (mem_completions.1 hcw) (hv.trans hw.symm))

theorem openFamilies_append :
    openFamilies (values ++ [v]) fs = (openFamilies values fs).erase v.family := by
  ext g
  rw [mem_openFamilies, leftOpen_append_iff, Finset.mem_erase, mem_openFamilies, ← and_assoc,
    and_comm, ne_comm]

/-- There are as many completions as there are ways to choose a case of every open family. -/
theorem size_extensions (consistent : ¬Contradictory values) :
    (extensions (.ofList values) fs).size =
      ∏ f ∈ openFamilies values fs, f.cases.toFinset.card := by
  rw [← card_completions]
  -- on the open families: a case of the one that is added closes it and leaves the others open
  induction hs : openFamilies values fs using Finset.induction_on generalizing values with
  | empty =>
    have closed := openFamilies_eq_empty_iff.1 hs
    have only : completions values fs = {.ofList values} := by
      ext c
      rw [mem_completions, completes_iff_of_closed consistent closed, Finset.mem_singleton]
    rw [only, Finset.card_singleton, Finset.prod_empty]
  | insert f s hfs ih =>
    obtain ⟨hf, opened⟩ := mem_openFamilies.1 (hs ▸ Finset.mem_insert_self f s)
    have rest : ∀ v ∈ f.cases.toFinset,
        (completions (values ++ [v]) fs).card = ∏ g ∈ s, g.cases.toFinset.card := by
      intro v hv
      obtain rfl := Value.family_of_mem_cases (List.mem_toFinset.1 hv)
      apply ih (not_contradictory_append consistent opened)
      rw [openFamilies_append, hs, Finset.erase_insert hfs]
    rw [completions_eq_biUnion hf opened, Finset.card_biUnion pairwiseDisjoint_completions,
      Finset.sum_const_nat rest, Finset.prod_insert hfs]

/-! ## The expansion -/

/-- The families of no values at all are all left open: the expansion of nothing is every choice of
a case of each of the families. -/
theorem all_eq_choices :
    all fs = .ofList ((choices ((SortedSet.ofList fs).toList.map Family.cases)).map .ofList) := by
  have same : SortedSet.ofList fs ∪ families ∅ = SortedSet.ofList fs := by
    ext f
    rw [SortedSet.mem_union, mem_families]
    refine ⟨fun h => h.elim id ?_, Or.inl⟩
    rintro ⟨v, hv, -⟩
    exact absurd hv (SortedSet.not_mem_empty v)
  have free : options ∅ = Family.cases := by
    funext f
    rfl
  have consistent : Consistent ∅ := List.nodup_nil
  rw [all, extensions, if_pos consistent, same, free]

/-- The expansion of values over families is empty if they contradict each other. In any case its
members are exactly the completions of the values, and without contradiction there are as many as
the product of the numbers of different cases of the families left open. All combinations are the
expansion of no values, and any expansion is the disjoint union, over the cases of an open family,
of the expansions with the case added. -/
theorem extensions_exact (values : List Value) (fs : List Family) :
    (Contradictory values → extensions (.ofList values) fs = ∅) ∧
    (∀ c, c ∈ extensions (.ofList values) fs ↔ Completes values fs c) ∧
    (¬Contradictory values →
      (extensions (.ofList values) fs).size = ∏ f ∈ openFamilies values fs, f.cases.toFinset.card ∧
      ((∃ f ∈ fs, LeftOpen values f ∧ f.cases = []) → (extensions (.ofList values) fs).size = 0) ∧
      ((∀ f ∈ fs, ¬LeftOpen values f) → (extensions (.ofList values) fs).size = 1)) ∧
    (all fs = extensions (.ofList []) fs ∧
      all fs = .ofList ((choices ((SortedSet.ofList fs).toList.map Family.cases)).map .ofList)) ∧
    ∀ f ∈ fs, LeftOpen values f →
      (∀ c, c ∈ extensions (.ofList values) fs ↔
        ∃ v ∈ f.cases, c ∈ extensions (.ofList (values ++ [v])) fs) ∧
      ∀ v ∈ f.cases, ∀ w ∈ f.cases, v ≠ w →
        ∀ c ∈ extensions (.ofList (values ++ [v])) fs,
          c ∉ extensions (.ofList (values ++ [w])) fs := by
  refine ⟨fun h => ?_, fun c => mem_extensions_iff_completes, fun h => ⟨size_extensions h, ?_, ?_⟩,
    ⟨rfl, all_eq_choices⟩, fun f hf opened => ⟨fun c => ?_, fun v hv w hw hne c hcv hcw => ?_⟩⟩
  · ext c
    rw [mem_extensions_iff_completes]
    exact iff_of_false (not_completes_of_contradictory h) (SortedSet.not_mem_empty c)
  · rintro ⟨f, hf, opened, none⟩
    rw [size_extensions h]
    apply Finset.prod_eq_zero (mem_openFamilies.2 ⟨hf, opened⟩)
    rw [none, List.toFinset_nil, Finset.card_empty]
  · intro closed
    rw [size_extensions h, openFamilies_eq_empty_iff.2 closed, Finset.prod_empty]
  · simp only [mem_extensions_iff_completes]
    exact completes_append_iff hf opened
  · rw [mem_extensions_iff_completes] at hcv hcw
    have hfamily := (Value.family_of_mem_cases hv).trans (Value.family_of_mem_cases hw).symm
    exact hne (hcv.append_unique hcw hfamily)

end Combination

namespace Turnstile

/-- The shifts of the guards. The early one is listed twice. -/
def shift : Family :=
  .ofLabels "Shift" ["Early", "Late", "Early"]

/-- A weak watch completes over the hours, listed twice, and the shifts in four ways, two of them at
night; there is no weak and strong one, but one in two shifts that are not listed. -/
theorem weak_completions :
    (Combination.extensions (.ofList [Predicate.value Enforcement.weak])
      [hours, shift, hours, Predicate.family Enforcement]).size = 4 ∧
    (Combination.extensions (.ofList [Predicate.value Enforcement.weak, hours.value "Night"])
      [hours, shift, hours, Predicate.family Enforcement]).size = 2 ∧
    Combination.extensions
      (.ofList [Predicate.value Enforcement.weak, Predicate.value Enforcement.strong])
      [hours, shift] = ∅ ∧
    (Combination.extensions (.ofList [shift.value "Noon", shift.value "Dusk"])
      [shift, hours]).size = 2 := by
  refine ⟨?_, ?_, (Combination.extensions_exact _ _).1 (by decide +kernel), ?_⟩
  · rw [((Combination.extensions_exact _ _).2.2.1 (by decide +kernel)).1]
    decide +kernel
  · rw [((Combination.extensions_exact _ _).2.2.1 (by decide +kernel)).1]
    decide +kernel
  · rw [((Combination.extensions_exact _ _).2.2.1 (by decide +kernel)).1]
    decide +kernel

end Turnstile

end TableMachine
