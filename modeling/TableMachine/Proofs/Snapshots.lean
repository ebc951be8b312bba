import TableMachine.Proofs.DirectMatching
import TableMachine.Proofs.Lookup

/-!
# Snapshots

A table asks for the families that its rules mention. It lists each of them once, a family mentioned
by an earlier rule before one mentioned by a later rule only, and the families that one condition
brings by name (`Rule.pairwise_mentionedFamilies`). Supplied values amount to a snapshot if there is
exactly one of each of these families. To see this the table counts: as many values as it has
families, and no two of one family, which is enough only because no family is listed twice.

**Main statements.** The families of a compiled table and their order, the snapshots that values
amount to, and that neither these nor what is found depend on anything but the set of the values of
the table's families (`Draft.snapshot_of_compile`).
-/

namespace TableMachine

variable {σ ε χ ω α β : Type}

/-! ## Order of first mention -/

theorem eraseDups_sublist [DecidableEq α] (xs : List α) : xs.eraseDups.Sublist xs := by
  have kept := eraseDups_map id xs
  rw [List.map_id, List.map_id] at kept
  rw [kept]
  exact distinctBy_sublist xs

/-- The position of the first element whose list holds `a`. -/
def firstIndex [DecidableEq α] (g : β → List α) (a : α) (xs : List β) : Nat :=
  xs.findIdx fun x => a ∈ g x

section FirstIndex

variable [DecidableEq α] {g : β → List α} {a : α} {x : β} {xs : List β}

theorem firstIndex_cons_of_mem (h : a ∈ g x) : firstIndex g a (x :: xs) = 0 := by
  simp [firstIndex, List.findIdx_cons, h]

theorem firstIndex_cons_of_not_mem (h : a ∉ g x) :
    firstIndex g a (x :: xs) = firstIndex g a xs + 1 := by
  simp [firstIndex, List.findIdx_cons, h]

/-- To drop other elements from all lists does not move the first list that holds `a`. -/
theorem firstIndex_filter {p : α → Bool} (h : p a = true) :
    firstIndex (fun y => (g y).filter p) a xs = firstIndex g a xs := by
  simp [firstIndex, List.mem_filter, h]

/-- If ordered lists are put one behind the other and repetitions are dropped, what remains is in
the order of the first lists that hold it, and where these are the same in the order of the list. -/
theorem pairwise_eraseDups_flatMap {before : α → α → Prop} (xs : List β)
    (h : ∀ x, (g x).Pairwise before) :
    (xs.flatMap g).eraseDups.Pairwise fun a b =>
      firstIndex g a xs < firstIndex g b xs ∨
        firstIndex g a xs = firstIndex g b xs ∧ before a b := by
  induction xs generalizing g with
  | nil => exact List.Pairwise.nil
  | cons x rest ih =>
    rw [List.flatMap_cons, List.eraseDups_append, List.pairwise_append]
    refine ⟨?_, ?_, ?_⟩
    · refine ((h x).sublist (eraseDups_sublist _)).imp_of_mem fun {a b} ha hb hab => ?_
      rw [firstIndex_cons_of_mem (List.mem_eraseDups.1 ha),
        firstIndex_cons_of_mem (List.mem_eraseDups.1 hb)]
      exact Or.inr ⟨rfl, hab⟩
    · -- the elements of the first list are dropped from the others, which are still ordered
      rw [List.removeAll, List.filter_flatMap]
      refine (ih fun y => (h y).filter _).imp_of_mem fun {a b} ha hb hab => ?_
      obtain ⟨y, -, ha⟩ := List.mem_flatMap.1 (List.mem_eraseDups.1 ha)
      obtain ⟨z, -, hb⟩ := List.mem_flatMap.1 (List.mem_eraseDups.1 hb)
      have hax := (List.mem_filter.1 ha).2
      have hbx := (List.mem_filter.1 hb).2
      rw [firstIndex_filter (p := fun c => !(g x).elem c) hax,
        firstIndex_filter (p := fun c => !(g x).elem c) hbx] at hab
      rw [firstIndex_cons_of_not_mem (by simpa using hax),
        firstIndex_cons_of_not_mem (by simpa using hbx)]
      rcases hab with hlt | ⟨heq, hab⟩
      · exact Or.inl (Nat.succ_lt_succ hlt)
      · exact Or.inr ⟨congrArg Nat.succ heq, hab⟩
    · intro a ha b hb
      have hbx := (List.mem_filter.1 (List.mem_eraseDups.1 hb)).2
      rw [firstIndex_cons_of_mem (List.mem_eraseDups.1 ha),
        firstIndex_cons_of_not_mem (by simpa using hbx)]
      exact Or.inl (Nat.succ_pos _)

end FirstIndex

/-- Families in order have their names in order. -/
theorem Family.name_le {f g : Family} (h : compare f g = .lt) : f.name ≤ g.name := by
  change compareLex (compareOn Family.name) _ f g = .lt at h
  simp only [compareLex, compareOn] at h
  have names : compare f.name g.name ≠ .gt := by
    intro hgt
    simp [hgt] at h
  change compareOfLessAndEq f.name g.name ≠ .gt at names
  unfold compareOfLessAndEq at names
  split at names
  · next hlt => exact String.not_lt.1 (String.lt_asymm hlt)
  · split at names
    · next heq => exact heq ▸ String.le_refl f.name
    · exact absurd rfl names

namespace Rule

/-- The position of the first rule whose condition mentions the family. -/
def firstMention (rules : List (Rule σ ε χ ω)) (f : Family) : Nat :=
  rules.findIdx fun r => f ∈ r.condition.families

/-- The families are in the order of first mention, those of one condition by name. -/
theorem pairwise_mentionedFamilies (rules : List (Rule σ ε χ ω)) :
    (mentionedFamilies rules).Pairwise fun f g =>
      firstMention rules f < firstMention rules g ∨
        firstMention rules f = firstMention rules g ∧ f.name ≤ g.name := by
  refine (pairwise_eraseDups_flatMap rules fun r => r.condition.families.ascending).imp ?_
  intro f g h
  exact h.imp_right (And.imp_right Family.name_le)

end Rule

/-! ## Snapshots of supplied values -/

namespace DispatchTable

variable {t : DispatchTable σ ε χ ω} {values values' : List Value}

/-- There is a snapshot exactly if there is exactly one value of each of the table's families. -/
theorem isSome_snapshot?_iff (hn : t.families.Nodup) :
    (t.snapshot? values).isSome ↔ ∀ f ∈ t.families, ∃! v, v ∈ values ∧ v.family = f := by
  rw [snapshot?_eq hn, ← spans_known_iff]
  split
  · next hs => exact iff_of_true rfl hs
  · next hs => exact iff_of_false Bool.false_ne_true hs

/-- A snapshot holds the values of the table's families. -/
theorem mem_of_snapshot? {c : Combination} (h : t.snapshot? values = some c) (v : Value) :
    v ∈ c ↔ v ∈ values ∧ v.family ∈ t.families := by
  obtain ⟨-, known⟩ := Option.ite_none_right_eq_some.1 h
  rw [← Option.some.inj known]
  exact mem_known

/-- Only the set of the values of the table's families matters. -/
theorem snapshot?_congr (h : ∀ v, v.family ∈ t.families → (v ∈ values ↔ v ∈ values')) :
    t.snapshot? values = t.snapshot? values' := by
  have same : t.known values = t.known values' := by
    ext v
    rw [mem_known, mem_known]
    exact and_congr_left (h v)
  exact congrArg
    (fun c : Combination =>
      if c.Consistent ∧ c.size = t.families.length then some c else none) same

end DispatchTable

namespace Draft

variable [DecidableEq σ] [DecidableEq ε] {d : Draft σ ε χ ω} {options : CompileOptions}
  {t : DispatchTable σ ε χ ω}

/-- A compiled table lists each family that a surviving rule mentions once, in the order of first
mention and within one condition by name. Values amount to a snapshot exactly if they hold exactly
one of each of these families, and the snapshot consists of the values of these families. Values
that hold the same ones of these families amount to the same and find the same. -/
theorem snapshot_of_compile [Event ε] (h : d.compile options = .ok t) :
    t.families.Nodup ∧
    (∀ f, f ∈ t.families ↔
      ∃ r ∈ Rule.survivors d.rules, ∃ v ∈ r.condition.values, v.family = f) ∧
    (t.families.Pairwise fun f g =>
      Rule.firstMention (Rule.survivors d.rules) f < Rule.firstMention (Rule.survivors d.rules) g ∨
        Rule.firstMention (Rule.survivors d.rules) f =
          Rule.firstMention (Rule.survivors d.rules) g ∧ f.name ≤ g.name) ∧
    (∀ values,
      ((t.snapshot? values).isSome ↔ ∀ f ∈ t.families, ∃! v, v ∈ values ∧ v.family = f) ∧
      ∀ c, t.snapshot? values = some c → ∀ v, v ∈ c ↔ v ∈ values ∧ v.family ∈ t.families) ∧
    ∀ values values', (∀ v, v.family ∈ t.families → (v ∈ values ↔ v ∈ values')) →
      t.snapshot? values = t.snapshot? values' ∧
      ∀ state event, t.find? state event values = t.find? state event values' := by
  have families := families_eq h
  have once : t.families.Nodup := families ▸ Rule.nodup_mentionedFamilies _
  refine ⟨once, fun f => ?_, ?_, fun values => ⟨?_, ?_⟩, fun values values' same => ?_⟩
  · rw [families]
    exact Rule.mem_mentionedFamilies
  · rw [families]
    exact Rule.pairwise_mentionedFamilies _
  · exact DispatchTable.isSome_snapshot?_iff once
  · intro c hc
    exact DispatchTable.mem_of_snapshot? hc
  · have snapshot := DispatchTable.snapshot?_congr same
    refine ⟨snapshot, fun state event => ?_⟩
    rw [DispatchTable.find?, DispatchTable.find?, snapshot]

end Draft

namespace Turnstile

/-- The sides of the turnstile. -/
def side : Family :=
  .ofLabels "Side" ["Front", "Back"]

/-- A family that no rule of the turnstile mentions. -/
def season : Family :=
  .ofLabels "Season" ["Winter"]

/-- The first rule mentions a family whose name comes after one that the second rule brings. -/
def patrolled : Draft Gate Input Unit Notes :=
  .ofRules [
    { state := .locked, event := .pass, next := .alarming, location := here 72
      condition := .allOf [hours.value "Night"] },
    { state := .locked, event := .kick, next := .broken, location := here 73
      condition := .allOf [side.value "Back", Predicate.value Enforcement.weak] }]

/-- Weak enforcement at night, with two sides that there are not. -/
def offSide : List Value :=
  [side.value "Top", Predicate.value Enforcement.weak, side.value "Bottom", hours.value "Night"]

/-- Repetitions, the season and the order of values make no difference to who passes at night. One
who is both weak and strong on people gets no snapshot, but two sides that there are not are one. -/
theorem patrolled_snapshots :
    ∃ t, patrolled.compile {} = .ok t ∧
      t.families = [hours, Predicate.family Enforcement, side] ∧
      t.find? .locked .pass
          [hours.value "Night", season.value "Winter", side.value "Back", hours.value "Night",
            Predicate.value Enforcement.weak] =
        t.find? .locked .pass
          [Predicate.value Enforcement.weak, side.value "Back", hours.value "Night"] ∧
      (t.snapshot? [Predicate.value Enforcement.weak, side.value "Back", hours.value "Night",
        Predicate.value Enforcement.strong]).isSome = false ∧
      (t.snapshot? offSide).isSome = true := by
  obtain ⟨t, h⟩ := Draft.exists_compile_of_toBool (by rfl : (patrolled.compile {}).toBool)
  obtain ⟨-, -, -, snapshots, same⟩ := Draft.snapshot_of_compile h
  have families : t.families = [hours, Predicate.family Enforcement, side] := by
    rw [Draft.families_eq h]
    decide +kernel
  refine ⟨t, h, families, ?_, ?_, ?_⟩
  · refine (same _ _ fun v hv => ?_).2 .locked .pass
    have foreign : v ≠ season.value "Winter" := by
      rintro rfl
      rw [families] at hv
      revert hv
      decide +kernel
    simp only [List.mem_cons, List.not_mem_nil, foreign, false_or, or_false]
    tauto
  · rw [Bool.eq_false_iff, Ne, (snapshots _).1]
    intro one
    obtain ⟨v, -, only⟩ := one (Predicate.family Enforcement) (by rw [families]; decide +kernel)
    have weak := only (Predicate.value Enforcement.weak) ⟨by simp, rfl⟩
    have strong := only (Predicate.value Enforcement.strong) ⟨by simp, rfl⟩
    have different : Predicate.value Enforcement.weak ≠ Predicate.value Enforcement.strong := by
      decide +kernel
    exact different (weak.trans strong.symm)
  · rw [(snapshots _).1, families]
    have supplied : ∀ f ∈ [hours, Predicate.family Enforcement, side],
        ∃ v ∈ offSide, v.family = f := by
      decide +kernel
    have single : ∀ v ∈ offSide, ∀ w ∈ offSide, w.family = v.family → w = v := by
      decide +kernel
    intro f hf
    obtain ⟨v, hv, rfl⟩ := supplied f hf
    exact ⟨v, ⟨hv, rfl⟩, fun w ⟨hw, same⟩ => single v hv w hw same⟩

end Turnstile

end TableMachine
