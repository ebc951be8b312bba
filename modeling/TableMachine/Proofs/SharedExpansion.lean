import Mathlib.Data.List.Forall2
import Mathlib.Data.List.Induction
import TableMachine.Proofs.Interchange

/-!
# Like conditions share one expansion

Rules are expanded one after another. What a condition covers, or how it contradicts itself, is
remembered and recalled for every later condition of its form, wherever that stands and in whatever
order its alternatives are written. A contradiction is told with the condition of the rule at hand,
but with the conflicts remembered, and not again for a like condition at the same place.

The memory holds, for the first condition of each form, what that covers by itself
(`Expansions.Memory.note_of`). So after any rules each of them was given what the condition standing
for its own one covers, and the contradictions told are those that compilation reports
(`Rule.expansions_eq`).

**Main statements.** Every rule is given what its own condition covers, and every contradictory
condition is told once for each place and has the conflicts told (`Rule.shared_expansion_exact`).
-/

namespace TableMachine

variable {σ ε χ ω : Type}

/-! ## The memory -/

/-- Conditions, each with what it covers or how it contradicts itself. -/
abbrev Expansions.Memory :=
  List (Condition × Except Contradiction Coverage)

namespace Expansions.Memory

/-- What is remembered of a condition like `m`. -/
def remembered? (memory : Memory) (m : Condition) : Option (Except Contradiction Coverage) :=
  (memory.find? fun known => known.1.Alike m).map Prod.snd

/-- What is remembered of a condition like `m`, or else what `m` covers by itself. -/
def outcome (fs : List Family) (memory : Memory) (m : Condition) : Except Contradiction Coverage :=
  (memory.remembered? m).getD (m.coverage fs)

/-- The memory with `m`, if no condition like it is remembered. -/
def note (fs : List Family) (memory : Memory) (m : Condition) : Memory :=
  if (memory.remembered? m).isSome then memory else memory ++ [(m, m.coverage fs)]

/-- The first condition of each form, with what it covers by itself. -/
def of (fs : List Family) (conditions : List Condition) : Memory :=
  (distinctBy Condition.form conditions).map fun m => (m, m.coverage fs)

variable (fs : List Family) (conditions : List Condition) (m : Condition)

/-- What is recalled was made from the first condition of the form. -/
theorem remembered?_of :
    (of fs conditions).remembered? m =
      (conditions.find? fun n => n.Alike m).map fun n => n.coverage fs := by
  have same : ∀ n n' : Condition, n.form = n'.form → decide (n.Alike m) = decide (n'.Alike m) := by
    intro n n' h
    exact decide_eq_decide.2 ⟨h.symm.trans, h.trans⟩
  rw [remembered?, of, List.find?_map, Option.map_map, ← find?_distinctBy same conditions]
  rfl

/-- To note one more condition is to remember the first of each form among one more. -/
theorem note_of : (of fs conditions).note fs m = of fs (conditions ++ [m]) := by
  have known : ((of fs conditions).remembered? m).isSome ↔ ∃ n ∈ conditions, n.form = m.form := by
    rw [remembered?_of, Option.isSome_map, List.find?_isSome]
    simp only [decide_eq_true_eq]
    exact Iff.rfl
  unfold note
  simp only [known]
  rw [of, of, distinctBy_concat]
  split
  · rfl
  · rw [List.map_append]
    rfl

end Expansions.Memory

/-! ## One rule after another -/

/-- What is found in the rules gone through so far. -/
structure Expansions where
  /-- What is remembered of their conditions. -/
  memory : Expansions.Memory := []
  /-- What their conditions cover, nothing for one that contradicts itself. -/
  coverages : List (Option Coverage) := []
  /-- The contradictions told. -/
  told : List Contradiction := []

/-- One more contradiction is told, unless it was told of a like condition at the same place. -/
def Expansions.tell (told : List Contradiction) (e : Contradiction) : List Contradiction :=
  if ∃ e' ∈ told, (e'.condition.Alike e.condition ∧ e'.conflicts = e.conflicts) ∧
      e'.condition.location? = e.condition.location? then told
  else told ++ [e]

/-- One more rule is expanded, from memory if that holds a like condition. A contradiction is told
with the rule's own condition, at its place or else at the rule's. -/
def Expansions.add (fs : List Family) (x : Expansions) (r : Rule σ ε χ ω) : Expansions where
  memory := x.memory.note fs r.condition
  coverages := x.coverages ++ [(x.memory.outcome fs r.condition).toOption]
  told :=
    match x.memory.outcome fs r.condition with
    | .ok _ => x.told
    | .error e => tell x.told { e with condition := r.condition.placedOr r.location }

namespace Rule

/-- The rules are expanded one after another. -/
def expansions (fs : List Family) (rules : List (Rule σ ε χ ω)) : Expansions :=
  rules.foldl (Expansions.add fs) {}

variable {fs : List Family} {rules : List (Rule σ ε χ ω)} {r q : Rule σ ε χ ω} {m : Condition}

/-! ### What one more rule changes -/

/-- A condition has the same representative among more rules, if there is one for it already or the
rule that is added has that condition. -/
theorem representative_concat (h : m = r.condition ∨ ∃ q ∈ rules, q.condition.Alike m) :
    representative (rules ++ [r]) m = representative rules m := by
  unfold representative
  rw [List.map_append, List.find?_append]
  cases hf : (rules.map condition).find? fun n => n.Alike m with
  | some n => rfl
  | none =>
    rcases h with rfl | ⟨q, hq, alike⟩
    · simp [Condition.Alike]
    · have := List.find?_eq_none.1 hf q.condition (List.mem_map_of_mem hq)
      simp [alike] at this

/-- What the memory gives for a condition is what the condition covers that stands for it. -/
theorem outcome_of :
    (Expansions.Memory.of fs (rules.map condition)).outcome fs m =
      (representative rules m).coverage fs := by
  unfold Expansions.Memory.outcome representative
  rw [Expansions.Memory.remembered?_of]
  cases (rules.map condition).find? fun n => n.Alike m with
  | some n => rfl
  | none => rfl

/-- What is found in a rule does not change if others are added. -/
theorem contradiction?_concat (h : q = r ∨ q ∈ rules) :
    contradiction? (rules ++ [r]) q = contradiction? rules q := by
  have known : q.condition = r.condition ∨ ∃ p ∈ rules, p.condition.Alike q.condition := by
    rcases h with rfl | hq
    · exact Or.inl rfl
    · exact Or.inr ⟨q, hq, rfl⟩
  rw [contradiction?, representative_concat known]
  rfl

/-- Like conditions have one representative, if one of them is that of a rule. -/
theorem representative_congr (hq : q ∈ rules) (h : q.condition.Alike m) :
    representative rules m = representative rules q.condition := by
  have same : (fun n : Condition => decide (n.Alike m)) =
      fun n => decide (n.Alike q.condition) := by
    funext n
    exact decide_eq_decide.2 ⟨fun e => Eq.trans e h.symm, fun e => Eq.trans e h⟩
  unfold representative
  rw [same]
  cases hf : (rules.map condition).find? fun n => n.Alike q.condition with
  | some n => rfl
  | none =>
    have := List.find?_eq_none.1 hf q.condition (List.mem_map_of_mem hq)
    simp [Condition.Alike] at this

/-- Contradictions of one form and place are told once, since their conflicts are the same. -/
theorem tell_contradictions {e : Contradiction} (he : contradiction? rules r = some e) :
    Expansions.tell (contradictions rules) e =
      distinctBy (fun e => (e.condition.form, e.condition.location?))
        (rules.filterMap (contradiction? rules) ++ [e]) := by
  have told : (∃ e' ∈ contradictions rules,
      (e'.condition.Alike e.condition ∧ e'.conflicts = e.conflicts) ∧
        e'.condition.location? = e.condition.location?) ↔
        ∃ e' ∈ rules.filterMap (contradiction? rules),
          (e'.condition.form, e'.condition.location?) =
            (e.condition.form, e.condition.location?) := by
    constructor
    · rintro ⟨e', he', ⟨alike, -⟩, place⟩
      exact ⟨e', mem_of_mem_distinctBy he', Prod.ext alike place⟩
    · rintro ⟨e', he', same⟩
      obtain ⟨e'', he'', same'⟩ := exists_mem_distinctBy
        (fun e : Contradiction => (e.condition.form, e.condition.location?)) he'
      obtain ⟨alike, place⟩ := Prod.mk.inj (same'.trans same)
      refine ⟨e'', he'', ⟨alike, ?_⟩, place⟩
      -- both were made from the representative of one form
      obtain ⟨q, hq, hqe⟩ := List.mem_filterMap.1 (mem_of_mem_distinctBy he'')
      obtain ⟨-, rfl⟩ := contradiction?_eq_some_iff.1 hqe
      obtain ⟨-, rfl⟩ := contradiction?_eq_some_iff.1 he
      have alike : q.condition.Alike r.condition := alike
      rw [representative_congr hq alike]
  unfold Expansions.tell
  simp only [told]
  rw [distinctBy_concat]
  rfl

/-- One more rule adds the contradiction found in it, if that is not told already. -/
theorem contradictions_concat :
    contradictions (rules ++ [r]) =
      match contradiction? rules r with
      | none => contradictions rules
      | some e => Expansions.tell (contradictions rules) e := by
  have before : rules.filterMap (contradiction? (rules ++ [r])) =
      rules.filterMap (contradiction? rules) :=
    List.filterMap_congr fun q hq => contradiction?_concat (Or.inr hq)
  have here : [r].filterMap (contradiction? (rules ++ [r])) = (contradiction? rules r).toList := by
    rw [List.filterMap_cons, contradiction?_concat (Or.inl rfl)]
    cases contradiction? rules r with
    | none => rfl
    | some e => rfl
  rw [contradictions, List.filterMap_append, before, here]
  cases he : contradiction? rules r with
  | none =>
    rw [Option.toList_none, List.append_nil]
    rfl
  | some e => exact (tell_contradictions he).symm

/-! ### What all rules come to -/

/-- After any rules the memory holds the first condition of each form. Each rule was given what the
condition covers that stands for its own one, and the contradictions told are those of the rules. -/
theorem expansions_eq (fs : List Family) (rules : List (Rule σ ε χ ω)) :
    expansions fs rules =
      { memory := .of fs (rules.map condition)
        coverages := rules.map fun r => ((representative rules r.condition).coverage fs).toOption
        told := contradictions rules } := by
  induction rules using List.reverseRecOn with
  | nil => rfl
  | append_singleton rules r ih =>
    have step : expansions fs (rules ++ [r]) = (expansions fs rules).add fs r :=
      List.foldl_concat ..
    have before : ∀ q ∈ rules,
        representative (rules ++ [r]) q.condition = representative rules q.condition :=
      fun q hq => representative_concat (Or.inr ⟨q, hq, rfl⟩)
    have here : representative (rules ++ [r]) r.condition = representative rules r.condition :=
      representative_concat (Or.inl rfl)
    rw [step, ih, Expansions.add, Expansions.mk.injEq]
    refine ⟨?_, ?_, ?_⟩
    · rw [Expansions.Memory.note_of, List.map_append]
      rfl
    · rw [outcome_of, List.map_append, List.map_singleton, here]
      congr 1
      exact List.map_congr_left fun q hq => by rw [before q hq]
    · rw [outcome_of, contradictions_concat, contradiction?, Condition.coverage]
      cases (representative rules r.condition).contradiction? with
      | none => rfl
      | some e => rfl

/-! ## Against expansion by itself -/

/-- What a rule is given is what its own condition covers. -/
structure Given (fs : List Family) (r : Rule σ ε χ ω) (found : Option Coverage) : Prop where
  /-- Nothing is given exactly if the condition contradicts itself. -/
  none_iff : found = none ↔ r.condition.contradiction?.isSome
  /-- Otherwise the combinations and their ranks are those that the condition itself covers. -/
  same : ∀ own, r.condition.coverage fs = .ok own →
    ∃ k, found = some k ∧ k.combinations = own.combinations ∧ ∀ c, k.rankOf? c = own.rankOf? c

/-- What is told of contradictions is right of every rule, and nothing is told twice. -/
structure Tells (rules : List (Rule σ ε χ ω)) (told : List Contradiction) : Prop where
  /-- For every form of a contradictory condition and every place of such conditions, its own or
  else the rule's, one contradiction is told, in the order in which these are met first. -/
  once : told.map (fun e => (e.condition.form, e.condition.location?)) =
    ((rules.filter fun r => r.condition.contradiction?.isSome).map fun r =>
      (r.condition.form, some r.conditionLocation)).eraseDups
  /-- It is told with the condition of the first rule that has a condition of this form at this
  place. -/
  first : ∀ e ∈ told, ∃ r, rules.find? (fun q =>
    q.condition.Alike e.condition ∧ some q.conditionLocation = e.condition.location?) = some r ∧
      e.condition = r.condition.placedOr r.location
  /-- It has the conflicts of each condition of this form. -/
  conflicts : ∀ e ∈ told, ∀ r ∈ rules, r.condition.Alike e.condition →
    ∃ own, r.condition.contradiction? = some own ∧ ∀ pair, pair ∈ e.conflicts ↔ pair ∈ own.conflicts

/-- To be given what the representative covers is as good. -/
theorem given_representative (fs : List Family) (rules : List (Rule σ ε χ ω)) (r : Rule σ ε χ ω) :
    Given fs r ((representative rules r.condition).coverage fs).toOption := by
  have alike := representative_alike rules r.condition
  constructor
  · have refused : ((representative rules r.condition).coverage fs).toOption = none ↔
        (representative rules r.condition).contradiction? ≠ none := by
      unfold Condition.coverage
      cases (representative rules r.condition).contradiction? with
      | none => simp [Except.toOption]
      | some e => simp [Except.toOption]
    rw [refused, alike.contradiction?_eq_none_iff.ne, Option.isSome_iff_ne_none]
  · intro own hown
    obtain ⟨k, hk, same⟩ := Condition.Alike.coverage_eq alike.symm hown
    exact ⟨k, by rw [hk]; rfl, same⟩

/-- What is told of a rule has the form of its condition and the place of that. -/
theorem key_of_contradiction? {e : Contradiction} (he : contradiction? rules r = some e) :
    e.condition.form = r.condition.form ∧ e.condition.location? = some r.conditionLocation := by
  obtain ⟨-, rfl⟩ := contradiction?_eq_some_iff.1 he
  exact ⟨rfl, rfl⟩

/-- Something is told of a rule exactly if its own condition contradicts itself. -/
theorem isSome_contradiction?_eq (rules : List (Rule σ ε χ ω)) (r : Rule σ ε χ ω) :
    (contradiction? rules r).isSome = r.condition.contradiction?.isSome := by
  rw [Bool.eq_iff_iff, Option.isSome_iff_ne_none, Option.isSome_iff_ne_none, ne_eq, ne_eq,
    contradiction?_eq_none_iff, Condition.contradiction?_eq_none_iff]
  rfl

/-- Before repetitions are dropped, form and place are told of every rule whose condition
contradicts itself. -/
theorem map_key_filterMap_contradiction? (rules : List (Rule σ ε χ ω)) :
    (rules.filterMap (contradiction? rules)).map
      (fun e => (e.condition.form, e.condition.location?)) =
      (rules.filter fun r => r.condition.contradiction?.isSome).map fun r =>
        (r.condition.form, some r.conditionLocation) := by
  rw [List.map_filterMap, ← List.filterMap_eq_map, List.filterMap_filter]
  apply List.filterMap_congr
  intro r _
  rw [← isSome_contradiction?_eq rules r]
  cases he : contradiction? rules r with
  | none => rfl
  | some e =>
    obtain ⟨form, place⟩ := key_of_contradiction? he
    simp [form, place]

/-- A contradiction is reported with the condition of the first rule of its form and place. -/
theorem find?_of_mem_contradictions {e : Contradiction} (he : e ∈ contradictions rules) :
    ∃ r, rules.find? (fun q =>
      q.condition.Alike e.condition ∧ some q.conditionLocation = e.condition.location?) = some r ∧
        e.condition = r.condition.placedOr r.location := by
  have found := mem_distinctBy_iff.1 he
  rw [List.find?_filterMap] at found
  obtain ⟨r, hr, hre⟩ := Option.bind_eq_some_iff.1 found
  obtain ⟨incoherent, shown⟩ := contradiction?_eq_some_iff.1 hre
  obtain ⟨form, -⟩ := key_of_contradiction? hre
  refine ⟨r, ?_, congrArg Contradiction.condition shown⟩
  rw [← hr]
  congr 1
  funext q
  rw [Bool.eq_iff_iff, decide_eq_true_eq, Option.any_eq_true]
  simp only [decide_eq_true_eq, Prod.mk.injEq]
  constructor
  · rintro ⟨alike, place⟩
    -- a condition of this form is as contradictory, so something is told of the rule
    have told : contradiction? rules q ≠ none := by
      rw [ne_eq, contradiction?_eq_none_iff]
      exact fun coherent =>
        incoherent ((Condition.Alike.coherent_iff (alike.trans form)).1 coherent)
    obtain ⟨e', he'⟩ := Option.ne_none_iff_exists'.1 told
    obtain ⟨form', place'⟩ := key_of_contradiction? he'
    exact ⟨e', he', form'.trans alike, place'.trans place⟩
  · rintro ⟨e', he', form', place'⟩
    obtain ⟨own, there⟩ := key_of_contradiction? he'
    exact ⟨own.symm.trans form', there.symm.trans place'⟩

/-- A contradiction is reported with the conflicts of any rule's condition of its form. -/
theorem conflicts_of_mem_contradictions {e : Contradiction} (he : e ∈ contradictions rules)
    (alike : r.condition.Alike e.condition) :
    ∃ own, r.condition.contradiction? = some own ∧
      ∀ pair, pair ∈ e.conflicts ↔ pair ∈ own.conflicts := by
  obtain ⟨q, -, hqe⟩ := List.mem_filterMap.1 (mem_of_mem_distinctBy he)
  obtain ⟨incoherent, rfl⟩ := contradiction?_eq_some_iff.1 hqe
  have alike : r.condition.Alike q.condition := alike
  cases hown : r.condition.contradiction? with
  | none =>
    have coherent : r.condition.Coherent := Condition.contradiction?_eq_none_iff.1 hown
    exact absurd (alike.coherent_iff.1 coherent) incoherent
  | some own =>
    obtain ⟨-, rfl⟩ := Condition.contradiction?_eq_some_iff_opposes.1 hown
    have like : (representative rules q.condition).Alike r.condition :=
      (representative_alike rules q.condition).trans alike.symm
    exact ⟨_, rfl, like.mem_conflicts_iff⟩

/-- The contradictions that compilation reports are told so. -/
theorem tells_contradictions (rules : List (Rule σ ε χ ω)) :
    Tells rules (contradictions rules) where
  once := by
    rw [contradictions, ← eraseDups_map, map_key_filterMap_contradiction?]
    congr 1
    exact lawful_beq_subsingleton _ _
  first _ := find?_of_mem_contradictions
  conflicts _ he _ _ := conflicts_of_mem_contradictions he

/-- Rules that are expanded one after another, like conditions from memory, are each given what
their own conditions cover over the families. The contradictory conditions among them are told once
for each form and place, in the order in which these are met first, at that place, and with the
conflicts of every condition of the form, whichever of them was expanded. This is how a table is
made from its rules: over the families that they mention, the rules are given what compilation works
with, and what is told is what it reports. -/
theorem shared_expansion_exact (rules : List (Rule σ ε χ ω)) :
    (∀ fs : List Family, List.Forall₂ (Given fs) rules (expansions fs rules).coverages ∧
      Tells rules (expansions fs rules).told ∧ (expansions fs rules).told = contradictions rules) ∧
    (expansions (mentionedFamilies rules) rules).coverages =
      rules.map fun r => (expansion rules r.condition).toOption := by
  constructor
  · intro fs
    rw [expansions_eq]
    refine ⟨?_, tells_contradictions rules, rfl⟩
    rw [List.forall₂_map_right_iff, List.forall₂_same]
    exact fun r _ => given_representative fs rules r
  · rw [expansions_eq]
    rfl

end Rule

namespace Turnstile

/-- Both alternatives contradict themselves. -/
def tangled : Condition :=
  .anyOf [[Predicate.value Enforcement.weak, Predicate.value Enforcement.strong],
    [runningMode.value "Free", runningMode.value "Paid"]]

/-- The same in the reverse order, with a repetition, and at a place. -/
def tangledAgain : Condition :=
  (Condition.anyOf [[runningMode.value "Free", runningMode.value "Paid"],
    [Predicate.value Enforcement.weak, Predicate.value Enforcement.strong],
    [runningMode.value "Free", runningMode.value "Paid"]]).placed (here 91)

/-- Weak enforcement, and enforcement of a kind that is not listed. -/
def unheardOf (label : String) : Condition :=
  .allOf [Predicate.value Enforcement.weak, (Predicate.family Enforcement).value label]

/-- Rules with such conditions at two places, and others between them. The last two name different
kinds of enforcement that are not listed. -/
def tangledRules : List (Rule Gate Input Unit Notes) :=
  [ignoring tangled 90, ignoring eitherWay 92, ignoring tangledAgain 93, ignoring tangled 91,
    ignoring eitherWayAgain 94, ignoring (unheardOf "Lax") 95, ignoring (unheardOf "Loose") 95]

/-- The contradiction is told at two places. What is told at the second has the conflicts in the
order of the first, and they are the same. The fifth rule is given what it covers from memory. The
unlisted kinds of enforcement are one, so the contradiction in the last two rules is told once. -/
theorem tangledRules_told :
    (Rule.expansions [Predicate.family Enforcement] tangledRules).told =
      [⟨tangled.placed (here 90), tangled.conflicts⟩, ⟨tangledAgain, tangled.conflicts⟩,
        ⟨(unheardOf "Lax").placed (here 95), (unheardOf "Loose").conflicts⟩] ∧
    tangled.conflicts ≠ tangledAgain.conflicts ∧
    (∃ own, tangledAgain.contradiction? = some own ∧
      ∀ pair, pair ∈ tangled.conflicts ↔ pair ∈ own.conflicts) ∧
    ∃ own, eitherWayAgain.coverage [Predicate.family Enforcement] = .ok own ∧
      ∃ k, (Rule.expansions [Predicate.family Enforcement] tangledRules).coverages[4]? =
          some (some k) ∧
        k.combinations = own.combinations := by
  obtain ⟨exact_over, -⟩ := Rule.shared_expansion_exact tangledRules
  obtain ⟨given, tells, -⟩ := exact_over [Predicate.family Enforcement]
  have told : (Rule.expansions [Predicate.family Enforcement] tangledRules).told =
      [⟨tangled.placed (here 90), tangled.conflicts⟩, ⟨tangledAgain, tangled.conflicts⟩,
        ⟨(unheardOf "Lax").placed (here 95), (unheardOf "Loose").conflicts⟩] := by
    decide +kernel
  refine ⟨told, by decide +kernel, ?_, ?_⟩
  · rw [told] at tells
    exact tells.conflicts ⟨tangledAgain, tangled.conflicts⟩ (by simp) (ignoring tangledAgain 93)
      (by simp [tangledRules]) rfl
  · have last := given.get (i := 4) (by decide) (by rw [← given.length_eq]; decide)
    obtain ⟨k, hk, combinations, -⟩ := last.same _ rfl
    exact ⟨_, rfl, k, List.getElem?_eq_some_iff.2 ⟨_, hk⟩, combinations⟩

end Turnstile

end TableMachine
