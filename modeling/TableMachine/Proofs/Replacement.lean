import Mathlib.Data.List.FinRange
import Mathlib.Data.List.Induction
import TableMachine.Proofs.ConflictReports
import TableMachine.Proofs.OverrideChains
import TableMachine.Proofs.Vacuity

/-!
# Which rules are replaced

Rules of one list may agree in all that is shown of them, so what becomes of a rule is told by its
position. A position is kept unless a rule that replaces the one there stands behind it
(`Rule.survivors_eq_positions`), and is idle if an overriding rule stands there that replaces none
before it (`Rule.idleAfter_eq_positions`), be it that all of these were replaced already.

The same comes out if the rules are gone through once, in order, and each overriding rule marks what
it replaces among those already seen (`Rule.marking_eq`): a mark is never taken back, and to mark a
rule twice is to mark it once.

**Main statements.** Positions are kept and idle just as stated here without mentioning
`Rule.survivors` and `Rule.idle`, the idle rules are reported, and nothing else changes
(`Rule.overriding_exact`).
-/

namespace TableMachine

variable {σ ε χ ω : Type}

/-! ## Positions -/

section Positions

variable {α : Type}

/-- The positions of a list that have the property, in order. -/
def positions (xs : List α) (p : Fin xs.length → Bool) : List (Fin xs.length) :=
  (List.finRange xs.length).filter p

variable {xs : List α} {p : Fin xs.length → Bool}

theorem mem_positions {i : Fin xs.length} : i ∈ positions xs p ↔ p i = true := by
  simp [positions]

theorem pairwise_positions (xs : List α) (p : Fin xs.length → Bool) :
    (positions xs p).Pairwise (· < ·) :=
  (List.pairwise_lt_finRange _).filter _

/-- The first position of a longer list is looked at by itself, and the others are one further
on. -/
theorem map_get_positions_cons (x : α) (xs : List α) (p : Fin (xs.length + 1) → Bool) :
    (positions (x :: xs) p).map (x :: xs).get =
      (if p 0 then [x] else []) ++ (positions xs fun i => p i.succ).map xs.get := by
  have rest : (((List.finRange xs.length).map Fin.succ).filter p).map (x :: xs).get =
      (positions xs fun i => p i.succ).map xs.get := by
    rw [List.filter_map, List.map_map]
    rfl
  change ((List.finRange (xs.length + 1)).filter p).map (x :: xs).get = _
  rw [List.finRange_succ, List.filter_cons, ← rest]
  split
  · rfl
  · rfl

end Positions

/-! ## Marking -/

/-- The rules seen so far, each with a mark if it was replaced, and those of them that found nothing
to replace. -/
structure Marking (σ ε χ ω : Type) where
  /-- The rules and their marks. -/
  rules : List (Rule σ ε χ ω × Bool) := []
  /-- The overriding rules with nothing to replace. -/
  idle : List (Rule σ ε χ ω) := []

namespace Marking

variable [DecidableEq σ] [DecidableEq ε]

/-- One more rule is seen. It marks the rules that it replaces, whether or not they are marked
already, and is itself not marked. -/
def see (m : Marking σ ε χ ω) (r : Rule σ ε χ ω) : Marking σ ε χ ω where
  rules := m.rules.map (fun seen => (seen.1, seen.2 || decide (r.Replaces seen.1))) ++ [(r, false)]
  idle :=
    if r.overriding ∧ ¬∃ seen ∈ m.rules, r.Replaces seen.1 then m.idle ++ [r] else m.idle

/-- The rules without a mark. -/
def unmarked (m : Marking σ ε χ ω) : List (Rule σ ε χ ω) :=
  (m.rules.filter fun seen => !seen.2).map Prod.fst

/-- Of the rules seen before, those remain unmarked that the next one does not replace, and it joins
them. -/
theorem unmarked_see (m : Marking σ ε χ ω) (r : Rule σ ε χ ω) :
    (m.see r).unmarked = m.unmarked.filter (fun q => ¬r.Replaces q) ++ [r] := by
  have spared : ∀ seen : Rule σ ε χ ω × Bool,
      (!(seen.2 || decide (r.Replaces seen.1))) = (decide (¬r.Replaces seen.1) && !seen.2) := by
    intro seen
    simp [Bool.and_comm]
  simp only [unmarked, see, List.filter_append, List.map_append, List.filter_map, List.map_map,
    spared, List.filter_filter, Function.comp_def]
  rfl

/-- The next rule is idle or not because of the rules seen before, marked or not. -/
theorem idle_see (m : Marking σ ε χ ω) (r : Rule σ ε χ ω) :
    (m.see r).idle = m.idle ++
      if r.overriding ∧ ¬∃ e ∈ m.rules.map Prod.fst, r.Replaces e then [r] else [] := by
  have targets : (∃ e ∈ m.rules.map Prod.fst, r.Replaces e) ↔
      ∃ seen ∈ m.rules, r.Replaces seen.1 := by
    simp
  simp only [see, targets]
  split
  · rfl
  · exact (List.append_nil _).symm

end Marking

namespace Rule

variable [DecidableEq σ] [DecidableEq ε]

/-- The marking after all rules were seen in order. -/
def marking (rules : List (Rule σ ε χ ω)) : Marking σ ε χ ω :=
  rules.foldl Marking.see {}

theorem survivors_concat (rules : List (Rule σ ε χ ω)) (r : Rule σ ε χ ω) :
    survivors (rules ++ [r]) = (survivors rules).filter (fun q => ¬r.Replaces q) ++ [r] := by
  rw [survivors_append]
  simp [survivors]

/-- Whether the last rule is idle is up to those before it, and it has no say in whether they
are. -/
theorem idleAfter_concat (earlier rules : List (Rule σ ε χ ω)) (r : Rule σ ε χ ω) :
    idleAfter earlier (rules ++ [r]) = idleAfter earlier rules ++
      if r.overriding ∧ ¬∃ e ∈ earlier ++ rules, r.Replaces e then [r] else [] := by
  induction rules generalizing earlier with
  | nil => simp [idleAfter]
  | cons q rest ih =>
    have seen : (∃ e ∈ q :: earlier ++ rest, r.Replaces e) ↔
        ∃ e ∈ earlier ++ q :: rest, r.Replaces e := by
      simp only [List.mem_append, List.mem_cons, or_assoc, or_left_comm]
    simp only [List.cons_append, idleAfter, ih, ← seen]
    split
    · rfl
    · rfl

/-- To mark what is replaced rule by rule leaves the survivors unmarked and finds the idle rules. -/
theorem marking_eq (rules : List (Rule σ ε χ ω)) :
    (marking rules).rules.map Prod.fst = rules ∧ (marking rules).unmarked = survivors rules ∧
      (marking rules).idle = idle rules := by
  -- marks are set from the end of the list, while survivors are told from its front
  induction rules using List.reverseRecOn with
  | nil => exact ⟨rfl, rfl, rfl⟩
  | append_singleton rules r ih =>
    obtain ⟨seen, unmarked, found⟩ := ih
    have step : marking (rules ++ [r]) = (marking rules).see r := List.foldl_concat ..
    rw [step]
    refine ⟨?_, ?_, ?_⟩
    · simp [Marking.see, Function.comp_def, seen]
    · rw [Marking.unmarked_see, unmarked, survivors_concat]
    · rw [Marking.idle_see, seen, found, idle, idle, idleAfter_concat, List.nil_append]

/-! ## What stands where -/

/-- Behind the position stands a rule that replaces the one there. -/
def ReplacedAt (rules : List (Rule σ ε χ ω)) (i : Fin rules.length) : Prop :=
  ∃ j, i < j ∧ (rules.get j).Replaces (rules.get i)

/-- At the position stands an overriding rule that replaces neither one of `earlier` nor one before
it. -/
def IdleAt (earlier rules : List (Rule σ ε χ ω)) (j : Fin rules.length) : Prop :=
  (rules.get j).overriding ∧
    ¬((∃ e ∈ earlier, (rules.get j).Replaces e) ∨ ∃ i, i < j ∧ (rules.get j).Replaces (rules.get i))

instance (rules : List (Rule σ ε χ ω)) (i : Fin rules.length) : Decidable (ReplacedAt rules i) :=
  inferInstanceAs (Decidable (∃ _, _))

instance (earlier rules : List (Rule σ ε χ ω)) (j : Fin rules.length) :
    Decidable (IdleAt earlier rules j) :=
  inferInstanceAs (Decidable (_ ∧ ¬(_ ∨ _)))

variable {r : Rule σ ε χ ω} {earlier later : List (Rule σ ε χ ω)}

omit [DecidableEq σ] [DecidableEq ε] in
theorem replacedAt_zero :
    ReplacedAt (r :: later) (0 : Fin (later.length + 1)) ↔ ∃ o ∈ later, o.Replaces r := by
  refine Fin.exists_fin_succ.trans ?_
  simp [List.mem_iff_get]

omit [DecidableEq σ] [DecidableEq ε] in
theorem replacedAt_succ {i : Fin later.length} :
    ReplacedAt (r :: later) i.succ ↔ ReplacedAt later i := by
  refine Fin.exists_fin_succ.trans ?_
  simp [ReplacedAt]

omit [DecidableEq σ] [DecidableEq ε] in
theorem idleAt_zero :
    IdleAt earlier (r :: later) (0 : Fin (later.length + 1)) ↔
      r.overriding ∧ ¬∃ e ∈ earlier, r.Replaces e := by
  simp [IdleAt]

omit [DecidableEq σ] [DecidableEq ε] in
/-- For the positions behind the first, the rule there is one of the earlier ones. -/
theorem idleAt_succ {j : Fin later.length} :
    IdleAt earlier (r :: later) j.succ ↔ IdleAt (r :: earlier) later j := by
  have before : (∃ i, i < j.succ ∧ (later.get j).Replaces ((r :: later).get i)) ↔
      (later.get j).Replaces r ∨ ∃ i, i < j ∧ (later.get j).Replaces (later.get i) := by
    refine Fin.exists_fin_succ.trans ?_
    simp
  have seen : (∃ e ∈ r :: earlier, (later.get j).Replaces e) ↔
      (later.get j).Replaces r ∨ ∃ e ∈ earlier, (later.get j).Replaces e := by
    simp
  unfold IdleAt
  rw [seen]
  refine and_congr_right fun _ => not_congr ?_
  -- the first rule moves from those before the position to the earlier ones
  refine (or_congr_right before).trans ?_
  rw [or_left_comm, or_assoc]
  exact Iff.rfl

/-- The rules survive that are not replaced where they stand. -/
theorem survivors_eq_positions (rules : List (Rule σ ε χ ω)) :
    survivors rules = (positions rules fun i => ¬ReplacedAt rules i).map rules.get := by
  induction rules with
  | nil => rfl
  | cons r later ih =>
    rw [map_get_positions_cons, survivors, ih]
    simp only [replacedAt_zero, replacedAt_succ, decide_eq_true_eq, ite_not]
    split
    · rfl
    · rfl

/-- The rules are idle that are idle where they stand. -/
theorem idleAfter_eq_positions (earlier rules : List (Rule σ ε χ ω)) :
    idleAfter earlier rules = (positions rules fun j => IdleAt earlier rules j).map rules.get := by
  induction rules generalizing earlier with
  | nil => rfl
  | cons r later ih =>
    rw [map_get_positions_cons, idleAfter, ih]
    simp only [idleAt_zero, idleAt_succ, decide_eq_true_eq]
    split
    · rfl
    · rfl

/-- What overriding does to a list of rules, by position. -/
structure Sifted (rules : List (Rule σ ε χ ω)) (kept idles : List (Fin rules.length)) : Prop where
  /-- The rules that survive are those at the positions kept, as they were declared. -/
  survivors : Rule.survivors rules = kept.map rules.get
  /-- They are in the order of declaration. -/
  kept_ascending : kept.Pairwise (· < ·)
  /-- An overriding rule is kept. -/
  overriding : ∀ i, (rules.get i).overriding = true → i ∈ kept
  /-- A rule that comes from no super-state is kept. -/
  ungrouped : ∀ i, (rules.get i).group? = none → i ∈ kept
  /-- Another rule is dropped exactly if it comes from a super-state and an overriding rule of its
  key, which does not come from the same super-state, stands behind it. -/
  dropped : ∀ i, (rules.get i).overriding = false →
    (i ∉ kept ↔ (rules.get i).group?.isSome ∧ ∃ j, i < j ∧ (rules.get j).overriding = true ∧
      (rules.get i).group? ≠ (rules.get j).group? ∧ (rules.get i).SameKey (rules.get j))
  /-- The idle rules are those at the idle positions. -/
  idle : Rule.idle rules = idles.map rules.get
  /-- They are in the order of declaration. -/
  idles_ascending : idles.Pairwise (· < ·)
  /-- An overriding rule is idle exactly if no rule that is not overriding, comes from a
  super-state, but not the same one, and has the same key stands before it. Whether that rule
  survives does not matter. -/
  mem_idles : ∀ j, j ∈ idles ↔ (rules.get j).overriding = true ∧
    ¬∃ i, i < j ∧ (rules.get i).overriding = false ∧ (rules.get i).group?.isSome ∧
      (rules.get i).group? ≠ (rules.get j).group? ∧ (rules.get i).SameKey (rules.get j)

/-- Every list of rules is sifted so. -/
theorem sifted (rules : List (Rule σ ε χ ω)) :
    Sifted rules (positions rules fun i => ¬ReplacedAt rules i)
      (positions rules fun j => IdleAt [] rules j) where
  survivors := survivors_eq_positions rules
  kept_ascending := pairwise_positions ..
  overriding := by
    intro i hi
    rw [mem_positions, decide_eq_true_eq]
    rintro ⟨j, -, -, plain, -⟩
    exact plain hi
  ungrouped := by
    intro i hi
    rw [mem_positions, decide_eq_true_eq]
    rintro ⟨j, -, -, -, grouped, -⟩
    rw [hi] at grouped
    exact Bool.false_ne_true grouped
  dropped := by
    intro i hi
    rw [mem_positions, decide_eq_true_eq, Classical.not_not]
    constructor
    · rintro ⟨j, hij, hov, -, grouped, other, same⟩
      exact ⟨grouped, j, hij, hov, other, same⟩
    · rintro ⟨grouped, j, hij, hov, other, same⟩
      exact ⟨j, hij, hov, ne_true_of_eq_false hi, grouped, other, same⟩
  idle := idleAfter_eq_positions [] rules
  idles_ascending := pairwise_positions ..
  mem_idles := by
    intro j
    rw [mem_positions, decide_eq_true_eq]
    refine and_congr_right fun hj => not_congr ?_
    constructor
    · rintro (⟨e, he, -⟩ | ⟨i, hij, -, plain, grouped, other, same⟩)
      · exact absurd he List.not_mem_nil
      · exact ⟨i, hij, eq_false_of_ne_true plain, grouped, other, same⟩
    · rintro ⟨i, hij, plain, grouped, other, same⟩
      exact Or.inr ⟨i, hij, hj, ne_true_of_eq_false plain, grouped, other, same⟩

end Rule

/-! ## Reports -/

/-- The rules that a fault reports for having nothing to override. -/
def Fault.idleRules : Fault σ ε → List (Summary σ ε)
  | .nothingToOverride rule => [rule]
  | _ => []

/-- Faults of a kind that is not about idle rules report none. -/
theorem Fault.flatMap_idleRules_map {α : Type} {fault : α → Fault σ ε}
    (h : ∀ x, (fault x).idleRules = []) (xs : List α) :
    (xs.map fault).flatMap idleRules = [] := by
  rw [List.flatMap_map, List.flatMap_eq_nil_iff]
  exact fun x _ => h x

variable [DecidableEq σ] [DecidableEq ε]

/-- Duplicates say nothing of idle rules. -/
theorem Analysis.idleRules_duplicateFaults (a : Analysis σ ε χ ω) :
    a.duplicateFaults.flatMap Fault.idleRules = [] :=
  flatMap_duplicateFaults rfl

theorem Analysis.idleRules_rejected (a : Analysis σ ε χ ω) (duplicates : DuplicatePolicy) :
    (a.rejected duplicates).flatMap Fault.idleRules = [] := by
  cases duplicates with
  | warn => rfl
  | reject => exact a.idleRules_duplicateFaults

namespace Draft

/-- The idle rules are one kind of faults of a draft among others. -/
theorem idleRules_allFaults (d : Draft σ ε χ ω) (a : Analysis σ ε χ ω)
    (duplicates : DuplicatePolicy) :
    (d.allFaults a duplicates).flatMap Fault.idleRules =
      d.faults.flatMap Fault.idleRules ++ a.idle.map Rule.summary := by
  have empty :
      (if d.isEmpty then [Fault.emptyTable (σ := σ) (ε := ε)] else []).flatMap Fault.idleRules =
        [] := by
    split
    · rfl
    · rfl
  have idle : (a.idle.map fun r => Fault.nothingToOverride r.summary).flatMap Fault.idleRules =
      a.idle.map Rule.summary := by
    rw [List.flatMap_map, List.map_eq_flatMap]
    rfl
  have unlisted : ((Rule.unlistedValues a.survivors).map fun place =>
      Fault.unlistedValue (σ := σ) (ε := ε) place.1 place.2).flatMap Fault.idleRules = [] :=
    Fault.flatMap_idleRules_map (fun _ => rfl) _
  have contradictions : ((Rule.contradictions a.survivors).map
      (Fault.contradiction (σ := σ) (ε := ε))).flatMap Fault.idleRules = [] :=
    Fault.flatMap_idleRules_map (fun _ => rfl) _
  have clashes : (Fault.ofNonempty .clashes (Rule.summaries (Rule.clashes a.survivors))).flatMap
      Fault.idleRules = [] :=
    Fault.flatMap_ofNonempty rfl
  have contests :
      (Fault.ofNonempty .contests
        ((Ruling.contested a.rulings).map Ruling.contest)).flatMap Fault.idleRules = [] :=
    Fault.flatMap_ofNonempty rfl
  rw [allFaults, Analysis.faults]
  simp only [List.flatMap_append, empty, idle, unlisted, contradictions, clashes, contests,
    a.idleRules_rejected, List.append_nil]

/-- Whatever else is wrong with a draft, its idle rules are reported, each once and in order, after
those that were noted in writing the draft. -/
theorem idleRules_remarks (d : Draft σ ε χ ω) (options : CompileOptions) :
    (d.remarks options).flatMap Fault.idleRules =
      d.faults.flatMap Fault.idleRules ++ (Rule.idle d.rules).map Rule.summary := by
  have all := d.idleRules_allFaults (Analysis.of options.overlap d.rules) options.duplicates
  unfold remarks
  cases h : d.compile options with
  | ok t =>
    obtain ⟨none, rfl⟩ := compile_eq_ok_iff.1 h
    rw [none] at all
    change ((Analysis.of options.overlap d.rules).warnings options.duplicates).flatMap _ = _
    refine Eq.trans ?_ all
    cases options.duplicates with
    | warn => exact Analysis.idleRules_duplicateFaults _
    | reject => rfl
  | error f =>
    change f.faults.flatMap _ = _
    rw [← compile_eq_error_iff.1 h]
    exact all

end Draft

namespace Rule

/-- What overriding does to a list of rules, and what it does not do. Some of the rules survive, in
the order of declaration and as they are. By position, an overriding rule is kept, and so is a rule
that comes from no super-state; any other rule is dropped exactly if an overriding rule of its key
from elsewhere stands behind it. An overriding rule is idle exactly if it stands behind no rule that
it could replace, whether or not that was replaced before, and a draft's idle rules are reported
once each and in order. Without overriding rules nothing changes, and some rule always survives. All
this comes out too if the rules are gone through once and each marks what it replaces. -/
theorem overriding_exact :
    (∀ rules : List (Rule σ ε χ ω), (survivors rules).Sublist rules ∧
      ∃ kept idles, Sifted rules kept idles ∧
        ∀ (d : Draft σ ε χ ω) (options : CompileOptions), d.rules = rules →
          (d.remarks options).flatMap Fault.idleRules =
            d.faults.flatMap Fault.idleRules ++ idles.map fun j => (rules.get j).summary) ∧
    (∀ rules : List (Rule σ ε χ ω), (∀ r ∈ rules, r.overriding = false) →
      survivors rules = rules ∧ idle rules = []) ∧
    (∀ rules : List (Rule σ ε χ ω), rules ≠ [] → survivors rules ≠ []) ∧
    ∀ rules : List (Rule σ ε χ ω),
      (marking rules).unmarked = survivors rules ∧ (marking rules).idle = idle rules := by
  refine ⟨?_, ?_, ?_, ?_⟩
  · intro rules
    refine ⟨survivors_sublist rules, _, _, sifted rules, ?_⟩
    rintro d options rfl
    rw [d.idleRules_remarks, (sifted d.rules).idle, List.map_map]
    rfl
  · intro rules h
    exact ⟨survivors_eq_self h, idle_eq_nil_iff.2 (allReplace_of_not_overriding h)⟩
  · intro rules h
    exact survivors_ne_nil h
  · intro rules
    exact (marking_eq rules).2

end Rule

namespace Turnstile

/-- Nothing is said before of what a kick does to the locked turnstile. -/
def stray : Rule Gate Input Unit Notes :=
  { alarmed with event := .kick, location := here 89 }

/-- One rule of a super-state is overridden twice, and a rule is overridden that does not exist. -/
def crowded : List (Rule Gate Input Unit Notes) :=
  [paid, alarmed, jammed, stray]

/-- The rule for a coin is dropped and its two successors are kept. The second of them is not idle,
although the first has replaced the rule before; the stray rule is, and is reported. -/
theorem crowded_sifted :
    ∃ kept idles, Rule.Sifted crowded kept idles ∧
      ⟨0, by decide⟩ ∉ kept ∧ ⟨1, by decide⟩ ∈ kept ∧ ⟨2, by decide⟩ ∈ kept ∧
      ⟨2, by decide⟩ ∉ idles ∧ ⟨3, by decide⟩ ∈ idles ∧
      stray.summary ∈ ((Draft.ofRules crowded).remarks ⟨.warn, .strict⟩).flatMap Fault.idleRules ∧
      Rule.survivors [paid] = [paid] ∧ Rule.survivors crowded ≠ [] := by
  obtain ⟨settled, bare, nonempty, -⟩ :=
    Rule.overriding_exact (σ := Gate) (ε := Input) (χ := Unit) (ω := Notes)
  obtain ⟨-, kept, idles, sifted, reported⟩ := settled crowded
  have stray_idle : ⟨3, by decide⟩ ∈ idles := (sifted.mem_idles _).2 ⟨rfl, by decide⟩
  refine ⟨kept, idles, sifted, ?_, sifted.overriding _ rfl, sifted.overriding _ rfl, ?_,
    stray_idle, ?_, ?_, nonempty crowded (by simp [crowded])⟩
  · exact (sifted.dropped _ rfl).2 ⟨rfl, ⟨1, by decide⟩, by decide, rfl, by decide, by decide⟩
  · intro idle
    exact ((sifted.mem_idles _).1 idle).2 ⟨⟨0, by decide⟩, by decide, rfl,
      rfl, by decide, by decide⟩
  · rw [reported (Draft.ofRules crowded) ⟨.warn, .strict⟩ rfl]
    exact List.mem_append_right _ (List.mem_map_of_mem stray_idle)
  · exact (bare [paid] (by decide)).1

end Turnstile

end TableMachine
