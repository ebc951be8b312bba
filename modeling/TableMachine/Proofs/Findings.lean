import Mathlib.Data.List.Infix
import TableMachine.Proofs.Outcome
import TableMachine.Samples.Turnstile

/-!
# All that is wrong with a draft

`Findings` holds what can be wrong with a draft, each kind of fault apart from the others, and
`Findings.Exhaust` says of each kind, without mentioning the compiler, what belongs to it. No kind
asks whether there is something of another kind, so none hides another.

**Main statements.** A key is contested exactly if rules that compete there lead to different states
(`Rule.contested_iff`), and a failure lists all findings of the draft, sorted by kind, and nothing
else (`Draft.exists_findings`).
-/

namespace TableMachine

variable {σ ε χ ω : Type}

/-! ## Rules that compete for keys -/

namespace Rule

/-- The rule is the first of its declared key. -/
def IsFirst (rules : List (Rule σ ε χ ω)) (r : Rule σ ε χ ω) : Prop :=
  ∃ before after, rules = before ++ r :: after ∧ ∀ q ∈ before, ¬q.SameKey r

/-- The rule is the first of a declared key whose rules lead to one state, and no branch of its
condition asks for two values of one family. -/
structure Competes (rules : List (Rule σ ε χ ω)) (r : Rule σ ε χ ω) : Prop where
  /-- It is the first of its key. -/
  first : IsFirst rules r
  /-- All rules of its key lead to one state. -/
  settled : ∀ q ∈ rules, q.SameKey r → q.next = r.next
  /-- Its condition makes sense. -/
  valid : ∀ branch ∈ r.condition.branches, ∀ v ∈ branch, ∀ w ∈ branch, v.family = w.family → v = w

/-- The rule is for the state and the event of the key, and a branch of that size extends to its
combination. -/
def Reaches (rules : List (Rule σ ε χ ω)) (r : Rule σ ε χ ω) (k : DispatchKey σ ε)
    (size : Nat) : Prop :=
  r.state = k.state ∧ r.event = k.event ∧
    ∃ branch ∈ r.condition.branches,
      Combination.Extends (mentionedFamilies rules) branch k.combination ∧ branch.size = size

/-- The rank of the rule at the key is the size of its largest branch that extends to the
combination. -/
def RanksAt (rules : List (Rule σ ε χ ω)) (r : Rule σ ε χ ω) (k : DispatchKey σ ε)
    (rank : Nat) : Prop :=
  Reaches rules r k rank ∧ ∀ size, Reaches rules r k size → size ≤ rank

/-- The rule competes and reaches the key. Where the most specific rules have the say, no competing
rule has a higher rank there. -/
def Contends (policy : OverlapPolicy) (rules : List (Rule σ ε χ ω)) (k : DispatchKey σ ε)
    (r : Rule σ ε χ ω) : Prop :=
  Competes rules r ∧ ∃ rank, RanksAt rules r k rank ∧
    (policy = .mostSpecific →
      ∀ q, Competes rules q → ∀ other, RanksAt rules q k other → other ≤ rank)

/-- Rules that contend for the key lead to different states. -/
def Contested (policy : OverlapPolicy) (rules : List (Rule σ ε χ ω)) (k : DispatchKey σ ε) : Prop :=
  ∃ p q, Contends policy rules k p ∧ Contends policy rules k q ∧ p.next ≠ q.next

/-- Two rules say the same: they agree in declared key and next state, or they have different
declared keys and contend for one dispatch key that is not contested. -/
def Duplicated (policy : OverlapPolicy) (rules : List (Rule σ ε χ ω)) : Prop :=
  (∃ p q, [p, q].Sublist rules ∧ p.SameKey q ∧ p.next = q.next) ∨
    ∃ k p q, ¬Contested policy rules k ∧ Contends policy rules k p ∧ Contends policy rules k q ∧
      ¬p.SameKey q

variable {policy : OverlapPolicy} {rules : List (Rule σ ε χ ω)} {k : DispatchKey σ ε}
  {r : Rule σ ε χ ω} [DecidableEq σ] [DecidableEq ε]

theorem isFirst_iff : IsFirst rules r ↔ r ∈ distinctBy key rules := by
  rw [mem_distinctBy_iff, List.find?_eq_some_iff_append]
  simp only [decide_true, Bool.not_eq_eq_eq_not, Bool.not_true, decide_eq_false_iff_not, true_and]
  constructor
  · rintro ⟨before, after, hrules, others⟩
    exact ⟨before, after, hrules, fun q hq e => others q hq (sameKey_iff.2 e)⟩
  · rintro ⟨before, after, hrules, others⟩
    exact ⟨before, after, hrules, fun q hq e => others q hq (sameKey_iff.1 e)⟩

theorem Competes.mem (h : Competes rules r) : r ∈ rules :=
  mem_of_mem_distinctBy (isFirst_iff.1 h.first)

theorem competes_iff :
    Competes rules r ↔ r ∈ distinctBy key rules ∧ Settled rules r ∧ r.condition.Coherent := by
  constructor
  · intro h
    refine ⟨isFirst_iff.1 h.first, ?_, Condition.coherent_iff.2 h.valid⟩
    intro p hp q hq hpr hqr
    rw [h.settled p hp (sameKey_iff.2 hpr), h.settled q hq (sameKey_iff.2 hqr)]
  · rintro ⟨hfirst, hsettled, hcoherent⟩
    refine ⟨isFirst_iff.2 hfirst, ?_, Condition.coherent_iff.1 hcoherent⟩
    intro q hq hqr
    exact hsettled q hq r (mem_of_mem_distinctBy hfirst) (sameKey_iff.1 hqr) rfl

omit [DecidableEq σ] [DecidableEq ε] in
/-- The rank is the one that the coverage of the condition gives. -/
theorem ranksAt_iff {rank : Nat} :
    RanksAt rules r k rank ↔ r.state = k.state ∧ r.event = k.event ∧
      (Coverage.ofBranches r.condition.branches (mentionedFamilies rules)).rankOf? k.combination =
        some rank := by
  rw [Coverage.rankOf?_eq_some_iff]
  unfold RanksAt Reaches
  constructor
  · rintro ⟨⟨hs, he, hreach⟩, hmax⟩
    exact ⟨hs, he, hreach, fun b hb hbk => hmax b.size ⟨hs, he, b, hb, hbk, rfl⟩⟩
  · rintro ⟨hs, he, hreach, hmax⟩
    refine ⟨⟨hs, he, hreach⟩, ?_⟩
    rintro - ⟨-, -, b, hb, hbk, rfl⟩
    exact hmax b hb hbk

theorem claim?_eq_some_iff {rank : Nat} :
    claim? rules k r = some rank ↔
      Settled rules r ∧ r.condition.Coherent ∧ RanksAt rules r k rank := by
  rw [ranksAt_iff, claim?_iff]

/-- Every claim is that of a competing rule, which has the same declared key. -/
theorem exists_competes {rank : Nat} (hr : r ∈ rules) (h : claim? rules k r = some rank) :
    ∃ q, Competes rules q ∧ RanksAt rules q k rank := by
  obtain ⟨q, hq, hqr⟩ := exists_mem_distinctBy key hr
  rw [← claim?_congr hqr] at h
  obtain ⟨hsettled, hcoherent, hrank⟩ := claim?_eq_some_iff.1 h
  exact ⟨q, competes_iff.2 ⟨hq, hsettled, hcoherent⟩, hrank⟩

/-- The contenders that the rulings list are the rules that contend. -/
theorem mem_contenders_iff : r ∈ contenders policy rules k ↔ Contends policy rules k r := by
  rw [contenders, distinctBy_filter leads_congr, List.mem_filter, leads_iff]
  constructor
  · rintro ⟨hfirst, rank, hrank, hmax⟩
    obtain ⟨hsettled, hcoherent, hrank⟩ := claim?_eq_some_iff.1 hrank
    refine ⟨competes_iff.2 ⟨hfirst, hsettled, hcoherent⟩, rank, hrank, ?_⟩
    intro hpolicy q hq other hother
    obtain ⟨-, hsettled, hcoherent⟩ := competes_iff.1 hq
    exact hmax hpolicy q hq.mem other (claim?_eq_some_iff.2 ⟨hsettled, hcoherent, hother⟩)
  · rintro ⟨hcompetes, rank, hrank, hmax⟩
    obtain ⟨hfirst, hsettled, hcoherent⟩ := competes_iff.1 hcompetes
    refine ⟨hfirst, rank, claim?_eq_some_iff.2 ⟨hsettled, hcoherent, hrank⟩, ?_⟩
    intro hpolicy q hq other hother
    obtain ⟨p, hp, hother⟩ := exists_competes hq hother
    exact hmax hpolicy p hp other hother

/-- A key is contested exactly if it is not undisputed. -/
theorem contested_iff : Contested policy rules k ↔ ¬Undisputed policy rules k := by
  rw [undisputed_iff_contenders]
  simp only [mem_contenders_iff, not_forall, exists_prop]
  constructor
  · rintro ⟨p, q, hp, hq, hne⟩
    exact ⟨p, hp, q, hq, hne⟩
  · rintro ⟨p, hp, q, hq, hne⟩
    exact ⟨p, q, hp, hq, hne⟩

/-- Two rules contend for a key exactly if there are two of different declared keys. -/
theorem one_lt_length_contenders_iff :
    1 < (contenders policy rules k).length ↔
      ∃ p q, Contends policy rules k p ∧ Contends policy rules k q ∧ ¬p.SameKey q := by
  simp only [← mem_contenders_iff, sameKey_iff]
  rw [contenders, one_lt_length_distinctBy]
  constructor
  · rintro ⟨p, hp, q, hq, hne⟩
    obtain ⟨p', hp', ep⟩ := exists_mem_distinctBy key hp
    obtain ⟨q', hq', eq⟩ := exists_mem_distinctBy key hq
    exact ⟨p', q', hp', hq', by rwa [ep, eq]⟩
  · rintro ⟨p, q, hp, hq, hne⟩
    exact ⟨p, mem_of_mem_distinctBy hp, q, mem_of_mem_distinctBy hq, hne⟩

omit [DecidableEq σ] [DecidableEq ε] in
/-- Two rules, one declared after the other, agree in declared key and next state. -/
theorem exists_repeated_iff :
    (∃ p q, [p, q].Sublist rules ∧ p.SameKey q ∧ p.next = q.next) ↔
      ¬(rules.map fun r => (r.key, r.next)).Nodup := by
  rw [List.Nodup, List.pairwise_map, List.pairwise_iff_forall_sublist]
  simp only [sameKey_iff, ne_eq, Prod.mk.injEq, not_forall, Classical.not_not, exists_prop]

theorem duplicated_iff (policy : OverlapPolicy) (rules : List (Rule σ ε χ ω)) :
    Duplicated policy (survivors rules) ↔ (Analysis.of policy rules).duplicates ≠ [] := by
  rw [ne_eq, Analysis.duplicates_eq_nil_iff, not_and_or, ← exists_repeated_iff, Duplicated]
  apply or_congr_right
  simp only [contested_iff, Classical.not_not, not_forall, Nat.not_le, exists_prop,
    one_lt_length_contenders_iff, exists_and_left]

/-! ## Overriding rules without a target -/

/-- The overriding rules that replace none of the rules before them, in order. -/
theorem idle_eq (rules : List (Rule σ ε χ ω)) :
    idle rules =
      ((rules.zip rules.inits).filter fun (r, before) =>
        r.overriding ∧ ¬∃ e ∈ before, r.Replaces e).map Prod.fst := by
  -- the rules before those at hand are kept in the reverse order
  have after : ∀ (rules before earlier : List (Rule σ ε χ ω)), (∀ e, e ∈ earlier ↔ e ∈ before) →
      idleAfter earlier rules =
        ((rules.zip (rules.inits.map (before ++ ·))).filter fun (r, before) =>
          r.overriding ∧ ¬∃ e ∈ before, r.Replaces e).map Prod.fst := by
    intro rules
    induction rules with
    | nil => exact fun _ _ _ => rfl
    | cons r later ih =>
      intro before earlier same
      have next := ih (before ++ [r]) (r :: earlier) (by simp [same, or_comm])
      have inits : (r :: later).inits.map (before ++ ·) =
          before :: later.inits.map (before ++ [r] ++ ·) := by
        simp [Function.comp_def]
      rw [idleAfter, next, inits, List.zip_cons_cons, List.filter_cons]
      simp only [same, decide_eq_true_eq]
      split
      · rfl
      · rfl
  have inits : rules.inits.map ([] ++ ·) = rules.inits := List.map_id _
  rw [idle, after rules [] [] fun _ => Iff.rfl, inits]

end Rule

/-! ## Findings -/

/-- What is wrong with a draft, by kind. -/
structure Findings (σ ε χ ω : Type) where
  /-- What was noted in writing the draft. -/
  noted : List (Fault σ ε)
  /-- The draft is empty. -/
  empty : Bool
  /-- The overriding rules with nothing to override. -/
  idle : List (Rule σ ε χ ω)
  /-- The unlisted values, each with a place where it is mentioned. -/
  unlisted : List (Value × Location)
  /-- The contradictory conditions. -/
  contradictions : List Contradiction
  /-- The groups of rules that say the same. -/
  duplicates : List (List (Summary σ ε))
  /-- The groups of rules that clash. -/
  clashes : List (List (Summary σ ε))
  /-- The contested keys. -/
  contests : List (Contest σ ε)

namespace Findings

/-- The findings as faults. There is one fault for each of the first kinds of things, and one for
all duplicates, all clashes and all contests. -/
def faults (x : Findings σ ε χ ω) : List (Fault σ ε) :=
  x.noted
    ++ (if x.empty then [.emptyTable] else [])
    ++ (x.idle.map fun r => .nothingToOverride r.summary)
    ++ (x.unlisted.map fun place => .unlistedValue place.1 place.2)
    ++ x.contradictions.map .contradiction
    ++ Fault.ofNonempty .duplicates x.duplicates
    ++ Fault.ofNonempty .clashes x.clashes
    ++ Fault.ofNonempty .contests x.contests

variable [DecidableEq σ] [DecidableEq ε]

/-- The findings are those of the draft, and nothing is left out or found twice. -/
structure Exhaust (x : Findings σ ε χ ω) (d : Draft σ ε χ ω) (options : CompileOptions) : Prop where
  /-- All that was noted is found, in order. -/
  noted : x.noted = d.faults
  /-- The draft is empty if it has no rule and nothing was noted. -/
  empty : x.empty = true ↔ d.rules = [] ∧ d.faults = []
  /-- Every overriding rule that replaces none of the rules before it is found, in order. -/
  idle : x.idle = ((d.rules.zip d.rules.inits).filter fun (r, before) =>
    r.overriding ∧ ¬∃ e ∈ before, r.Replaces e).map Prod.fst
  /-- No unlisted value is found twice for one place. -/
  unlisted_once : x.unlisted.Nodup
  /-- The values found are the unlisted ones that the surviving rules mention, each at the place of
  the condition. -/
  unlisted : ∀ v place, (v, place) ∈ x.unlisted ↔
    ∃ r ∈ Rule.survivors d.rules, v ∈ r.condition.values ∧ ¬v.Listed ∧ r.conditionLocation = place
  /-- Of like conditions none is found twice for one place. -/
  contradictions_once : x.contradictions.Pairwise fun e e' =>
    ¬(e.condition.Alike e'.condition ∧ e.condition.location? = e'.condition.location?)
  /-- The conditions found are, up to their form, those of surviving rules in which a branch asks
  for two values of one family, each at the place of the condition. -/
  contradictions : ∀ m place,
    (∃ e ∈ x.contradictions, e.condition.Alike m ∧ e.condition.location? = some place) ↔
      ∃ r ∈ Rule.survivors d.rules, r.condition.Alike m ∧ r.conditionLocation = place ∧
        ∃ branch ∈ r.condition.branches, ∃ v ∈ branch, ∃ w ∈ branch, v.family = w.family ∧ v ≠ w
  /-- Every condition found has a place. -/
  contradictions_placed : ∀ e ∈ x.contradictions, e.condition.location?.isSome
  /-- Duplicates are found if there are some and they are rejected. -/
  duplicates : x.duplicates ≠ [] ↔
    options.duplicates = .reject ∧ Rule.Duplicated options.overlap (Rule.survivors d.rules)
  /-- Clashes are found if surviving rules of one declared key lead to different states. -/
  clashes : x.clashes ≠ [] ↔
    ∃ p ∈ Rule.survivors d.rules, ∃ q ∈ Rule.survivors d.rules, p.SameKey q ∧ p.next ≠ q.next
  /-- Contests are found if some key is contested. -/
  contests : x.contests ≠ [] ↔
    ∃ k, Rule.Contested options.overlap (Rule.survivors d.rules) k

end Findings

/-! ## What compilation finds -/

namespace Rule

variable {rules : List (Rule σ ε χ ω)}

/-- The contradictions are found in surviving rules, each at the place of the condition. -/
theorem exists_contradiction_iff {m : Condition} {place : Location} :
    (∃ e ∈ contradictions rules, e.condition.Alike m ∧ e.condition.location? = some place) ↔
      ∃ r ∈ rules, r.condition.Alike m ∧ r.conditionLocation = place ∧
        ∃ branch ∈ r.condition.branches, ∃ v ∈ branch, ∃ w ∈ branch,
          v.family = w.family ∧ v ≠ w := by
  have invalid : ∀ r : Rule σ ε χ ω, ¬r.condition.Coherent ↔
      ∃ branch ∈ r.condition.branches, ∃ v ∈ branch, ∃ w ∈ branch, v.family = w.family ∧ v ≠ w := by
    intro r
    rw [Condition.coherent_iff]
    push Not
    exact Iff.rfl
  simp only [← invalid]
  constructor
  · rintro ⟨e, he, halike, hplace⟩
    obtain ⟨r, hr, he⟩ := List.mem_filterMap.1 (mem_of_mem_distinctBy he)
    obtain ⟨hco, rfl⟩ := contradiction?_eq_some_iff.1 he
    exact ⟨r, hr, halike, Option.some.inj hplace, hco⟩
  · rintro ⟨r, hr, halike, rfl, hco⟩
    have found : contradiction? rules r =
        some ⟨r.condition.placedOr r.location, (representative rules r.condition).conflicts⟩ :=
      contradiction?_eq_some_iff.2 ⟨hco, rfl⟩
    obtain ⟨e, he, hkey⟩ := exists_mem_distinctBy
      (fun e : Contradiction => (e.condition.form, e.condition.location?))
      (List.mem_filterMap.2 ⟨r, hr, found⟩)
    obtain ⟨hform, hplace⟩ := Prod.mk.inj hkey
    exact ⟨e, he, Eq.trans hform halike, hplace⟩

theorem isSome_location?_of_mem_contradictions {e : Contradiction} (he : e ∈ contradictions rules) :
    e.condition.location?.isSome := by
  obtain ⟨r, -, he⟩ := List.mem_filterMap.1 (mem_of_mem_distinctBy he)
  obtain ⟨-, rfl⟩ := contradiction?_eq_some_iff.1 he
  rfl

theorem pairwise_contradictions (rules : List (Rule σ ε χ ω)) :
    (contradictions rules).Pairwise fun e e' =>
      ¬(e.condition.Alike e'.condition ∧ e.condition.location? = e'.condition.location?) :=
  (pairwise_distinctBy _ _).imp fun hne h => hne (Prod.ext h.1 h.2)

end Rule

namespace Draft

variable [DecidableEq σ] [DecidableEq ε] {d : Draft σ ε χ ω} {options : CompileOptions}

/-- What compilation finds wrong with a draft. -/
def findings (d : Draft σ ε χ ω) (options : CompileOptions) : Findings σ ε χ ω :=
  let a := Analysis.of options.overlap d.rules
  { noted := d.faults
    empty := d.isEmpty
    idle := a.idle
    unlisted := Rule.unlistedValues a.survivors
    contradictions := Rule.contradictions a.survivors
    duplicates := if options.duplicates = .reject then Rule.summaries a.duplicates else []
    clashes := Rule.summaries (Rule.clashes a.survivors)
    contests := (Ruling.contested a.rulings).map Ruling.contest }

/-- The findings are just what is reported. -/
theorem faults_findings (d : Draft σ ε χ ω) (options : CompileOptions) :
    (d.findings options).faults =
      d.allFaults (Analysis.of options.overlap d.rules) options.duplicates := by
  have rejected : Fault.ofNonempty .duplicates (d.findings options).duplicates =
      (Analysis.of options.overlap d.rules).rejected options.duplicates := by
    unfold findings Analysis.rejected Analysis.duplicateFaults
    cases options.duplicates with
    | warn => rfl
    | reject => rfl
  rw [Findings.faults, rejected, allFaults, Analysis.faults]
  simp only [List.append_assoc]
  rfl

/-- All that is wrong with a draft is found. -/
theorem exhaust_findings (d : Draft σ ε χ ω) (options : CompileOptions) :
    (d.findings options).Exhaust d options where
  noted := rfl
  empty := by
    change d.isEmpty = true ↔ _
    rw [isEmpty, Bool.and_eq_true, List.isEmpty_iff, List.isEmpty_iff]
  idle := Rule.idle_eq d.rules
  unlisted_once := Rule.nodup_unlistedValues _
  unlisted _ _ := Rule.mem_unlistedValues
  contradictions_once := Rule.pairwise_contradictions _
  contradictions _ _ := Rule.exists_contradiction_iff
  contradictions_placed _ := Rule.isSome_location?_of_mem_contradictions
  duplicates := by
    rw [Rule.duplicated_iff]
    change (if options.duplicates = .reject then _ else _) ≠ [] ↔ _
    by_cases h : options.duplicates = .reject
    · rw [if_pos h, Rule.summaries, ne_eq, List.map_eq_nil_iff]
      exact (and_iff_right h).symm
    · rw [if_neg h]
      exact ⟨fun hne => absurd rfl hne, fun hd => absurd hd.1 h⟩
  clashes := by
    change Rule.summaries (Rule.clashes (Rule.survivors d.rules)) ≠ [] ↔ _
    rw [Rule.summaries, ne_eq, List.map_eq_nil_iff, Rule.clashes_eq_nil_iff]
    simp only [Rule.sameKey_iff, not_forall, exists_prop]
  contests := by
    change (Ruling.contested (Analysis.of options.overlap d.rules).rulings).map Ruling.contest
      ≠ [] ↔ _
    rw [ne_eq, List.map_eq_nil_iff]
    change ¬Ruling.contested (Ruling.all _ (Claimant.ofRules (Rule.survivors d.rules))) = [] ↔ _
    rw [Ruling.contested_eq_nil_iff, not_forall]
    simp only [Rule.contested_iff]

/-- A failure lists what was noted in writing the draft, then whether the draft is empty, the
overriding rules with nothing to override, the unlisted values, the contradictory conditions, the
duplicates if they are rejected, the clashes and the contests: all that there are, and nothing
else. -/
theorem exists_findings {f : BuildFailure σ ε} (h : d.compile options = .error f) :
    ∃ x : Findings σ ε χ ω, x.Exhaust d options ∧ f.faults = x.faults := by
  refine ⟨d.findings options, exhaust_findings d options, ?_⟩
  rw [faults_findings]
  exact (compile_eq_error_iff.1 h).symm

end Draft

namespace Turnstile

/-- What happens to a turnstile if nobody takes care. -/
def neglect (state : Gate) (event : Input) (condition : Condition) (next : Gate) (line : Nat) :
    Rule Gate Input Unit Notes where
  state
  event
  condition
  next
  location := here line

/-- A draft with something wrong of every kind that goes with rules. The two unlisted values of one
rule are one, so that they do not contradict each other. -/
def neglected : Draft Gate Input Unit Notes where
  rules := [
    neglect .locked .coin .always .unlocked 29,
    neglect .locked .coin .always .broken 30,
    { neglect .locked .kick .always .broken 31 with overriding := true },
    neglect .locked .pass (.allOf [(Predicate.family Enforcement).value "Lax",
      (Predicate.family Enforcement).value "Loose"]) .alarming 32,
    neglect .locked .reset
      (.allOf [Predicate.value Enforcement.weak, Predicate.value Enforcement.strong]) .locked 33,
    neglect .unlocked .reset .always .locked 34,
    neglect .unlocked .reset .always .locked 35,
    neglect .alarming .pass .always .alarming 36,
    neglect .alarming .pass (.allOf [Predicate.value Enforcement.weak]) .broken 37]
  faults := [.emptyBlock ⟨"when", here 38⟩]

/-- The failure lists all seven. -/
theorem neglected_findings :
    ∃ f, neglected.compile ⟨.reject, .strict⟩ = .error f ∧ f.size = 7 ∧
      ∃ x : Findings Gate Input Unit Notes,
        x.Exhaust neglected ⟨.reject, .strict⟩ ∧ f.faults = x.faults := by
  have size : (neglected.allFaults (Analysis.of .strict neglected.rules) .reject).length = 7 := by
    decide +kernel
  cases h : neglected.compile ⟨.reject, .strict⟩ with
  | ok t =>
    rw [(Draft.compile_eq_ok_iff.1 h).1] at size
    exact absurd size (by decide)
  | error f =>
    rw [Draft.compile_eq_error_iff.1 h] at size
    exact ⟨f, rfl, size, Draft.exists_findings h⟩

end Turnstile

end TableMachine
