import Mathlib.Data.List.Pairwise
import TableMachine.Proofs.DirectScan
import TableMachine.Proofs.Outcome
import TableMachine.Samples.Turnstile

/-!
# Which drafts compile

`Draft.Acceptable` says of a draft, without mentioning the compiler, that it is in order: nothing
was noted in writing it, there is a rule, overriding rules have something to override, and the rules
that survive make sense one by one, agree wherever they apply together and, if duplicates are
rejected, do not repeat each other.

**Main statements.** A draft compiles exactly if it is acceptable
(`Draft.exists_compile_eq_ok_iff`). Rules that never apply together are no reason to refuse a draft
(`Draft.acceptable_iff_of_apart`).
-/

namespace TableMachine

variable {σ ε χ ω : Type} [DecidableEq σ] [DecidableEq ε]

namespace Draft

/-- A draft that is in order. -/
structure Acceptable (d : Draft σ ε χ ω) (options : CompileOptions) : Prop where
  /-- Nothing was found wrong in writing the draft. -/
  unnoted : d.faults = []
  /-- There is a rule. -/
  inhabited : d.rules ≠ []
  /-- Every overriding rule has something to override. -/
  replacing : Rule.AllReplace d.rules
  /-- Every value mentioned is a case of its family. -/
  listed : ∀ r ∈ Rule.survivors d.rules, ∀ v ∈ r.condition.values, v.Listed
  /-- No branch asks for two values of one family. -/
  coherent : ∀ r ∈ Rule.survivors d.rules, ∀ branch ∈ r.condition.branches,
    ∀ v ∈ branch, ∀ w ∈ branch, v.family = w.family → v = w
  /-- Rules of one state, event and condition lead to one state. -/
  settled : ∀ r ∈ Rule.survivors d.rules, ∀ q ∈ Rule.survivors d.rules,
    r.SameKey q → r.next = q.next
  /-- The rules that have the say at a full combination lead to one state. -/
  agreed : ∀ state event c,
    Combination.Full (Rule.mentionedFamilies (Rule.survivors d.rules)) c →
      ∀ p ∈ options.overlap.deciding (Rule.covering (Rule.survivors d.rules) state event c) c,
        ∀ q ∈ options.overlap.deciding (Rule.covering (Rule.survivors d.rules) state event c) c,
          p.next = q.next
  /-- No two rules have one state, event and condition, if duplicates are rejected. -/
  distinct : options.duplicates = .reject →
    (Rule.survivors d.rules).Pairwise fun r q => ¬r.SameKey q
  /-- No two rules have the say at one full combination, if duplicates are rejected. -/
  single : options.duplicates = .reject → ∀ state event c,
    Combination.Full (Rule.mentionedFamilies (Rule.survivors d.rules)) c →
      (options.overlap.deciding
        (Rule.covering (Rule.survivors d.rules) state event c) c).length ≤ 1

end Draft

/-! ## Duplicates -/

namespace Rule

variable {policy : OverlapPolicy} {rules : List (Rule σ ε χ ω)}

omit [DecidableEq σ] [DecidableEq ε] in
theorem nodup_key_iff : (rules.map key).Nodup ↔ rules.Pairwise fun r q => ¬r.SameKey q := by
  rw [List.Nodup, List.pairwise_map]
  simp only [sameKey_iff, ne_eq]

omit [DecidableEq σ] [DecidableEq ε] in
/-- Where every key leads to one state, rules differ in key as soon as they differ in key and next
state. -/
theorem Sound.nodup_key_next_iff (h : Sound rules) :
    (rules.map fun r => (r.key, r.next)).Nodup ↔ (rules.map key).Nodup := by
  rw [List.Nodup, List.Nodup, List.pairwise_map, List.pairwise_map]
  constructor
  · intro hpair
    refine hpair.imp_of_mem ?_
    intro r q hr hq hne hkey
    apply hne
    rw [hkey, h.settled r hr q hq hkey]
  · intro hpair
    refine hpair.imp ?_
    intro r q hne he
    exact hne (Prod.mk.inj he).1

/-- Where no two rules have one key, the contenders at a full key are the rules that a direct scan
finds. -/
theorem Sound.contenders_eq (h : Sound rules) (hkeys : (rules.map key).Nodup)
    {k : DispatchKey σ ε} (hc : k.combination.Full (mentionedFamilies rules)) :
    contenders policy rules k =
      policy.deciding (covering rules k.state k.event k.combination) k.combination := by
  have sub : ((rules.filter (leads policy rules k)).map key).Sublist (rules.map key) :=
    List.filter_sublist.map key
  rw [contenders, distinctBy_eq_self (hkeys.sublist sub), filter_leads policy h hc]

/-- No undisputed key has two contenders exactly if no two rules have the say at one full
combination. -/
theorem Sound.length_contenders_iff (h : Sound rules) (hkeys : (rules.map key).Nodup)
    (hu : ∀ k, Undisputed policy rules k) :
    (∀ k, Undisputed policy rules k → (contenders policy rules k).length ≤ 1) ↔
      ∀ state event c, Combination.Full (mentionedFamilies rules) c →
        (policy.deciding (covering rules state event c) c).length ≤ 1 := by
  constructor
  · intro hone state event c hc
    have := hone ⟨state, event, c⟩ (hu _)
    rwa [h.contenders_eq hkeys hc] at this
  · intro hone k _
    by_cases hnone : contenders policy rules k = []
    · rw [hnone, List.length_nil]
      omega
    · obtain ⟨r, hr⟩ := List.exists_mem_of_ne_nil _ hnone
      obtain ⟨hr, hl⟩ := mem_of_mem_contenders hr
      have hc := full_of_leads h hr hl
      rw [h.contenders_eq hkeys hc]
      exact hone k.state k.event k.combination hc

end Rule

/-! ## Acceptable drafts -/

namespace Draft

variable {d : Draft σ ε χ ω} {options : CompileOptions}

theorem Acceptable.sound (h : d.Acceptable options) : Rule.Sound (Rule.survivors d.rules) where
  listed := h.listed
  coherent := fun r hr => Condition.coherent_iff.2 (h.coherent r hr)
  settled := fun r hr q hq hrq => h.settled r hr q hq (Rule.sameKey_iff.2 hrq)

/-- The checks find nothing exactly in acceptable drafts. -/
theorem allFaults_eq_nil_iff_acceptable :
    d.allFaults (Analysis.of options.overlap d.rules) options.duplicates = [] ↔
      d.Acceptable options := by
  rw [allFaults_eq_nil_iff, Analysis.faults_eq_nil_iff]
  constructor
  · rintro ⟨hnoted, hrules, hreplace, hlisted, hcoherent, hduplicates, hsettled, hundisputed⟩
    have sound : Rule.Sound (Rule.survivors d.rules) := ⟨hlisted, hcoherent, hsettled⟩
    have rejecting : options.duplicates = .reject →
        ((Rule.survivors d.rules).map Rule.key).Nodup := by
      intro hreject
      exact sound.nodup_key_next_iff.1 (Analysis.duplicates_eq_nil_iff.1 (hduplicates hreject)).1
    exact
      { unnoted := hnoted
        inhabited := hrules
        replacing := hreplace
        listed := hlisted
        coherent := fun r hr => Condition.coherent_iff.1 (hcoherent r hr)
        settled := fun r hr q hq hrq => hsettled r hr q hq (Rule.sameKey_iff.1 hrq)
        agreed := (Rule.undisputed_iff sound).1 hundisputed
        distinct := fun hreject => Rule.nodup_key_iff.1 (rejecting hreject)
        single := fun hreject => (sound.length_contenders_iff (rejecting hreject) hundisputed).1
          (Analysis.duplicates_eq_nil_iff.1 (hduplicates hreject)).2 }
  · intro h
    have hundisputed := (Rule.undisputed_iff h.sound).2 h.agreed
    refine ⟨h.unnoted, h.inhabited, h.replacing, h.listed, h.sound.coherent, ?_, h.sound.settled,
      hundisputed⟩
    intro hreject
    have keys := Rule.nodup_key_iff.2 (h.distinct hreject)
    rw [Analysis.duplicates_eq_nil_iff, h.sound.nodup_key_next_iff]
    exact ⟨keys, (h.sound.length_contenders_iff keys hundisputed).2 (h.single hreject)⟩

theorem exists_compile_eq_ok_iff :
    (∃ t, d.compile options = .ok t) ↔ d.Acceptable options := by
  simp only [compile_eq_ok_iff, exists_and_left, exists_eq, and_true]
  exact allFaults_eq_nil_iff_acceptable

end Draft

/-! ## Rules that never apply together -/

namespace Rule

/-- The two rules do not apply together at any full combination. -/
def Apart (fs : List Family) (p q : Rule σ ε χ ω) : Prop :=
  ∀ state event c, Combination.Full fs c → p.Applies state event c → ¬q.Applies state event c

/-- Wherever one of the rules applies by some branch and the other by another, these branches ask
for different values of one family. -/
def Exclusive (p q : Rule σ ε χ ω) : Prop :=
  p.state = q.state → p.event = q.event →
    ∀ b ∈ p.condition.branches, ∀ b' ∈ q.condition.branches,
      ∃ v ∈ b.toList, ∃ w ∈ b'.toList, v.family = w.family ∧ v ≠ w

instance (p q : Rule σ ε χ ω) : Decidable (p.Exclusive q) :=
  inferInstanceAs (Decidable (_ → _ → _))

variable {rules : List (Rule σ ε χ ω)}

omit [DecidableEq σ] [DecidableEq ε] in
/-- A full combination has one value of each family only. -/
theorem Exclusive.apart {p q : Rule σ ε χ ω} (h : p.Exclusive q) (fs : List Family) :
    Apart fs p q := by
  rintro state event c hc ⟨rfl, rfl, b, hb, hbc⟩ ⟨hstate, hevent, b', hb', hbc'⟩
  obtain ⟨v, hv, w, hw, hfamily, hne⟩ := h hstate.symm hevent.symm b hb b' hb'
  exact hne (hc.spans.consistent.eq (hbc v hv) (hbc' w hw) hfamily)

instance (fs : List Family) : Std.Symm (Apart fs : Rule σ ε χ ω → Rule σ ε χ ω → Prop) where
  symm _ _ h state event c hc hq hp := h state event c hc hp hq

omit [DecidableEq σ] [DecidableEq ε] in
/-- A coherent rule on listed values applies somewhere, and where it does so do the rules of its
declared key. -/
theorem not_apart_of_sameKey {p q : Rule σ ε χ ω} (hp : p ∈ rules)
    (hl : ∀ r ∈ rules, ∀ v ∈ r.condition.values, v.Listed) (hco : p.condition.Coherent)
    (h : p.SameKey q) : ¬Apart (mentionedFamilies rules) p q := by
  intro apart
  obtain ⟨hstate, hevent, alike⟩ := h
  obtain ⟨c, hc, hpc⟩ := Condition.exists_full_holds (mentions_of_listed hp (hl p hp)) hco
    fun f hf => cases_ne_nil hl hf
  exact apart p.state p.event c hc ⟨rfl, rfl, hpc⟩
    ⟨hstate.symm, hevent.symm, (alike.holds_iff c).1 hpc⟩

/-- Of rules that never apply together at most one applies. -/
theorem length_covering_le_one (h : rules.Pairwise (Apart (mentionedFamilies rules))) {state : σ}
    {event : ε} {c : Combination} (hc : Combination.Full (mentionedFamilies rules) c) :
    (covering rules state event c).length ≤ 1 := by
  have sub : (covering rules state event c).Sublist rules := List.filter_sublist
  have apart := h.sublist sub
  have applies : ∀ r ∈ covering rules state event c, r.Applies state event c := by
    intro r hr
    exact (mem_covering.1 hr).2
  match hcov : covering rules state event c with
  | [] => simp
  | [r] => simp
  | p :: q :: rest =>
    rw [hcov] at apart applies
    have := (List.pairwise_cons.1 apart).1 q (by simp)
    exact absurd (applies q (by simp)) (this state event c hc (applies p (by simp)))

end Rule

namespace Draft

/-- Where the surviving rules never apply together, it only matters that each makes sense by
itself. -/
theorem acceptable_iff_of_apart {d : Draft σ ε χ ω} {options : CompileOptions}
    (h : (Rule.survivors d.rules).Pairwise
      (Rule.Apart (Rule.mentionedFamilies (Rule.survivors d.rules)))) :
    d.Acceptable options ↔ d.faults = [] ∧ d.rules ≠ [] ∧ Rule.AllReplace d.rules ∧
      (∀ r ∈ Rule.survivors d.rules, ∀ v ∈ r.condition.values, v.Listed) ∧
      ∀ r ∈ Rule.survivors d.rules, ∀ branch ∈ r.condition.branches,
        ∀ v ∈ branch, ∀ w ∈ branch, v.family = w.family → v = w := by
  constructor
  · intro ha
    exact ⟨ha.unnoted, ha.inhabited, ha.replacing, ha.listed, ha.coherent⟩
  · rintro ⟨hnoted, hrules, hreplace, hlisted, hcoherent⟩
    -- rules of one declared key apply together somewhere, hence are one and the same rule
    have differ : ∀ r ∈ Rule.survivors d.rules, ∀ q ∈ Rule.survivors d.rules,
        r.SameKey q → ¬Rule.Apart (Rule.mentionedFamilies (Rule.survivors d.rules)) r q := by
      intro r hr q _
      exact Rule.not_apart_of_sameKey hr hlisted (Condition.coherent_iff.2 (hcoherent r hr))
    have same : ∀ r ∈ Rule.survivors d.rules, ∀ q ∈ Rule.survivors d.rules,
        ¬Rule.Apart (Rule.mentionedFamilies (Rule.survivors d.rules)) r q → r = q := by
      intro r hr q hq hrq
      by_contra hne
      exact hrq (h.forall hr hq hne)
    refine
      { unnoted := hnoted
        inhabited := hrules
        replacing := hreplace
        listed := hlisted
        coherent := hcoherent
        settled := ?_
        agreed := ?_
        distinct := fun _ => h.imp_of_mem fun hr hq apart hrq => differ _ hr _ hq hrq apart
        single := ?_ }
    · intro r hr q hq hrq
      rw [same r hr q hq (differ r hr q hq hrq)]
    · intro state event c hc p hp q hq
      obtain ⟨hp, hpc⟩ := Rule.mem_covering.1 ((OverlapPolicy.deciding_sublist _ _ c).subset hp)
      obtain ⟨hq, hqc⟩ := Rule.mem_covering.1 ((OverlapPolicy.deciding_sublist _ _ c).subset hq)
      rw [same p hp q hq fun apart => apart state event c hc hpc hqc]
    · intro _ state event c hc
      exact Nat.le_trans (OverlapPolicy.deciding_sublist _ _ c).length_le
        (Rule.length_covering_le_one h hc)

/-- A draft compiles exactly if it is acceptable. If no two surviving rules apply together, this
asks nothing of the rules but that each of them makes sense by itself. -/
theorem compiles_iff_acceptable (d : Draft σ ε χ ω) (options : CompileOptions) :
    ((∃ t, d.compile options = .ok t) ↔ d.Acceptable options) ∧
      ((Rule.survivors d.rules).Pairwise
          (Rule.Apart (Rule.mentionedFamilies (Rule.survivors d.rules))) →
        ((∃ t, d.compile options = .ok t) ↔
          d.faults = [] ∧ d.rules ≠ [] ∧ Rule.AllReplace d.rules ∧
          (∀ r ∈ Rule.survivors d.rules, ∀ v ∈ r.condition.values, v.Listed) ∧
          ∀ r ∈ Rule.survivors d.rules, ∀ branch ∈ r.condition.branches,
            ∀ v ∈ branch, ∀ w ∈ branch, v.family = w.family → v = w)) := by
  refine ⟨exists_compile_eq_ok_iff, ?_⟩
  intro apart
  rw [exists_compile_eq_ok_iff]
  exact acceptable_iff_of_apart apart

/-- The turnstile compiles even if duplicates are rejected, although its locked gate leads to two
states on one event: no two of its rules apply together. -/
theorem turnstile_compiles :
    ∃ t, (Turnstile.draft true).compile { duplicates := .reject } = .ok t := by
  have apart : (Rule.survivors (Turnstile.draft true).rules).Pairwise
      (Rule.Apart (Rule.mentionedFamilies (Rule.survivors (Turnstile.draft true).rules))) := by
    have exclusive : (Rule.survivors (Turnstile.draft true).rules).Pairwise Rule.Exclusive := by
      decide +kernel
    exact exclusive.imp fun h => h.apart _
  refine ((compiles_iff_acceptable _ _).2 apart).2 ⟨rfl, ?_, ?_, ?_, ?_⟩
  · exact List.cons_ne_nil _ _
  · exact Rule.allReplace_of_not_overriding (by decide +kernel)
  · change ∀ r ∈ Rule.survivors (Turnstile.draft true).rules,
        ∀ v ∈ r.condition.values.toList, v.Listed
    decide +kernel
  · intro r hr
    rw [← Condition.coherent_iff]
    revert r
    decide +kernel

end Draft

end TableMachine
