import TableMachine.Proofs.Acceptance
import TableMachine.Proofs.Reports
import TableMachine.Samples.Turnstile

/-!
# Which rules a failure names

Under the strict policy two rules that apply together but lead to different states make compilation
fail, and the failure says why. It does not name every such rule: rules that agree in declared key
and next state are represented by the first of them, their *stand-in* (`Rule.standIn`), and rules of
a declared key that is not settled are reported with each other, but take no part in contests.

**Main statements.** The stand-ins of a declared key that is not settled are reported together
(`Draft.standIns_clash`), and so are those of two rules of settled keys that collide
(`Draft.standIns_contend`). The rules themselves need not be.
-/

namespace TableMachine

variable {σ ε χ ω : Type}

/-! ## Rules named together -/

namespace Fault

/-- The groups of rules that a fault shows to be at odds. -/
def rosters : Fault σ ε → List (List (Summary σ ε))
  | .clashes groups => groups
  | .contests keys => keys.map Contest.rules
  | _ => []

/-- Some fault shows the two rules to be at odds. -/
def NameTogether (faults : List (Fault σ ε)) (a b : Summary σ ε) : Prop :=
  ∃ fault ∈ faults, ∃ group ∈ fault.rosters, a ∈ group ∧ b ∈ group

instance [DecidableEq σ] [DecidableEq ε] (faults : List (Fault σ ε)) (a b : Summary σ ε) :
    Decidable (NameTogether faults a b) :=
  inferInstanceAs (Decidable (∃ fault ∈ faults, _))

end Fault

/-! ## Stand-ins -/

namespace Rule

variable [DecidableEq σ] [DecidableEq ε]

/-- The first of the rules that agree with the rule in declared key and next state. -/
def standIn (rules : List (Rule σ ε χ ω)) (r : Rule σ ε χ ω) : Rule σ ε χ ω :=
  (rules.find? fun q => q.key = r.key ∧ q.next = r.next).getD r

variable {rules : List (Rule σ ε χ ω)} {r : Rule σ ε χ ω} {k : DispatchKey σ ε}

theorem find?_eq_standIn (hr : r ∈ rules) :
    (rules.find? fun q => q.key = r.key ∧ q.next = r.next) = some (standIn rules r) := by
  unfold standIn
  cases h : rules.find? fun q => q.key = r.key ∧ q.next = r.next with
  | some q => rfl
  | none =>
    have := List.find?_eq_none.1 h r hr
    simp at this

/-- The stand-in agrees with the rule in declared key and next state. -/
theorem standIn_agrees (hr : r ∈ rules) :
    (standIn rules r).key = r.key ∧ (standIn rules r).next = r.next := by
  have agrees := List.find?_some (find?_eq_standIn hr)
  rwa [decide_eq_true_eq] at agrees

/-- A rule with which no other agrees in declared key and next state is its own stand-in. -/
theorem standIn_eq_self (hr : r ∈ rules)
    (h : ∀ p ∈ rules, p.SameKey r → p.next = r.next → p = r) : standIn rules r = r := by
  obtain ⟨key, next⟩ := standIn_agrees hr
  exact h _ (List.mem_of_find?_eq_some (find?_eq_standIn hr)) (sameKey_iff.2 key) next

/-- The rules listed for a key that is not settled are the stand-ins of its rules. -/
theorem standIn_mem_distinctBy_next {p : Rule σ ε χ ω} (hp : p ∈ rules) (h : p.key = r.key) :
    standIn rules p ∈ distinctBy next (sharing rules r) := by
  rw [mem_distinctBy_iff, sharing, List.find?_filter, (standIn_agrees hp).2, ← find?_eq_standIn hp]
  congr 1
  funext q
  rw [h]
  by_cases hq : q.key = r.key <;> simp [hq]

/-- The contender of a declared key that has the say is the stand-in of its rules. -/
theorem standIn_mem_contenders {policy : OverlapPolicy} (hr : r ∈ rules) (hs : Settled rules r)
    (hl : leads policy rules k r = true) : standIn rules r ∈ contenders policy rules k := by
  rw [contenders, mem_distinctBy_iff, List.find?_filter, (standIn_agrees hr).1,
    ← find?_eq_standIn hr, ← List.head?_filter, ← List.head?_filter]
  congr 1
  -- among the rules of a settled key it makes no difference where they lead
  apply List.filter_congr
  intro q hq
  rw [Bool.eq_iff_iff]
  simp only [decide_eq_true_eq, Bool.decide_and, Bool.and_eq_true, Bool.decide_eq_true]
  constructor
  · rintro ⟨-, hkey⟩
    exact ⟨hkey, hs q hq r hr hkey rfl⟩
  · rintro ⟨hkey, -⟩
    exact ⟨(leads_congr q r hkey).trans hl, hkey⟩

/-- Under the strict policy a settled rule that makes sense by itself has the say where it
applies. -/
theorem leads_strict_of_applies (hr : r ∈ rules) (hs : Settled rules r)
    (hl : ∀ v ∈ r.condition.values, v.Listed) (hco : r.condition.Coherent)
    (hc : k.combination.Full (mentionedFamilies rules))
    (ha : r.Applies k.state k.event k.combination) : leads .strict rules k r = true := by
  rw [leads_iff, claim?_eq hs hco (mentions_of_listed hr hl) hc, if_pos ha]
  refine ⟨_, rfl, ?_⟩
  intro hpolicy
  cases hpolicy

/-! ## Rules that collide -/

omit [DecidableEq σ] [DecidableEq ε] in
/-- Two of the rules make sense each by itself and are for one state and event, but lead to
different states where both apply. -/
structure Collide (rules : List (Rule σ ε χ ω)) (r q : Rule σ ε χ ω) : Prop where
  /-- Both are among the rules. -/
  mem : r ∈ rules ∧ q ∈ rules
  /-- They are for one state. -/
  state : r.state = q.state
  /-- They are for one event. -/
  event : r.event = q.event
  /-- They lead to different states. -/
  next : r.next ≠ q.next
  /-- All values that they mention are listed. -/
  listed : (∀ v ∈ r.condition.values, v.Listed) ∧ ∀ v ∈ q.condition.values, v.Listed
  /-- Their conditions do not contradict themselves. -/
  coherent : r.condition.Coherent ∧ q.condition.Coherent
  /-- Both conditions hold of some full combination. -/
  overlap : ∃ c, Combination.Full (mentionedFamilies rules) c ∧
    r.condition.Holds c ∧ q.condition.Holds c

end Rule

/-! ## Collisions on a coin -/

namespace Turnstile

/-- What a coin does to the locked turnstile. -/
def coinRule (condition : Condition) (next : Gate) (line : Nat) : Rule Gate Input Unit Notes where
  state := .locked
  event := .coin
  condition
  next
  location := here line

/-- The coin leads to two states, to one of them twice. -/
def repeatedCoin : Draft Gate Input Unit Notes :=
  .ofRules [coinRule .always .unlocked 1, coinRule .always .alarming 2,
    coinRule .always .alarming 3]

/-- The coin leads to two states, and under weak enforcement to a third one. -/
def unsettledCoin : Draft Gate Input Unit Notes :=
  .ofRules [coinRule .always .unlocked 1, coinRule .always .alarming 2,
    coinRule (.allOf [Predicate.value Enforcement.weak]) .broken 3]

/-- Rules for the coin collide if their conditions make sense and hold of one full combination. -/
theorem coinRule_collide {rules : List (Rule Gate Input Unit Notes)} {m n : Condition}
    {s t : Gate} {i j : Nat} (c : Combination) (hm : coinRule m s i ∈ rules)
    (hn : coinRule n t j ∈ rules) (hne : s ≠ t) (hl : ∀ v ∈ (m.values ∪ n.values).toList, v.Listed)
    (hco : m.Coherent ∧ n.Coherent) (hc : c.Full (Rule.mentionedFamilies rules))
    (hh : m.Holds c ∧ n.Holds c) : Rule.Collide rules (coinRule m s i) (coinRule n t j) where
  mem := ⟨hm, hn⟩
  state := rfl
  event := rfl
  next := hne
  listed := by
    refine ⟨?_, ?_⟩
    · intro v hv
      exact hl v (SortedSet.mem_union.2 (Or.inl hv))
    · intro v hv
      exact hl v (SortedSet.mem_union.2 (Or.inr hv))
  coherent := hco
  overlap := ⟨c, hc, hh⟩

theorem repeatedCoin_collide :
    Rule.Collide (Rule.survivors repeatedCoin.rules) (coinRule .always .unlocked 1)
      (coinRule .always .alarming 3) := by
  rw [Rule.survivors_eq_self (by decide)]
  refine coinRule_collide ∅ ?_ ?_ (by decide) (by decide) (by decide) (by decide) (by decide)
  · exact List.mem_cons_self
  · exact List.mem_cons_of_mem _ (List.mem_cons_of_mem _ List.mem_cons_self)

theorem unsettledCoin_collide :
    Rule.Collide (Rule.survivors unsettledCoin.rules) (coinRule .always .alarming 2)
      (coinRule (.allOf [Predicate.value Enforcement.weak]) .broken 3) := by
  rw [Rule.survivors_eq_self (by decide)]
  refine coinRule_collide (.ofList [Predicate.value Enforcement.weak]) ?_ ?_ (by decide)
    (by decide +kernel) (by decide +kernel) (by decide +kernel) (by decide +kernel)
  · exact List.mem_cons_of_mem _ List.mem_cons_self
  · exact List.mem_cons_of_mem _ (List.mem_cons_of_mem _ List.mem_cons_self)

/-- Colliding rules are not always named together: not a rule that has another stand-in, and not
even the stand-ins if one of the keys is not settled. -/
theorem not_always_named :
    (¬∀ (d : Draft Gate Input Unit Notes) (options : CompileOptions)
        (r q : Rule Gate Input Unit Notes), options.overlap = .strict →
      Rule.Collide (Rule.survivors d.rules) r q →
        ∃ f, d.compile options = .error f ∧ Fault.NameTogether f.faults r.summary q.summary) ∧
    ¬∀ (d : Draft Gate Input Unit Notes) (options : CompileOptions)
        (r q : Rule Gate Input Unit Notes), options.overlap = .strict →
      Rule.Collide (Rule.survivors d.rules) r q →
        ∃ f, d.compile options = .error f ∧
          Fault.NameTogether f.faults (Rule.standIn (Rule.survivors d.rules) r).summary
            (Rule.standIn (Rule.survivors d.rules) q).summary := by
  constructor
  · intro h
    obtain ⟨f, hf, named⟩ := h repeatedCoin {} _ _ rfl repeatedCoin_collide
    rw [← Draft.compile_eq_error_iff.1 hf] at named
    revert named
    decide +kernel
  · intro h
    obtain ⟨f, hf, named⟩ := h unsettledCoin {} _ _ rfl unsettledCoin_collide
    rw [← Draft.compile_eq_error_iff.1 hf] at named
    revert named
    decide +kernel

end Turnstile

/-! ## What is reported of a collision -/

namespace Draft

variable {d : Draft σ ε χ ω} {options : CompileOptions} {f : BuildFailure σ ε}
  {r q : Rule σ ε χ ω} [DecidableEq σ] [DecidableEq ε]

/-- Under the strict policy a draft with colliding rules is refused. -/
theorem not_acceptable_of_collide (hstrict : options.overlap = .strict)
    (h : Rule.Collide (Rule.survivors d.rules) r q) : ¬d.Acceptable options := by
  intro acceptable
  obtain ⟨c, hc, hrc, hqc⟩ := h.overlap
  have agreed := acceptable.agreed r.state r.event c hc
  rw [hstrict] at agreed
  have applies : r ∈ Rule.covering (Rule.survivors d.rules) r.state r.event c :=
    Rule.mem_covering.2 ⟨h.mem.1, rfl, rfl, hrc⟩
  have applies' : q ∈ Rule.covering (Rule.survivors d.rules) r.state r.event c :=
    Rule.mem_covering.2 ⟨h.mem.2, h.state.symm, h.event.symm, hqc⟩
  exact h.next (agreed r applies q applies')

/-- The rules of a declared key that is not settled are shown in one group by their stand-ins. -/
theorem standIns_clash (hf : d.compile options = .error f) (hr : r ∈ Rule.survivors d.rules)
    (hs : ¬Rule.Settled (Rule.survivors d.rules) r) :
    ∃ groups, Fault.clashes groups ∈ f.faults ∧ ∃ group ∈ groups,
      ∀ p ∈ Rule.survivors d.rules, p.SameKey r →
        (Rule.standIn (Rule.survivors d.rules) p).summary ∈ group := by
  obtain ⟨groups, hgroups, hgroup⟩ := clash_mem_of_compile hf hr hs
  refine ⟨groups, hgroups, _, hgroup, ?_⟩
  intro p hp hpr
  exact List.mem_map_of_mem (Rule.standIn_mem_distinctBy_next hp (Rule.sameKey_iff.1 hpr))

/-- Colliding rules of settled keys are shown by their stand-ins as contending for one key. -/
theorem standIns_contend (hf : d.compile options = .error f) (hstrict : options.overlap = .strict)
    (h : Rule.Collide (Rule.survivors d.rules) r q)
    (hr : Rule.Settled (Rule.survivors d.rules) r) (hq : Rule.Settled (Rule.survivors d.rules) q) :
    Fault.NameTogether f.faults (Rule.standIn (Rule.survivors d.rules) r).summary
      (Rule.standIn (Rule.survivors d.rules) q).summary := by
  obtain ⟨c, hc, hrc, hqc⟩ := h.overlap
  have leads : Rule.leads options.overlap (Rule.survivors d.rules)
      ⟨r.state, r.event, c⟩ r = true := by
    rw [hstrict]
    exact Rule.leads_strict_of_applies h.mem.1 hr h.listed.1 h.coherent.1 hc ⟨rfl, rfl, hrc⟩
  have leads' : Rule.leads options.overlap (Rule.survivors d.rules)
      ⟨r.state, r.event, c⟩ q = true := by
    rw [hstrict]
    exact Rule.leads_strict_of_applies h.mem.2 hq h.listed.2 h.coherent.2 hc
      ⟨h.state.symm, h.event.symm, hqc⟩
  have disputed : ¬Rule.Undisputed options.overlap (Rule.survivors d.rules)
      ⟨r.state, r.event, c⟩ := by
    intro hu
    exact h.next (hu r h.mem.1 q h.mem.2 leads leads')
  obtain ⟨contests, hcontests, hcontest⟩ := contest_mem_of_compile hf disputed
  refine ⟨_, hcontests, _, List.mem_map_of_mem hcontest, ?_, ?_⟩
  · exact List.mem_map_of_mem (Rule.standIn_mem_contenders h.mem.1 hr leads)
  · exact List.mem_map_of_mem (Rule.standIn_mem_contenders h.mem.2 hq leads')

/-- Under the strict policy colliding rules make compilation fail. If they have one declared key, or
both their keys are settled, the failure shows their stand-ins to be at odds; and if the key of one
of them is not settled, it shows the stand-ins of all rules of that key to be at odds. A rule stands
in for itself unless another one agrees with it in declared key and next state. -/
theorem overlap_reported (options : CompileOptions) (hstrict : options.overlap = .strict)
    (h : Rule.Collide (Rule.survivors d.rules) r q) :
    ∃ f, d.compile options = .error f ∧
      (r.SameKey q ∨ Rule.Settled (Rule.survivors d.rules) r ∧
          Rule.Settled (Rule.survivors d.rules) q →
        Fault.NameTogether f.faults (Rule.standIn (Rule.survivors d.rules) r).summary
          (Rule.standIn (Rule.survivors d.rules) q).summary) ∧
      (∀ x, x = r ∨ x = q → ¬Rule.Settled (Rule.survivors d.rules) x →
        ∃ groups, Fault.clashes groups ∈ f.faults ∧ ∃ group ∈ groups,
          ∀ p ∈ Rule.survivors d.rules, p.SameKey x →
            (Rule.standIn (Rule.survivors d.rules) p).summary ∈ group) ∧
      ∀ x, x = r ∨ x = q →
        (∀ p ∈ Rule.survivors d.rules, p.SameKey x → p.next = x.next → p = x) →
          Rule.standIn (Rule.survivors d.rules) x = x := by
  cases hf : d.compile options with
  | ok t =>
    exact absurd (exists_compile_eq_ok_iff.1 ⟨t, hf⟩) (not_acceptable_of_collide hstrict h)
  | error f =>
    refine ⟨f, rfl, ?_, ?_, ?_⟩
    · rintro (hkey | ⟨hr, hq⟩)
      · -- two rules of one key that lead to different states unsettle it
        have unsettled : ¬Rule.Settled (Rule.survivors d.rules) q := by
          intro hs
          exact h.next (hs r h.mem.1 q h.mem.2 (Rule.sameKey_iff.1 hkey) rfl)
        obtain ⟨groups, hgroups, group, hgroup, hall⟩ := standIns_clash hf h.mem.2 unsettled
        exact ⟨_, hgroups, group, hgroup, hall r h.mem.1 hkey,
          hall q h.mem.2 (Rule.sameKey_iff.2 rfl)⟩
      · exact standIns_contend hf hstrict h hr hq
    · rintro x (rfl | rfl) hs
      · exact standIns_clash hf h.mem.1 hs
      · exact standIns_clash hf h.mem.2 hs
    · rintro x (rfl | rfl) hx
      · exact Rule.standIn_eq_self h.mem.1 hx
      · exact Rule.standIn_eq_self h.mem.2 hx

/-- The third rule for the coin collides with the first, and the second is named with it. -/
theorem repeatedCoin_reported :
    ∃ f, Turnstile.repeatedCoin.compile {} = .error f ∧
      Fault.NameTogether f.faults (Turnstile.coinRule .always .unlocked 1).summary
        (Turnstile.coinRule .always .alarming 2).summary := by
  obtain ⟨f, hf, named, -, -⟩ := overlap_reported {} rfl Turnstile.repeatedCoin_collide
  exact ⟨f, hf, named (Or.inl (by decide +kernel))⟩

end Draft

end TableMachine
