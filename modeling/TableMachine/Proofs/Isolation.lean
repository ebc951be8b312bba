import TableMachine.Proofs.Lookup

/-!
# Rules that are out of each other's way

A rule for a state and an event that no other rule is for may bring new families with it, and then
every other rule is expanded over more families than before. This makes no difference to what is
found. A condition cannot tell apart combinations that hold the same values of the families that it
mentions (`Combination.Agree`), and a full combination over the new families, restricted to the old
ones (`Combination.restrict`), is full over these.

**Main statements.** A draft stays acceptable if a foreign rule is inserted
(`Draft.Acceptable.insert`), since a scan over the new families finds what a scan over the old ones
finds (`Rule.scan_insert`).
-/

namespace TableMachine

/-! ## Combinations that agree on some families -/

namespace Combination

/-- The combinations hold the same values of the families. -/
def Agree (fs : List Family) (c c' : Combination) : Prop :=
  ∀ v : Value, v.family ∈ fs → (v ∈ c ↔ v ∈ c')

/-- The values of the families that the combination holds. -/
def restrict (fs : List Family) (c : Combination) : Combination :=
  .ofList (c.toList.filter fun v => v.family ∈ fs)

variable {fs gs : List Family} {c c' : Combination}

theorem mem_restrict {v : Value} : v ∈ c.restrict fs ↔ v ∈ c ∧ v.family ∈ fs := by
  rw [restrict, SortedSet.mem_ofList, List.mem_filter, decide_eq_true_eq, SortedSet.mem_def]

theorem agree_restrict : Agree fs c (c.restrict fs) := by
  intro v hv
  rw [mem_restrict]
  exact (and_iff_left hv).symm

/-- A part of the families that agrees is held by both. -/
theorem Agree.subset_iff (h : Agree fs c c') {b : Combination} (hb : ∀ v ∈ b, v.family ∈ fs) :
    b ⊆ c ↔ b ⊆ c' := by
  rw [SortedSet.subset_def, SortedSet.subset_def]
  refine ⟨fun hbc v hv => ?_, fun hbc v hv => ?_⟩
  · exact (h v (hb v hv)).1 (hbc v hv)
  · exact (h v (hb v hv)).2 (hbc v hv)

/-- A full combination is full over fewer families when restricted to them. -/
theorem Full.restrict (hc : c.Full gs) (hsub : fs ⊆ gs) : (c.restrict fs).Full fs := by
  obtain ⟨consistent, families⟩ := spans_ofList_iff.1 hc.spans
  refine ⟨spans_ofList_iff.2 ⟨?_, fun f => ?_⟩, fun v hv => hc.listed v (mem_restrict.1 hv).1⟩
  · rw [consistent_iff]
    intro v hv w hw
    exact consistent.eq (mem_restrict.1 hv).1 (mem_restrict.1 hw).1
  · rw [mem_families]
    refine ⟨?_, fun hf => ?_⟩
    · rintro ⟨v, hv, rfl⟩
      exact (mem_restrict.1 hv).2
    · obtain ⟨v, hv, rfl⟩ := mem_families.1 ((families f).2 (hsub hf))
      exact ⟨v, mem_restrict.2 ⟨hv, hf⟩, rfl⟩

end Combination

namespace Condition

variable {fs : List Family} {c c' : Combination} {m : Condition}

/-- A condition has one truth value at combinations that agree on its families. -/
theorem holds_agree (h : Combination.Agree fs c c') (hm : ∀ v ∈ m.values, v.family ∈ fs) :
    m.Holds c ↔ m.Holds c' := by
  unfold Holds
  refine exists_congr fun b => and_congr_right fun hb => h.subset_iff fun v hv => ?_
  exact hm v (mem_values_iff.2 ⟨b, hb, hv⟩)

/-- A condition has one rank at combinations that agree on its families. -/
theorem rankAt_agree (h : Combination.Agree fs c c') (hm : ∀ v ∈ m.values, v.family ∈ fs) :
    m.rankAt c = m.rankAt c' := by
  unfold rankAt
  rw [List.filter_congr fun b hb => decide_eq_decide.2 (h.subset_iff fun v hv => ?_)]
  exact hm v (mem_values_iff.2 ⟨b, hb, hv⟩)

end Condition

/-! ## Scans at combinations that agree -/

variable {σ ε χ ω : Type}

/-- The say goes to the same rules where these have the same ranks. -/
theorem OverlapPolicy.deciding_congr (policy : OverlapPolicy) {rules : List (Rule σ ε χ ω)}
    {c c' : Combination} (h : ∀ r ∈ rules, r.condition.rankAt c = r.condition.rankAt c') :
    policy.deciding rules c = policy.deciding rules c' := by
  cases policy with
  | strict => rfl
  | mostSpecific =>
    refine List.filter_congr fun r hr => decide_eq_decide.2 ?_
    refine forall_congr' fun q => forall_congr' fun hq => ?_
    rw [h r hr, h q hq]

variable [DecidableEq σ] [DecidableEq ε]

namespace Rule

variable {rules : List (Rule σ ε χ ω)} {c c' : Combination}

omit [DecidableEq σ] [DecidableEq ε] in
theorem family_mem_mentionedFamilies {r : Rule σ ε χ ω} (hr : r ∈ rules) :
    ∀ v ∈ r.condition.values, v.family ∈ mentionedFamilies rules := by
  intro v hv
  exact mem_mentionedFamilies.2 ⟨r, hr, v, hv, rfl⟩

theorem covering_agree (h : Combination.Agree (mentionedFamilies rules) c c') (state : σ)
    (event : ε) : covering rules state event c = covering rules state event c' := by
  refine List.filter_congr fun r hr => decide_eq_decide.2 ?_
  unfold Applies
  rw [Condition.holds_agree h (family_mem_mentionedFamilies hr)]

/-- The candidates are the same at combinations that agree on the families mentioned. -/
theorem candidates_agree [Event ε] (h : Combination.Agree (mentionedFamilies rules) c c')
    (state : σ) (event : ε) : candidates rules state event c = candidates rules state event c' := by
  unfold candidates
  simp only [covering_agree h]

omit [DecidableEq σ] [DecidableEq ε] in
theorem deciding_agree (policy : OverlapPolicy)
    (h : Combination.Agree (mentionedFamilies rules) c c') {some : List (Rule σ ε χ ω)}
    (hsome : some ⊆ rules) : policy.deciding some c = policy.deciding some c' :=
  policy.deciding_congr fun _ hr =>
    Condition.rankAt_agree h (family_mem_mentionedFamilies (hsome hr))

theorem covering_subset (rules : List (Rule σ ε χ ω)) (state : σ) (event : ε) (c : Combination) :
    covering rules state event c ⊆ rules :=
  List.filter_sublist.subset

theorem candidates_subset [Event ε] (rules : List (Rule σ ε χ ω)) (state : σ) (event : ε)
    (c : Combination) : candidates rules state event c ⊆ rules := by
  unfold candidates
  split
  · exact covering_subset rules state event c
  · split
    · exact covering_subset rules state _ c
    · exact List.nil_subset rules

/-! ## Foreign rules -/

/-- A rule that makes sense by itself, and is for a state and an event that none of the rules is
for. -/
structure Foreign (rules : List (Rule σ ε χ ω)) (r : Rule σ ε χ ω) : Prop where
  /-- It is not overriding. -/
  plain : r.overriding = false
  /-- Every value mentioned is a case of its family. -/
  listed : ∀ v ∈ r.condition.values, v.Listed
  /-- No branch asks for two values of one family. -/
  coherent : r.condition.Coherent
  /-- No rule of the state is for the event. -/
  unused : ∀ q ∈ rules, q.state = r.state → q.event ≠ r.event

omit [DecidableEq σ] [DecidableEq ε] in
theorem SameKey.symm {p q : Rule σ ε χ ω} (h : p.SameKey q) : q.SameKey p :=
  ⟨h.1.symm, h.2.1.symm, h.2.2.symm⟩

omit [DecidableEq σ] [DecidableEq ε] in
theorem Foreign.mono {r : Rule σ ε χ ω} {some : List (Rule σ ε χ ω)} (h : r.Foreign rules)
    (hsome : some ⊆ rules) : r.Foreign some :=
  ⟨h.plain, h.listed, h.coherent, fun q hq => h.unused q (hsome hq)⟩

variable {before after earlier later : List (Rule σ ε χ ω)} {r : Rule σ ε χ ω}

/-- A foreign rule survives, and with it those that survive without it. -/
theorem survivors_insert (h : r.Foreign (before ++ after)) :
    ∃ earlier later, survivors (before ++ after) = earlier ++ later ∧
      survivors (before ++ r :: after) = earlier ++ r :: later := by
  induction before with
  | nil =>
    refine ⟨[], survivors after, rfl, ?_⟩
    have kept : ¬∃ o ∈ after, o.Replaces r := by
      rintro ⟨o, ho, -, -, -, -, key⟩
      exact h.unused o ho key.1.symm key.2.1.symm
    rw [List.nil_append, survivors, if_neg kept]
    rfl
  | cons q rest ih =>
    obtain ⟨earlier, later, hold, hnew⟩ := ih (h.mono (List.subset_cons_self q _))
    -- a rule that is not overriding replaces nothing
    have replaced : (∃ o ∈ rest ++ r :: after, o.Replaces q) ↔
        ∃ o ∈ rest ++ after, o.Replaces q := by
      have idle : ¬r.Replaces q := fun hrq => by
        have := hrq.1
        rw [h.plain] at this
        exact Bool.false_ne_true this
      simp only [List.mem_append, List.mem_cons, or_and_right, exists_or, exists_eq_left, idle,
        false_or]
    rw [List.cons_append, List.cons_append, survivors, survivors, hold, hnew,
      if_congr replaced rfl rfl]
    by_cases dropped : ∃ o ∈ rest ++ after, o.Replaces q
    · rw [if_pos dropped, if_pos dropped]
      exact ⟨earlier, later, rfl, rfl⟩
    · rw [if_neg dropped, if_neg dropped]
      exact ⟨q :: earlier, later, rfl, rfl⟩

omit [DecidableEq σ] [DecidableEq ε] in
/-- Overriding rules replace what they replaced before. -/
theorem AllReplace.insert (h : AllReplace (before ++ after)) (hr : r.overriding = false) :
    AllReplace (before ++ r :: after) := by
  intro front q back hsplit hq
  have other : q ≠ r := by
    rintro rfl
    rw [hr] at hq
    exact Bool.false_ne_true hq
  rcases List.append_eq_append_iff.1 hsplit with ⟨mid, rfl, htail⟩ | ⟨mid, rfl, htail⟩
  · rcases List.cons_eq_append_iff.1 htail with ⟨-, hqr⟩ | ⟨mid, rfl, rfl⟩
    · exact absurd (List.cons.inj hqr).1 other
    · obtain ⟨e, he, hqe⟩ := h (before ++ mid) q back (List.append_assoc _ _ _).symm hq
      refine ⟨e, ?_, hqe⟩
      rcases List.mem_append.1 he with he | he
      · exact List.mem_append_left _ he
      · exact List.mem_append_right _ (List.mem_cons_of_mem r he)
  · rcases List.cons_eq_append_iff.1 htail with ⟨-, hrq⟩ | ⟨mid, rfl, rfl⟩
    · exact absurd (List.cons.inj hrq).1.symm other
    · exact h front q (mid ++ after) (List.append_assoc _ _ _) hq

/-- A rule inserted changes nothing at a state and an event that it is not for. -/
theorem covering_insert (state : σ) (event : ε) (c : Combination)
    (h : ¬(r.state = state ∧ r.event = event)) :
    covering (earlier ++ r :: later) state event c = covering (earlier ++ later) state event c := by
  have out : ¬r.Applies state event c := fun happ => h ⟨happ.1, happ.2.1⟩
  unfold covering
  rw [List.filter_append, List.filter_append, List.filter_cons_of_neg (by simpa using out)]

theorem candidates_insert [Event ε] (state : σ) (event : ε) (c : Combination)
    (h : ¬(r.state = state ∧ r.event = event))
    (hwild : ¬(r.state = state ∧ Event.wildcard? event = some r.event)) :
    candidates (earlier ++ r :: later) state event c =
      candidates (earlier ++ later) state event c := by
  unfold candidates
  rw [covering_insert state event c h]
  cases hw : Event.wildcard? event with
  | none => rfl
  | some wildcard =>
    have other : ¬(r.state = state ∧ r.event = wildcard) := by
      rintro ⟨hstate, rfl⟩
      exact hwild ⟨hstate, hw⟩
    simp only [covering_insert state wildcard c other]

omit [DecidableEq σ] [DecidableEq ε] in
/-- The families that were mentioned still are. -/
theorem mentionedFamilies_insert (earlier later : List (Rule σ ε χ ω)) (r : Rule σ ε χ ω) :
    mentionedFamilies (earlier ++ later) ⊆ mentionedFamilies (earlier ++ r :: later) := by
  intro f hf
  obtain ⟨q, hq, v, hv, rfl⟩ := mem_mentionedFamilies.1 hf
  refine family_mem_mentionedFamilies ?_ v hv
  exact List.perm_middle.mem_iff.2 (List.mem_cons_of_mem r hq)

/-- At its own state and event a foreign rule is alone. -/
theorem Foreign.covering_sublist (h : r.Foreign (earlier ++ later)) (c : Combination) :
    (covering (earlier ++ r :: later) r.state r.event c).Sublist [r] := by
  have alone : covering (earlier ++ later) r.state r.event c = [] := by
    refine List.filter_eq_nil_iff.2 fun q hq => ?_
    rw [decide_eq_true_eq]
    exact fun applies => h.unused q hq applies.1 applies.2.1
  unfold covering at alone ⊢
  rw [List.filter_append, List.append_eq_nil_iff] at alone
  rw [List.filter_append, alone.1, List.nil_append, List.filter_cons, alone.2]
  split
  · exact List.Sublist.refl [r]
  · exact List.nil_sublist [r]

/-- Over the new families nobody has the say but the rule inserted, or else those that have it at
some full combination over the old ones. -/
theorem scan_insert (policy : OverlapPolicy) (h : r.Foreign (earlier ++ later)) (state : σ)
    (event : ε) {c : Combination} (hc : c.Full (mentionedFamilies (earlier ++ r :: later))) :
    (policy.deciding (covering (earlier ++ r :: later) state event c) c).Sublist [r] ∨
      ∃ c', Combination.Full (mentionedFamilies (earlier ++ later)) c' ∧
        policy.deciding (covering (earlier ++ r :: later) state event c) c =
          policy.deciding (covering (earlier ++ later) state event c') c' := by
  by_cases own : r.state = state ∧ r.event = event
  · obtain ⟨rfl, rfl⟩ := own
    exact Or.inl ((policy.deciding_sublist _ c).trans (h.covering_sublist c))
  · refine Or.inr ⟨c.restrict _, hc.restrict (mentionedFamilies_insert earlier later r), ?_⟩
    rw [covering_insert state event c own, covering_agree Combination.agree_restrict]
    exact deciding_agree policy Combination.agree_restrict (covering_subset _ _ _ _)

end Rule

/-! ## Tables with fewer families -/

namespace DispatchTable

variable {t t' : DispatchTable σ ε χ ω} {values : List Value}

omit [DecidableEq σ] [DecidableEq ε] in
theorem SuppliedBy.mono (h : t'.SuppliedBy values) (hsub : t.families ⊆ t'.families) :
    t.SuppliedBy values where
  one f hf := h.one f (hsub hf)
  listed v hv hf := h.listed v hv (hsub hf)

omit [DecidableEq σ] [DecidableEq ε] in
theorem known_agree (hsub : t.families ⊆ t'.families) (values : List Value) :
    Combination.Agree t.families (t'.known values) (t.known values) := by
  intro v hv
  rw [mem_known, mem_known]
  exact and_congr_right fun _ => iff_of_true (hsub hv) hv

end DispatchTable

/-! ## Drafts with one more rule -/

namespace Draft

variable {d : Draft σ ε χ ω} {options : CompileOptions} {before after : List (Rule σ ε χ ω)}
  {r : Rule σ ε χ ω}

/-- A draft stays acceptable if a foreign rule is inserted. -/
theorem Acceptable.insert (h : d.Acceptable options) (hsplit : d.rules = before ++ after)
    (hr : r.Foreign d.rules) : Acceptable { d with rules := before ++ r :: after } options := by
  obtain ⟨earlier, later, hold, hnew⟩ := Rule.survivors_insert (hsplit ▸ hr)
  rw [← hsplit] at hold
  have foreign : r.Foreign (earlier ++ later) :=
    hr.mono (hold ▸ (Rule.survivors_sublist d.rules).subset)
  have apart : ∀ q ∈ earlier ++ later, ¬r.SameKey q :=
    fun q hq key => foreign.unused q hq key.1.symm key.2.1.symm
  have mem : ∀ {q}, q ∈ Rule.survivors (before ++ r :: after) → q = r ∨ q ∈ earlier ++ later := by
    intro q hq
    rw [hnew] at hq
    exact List.mem_cons.1 (List.perm_middle.mem_iff.1 hq)
  -- the rules that have the say had it before, unless it is the one inserted
  have scan : ∀ state event c,
      Combination.Full (Rule.mentionedFamilies (Rule.survivors (before ++ r :: after))) c →
      (options.overlap.deciding
          (Rule.covering (Rule.survivors (before ++ r :: after)) state event c) c).Sublist [r] ∨
        ∃ c', Combination.Full (Rule.mentionedFamilies (Rule.survivors d.rules)) c' ∧
          options.overlap.deciding
              (Rule.covering (Rule.survivors (before ++ r :: after)) state event c) c =
            options.overlap.deciding
              (Rule.covering (Rule.survivors d.rules) state event c') c' := by
    rw [hold, hnew]
    exact fun state event c hc => Rule.scan_insert options.overlap foreign state event hc
  refine
    { unnoted := h.unnoted
      inhabited := List.append_ne_nil_of_right_ne_nil before (List.cons_ne_nil r after)
      replacing := Rule.AllReplace.insert (hsplit ▸ h.replacing) hr.plain
      listed := ?_
      coherent := ?_
      settled := ?_
      agreed := ?_
      distinct := ?_
      single := ?_ }
  · intro q hq
    rcases mem hq with rfl | hq
    · exact hr.listed
    · exact h.listed q (hold ▸ hq)
  · intro q hq
    rcases mem hq with rfl | hq
    · exact Condition.coherent_iff.1 hr.coherent
    · exact h.coherent q (hold ▸ hq)
  · intro p hp q hq key
    rcases mem hp with rfl | hp'
    · rcases mem hq with rfl | hq'
      · rfl
      · exact absurd key (apart q hq')
    · rcases mem hq with rfl | hq'
      · exact absurd key.symm (apart p hp')
      · exact h.settled p (hold ▸ hp') q (hold ▸ hq') key
  · intro state event c hc p hp q hq
    rcases scan state event c hc with own | ⟨c', hc', same⟩
    · rw [List.mem_singleton.1 (own.subset hp), List.mem_singleton.1 (own.subset hq)]
    · rw [same] at hp hq
      exact h.agreed state event c' hc' p hp q hq
  · intro hreject
    change (Rule.survivors (before ++ r :: after)).Pairwise _
    rw [hnew, List.pairwise_middle]
    · exact List.pairwise_cons.2 ⟨apart, hold ▸ h.distinct hreject⟩
    · intro p q hpq key
      exact hpq key.symm
  · intro hreject state event c hc
    rcases scan state event c hc with own | ⟨c', hc', same⟩
    · exact own.length_le
    · refine Nat.le_trans (Nat.le_of_eq (congrArg List.length same)) ?_
      exact h.single hreject state event c' hc'

/-- A table that is supplied finds the first of the candidates that have the say. -/
theorem find?_of_suppliedBy [Event ε] {t : DispatchTable σ ε χ ω} (h : d.compile options = .ok t)
    (state : σ) (event : ε) {values : List Value} (hs : t.SuppliedBy values) :
    t.find? state event values =
      (options.overlap.deciding
        (Rule.candidates (Rule.survivors d.rules) state event (t.known values))
        (t.known values)).head? := by
  have full := DispatchTable.full_known_iff.2 hs
  rw [DispatchTable.find?,
    DispatchTable.snapshot?_eq (families_eq h ▸ Rule.nodup_mentionedFamilies _), if_pos full.spans,
    Option.bind_some, lookup?_eq h, if_pos full]

/-- If a foreign rule is inserted anywhere in a draft that compiles, the draft still compiles.
Values that supply the new table find in it what they found before, except in the state of the rule
on its event or on an event whose wildcard that is. -/
theorem find?_insert [Event ε] {t : DispatchTable σ ε χ ω} (h : d.compile options = .ok t)
    (hsplit : d.rules = before ++ after) (hr : r.Foreign d.rules) :
    ∃ t', Draft.compile { d with rules := before ++ r :: after } options = .ok t' ∧
      ∀ state event, ¬(r.state = state ∧ r.event = event) →
        ¬(r.state = state ∧ Event.wildcard? event = some r.event) →
        ∀ values, t'.SuppliedBy values →
          t'.find? state event values = t.find? state event values := by
  obtain ⟨t', h'⟩ := exists_compile_eq_ok_iff.2
    ((exists_compile_eq_ok_iff.1 ⟨t, h⟩).insert hsplit hr)
  obtain ⟨earlier, later, hold, hnew⟩ := Rule.survivors_insert (hsplit ▸ hr)
  rw [← hsplit] at hold
  have families : t.families ⊆ t'.families := by
    rw [families_eq h, families_eq h', hold, hnew]
    exact Rule.mentionedFamilies_insert earlier later r
  refine ⟨t', h', fun state event own wild values hs => ?_⟩
  have agree : Combination.Agree (Rule.mentionedFamilies (earlier ++ later)) (t'.known values)
      (t.known values) := by
    rw [← hold, ← families_eq h]
    exact DispatchTable.known_agree families values
  calc t'.find? state event values
    _ = (options.overlap.deciding
          (Rule.candidates (earlier ++ r :: later) state event (t'.known values))
          (t'.known values)).head? := by rw [find?_of_suppliedBy h' state event hs, hnew]
    _ = (options.overlap.deciding (Rule.candidates (earlier ++ later) state event (t.known values))
          (t'.known values)).head? := by
      rw [Rule.candidates_insert state event _ own wild, Rule.candidates_agree agree]
    _ = (options.overlap.deciding (Rule.candidates (earlier ++ later) state event (t.known values))
          (t.known values)).head? := by
      rw [Rule.deciding_agree options.overlap agree (Rule.candidates_subset _ _ _ _)]
    _ = t.find? state event values := by
      rw [find?_of_suppliedBy h state event (hs.mono families), hold]

end Draft

namespace Turnstile

/-- Whether it rains on the turnstile. -/
def weather : Family :=
  .ofLabels "Weather" ["Dry", "Wet"]

/-- In dry weather even a broken turnstile can be reset. -/
def dryReset : Rule Gate Input Unit Notes where
  state := .broken
  event := .reset
  condition := .allOf [weather.value "Dry"]
  next := .locked
  location := here 18

/-- The weather makes no difference to people who pass the locked turnstile: under weak enforcement
the same rule lets them pass. -/
theorem pass_insert_dryReset :
    ∃ t t', (draft true).compile {} = .ok t ∧
      ((draft true).addRule dryReset).compile {} = .ok t' ∧
      t'.families.length = 2 ∧
      t'.find? .locked .pass [Predicate.value Enforcement.weak, weather.value "Wet"] =
        t.find? .locked .pass [Predicate.value Enforcement.weak, weather.value "Wet"] ∧
      (t'.find? .locked .pass [Predicate.value Enforcement.weak, weather.value "Wet"]).map
        (fun rule => (rule.next, rule.location)) = some (.locked, here 4) := by
  obtain ⟨t, h, found⟩ : ∃ t, (draft true).compile {} = .ok t ∧
      (t.find? .locked .pass [Predicate.value Enforcement.weak, weather.value "Wet"]).map
        (fun rule => (rule.next, rule.location)) = some (.locked, here 4) := ⟨_, rfl, rfl⟩
  have foreign : dryReset.Foreign (draft true).rules :=
    ⟨rfl, by change ∀ v ∈ dryReset.condition.values.toList, v.Listed; decide +kernel,
      by decide +kernel, by decide +kernel⟩
  obtain ⟨t', h', same⟩ :=
    Draft.find?_insert h (List.append_nil (draft true).rules).symm foreign
  have families : t'.families = [(Predicate.value Enforcement.weak).family, weather] := by
    rw [Draft.families_eq h']
    decide +kernel
  have supplied : t'.SuppliedBy [Predicate.value Enforcement.weak, weather.value "Wet"] := by
    rw [← DispatchTable.full_known_iff, DispatchTable.known, families]
    decide +kernel
  have kept := same .locked .pass (by decide) (by decide) _ supplied
  exact ⟨t, t', h, h', by rw [families]; rfl, kept, kept ▸ found⟩

end Turnstile

end TableMachine
