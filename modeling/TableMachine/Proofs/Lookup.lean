import Mathlib.Data.List.Perm.Subperm
import TableMachine.Proofs.Acceptance

/-!
# Finding a rule without a table

A compiled table answers like a scan of the declared rules. Values *supply* a table if they hold
exactly one value of each of its families, a listed one (`DispatchTable.SuppliedBy`); just then they
amount to a full combination (`DispatchTable.full_known_iff`). The rules in question there are those
of the event that apply, or else those of its wildcard (`Rule.candidates`).

**Main statements.** The table of a draft has, at a full key, the first of the rules that a scan
gives the say (`Draft.at?_eq`), and a look-up finds the first of the candidates that have it
(`Draft.lookup?_eq`), all of which lead to one state (`Draft.candidates_agree`). Without supply
nothing is found.
-/

namespace TableMachine

variable {σ ε χ ω : Type}

/-! ## Supply -/

namespace DispatchTable

/-- The values of the table's families among some values. -/
def known (t : DispatchTable σ ε χ ω) (values : List Value) : Combination :=
  .ofList (values.filter fun v => v.family ∈ t.families)

/-- The values hold exactly one value of each family of the table, and it is listed. -/
structure SuppliedBy (t : DispatchTable σ ε χ ω) (values : List Value) : Prop where
  /-- There is exactly one value of each family. -/
  one : ∀ f ∈ t.families, ∃! v, v ∈ values ∧ v.family = f
  /-- The values of the table's families are listed. -/
  listed : ∀ v ∈ values, v.family ∈ t.families → v.Listed

variable {t : DispatchTable σ ε χ ω} {values : List Value}

theorem mem_known {v : Value} : v ∈ t.known values ↔ v ∈ values ∧ v.family ∈ t.families := by
  rw [known, SortedSet.mem_ofList, List.mem_filter, decide_eq_true_eq]

/-- There is a snapshot exactly if the values hold exactly one value of each family. -/
theorem snapshot?_eq (hn : t.families.Nodup) :
    t.snapshot? values =
      if Combination.Spans (t.known values) (SortedSet.ofList t.families) then some (t.known values)
      else none := by
  have enough :
      Combination.Consistent (t.known values) ∧ (t.known values).size = t.families.length ↔
      Combination.Spans (t.known values) (SortedSet.ofList t.families) := by
    rw [Combination.spans_ofList_iff]
    apply and_congr_right
    intro hc
    have sub : (t.known values).toList.map Value.family ⊆ t.families := by
      intro f hf
      obtain ⟨v, hv, rfl⟩ := List.mem_map.1 hf
      exact (mem_known.1 hv).2
    -- the values are of different families of the table, so their number tells if all are there
    have subperm := List.Nodup.subperm hc sub
    have count : ((t.known values).toList.map Value.family).length = (t.known values).size :=
      List.length_map _
    constructor
    · intro hsize f
      have perm := subperm.perm_of_length_le (by omega)
      rw [← perm.mem_iff, Combination.families, SortedSet.mem_ofList]
    · intro hf
      have perm := (List.perm_ext_iff_of_nodup hc hn).2 fun f => by
        rw [← hf f, Combination.families, SortedSet.mem_ofList]
      rw [← count, perm.length_eq]
  unfold snapshot?
  exact if_congr enough rfl rfl

/-- The values of the table's families span them exactly if there is exactly one of each. -/
theorem spans_known_iff :
    Combination.Spans (t.known values) (SortedSet.ofList t.families) ↔
      ∀ f ∈ t.families, ∃! v, v ∈ values ∧ v.family = f := by
  rw [Combination.spans_ofList_iff]
  constructor
  · rintro ⟨hc, hf⟩ f hft
    obtain ⟨v, hv, hvf⟩ := Combination.mem_families.1 ((hf f).2 hft)
    refine ⟨v, ⟨(mem_known.1 hv).1, hvf⟩, ?_⟩
    rintro w ⟨hw, hwf⟩
    exact hc.eq (mem_known.2 ⟨hw, hwf ▸ hft⟩) hv (hwf.trans hvf.symm)
  · intro one
    refine ⟨?_, ?_⟩
    · rw [Combination.consistent_iff]
      intro v hv w hw hvw
      obtain ⟨hv, hvt⟩ := mem_known.1 hv
      exact (one v.family hvt).unique ⟨hv, rfl⟩ ⟨(mem_known.1 hw).1, hvw.symm⟩
    · intro f
      rw [Combination.mem_families]
      constructor
      · rintro ⟨v, hv, rfl⟩
        exact (mem_known.1 hv).2
      · intro hft
        obtain ⟨v, ⟨hv, rfl⟩, -⟩ := one f hft
        exact ⟨v, mem_known.2 ⟨hv, hft⟩, rfl⟩

/-- Values that supply a table amount to a full combination, and no others do. -/
theorem full_known_iff : Combination.Full t.families (t.known values) ↔ t.SuppliedBy values := by
  constructor
  · intro h
    refine ⟨spans_known_iff.1 h.spans, ?_⟩
    intro v hv hvt
    exact h.listed v (mem_known.2 ⟨hv, hvt⟩)
  · intro h
    refine ⟨spans_known_iff.2 h.one, ?_⟩
    intro v hv
    obtain ⟨hv, hvt⟩ := mem_known.1 hv
    exact h.listed v hv hvt

end DispatchTable

/-! ## Candidates -/

variable [DecidableEq σ] [DecidableEq ε]

namespace Rule

/-- The rules that apply on the event, or else those that apply on its wildcard. -/
def candidates [Event ε] (rules : List (Rule σ ε χ ω)) (state : σ) (event : ε) (c : Combination) :
    List (Rule σ ε χ ω) :=
  if covering rules state event c ≠ [] then covering rules state event c
  else
    match Event.wildcard? event with
    | some wildcard => covering rules state wildcard c
    | none => []

end Rule

omit [DecidableEq σ] [DecidableEq ε] in
/-- Where rules apply, somebody has the say. -/
theorem OverlapPolicy.deciding_eq_nil_iff {policy : OverlapPolicy} {rules : List (Rule σ ε χ ω)}
    {c : Combination} : policy.deciding rules c = [] ↔ rules = [] := by
  cases policy with
  | strict => exact Iff.rfl
  | mostSpecific =>
    constructor
    · intro h
      by_contra hne
      obtain ⟨r, hr⟩ := List.exists_mem_of_ne_nil _ hne
      obtain ⟨top, htop⟩ := Option.isSome_iff_exists.1
        (List.isSome_max?_of_mem (List.mem_map_of_mem (f := fun q => q.condition.rankAt c) hr))
      obtain ⟨hmem, hmax⟩ := List.max?_eq_some_iff.1 htop
      obtain ⟨best, hbest, rfl⟩ := List.mem_map.1 hmem
      apply List.filter_eq_nil_iff.1 h best hbest
      rw [decide_eq_true_eq]
      intro q hq
      exact hmax _ (List.mem_map_of_mem hq)
    · rintro rfl
      rfl

/-! ## Tables of drafts -/

namespace Draft

variable {d : Draft σ ε χ ω} {options : CompileOptions} {t : DispatchTable σ ε χ ω}

/-- At a full key a table has the first of the rules that have the say, and at no other key any. -/
theorem at?_eq (h : d.compile options = .ok t) (k : DispatchKey σ ε) :
    t.at? k =
      if k.combination.Full t.families then
        (options.overlap.deciding
          (Rule.covering (Rule.survivors d.rules) k.state k.event k.combination)
          k.combination).head?
      else none := by
  have acceptable := exists_compile_eq_ok_iff.1 ⟨t, h⟩
  rw [at?_eq_find? h, families_eq h]
  by_cases hc : k.combination.Full (Rule.mentionedFamilies (Rule.survivors d.rules))
  · rw [if_pos hc, ← Rule.filter_leads options.overlap acceptable.sound hc, List.head?_filter]
  · rw [if_neg hc, List.find?_eq_none]
    intro r hr hl
    exact hc (Rule.full_of_leads acceptable.sound hr hl)

/-- A look-up falls back on the wildcard where no rule applies on the event itself. -/
theorem lookup?_eq [Event ε] (h : d.compile options = .ok t) (state : σ) (event : ε)
    (c : Combination) :
    t.lookup? state event c =
      if c.Full t.families then
        (options.overlap.deciding
          (Rule.candidates (Rule.survivors d.rules) state event c) c).head?
      else none := by
  have nothing : options.overlap.deciding ([] : List (Rule σ ε χ ω)) c = [] :=
    OverlapPolicy.deciding_eq_nil_iff.2 rfl
  unfold DispatchTable.lookup?
  simp only [at?_eq h]
  by_cases hc : c.Full t.families
  · simp only [if_pos hc]
    -- the table misses the event itself exactly if no rule applies on it
    by_cases hcover : Rule.covering (Rule.survivors d.rules) state event c = []
    · rw [Rule.candidates, if_neg (not_not.2 hcover), hcover, nothing, List.head?_nil,
        Option.none_or]
      cases Event.wildcard? event with
      | none => rw [Option.bind_none, nothing, List.head?_nil]
      | some wildcard => rw [Option.bind_some]
    · rw [Rule.candidates, if_pos hcover]
      have some_say : options.overlap.deciding
          (Rule.covering (Rule.survivors d.rules) state event c) c ≠ [] :=
        fun hnil => hcover (OverlapPolicy.deciding_eq_nil_iff.1 hnil)
      rw [List.head?_eq_some_head some_say, Option.some_or]
  · simp only [if_neg hc, Option.none_or]
    cases Event.wildcard? event <;> rfl

/-- The candidates that have the say lead to one state. -/
theorem candidates_agree [Event ε] (h : d.compile options = .ok t) (state : σ) (event : ε)
    {c : Combination} (hc : c.Full t.families) :
    ∀ p ∈ options.overlap.deciding (Rule.candidates (Rule.survivors d.rules) state event c) c,
      ∀ q ∈ options.overlap.deciding (Rule.candidates (Rule.survivors d.rules) state event c) c,
        p.next = q.next := by
  have acceptable := exists_compile_eq_ok_iff.1 ⟨t, h⟩
  rw [families_eq h] at hc
  unfold Rule.candidates
  split
  · exact acceptable.agreed state event c hc
  · cases Event.wildcard? event with
    | some wildcard => exact acceptable.agreed state wildcard c hc
    | none =>
      intro p hp
      rw [OverlapPolicy.deciding_eq_nil_iff.2 rfl] at hp
      exact absurd hp List.not_mem_nil

/-- A table that is supplied finds the first of the candidates that have the say, and all of these
lead to the state that it leads to. A table that is not supplied finds nothing. -/
theorem find?_eq_scan [Event ε] (h : d.compile options = .ok t) (state : σ) (event : ε)
    (values : List Value) :
    (¬t.SuppliedBy values → t.find? state event values = none) ∧
    (t.SuppliedBy values →
      t.find? state event values =
        (options.overlap.deciding
          (Rule.candidates (Rule.survivors d.rules) state event (t.known values))
          (t.known values)).head? ∧
      ∀ found, t.find? state event values = some found →
        ∀ r ∈ options.overlap.deciding
            (Rule.candidates (Rule.survivors d.rules) state event (t.known values))
            (t.known values),
          r.next = found.next) := by
  have families : t.families.Nodup := families_eq h ▸ Rule.nodup_mentionedFamilies _
  have found_eq : t.find? state event values =
      if Combination.Full t.families (t.known values) then
        (options.overlap.deciding
          (Rule.candidates (Rule.survivors d.rules) state event (t.known values))
          (t.known values)).head?
      else none := by
    rw [DispatchTable.find?, DispatchTable.snapshot?_eq families]
    by_cases hspans : Combination.Spans (t.known values) (SortedSet.ofList t.families)
    · rw [if_pos hspans, Option.bind_some, lookup?_eq h]
    · rw [if_neg hspans, Option.bind_none, if_neg fun hc => hspans hc.spans]
  rw [found_eq]
  constructor
  · intro hs
    rw [if_neg fun hc => hs (DispatchTable.full_known_iff.1 hc)]
  · intro hs
    have hc := DispatchTable.full_known_iff.2 hs
    rw [if_pos hc]
    refine ⟨rfl, ?_⟩
    intro found hfound r hr
    exact candidates_agree h state event hc r hr found (List.mem_of_head? hfound)

/-- A weak enforcement lets people pass the locked turnstile; without any nothing is found. -/
theorem turnstile_find?_pass :
    ∃ t, (Turnstile.draft true).compile {} = .ok t ∧
      (t.find? .locked .pass [Predicate.value Turnstile.Enforcement.weak]).map Rule.next =
        some .locked ∧
      t.find? .locked .pass [] = none := by
  obtain ⟨t, h⟩ := exists_compile_of_toBool (by rfl : ((Turnstile.draft true).compile {}).toBool)
  have families : t.families = [(Predicate.value Turnstile.Enforcement.weak).family] := by
    rw [families_eq h]
    decide +kernel
  refine ⟨t, h, ?_, ?_⟩
  · have supplied : t.SuppliedBy [Predicate.value Turnstile.Enforcement.weak] := by
      refine ⟨?_, ?_⟩
      · intro f hf
        rw [families, List.mem_singleton] at hf
        refine ⟨Predicate.value Turnstile.Enforcement.weak,
          ⟨List.mem_singleton_self _, hf.symm⟩, ?_⟩
        rintro w ⟨hw, -⟩
        exact List.mem_singleton.1 hw
      · intro v hv _
        rw [List.mem_singleton.1 hv]
        decide +kernel
    rw [((find?_eq_scan h .locked .pass _).2 supplied).1, DispatchTable.known, families]
    rfl
  · apply (find?_eq_scan h .locked .pass []).1
    intro supplied
    obtain ⟨v, ⟨hv, -⟩, -⟩ := supplied.one _ (by rw [families]; exact List.mem_singleton_self _)
    exact List.not_mem_nil hv

end Draft

end TableMachine
