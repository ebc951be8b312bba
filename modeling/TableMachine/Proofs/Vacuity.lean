import TableMachine.Proofs.DirectMatching
import TableMachine.Proofs.Lookup
import TableMachine.Proofs.Policies

/-!
# No rule in vain

A draft that compiles has rules, and overriding leaves some of them: the last rule is never replaced
(`Rule.survivors_ne_nil`). The surviving rules mention listed values only, so that no family of the
table is without cases and each of the rules, not contradicting itself, holds of some full
combination (`Draft.exists_full_holds`). The values of such a combination supply the table, and with
them a rule for the state and the event is found (`Draft.exists_find?_of_holds`). It need not be the
rule itself, which may be outranked or repeated there.

**Main statements.** In a table that compiles no surviving rule is in vain, and every entry is filed
under a full key where its rule applies (`Draft.no_rule_in_vain`).
-/

namespace TableMachine

variable {σ ε χ ω : Type}

namespace DispatchTable

variable {t : DispatchTable σ ε χ ω} {c : Combination}

/-- What is known of the values of a full combination is the combination. -/
theorem known_toList (h : c.Full t.families) : t.known c.toList = c := by
  ext v
  rw [mem_known]
  exact and_iff_left_of_imp fun hv => h.family_mem hv

/-- A rule is filed where it applies: the key has one listed value of each family of the table and
no other value, and the rule is for its state and its event and holds of its values. -/
structure Files (t : DispatchTable σ ε χ ω) (k : DispatchKey σ ε) (r : Rule σ ε χ ω) : Prop where
  /-- The key has exactly one value of each family. -/
  one : ∀ f ∈ t.families, ∃! v, v ∈ k.combination ∧ v.family = f
  /-- It has listed values of these families only. -/
  listed : ∀ v ∈ k.combination, v.Listed ∧ v.family ∈ t.families
  /-- The rule is for the key's state. -/
  state : r.state = k.state
  /-- The rule is for the key's event. -/
  event : r.event = k.event
  /-- The rule's condition holds of the key's values. -/
  holds : r.condition.Holds k.combination

end DispatchTable

variable [DecidableEq σ] [DecidableEq ε]

/-- Overriding leaves some rule, if only the last one. -/
theorem Rule.survivors_ne_nil {rules : List (Rule σ ε χ ω)} (h : rules ≠ []) :
    survivors rules ≠ [] := by
  rw [← List.dropLast_append_getLast h, survivors_append]
  exact List.append_ne_nil_of_right_ne_nil _ (by simp [survivors])

namespace Draft

variable {d : Draft σ ε χ ω} {options : CompileOptions} {t : DispatchTable σ ε χ ω}
  {r : Rule σ ε χ ω} {c : Combination}

/-- What a surviving rule mentions is listed and of the table's families. -/
theorem mentions_of_compile (h : d.compile options = .ok t) (hr : r ∈ Rule.survivors d.rules) :
    ∀ v ∈ r.condition.values, v.Listed ∧ v.family ∈ t.families := by
  rw [families_eq h]
  exact (exists_compile_eq_ok_iff.1 ⟨t, h⟩).sound.mentions hr

/-- Every surviving rule holds of some full combination. -/
theorem exists_full_holds (h : d.compile options = .ok t) (hr : r ∈ Rule.survivors d.rules) :
    ∃ c : Combination, c.Full t.families ∧ r.condition.Holds c := by
  have sound := (exists_compile_eq_ok_iff.1 ⟨t, h⟩).sound
  refine Condition.exists_full_holds (mentions_of_compile h hr) (sound.coherent r hr) ?_
  intro f hf
  rw [families_eq h] at hf
  exact Rule.cases_ne_nil sound.listed hf

/-- A surviving rule covers full combinations of which it holds, and some of them. -/
theorem coverage_of_compile (h : d.compile options = .ok t) (hr : r ∈ Rule.survivors d.rules) :
    ∃ k, r.condition.coverage t.families = .ok k ∧ (∃ c, c ∈ k.combinations) ∧
      ∀ c ∈ k.combinations, c.Full t.families ∧ r.condition.Holds c := by
  have coherent := (exists_compile_eq_ok_iff.1 ⟨t, h⟩).sound.coherent r hr
  have hk : r.condition.coverage t.families = .ok (.ofBranches r.condition.branches t.families) :=
    Condition.coverage_eq_ok_iff.2 ⟨coherent, rfl⟩
  have covered := fun c => Condition.mem_combinations_iff (c := c) (mentions_of_compile h hr) hk
  simp only [Combination.mem_all_iff] at covered
  obtain ⟨c, hc⟩ := exists_full_holds h hr
  exact ⟨_, hk, ⟨c, (covered c).2 hc⟩, fun c => (covered c).1⟩

/-- Where a surviving rule holds, some rule for its state and its event is at the key. -/
theorem exists_at?_of_holds (h : d.compile options = .ok t) (hr : r ∈ Rule.survivors d.rules)
    (hc : c.Full t.families) (hh : r.condition.Holds c) :
    ∃ found, t.at? ⟨r.state, r.event, c⟩ = some found ∧ found.state = r.state ∧
      found.event = r.event := by
  have applies : r ∈ Rule.covering (Rule.survivors d.rules) r.state r.event c :=
    Rule.mem_covering.2 ⟨hr, rfl, rfl, hh⟩
  have deciding : options.overlap.deciding
      (Rule.covering (Rule.survivors d.rules) r.state r.event c) c ≠ [] :=
    fun hnil => List.ne_nil_of_mem applies (OverlapPolicy.deciding_eq_nil_iff.1 hnil)
  obtain ⟨found, hfound⟩ := Option.isSome_iff_exists.1 (List.isSome_head?.2 deciding)
  have covering := (OverlapPolicy.deciding_sublist ..).subset (List.mem_of_head? hfound)
  obtain ⟨-, hstate, hevent, -⟩ := Rule.mem_covering.1 covering
  refine ⟨found, ?_, hstate, hevent⟩
  rw [at?_eq h, if_pos hc]
  exact hfound

/-- With the values of such a combination a rule for the state and the event is found. -/
theorem exists_find?_of_holds [Event ε] (h : d.compile options = .ok t)
    (hr : r ∈ Rule.survivors d.rules) (hc : c.Full t.families) (hh : r.condition.Holds c) :
    ∃ found, t.find? r.state r.event c.toList = some found ∧ found.state = r.state ∧
      found.event = r.event := by
  obtain ⟨found, hfound, same⟩ := exists_at?_of_holds h hr hc hh
  refine ⟨found, ?_, same⟩
  -- the values are looked up as this combination, where the event itself comes before its wildcard
  have families : t.families.Nodup := families_eq h ▸ Rule.nodup_mentionedFamilies _
  have snapshot : t.snapshot? c.toList = some c := by
    rw [DispatchTable.snapshot?_eq families, DispatchTable.known_toList hc, if_pos hc.spans]
  rw [DispatchTable.find?, snapshot, Option.bind_some, DispatchTable.lookup?, hfound,
    Option.some_or]

/-- The entries are rules that survive, filed under full keys where they apply. -/
theorem files_of_mem_entries (h : d.compile options = .ok t) {k : DispatchKey σ ε}
    (hentry : (k, r) ∈ t.entries) : r ∈ Rule.survivors d.rules ∧ t.Files k r := by
  have sound := (exists_compile_eq_ok_iff.1 ⟨t, h⟩).sound
  have leads : r ∈ Rule.survivors d.rules ∧
      Rule.leads options.overlap (Rule.survivors d.rules) k r = true := by
    obtain ⟨-, rfl⟩ := compile_eq_ok_iff.1 h
    obtain ⟨-, hfirst⟩ := Ruling.mem_entries_iff.1 hentry
    exact ⟨List.mem_of_find?_eq_some hfirst, List.find?_some hfirst⟩
  obtain ⟨hr, hlead⟩ := leads
  have full := Rule.full_of_leads sound hr hlead
  have covering : r ∈ Rule.covering (Rule.survivors d.rules) k.state k.event k.combination := by
    apply (OverlapPolicy.deciding_sublist options.overlap _ k.combination).subset
    rw [← Rule.filter_leads options.overlap sound full]
    exact List.mem_filter.2 ⟨hr, hlead⟩
  obtain ⟨-, hstate, hevent, hholds⟩ := Rule.mem_covering.1 covering
  rw [← families_eq h] at full
  exact ⟨hr, fun _ hf => full.existsUnique hf, fun v hv => ⟨full.listed v hv, full.family_mem hv⟩,
    hstate, hevent, hholds⟩

/-- A table has one entry for a key. -/
theorem nodup_keys_of_compile (h : d.compile options = .ok t) : (t.entries.map Prod.fst).Nodup := by
  obtain ⟨-, rfl⟩ := compile_eq_ok_iff.1 h
  exact (Ruling.nodup_key_all ..).sublist (Ruling.keys_entries_sublist _)

/-- A table that compiles is not empty. Every surviving rule covers some full combination, and for
some supplied values a rule for its state and its event is found. The entries have different keys,
each with one listed value of every family and no other value, and the rule at a key is a surviving
one that is for the key's state and event and holds of its values. -/
theorem no_rule_in_vain [Event ε] (h : d.compile options = .ok t) :
    t.isEmpty = false ∧
    (∀ r ∈ Rule.survivors d.rules,
      (∃ k, r.condition.coverage t.families = .ok k ∧ (∃ c, c ∈ k.combinations) ∧
        ∀ c ∈ k.combinations, c.Full t.families ∧ r.condition.Holds c) ∧
      ∃ values found, t.find? r.state r.event values = some found ∧ found.state = r.state ∧
        found.event = r.event) ∧
    (t.entries.map Prod.fst).Nodup ∧
    ∀ k r, (k, r) ∈ t.entries → r ∈ Rule.survivors d.rules ∧ t.Files k r := by
  refine ⟨?_, fun r hr => ⟨coverage_of_compile h hr, ?_⟩, nodup_keys_of_compile h,
    fun _ _ hentry => files_of_mem_entries h hentry⟩
  · have inhabited := (exists_compile_eq_ok_iff.1 ⟨t, h⟩).inhabited
    obtain ⟨r, hr⟩ := List.exists_mem_of_ne_nil _ (Rule.survivors_ne_nil inhabited)
    obtain ⟨c, hc, hh⟩ := exists_full_holds h hr
    obtain ⟨found, hfound, -⟩ := exists_at?_of_holds h hr hc hh
    have hkey := DispatchTable.isSome_at?_iff.1 (Option.isSome_iff_exists.2 ⟨found, hfound⟩)
    rw [DispatchTable.isEmpty, List.isEmpty_eq_false_iff]
    exact fun hnil => by simp [hnil] at hkey
  · obtain ⟨c, hc, hh⟩ := exists_full_holds h hr
    exact ⟨c.toList, exists_find?_of_holds h hr hc hh⟩

end Draft

/-- In the table of two rules for the coin a rule for the coin is found, and each entry is for
it. -/
theorem Turnstile.twofoldCoin_not_in_vain :
    ∃ t, twofoldCoin.compile {} = .ok t ∧ t.isEmpty = false ∧
      (∃ values found, t.find? .locked .coin values = some found ∧ found.event = .coin) ∧
      ∀ k r, (k, r) ∈ t.entries → k.state = .locked ∧ k.event = .coin := by
  obtain ⟨t, h⟩ := Draft.exists_compile_of_toBool (by rfl : (twofoldCoin.compile {}).toBool)
  obtain ⟨filled, found, -, filed⟩ := Draft.no_rule_in_vain h
  have survivors : Rule.survivors twofoldCoin.rules = twofoldCoin.rules :=
    Rule.survivors_eq_self (by decide)
  rw [survivors] at found filed
  have coin : ∀ r ∈ twofoldCoin.rules, r.state = .locked ∧ r.event = .coin := by decide
  refine ⟨t, h, filled, ?_, ?_⟩
  · obtain ⟨-, values, r, hr, -, event⟩ := found _ List.mem_cons_self
    exact ⟨values, r, hr, event⟩
  · intro k r hentry
    obtain ⟨hr, files⟩ := filed k r hentry
    obtain ⟨state, event⟩ := coin r hr
    exact ⟨files.state.symm.trans state, files.event.symm.trans event⟩

end TableMachine
