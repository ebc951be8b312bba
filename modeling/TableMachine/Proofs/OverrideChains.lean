import TableMachine.Proofs.Overriding
import TableMachine.Samples.Turnstile

/-!
# Chains of overriding rules

A super-state may override a rule that it inherits, and a definition that adopts it may override the
same rule once more. The rules of such a chain stand in this order in the draft, however deep the
inherited rule comes from (`StateDefinition.exists_chain`). An overriding rule replaces what is not
overriding itself, so the inherited rule goes, while of the two overriding rules neither makes the
other go.

**Main statements.** Every rule that is not overriding is replaced by a later overriding rule of its
key from elsewhere, overriding rules all survive, and so does every link of a chain but the first
(`Rule.plain_rule_replaced`).
-/

namespace TableMachine

variable {σ ε χ ω : Type}

/-! ## What comes with a super-state -/

/-- The rules that the templates give in a state. -/
def Template.stamped (templates : List (Template σ ε χ ω)) (state : σ) : List (Rule σ ε χ ω) :=
  templates.flatMap fun t => t.rulesIn state

theorem Template.stamped_append (before after : List (Template σ ε χ ω)) (state : σ) :
    stamped (before ++ after) state = stamped before state ++ stamped after state :=
  List.flatMap_append

namespace SuperState

/-- Every template that comes with a super-state, from whatever depth, is marked as the share of
one. -/
theorem isSome_group?_of_mem_collect (s : SuperState σ ε χ ω) :
    ∀ t ∈ s.collect fun s => s.ownSheet.templates, t.group?.isSome := by
  induction s using SuperState.induct with
  | mk group adopted blocks entry exit ih =>
    intro t ht
    rw [collect_eq] at ht
    rcases List.mem_append.1 ht with hadopted | hown
    · obtain ⟨s, hs, ht⟩ := List.mem_flatMap.1 hadopted
      exact ih s hs t ht
    · obtain ⟨_, -, rfl⟩ := List.mem_map.1 hown
      rfl

/-- So is every rule made from such a template. -/
theorem isSome_group?_of_mem_stamped {ss : List (SuperState σ ε χ ω)} {state : σ}
    {r : Rule σ ε χ ω} (hr : r ∈ Template.stamped (templatesOf ss) state) : r.group?.isSome := by
  obtain ⟨t, ht, hr⟩ := List.mem_flatMap.1 hr
  obtain ⟨event, -, rfl⟩ := List.mem_map.1 hr
  rw [templatesOf, collectAll_eq_flatMap] at ht
  obtain ⟨s, -, ht⟩ := List.mem_flatMap.1 ht
  exact isSome_group?_of_mem_collect s t ht

/-- The templates that come with some super-states contain those that one of them adopts, right
before its own. -/
theorem exists_templatesOf_eq {ss : List (SuperState σ ε χ ω)} {s : SuperState σ ε χ ω}
    (hs : s ∈ ss) :
    ∃ before after,
      templatesOf ss = before ++ (templatesOf s.adopted ++ s.ownSheet.templates) ++ after := by
  obtain ⟨before, after, rfl⟩ := List.append_of_mem hs
  refine ⟨templatesOf before, templatesOf after, ?_⟩
  simp only [templatesOf, collectAll_eq_flatMap, List.flatMap_append, List.flatMap_cons,
    List.append_assoc]
  rw [collect_eq, List.append_assoc]

end SuperState

namespace StateDefinition

variable {d : StateDefinition σ ε χ ω} {s : SuperState σ ε χ ω} {state : σ}

/-- In the draft of a definition there stand, in this order, a rule that a super-state inherits, a
rule of this super-state itself, and a rule of the definition itself, all for one state. -/
theorem exists_chain (hstate : state ∈ d.states) (hs : s ∈ d.adopted) {r o last : Rule σ ε χ ω}
    (hr : r ∈ Template.stamped (SuperState.templatesOf s.adopted) state)
    (ho : o ∈ Template.stamped s.ownSheet.templates state)
    (hlast : last ∈ Template.stamped d.ownSheet.templates state) :
    ∃ before middle rest after,
      d.draft.rules = before ++ r :: (middle ++ o :: (rest ++ last :: after)) := by
  obtain ⟨states, states', hstates⟩ := List.append_of_mem hstate
  obtain ⟨earlier, later, htemplates⟩ := SuperState.exists_templatesOf_eq hs
  obtain ⟨r₁, r₂, hr⟩ := List.append_of_mem hr
  obtain ⟨o₁, o₂, ho⟩ := List.append_of_mem ho
  obtain ⟨l₁, l₂, hlast⟩ := List.append_of_mem hlast
  have here : Template.stamped d.templates state =
      Template.stamped earlier state ++ (r₁ ++ r :: r₂ ++ (o₁ ++ o :: o₂)) ++
        Template.stamped later state ++ (l₁ ++ last :: l₂) := by
    rw [templates, htemplates]
    simp only [Template.stamped_append, hr, ho, hlast]
  have rules : d.draft.rules = states.flatMap (Template.stamped d.templates) ++
      (Template.stamped d.templates state ++ states'.flatMap (Template.stamped d.templates)) := by
    change d.states.flatMap (Template.stamped d.templates) = _
    rw [hstates, List.flatMap_append, List.flatMap_cons]
  refine ⟨states.flatMap (Template.stamped d.templates) ++ (Template.stamped earlier state ++ r₁),
    r₂ ++ o₁, o₂ ++ (Template.stamped later state ++ l₁),
    l₂ ++ states'.flatMap (Template.stamped d.templates), ?_⟩
  rw [rules, here]
  simp only [List.append_assoc, List.cons_append]

end StateDefinition

namespace Rule

variable [DecidableEq σ] [DecidableEq ε]

/-- Overriding rules survive in the order in which they are declared. -/
theorem pair_sublist_survivors {before middle after : List (Rule σ ε χ ω)} {o last : Rule σ ε χ ω}
    (ho : o.overriding = true) (hlast : last.overriding = true) :
    [o, last].Sublist (survivors (before ++ o :: (middle ++ last :: after))) := by
  have pair : [o, last].Sublist (before ++ o :: (middle ++ last :: after)) := by
    have later : last ∈ middle ++ last :: after := List.mem_append_right _ List.mem_cons_self
    exact ((List.singleton_sublist.2 later).cons_cons o).trans (List.sublist_append_right before _)
  have overriding := pair.filter Rule.overriding
  rw [List.filter_cons_of_pos ho, List.filter_cons_of_pos hlast, List.filter_nil,
    ← filter_overriding_survivors] at overriding
  exact overriding.trans List.filter_sublist

/-- A rule of a super-state that is not overriding is replaced by any later overriding rule of its
key from another group, and an overriding rule by none. So if a super-state overrides a rule that it
inherits and a definition adopting it overrides that rule again, the inherited rule is replaced, and
both overriding rules survive. -/
theorem plain_rule_replaced :
    (∀ (before middle after : List (Rule σ ε χ ω)) (r o : Rule σ ε χ ω),
      o.overriding = true → r.overriding = false → r.SameKey o → r.group?.isSome →
        r.group? ≠ o.group? →
        (survivors (before ++ r :: (middle ++ o :: after))).Sublist
          (before ++ (middle ++ o :: after))) ∧
    (∀ rules : List (Rule σ ε χ ω),
      (survivors rules).filter overriding = rules.filter overriding) ∧
    ∀ (d : StateDefinition σ ε χ ω) (s : SuperState σ ε χ ω) (state : σ) (r o last : Rule σ ε χ ω),
      state ∈ d.states → s ∈ d.adopted →
        r ∈ Template.stamped (SuperState.templatesOf s.adopted) state → r.overriding = false →
        o ∈ Template.stamped s.ownSheet.templates state → o.overriding = true →
        r.SameKey o → r.group? ≠ o.group? →
        last ∈ Template.stamped d.ownSheet.templates state → last.overriding = true →
        ∃ before after, d.draft.rules = before ++ r :: after ∧
          (survivors d.draft.rules).Sublist (before ++ after) ∧
          [o, last].Sublist (survivors d.draft.rules) := by
  refine ⟨?_, filter_overriding_survivors, ?_⟩
  · intro before middle after r o ho hr hkey hgroup hother
    have replaces : o.Replaces r := ⟨ho, by simp [hr], hgroup, hother, hkey⟩
    exact survivors_sublist_of_replaced (List.mem_append_right _ List.mem_cons_self) replaces
  · intro d s state r o last hstate hs hr hplain ho hov hkey hother hlast hlov
    have hgroup := SuperState.isSome_group?_of_mem_stamped hr
    have replaces : o.Replaces r := ⟨hov, by simp [hplain], hgroup, hother, hkey⟩
    obtain ⟨before, middle, rest, after, hrules⟩ :=
      StateDefinition.exists_chain hstate hs hr ho hlast
    refine ⟨before, middle ++ o :: (rest ++ last :: after), hrules, ?_, ?_⟩
    · rw [hrules]
      exact survivors_sublist_of_replaced (List.mem_append_right _ List.mem_cons_self) replaces
    · have regrouped : d.draft.rules = (before ++ r :: middle) ++ o :: (rest ++ last :: after) := by
        rw [hrules, List.append_assoc, List.cons_append]
      rw [regrouped]
      exact pair_sublist_survivors hov hlov

end Rule

namespace Turnstile

/-- A coin unlocks the turnstile, as the share of a super-state. -/
def paid : Rule Gate Input Unit Notes where
  state := .locked
  event := .coin
  next := .unlocked
  location := here 21
  group? := some 1

/-- A super-state that adopts the former one has the coin sound the alarm instead. -/
def alarmed : Rule Gate Input Unit Notes :=
  { paid with next := .alarming, location := here 22, group? := some 2, overriding := true }

/-- The turnstile itself breaks. -/
def jammed : Rule Gate Input Unit Notes :=
  { alarmed with next := .broken, location := here 23, group? := none }

/-- The locked turnstile with these three rules. -/
def jamming : StateDefinition Gate Input Unit Notes where
  states := [.locked]
  adopted := [
    .mk 2
      [.mk 1 []
        [.transition { events := [.coin], next? := some .unlocked, location := here 21 }] [] []]
      [.transition {
        events := [.coin], next? := some .alarming, location := here 22,
        overriding := true }] [] []]
  blocks := [
    .transition {
      events := [.coin], next? := some .broken, location := here 23, overriding := true }]
  location := here 24

/-- The coin that is paid is overridden twice, and both overriding rules survive. -/
theorem paid_replaced :
    (Rule.survivors [paid, alarmed, jammed]).Sublist [alarmed, jammed] ∧
      ∃ before after, jamming.draft.rules = before ++ paid :: after ∧
        (Rule.survivors jamming.draft.rules).Sublist (before ++ after) ∧
        [alarmed, jammed].Sublist (Rule.survivors jamming.draft.rules) := by
  obtain ⟨replaced, -, chain⟩ :=
    Rule.plain_rule_replaced (σ := Gate) (ε := Input) (χ := Unit) (ω := Notes)
  refine ⟨replaced [] [alarmed] [] paid jammed rfl rfl (by decide) rfl (by decide), ?_⟩
  exact chain jamming _ .locked paid alarmed jammed List.mem_cons_self List.mem_cons_self
    List.mem_cons_self rfl List.mem_cons_self rfl (by decide) (by decide) List.mem_cons_self rfl

/-- The alarm is not replaced, although it is the share of a super-state and the turnstile's own
rule overrides what a coin does. So an overriding rule need not replace an earlier rule of its key
from another group, and the last of several is not the only one that remains. -/
theorem alarmed_survives :
    Rule.survivors jamming.draft.rules = [alarmed, jammed] ∧
      ¬∀ (before middle after : List (Rule Gate Input Unit Notes))
          (r o : Rule Gate Input Unit Notes),
        o.overriding = true → r.SameKey o → r.group?.isSome → r.group? ≠ o.group? →
          (Rule.survivors (before ++ r :: (middle ++ o :: after))).Sublist
            (before ++ (middle ++ o :: after)) := by
  refine ⟨rfl, fun h => ?_⟩
  have replaced := h [paid] [] [] alarmed jammed rfl (by decide) rfl (by decide)
  have places := replaced.map Rule.location
  revert places
  decide

end Turnstile

end TableMachine
