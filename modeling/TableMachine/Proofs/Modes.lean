import TableMachine.Proofs.Handling
import TableMachine.Samples.Turnstile

/-!
# With and without an environment

An action that is no effect takes no notice of the mode in which it is run, and so neither does a
chain without effects (`Action.runChain_eq_of_plain`). A chain with an effect is refused without an
environment before any of it is run. So it makes no difference for an event whether it is handled at
once or asynchronously, unless an effect is planned for it.

**Main statements.** Without effects the two modes come to the same, with an effect nothing is run
at once, and an action that was run at once was no effect (`Machine.modes_agree`).
-/

namespace TableMachine

variable {σ ε χ ω : Type}

/-! ## Actions -/

namespace Action

variable {event : ε}

theorem run_eq_of_plain {action : Action ε χ ω} (h : action.isEffect = false) (mode mode' : Mode χ)
    (w : ω) : action.run mode event w = action.run mode' event w := by
  cases action with
  | plain step => rfl
  | effect step => exact Bool.noConfusion h

/-- A chain without effects comes to the same in all modes. -/
theorem runChain_eq_of_plain {chain : List (Action ε χ ω)} (h : ∀ a ∈ chain, a.isEffect = false)
    (mode mode' : Mode χ) (w : ω) :
    runChain mode event chain w = runChain mode' event chain w := by
  induction chain generalizing w with
  | nil => rfl
  | cons action rest ih =>
    rw [runChain, runChain, run_eq_of_plain (h action List.mem_cons_self) mode mode']
    split
    · exact ih (fun a ha => h a (List.mem_cons_of_mem action ha)) _
    · rfl

/-- An action that fails for want of an environment although it is no effect says so itself. -/
theorem exists_plain_of_run {action : Action ε χ ω} (h : action.isEffect = false) {mode : Mode χ}
    {w : ω} {attempt : Attempt ω} (hrun : action.run mode event w = attempt) :
    ∃ step, action = .plain step ∧ step event w = attempt := by
  cases action with
  | plain step => exact ⟨step, rfl, hrun⟩
  | effect step => exact Bool.noConfusion h

end Action

namespace Machine

variable [DecidableEq σ] [DecidableEq ε] [State σ] [Event ε]

/-! ## Dispatch -/

omit [DecidableEq ε] in
/-- It makes no difference in which mode a rule is executed whose chain has no effect. -/
theorem execute_eq_of_plain {m : Machine σ ε χ ω} {t : DispatchTable σ ε χ ω} {rule : Rule σ ε χ ω}
    (plain : ∀ a ∈ t.chain m.state rule, a.isEffect = false) (mode mode' : Mode χ) (event : ε)
    (w : ω) :
    m.execute t rule mode event w = m.execute t rule mode' event w := by
  have permitted (mode : Mode χ) : mode.Permits (t.chain m.state rule) :=
    Mode.permits_iff.2 fun _ => plain
  unfold execute
  dsimp only
  rw [if_pos (permitted mode), if_pos (permitted mode'),
    Action.runChain_eq_of_plain plain mode mode']

/-- If no effect is planned for an event, it makes no difference in which mode the event is
handled. -/
theorem dispatch_eq_of_plain {m : Machine σ ε χ ω} {event : ε} {values : List Value} {w : ω}
    (plain : ∀ t rule w₁, m.Selects event values t rule → rule.Answers w true w₁ →
      ∀ a ∈ t.chain m.state rule, a.isEffect = false) (mode mode' : Mode χ) :
    m.dispatch mode event values w = m.dispatch mode' event values w := by
  unfold dispatch
  split
  · rfl
  · next t built =>
    split
    · rfl
    · next rule found =>
      split
      · next w₁ hask =>
        have agreed := Rule.canExecute_eq_iff.1 hask
        exact execute_eq_of_plain (plain t rule w₁ ⟨built, found⟩ agreed) mode mode' event w₁
      · rfl

/-- The actions planned for an event are those of the rule that is found and, if it changes the
state, those of leaving and of entering. If none of them is an effect, or none is planned at all, to
handle the event at once is to handle it asynchronously, in whatever environment: both give the same
answer and leave the same machine and world. If one of them is an effect, to handle the event at
once is refused right after the rule was asked, with machine and world as they were then. And if it
does fail for want of an environment, then because an action that is no effect has said so. -/
theorem modes_agree (m : Machine σ ε χ ω) (event : ε) (values : List Value) (w : ω) :
    (∀ (t : DispatchTable σ ε χ ω) rule a, a ∈ t.chain m.state rule ↔
      a ∈ rule.actions ∨ rule.next ≠ m.state ∧
        (a ∈ t.exitActions m.state ∨ a ∈ t.entryActions rule.next)) ∧
    ((∀ t rule w₁, m.Selects event values t rule → rule.Answers w true w₁ →
        ∀ a ∈ t.chain m.state rule, a.isEffect = false) →
      ∀ environment, m.send event values w = m.sendAsync environment event values w) ∧
    (∀ t rule w₁, m.Selects event values t rule → rule.Answers w true w₁ →
      (∃ a ∈ t.chain m.state rule, a.isEffect = true) →
      m.send event values w = ⟨.error (.effectInSync m.state event), m, w₁⟩) ∧
    ∀ state e, (m.send event values w).answer = .error (.actionFailed state e .requiresAsync) →
      ∃ t rule w₁ before step after w₂ w₃, m.Selects event values t rule ∧
        rule.Answers w true w₁ ∧ t.chain m.state rule = before ++ .plain step :: after ∧
        Action.Succeed .sync event before w₁ w₂ ∧ step event w₂ = (.error .requiresAsync, w₃) := by
  refine ⟨?_, ?_, ?_, ?_⟩
  · intro t rule a
    exact DispatchTable.mem_chain_iff
  · intro plain environment
    exact dispatch_eq_of_plain plain .sync (.async environment)
  · rintro t rule w₁ selected agreed ⟨a, planned, effect⟩
    exact dispatch_eq_iff.2 (.effectInSync selected agreed rfl planned effect)
  · intro state e failure
    generalize hreply : m.send event values w = reply at failure
    cases dispatch_eq_iff.1 hreply with
    | notBuilt | effectInSync => simp at failure
    | notFound | notExecuted | executed => simp at failure
    | @actionFailed t rule w₁ w₂ w₃ before after action cause selected agreed permitted split
        succeeded failed =>
      obtain ⟨-, -, rfl⟩ := MachineError.actionFailed.inj (Except.error.inj failure)
      have plain := permitted rfl action (split ▸ List.mem_append_right _ List.mem_cons_self)
      obtain ⟨step, rfl, hstep⟩ := Action.exists_plain_of_run plain failed
      exact ⟨t, rule, w₁, before, step, after, w₂, w₃, selected, agreed, split, succeeded, hstep⟩

end Machine

namespace Turnstile

/-- A turnstile that rings when it unlocks. A reset is noted, and a kick pretends to need an
environment. -/
def ringing : Machine Gate Input Unit Notes :=
  ((Machine.start .locked {}).build
    { rules := [
        { state := .locked, event := .coin, next := .unlocked, actions := [note "count"],
          location := here 47 },
        { state := .locked, event := .reset, next := .locked, actions := [note "reset"],
          location := here 48 },
        { state := .locked, event := .kick, next := .broken,
          actions := [.plain fun _ w => (.error .requiresAsync, w ++ ["kick"])],
          location := here 49 }]
      entry := [(.unlocked, [note "unlock", .effect fun _ _ w => (.ok (), w ++ ["ring"])])] }
    (here 50) []).machine

/-- A coin is refused at once and nothing is noted, a reset comes to the same in both modes, and a
kick that fails for want of an environment has said so itself. -/
theorem ringing_modes :
    ringing.send .coin [] [] = ⟨.error (.effectInSync .locked .coin), ringing, []⟩ ∧
      ringing.send .reset [] [] = ringing.sendAsync () .reset [] [] ∧
      (ringing.send .kick [] []).answer = .error (.actionFailed .locked .kick .requiresAsync) ∧
      ∃ t rule step, ringing.Selects .kick [] t rule ∧ .plain step ∈ t.chain .locked rule ∧
        ∃ w w', step .kick w = (.error .requiresAsync, w') := by
  obtain ⟨-, -, refused, -⟩ := Machine.modes_agree ringing .coin [] []
  obtain ⟨-, agree, -, -⟩ := Machine.modes_agree ringing .reset [] []
  obtain ⟨-, -, -, said⟩ := Machine.modes_agree ringing .kick [] []
  refine ⟨?_, agree ?_ (), rfl, ?_⟩
  · obtain ⟨t, rule, step, selected, free, chain⟩ : ∃ t rule step, ringing.Selects .coin [] t rule ∧
        rule.guard? = none ∧ t.chain .locked rule = [note "count", note "unlock", .effect step] :=
      ⟨_, _, _, ⟨rfl, rfl⟩, rfl, rfl⟩
    refine refused t rule [] selected (.unguarded free) ⟨.effect step, ?_, rfl⟩
    exact chain ▸ by simp
  · intro t rule w₁ selected _ a ha
    obtain ⟨t', rule', selected', chain⟩ : ∃ t' rule', ringing.Selects .reset [] t' rule' ∧
        t'.chain .locked rule' = [note "reset"] :=
      ⟨_, _, ⟨rfl, rfl⟩, rfl⟩
    obtain rfl := Option.some.inj (selected'.1.symm.trans selected.1)
    obtain rfl := Option.some.inj (selected'.2.symm.trans selected.2)
    obtain rfl := List.mem_singleton.1 (chain ▸ ha)
    rfl
  · obtain ⟨t, rule, w₁, before, step, after, w₂, w₃, selected, -, split, -, hstep⟩ :=
      said .locked .kick rfl
    refine ⟨t, rule, step, selected, ?_, w₂, w₃, hstep⟩
    exact split ▸ List.mem_append_right _ List.mem_cons_self

end Turnstile

end TableMachine
