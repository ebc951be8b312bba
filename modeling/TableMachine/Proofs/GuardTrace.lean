import TableMachine.Proofs.Calls
import TableMachine.Proofs.Outcome
import TableMachine.Samples.Turnstile

/-!
# Which guards are asked

How often a guard is asked can be seen only in the world. A *trace* is something in the world to
which each guard adds an entry for its rule when it is asked, and which nothing else changes
(`Rule.Traced`). To handle an event adds one entry if the rule found has a guard, and else none,
whatever was answered before (`Machine.trace_dispatch`). So a run adds one entry for every guarded
rule that it finds, in order (`Machine.trace_run`).
-/

namespace TableMachine

variable {σ ε χ ω τ : Type}

/-! ## Traces -/

/-- Running the action leaves the trace as it is. -/
def Action.Silent (trace : ω → List τ) (action : Action ε χ ω) : Prop :=
  ∀ mode event w, trace (action.run mode event w).2 = trace w

/-- No message changes the trace. -/
def Sink.Silent (trace : ω → List τ) (sink : Sink ω) : Prop :=
  ∀ message w, trace (sink.warning message w) = trace w ∧ trace (sink.info message w) = trace w ∧
    trace (sink.debug message w) = trace w

/-- The guards of the rules add the tags of their rules to the trace, and no action of the rules or
of the hooks changes it. -/
structure Rule.Traced (tag : Rule σ ε χ ω → τ) (trace : ω → List τ) (rules : List (Rule σ ε χ ω))
    (entry exit : Hooks σ ε χ ω) : Prop where
  /-- A guard that is asked adds one tag. -/
  guards : ∀ rule ∈ rules, ∀ guard, rule.guard? = some guard →
    ∀ w, trace (guard.check w).2 = trace w ++ [tag rule]
  /-- The actions of the rules are silent. -/
  actions : ∀ rule ∈ rules, ∀ action ∈ rule.actions, action.Silent trace
  /-- The actions on entry are silent. -/
  entry : ∀ hook ∈ entry, ∀ action ∈ hook.2, action.Silent trace
  /-- The actions on exit are silent. -/
  exit : ∀ hook ∈ exit, ∀ action ∈ hook.2, action.Silent trace

/-- Only the guards of the table's rules change the trace. -/
def DispatchTable.Traced (tag : Rule σ ε χ ω → τ) (trace : ω → List τ)
    (t : DispatchTable σ ε χ ω) : Prop :=
  Rule.Traced tag trace (t.entries.map Prod.snd) t.entry t.exit

/-- Only the guards of the rules in the machine's table change the trace. -/
structure Machine.Traced (tag : Rule σ ε χ ω → τ) (trace : ω → List τ)
    (m : Machine σ ε χ ω) : Prop where
  /-- The table, if there is one, is traced. -/
  table : ∀ t, m.table? = some t → t.Traced tag trace
  /-- The sink is silent. -/
  sink : m.config.sink.Silent trace

/-- If the call is to build a table, only the guards of the rules in the draft change the trace. -/
def Call.Traced (tag : Rule σ ε χ ω → τ) (trace : ω → List τ) : Call σ ε χ ω → Prop
  | .build draft _ => Rule.Traced tag trace draft.rules draft.entry draft.exit
  | .dispatch .. => True

variable {tag : Rule σ ε χ ω → τ} {trace : ω → List τ}

/-- Of traced rules, fewer are traced too. -/
theorem Rule.Traced.mono {rules rules' : List (Rule σ ε χ ω)} {entry exit : Hooks σ ε χ ω}
    (h : Rule.Traced tag trace rules entry exit) (hsub : rules' ⊆ rules) :
    Rule.Traced tag trace rules' entry exit where
  guards rule hrule := h.guards rule (hsub hrule)
  actions rule hrule := h.actions rule (hsub hrule)
  entry := h.entry
  exit := h.exit

/-! ## What changes a trace -/

theorem Action.Silent.trace_eq {action : Action ε χ ω} (h : action.Silent trace) {mode : Mode χ}
    {event : ε} {w w' : ω} {result : Except ActionError Unit}
    (hrun : action.run mode event w = (result, w')) : trace w' = trace w := by
  have kept := h mode event w
  rwa [hrun] at kept

/-- Silent actions that succeed leave the trace as it is. -/
theorem Action.Succeed.trace_eq {mode : Mode χ} {event : ε} {chain : List (Action ε χ ω)} {w w' : ω}
    (h : Succeed mode event chain w w') (silent : ∀ action ∈ chain, action.Silent trace) :
    trace w' = trace w := by
  induction h with
  | nil => rfl
  | cons first _ ih =>
    rw [ih fun action haction => silent action (List.mem_cons_of_mem _ haction),
      (silent _ List.mem_cons_self).trace_eq first]

/-- Asking a rule adds its tag to the trace if it has a guard, and nothing else. -/
theorem Rule.Answers.trace_eq {r : Rule σ ε χ ω} {w w' : ω} {answer : Bool}
    (h : r.Answers w answer w') (guards : ∀ guard, r.guard? = some guard →
      ∀ w, trace (guard.check w).2 = trace w ++ [tag r]) :
    trace w' = trace w ++ if r.isConditional then [tag r] else [] := by
  unfold Rule.isConditional
  rcases h with hfree | ⟨hbound, hasked⟩
  · simp [hfree]
  · have asked := guards _ hbound w
    rw [hasked] at asked
    rw [asked, hbound]
    rfl

variable [DecidableEq σ] [DecidableEq ε]

omit [DecidableEq ε] in
/-- What executing a rule of a traced table runs is silent. -/
theorem DispatchTable.Traced.chain_silent {t : DispatchTable σ ε χ ω} (h : t.Traced tag trace)
    {rule : Rule σ ε χ ω} (hrule : rule ∈ t.entries.map Prod.snd) (state : σ) :
    ∀ action ∈ t.chain state rule, action.Silent trace := by
  intro action haction
  rcases DispatchTable.mem_chain haction with hown | ⟨hook, hhook, hmem⟩ | ⟨hook, hhook, hmem⟩
  · exact h.actions rule hrule action hown
  · exact h.exit hook hhook action hmem
  · exact h.entry hook hhook action hmem

/-- The table of a traced draft is traced. -/
theorem Draft.traced_of_compile {d : Draft σ ε χ ω} {options : CompileOptions}
    {t : DispatchTable σ ε χ ω} (h : d.compile options = .ok t)
    (hd : Rule.Traced tag trace d.rules d.entry d.exit) : t.Traced tag trace := by
  obtain ⟨hrules, hentry, hexit⟩ := subset_of_compile h
  rw [DispatchTable.Traced, hentry, hexit]
  exact hd.mono hrules

namespace Machine

variable [State σ] [Event ε] {m : Machine σ ε χ ω}

/-! ## Dispatch -/

/-- The rule found for an event, if it has a guard. -/
def guarded? (m : Machine σ ε χ ω) (event : ε) (values : List Value) : Option (Rule σ ε χ ω) :=
  (m.table?.bind fun t => t.find? m.state event values).filter Rule.isConditional

/-- To handle an event asks the guard of the rule found once, if it has one, and no other guard. -/
theorem trace_dispatch (h : m.Traced tag trace) (mode : Mode χ) (event : ε) (values : List Value)
    (w : ω) :
    trace (m.dispatch mode event values w).world =
      trace w ++ ((m.guarded? event values).map tag).toList := by
  -- what was asked once a rule is selected
  have asked : ∀ {t rule answer w₁}, m.Selects event values t rule → rule.Answers w answer w₁ →
      trace w₁ = trace w ++ ((m.guarded? event values).map tag).toList := by
    intro t rule answer w₁ selected answers
    have hrule := DispatchTable.mem_of_find? selected.2
    rw [answers.trace_eq ((h.table t selected.1).guards rule hrule), guarded?, selected.1,
      Option.bind_some, selected.2]
    cases hguard : rule.isConditional <;> simp [Option.filter, hguard]
  have silent : ∀ {t rule}, m.Selects event values t rule →
      ∀ action ∈ t.chain m.state rule, action.Silent trace := by
    intro t rule selected
    exact (h.table t selected.1).chain_silent (DispatchTable.mem_of_find? selected.2) m.state
  generalize hreply : m.dispatch mode event values w = reply
  cases dispatch_eq_iff.1 hreply with
  | notBuilt bare => simp [guarded?, bare]
  | notFound built missing => simp [guarded?, built, missing, (h.sink _ w).1]
  | notExecuted selected refused => exact (h.sink _ _).2.1.trans (asked selected refused)
  | effectInSync selected agreed => exact asked selected agreed
  | actionFailed selected agreed permitted split succeeded failed =>
    have silent := silent selected
    rw [split] at silent
    rw [← asked selected agreed,
      ← succeeded.trace_eq fun action haction => silent action (List.mem_append_left _ haction)]
    exact (silent _ (List.mem_append_right _ List.mem_cons_self)).trace_eq failed
  | executed selected agreed permitted succeeded =>
    rw [← asked selected agreed, ← succeeded.trace_eq (silent selected)]
    exact (h.sink _ _).2.1

/-! ## Runs -/

/-- The guarded rule that a call finds, if it is to handle an event. -/
def asks? (m : Machine σ ε χ ω) : Call σ ε χ ω → Option (Rule σ ε χ ω)
  | .build .. => none
  | .dispatch _ event values => m.guarded? event values

/-- The guarded rules that the calls of a run find one after another. -/
def asked (m : Machine σ ε χ ω) : List (Call σ ε χ ω) → ω → List (Rule σ ε χ ω)
  | [], _ => []
  | c :: rest, w => (m.asks? c).toList ++ (m.call c w).machine.asked rest (m.call c w).world

theorem trace_call (h : m.Traced tag trace) (c : Call σ ε χ ω) (w : ω) :
    trace (m.call c w).world = trace w ++ ((m.asks? c).map tag).toList := by
  cases c with
  | build d location =>
    have kept := build_keeps (fun message w => (h.sink message w).1)
      (fun message w => (h.sink message w).2.2) d location w
    exact kept.trans (List.append_nil _).symm
  | dispatch mode event values => exact trace_dispatch h mode event values w

omit [State σ] in
/-- A traced call leaves a traced machine. -/
theorem Advance.traced {m' : Machine σ ε χ ω} {c : Call σ ε χ ω}
    {answer : Except (MachineError σ ε) (Success σ ε)} (step : m.Advance c answer m')
    (hc : c.Traced tag trace) (h : m.Traced tag trace) : m'.Traced tag trace := by
  cases step with
  | stay => exact h
  | install t bare compiled =>
    refine ⟨fun t' ht' => ?_, h.sink⟩
    obtain rfl : t = t' := Option.some.inj ht'
    exact Draft.traced_of_compile compiled hc
  | move => exact ⟨h.table, h.sink⟩

/-- A run of traced calls leaves a traced machine. -/
theorem Traced.run (h : m.Traced tag trace) {calls : List (Call σ ε χ ω)}
    (hcalls : ∀ c ∈ calls, c.Traced tag trace) (w : ω) : (m.run calls w).2.1.Traced tag trace :=
  run_preserves (fun _ _ _ c hc step => step.traced (hcalls c hc)) h w

/-- A run asks just the guards of the rules that its calls find, each once for every time that its
rule is found. -/
theorem trace_run (h : m.Traced tag trace) {calls : List (Call σ ε χ ω)}
    (hcalls : ∀ c ∈ calls, c.Traced tag trace) (w : ω) :
    trace (m.run calls w).2.2 = trace w ++ (m.asked calls w).map tag := by
  induction calls generalizing m w with
  | nil => exact (List.append_nil _).symm
  | cons c rest ih =>
    have next := (advance_call m c w).traced (hcalls c List.mem_cons_self) h
    change trace ((m.call c w).machine.run rest (m.call c w).world).2.2 = _
    rw [ih next (fun c hc => hcalls c (List.mem_cons_of_mem _ hc)), trace_call h, asked,
      List.map_append, List.append_assoc, Option.toList_map]

/-- To handle an event has the outcome whose case applies, and no other. Table, place and
configuration stay, and only an executed transition changes the machine at all. Whatever was called
before, the guard of the rule found is asked once, and no other guard is. -/
theorem dispatch_all_or_nothing (m : Machine σ ε χ ω) (mode : Mode χ) (event : ε)
    (values : List Value) (w : ω) :
    (∀ reply, m.dispatch mode event values w = reply ↔ m.Handles mode event values w reply) ∧
    (m.dispatch mode event values w).machine.table? = m.table? ∧
    (m.dispatch mode event values w).machine.builtAt? = m.builtAt? ∧
    (m.dispatch mode event values w).machine.config = m.config ∧
    ((∀ outcome, (m.dispatch mode event values w).answer = .ok outcome →
        outcome.isExecuted = false) →
      (m.dispatch mode event values w).machine = m) ∧
    ∀ (tag : Rule σ ε χ ω → τ) (trace : ω → List τ), m.Traced tag trace →
      ∀ earlier : List (Call σ ε χ ω), (∀ c ∈ earlier, c.Traced tag trace) →
        trace (m.run earlier w).2.2 = trace w ++ (m.asked earlier w).map tag ∧
        trace ((m.run earlier w).2.1.dispatch mode event values (m.run earlier w).2.2).world =
          trace (m.run earlier w).2.2 ++
            (((m.run earlier w).2.1.guarded? event values).map tag).toList := by
  obtain ⟨table, place, config⟩ := dispatch_keeps m mode event values w
  refine ⟨fun reply => dispatch_eq_iff, table, place, config, dispatch_unchanged, ?_⟩
  intro tag trace h earlier hearlier
  exact ⟨trace_run h hearlier w, trace_dispatch (h.run hearlier w) mode event values _⟩

end Machine

namespace Turnstile

/-- A slot that takes no coin but the first, and notes that it was asked. -/
def slot : Guard Notes where
  check w := (w.isEmpty, w ++ ["asked"])

/-- The arms cannot be turned. -/
def jam : Action Input Unit Notes :=
  .plain fun _ w => (.error (.failed "stuck"), w ++ ["jammed"])

/-- A coin that the slot takes is to turn the arms. -/
def slotRule : Rule Gate Input Unit Notes where
  state := .locked
  event := .coin
  next := .unlocked
  guard? := some slot
  actions := [note "turned", jam]
  location := here 16

/-- A turnstile that has such a slot, and jams on turning. -/
def slotted : Draft Gate Input Unit Notes :=
  .ofRules [slotRule]

/-- Its machine, once the table is built. -/
def slottedGate : Machine Gate Input Unit Notes :=
  ((Machine.start .locked {}).run [.build slotted (here 17)] []).2.1

theorem slottedGate_selects : ∃ t, slottedGate.Selects .coin [] t slotRule ∧
    t.chain .locked slotRule = [note "turned", jam] :=
  ⟨_, ⟨rfl, rfl⟩, rfl⟩

/-- The table is built, and a coin is put in. -/
def firstCoin : List (Call Gate Input Unit Notes) :=
  [.build slotted (here 17), .dispatch .sync .coin []]

/-- What the slot has noted. -/
def askings (w : Notes) : List String :=
  w.filter (· = "asked")

theorem firstCoin_traced : ∀ c ∈ firstCoin, c.Traced (fun _ => "asked") askings := by
  unfold firstCoin
  rw [List.forall_mem_cons, List.forall_mem_singleton]
  refine ⟨⟨?_, ?_, fun _ h => absurd h List.not_mem_nil,
    fun _ h => absurd h List.not_mem_nil⟩, trivial⟩
  · intro rule hrule guard hguard w
    obtain rfl := List.mem_singleton.1 hrule
    obtain rfl := Option.some.inj hguard
    exact List.filter_append w ["asked"]
  · intro rule hrule action haction mode event w
    obtain rfl := List.mem_singleton.1 hrule
    have unheard : ∀ text : String, text ≠ "asked" → askings (w ++ [text]) = askings w := by
      intro text other
      simp [askings, List.filter_append, other]
    rcases List.mem_pair.1 haction with rfl | rfl
    · exact unheard "turned" (by decide)
    · exact unheard "jammed" (by decide)

/-- The first coin is taken, but the arms jam, so that nothing is executed; the second is refused.
The slot was asked about each of them. -/
theorem slot_asked_twice :
    slottedGate.dispatch .sync .coin [] [] =
      ⟨.error (.actionFailed .locked .coin (.failed "stuck")), slottedGate,
        ["asked", "turned", "jammed"]⟩ ∧
    slottedGate.dispatch .sync .coin [] ["asked", "turned", "jammed"] =
      ⟨.ok (.notExecuted slotRule.summary), slottedGate, ["asked", "turned", "jammed", "asked"]⟩ ∧
    askings ((slottedGate.dispatch .sync .coin [] ["asked", "turned", "jammed"]).world) =
      ["asked", "asked"] := by
  obtain ⟨t, selected, chain⟩ := slottedGate_selects
  obtain ⟨first, -⟩ :=
    Machine.dispatch_all_or_nothing (τ := String) slottedGate .sync Input.coin [] []
  obtain ⟨second, -⟩ := Machine.dispatch_all_or_nothing (τ := String) slottedGate .sync
    Input.coin [] ["asked", "turned", "jammed"]
  have plain : ∀ action ∈ t.chain .locked slotRule, action.isEffect = false := by
    rw [chain, List.forall_mem_cons, List.forall_mem_singleton]
    exact ⟨rfl, rfl⟩
  have split : t.chain .locked slotRule = [note "turned"] ++ jam :: [] := chain
  have jammed := (first _).2 <|
    .actionFailed selected (.guarded rfl rfl) (fun _ => plain) split (.cons rfl (.nil _)) rfl
  have refused := (second _).2 (.notExecuted selected (.guarded rfl rfl))
  refine ⟨jammed, refused, ?_⟩
  -- the slot is asked about the first coin, and asked again about the second
  have bare : (Machine.start .locked {} : Machine Gate Input Unit Notes).Traced (fun _ => "asked")
      askings :=
    ⟨fun _ h => absurd h (Option.not_mem_none _), fun _ _ => ⟨rfl, rfl, rfl⟩⟩
  obtain ⟨-, -, -, -, -, traced⟩ :=
    Machine.dispatch_all_or_nothing (Machine.start Gate.locked {}) .sync Input.coin [] []
  obtain ⟨-, again⟩ := traced (fun _ => "asked") askings bare firstCoin firstCoin_traced
  have afterwards : (Machine.start .locked {}).run firstCoin [] =
      ([.ok .built, .error (.actionFailed .locked .coin (.failed "stuck"))], slottedGate,
        ["asked", "turned", "jammed"]) := rfl
  rw [afterwards] at again
  refine again.trans ?_
  decide +kernel

end Turnstile

end TableMachine
