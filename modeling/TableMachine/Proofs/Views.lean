import TableMachine.Proofs.Calls
import TableMachine.Proofs.Outcome

/-!
# What is noticed of the world

A *view* is what guards, actions and the clock notice of the world. In two worlds of one view they
do the same, and leave worlds of one view. Messages are not noticed: a sink leaves the view as it
is.

**Main statements.** In two worlds of one view a call gives one answer and leaves one machine, in
worlds of one view again (`Machine.seen_call`). Calls install only tables whose rules and hooks
notice no more than those of the drafts (`Machine.Advance.respects`).
-/

namespace TableMachine

variable {σ ε χ ω τ α : Type}

/-! ## Views -/

/-- The guard gives the same answer in worlds of one view, and leaves worlds of one view. -/
def Guard.Respects (view : ω → τ) (guard : Guard ω) : Prop :=
  ∀ w v, view w = view v → (guard.check w).map id view = (guard.check v).map id view

/-- The action comes to the same in worlds of one view, and leaves worlds of one view. -/
def Action.Respects (view : ω → τ) (action : Action ε χ ω) : Prop :=
  ∀ mode event w v, view w = view v →
    (action.run mode event w).map id view = (action.run mode event v).map id view

/-- The time can be told from the view, and messages do not change it. -/
structure Config.Respects (view : ω → τ) (config : Config ω) : Prop where
  /-- The clock shows the same in worlds of one view. -/
  clock : ∀ w v, view w = view v → config.clock w = config.clock v
  /-- Warnings are not noticed. -/
  warning : ∀ message w, view (config.sink.warning message w) = view w
  /-- Information is not noticed. -/
  info : ∀ message w, view (config.sink.info message w) = view w
  /-- Explanations are not noticed. -/
  debug : ∀ message w, view (config.sink.debug message w) = view w

/-- The guards and actions of the rules, and the actions of the hooks, notice only the view. -/
structure Rule.Respect (view : ω → τ) (rules : List (Rule σ ε χ ω)) (entry exit : Hooks σ ε χ ω) :
    Prop where
  /-- The guards of the rules do. -/
  guards : ∀ rule ∈ rules, ∀ guard, rule.guard? = some guard → guard.Respects view
  /-- The actions of the rules do. -/
  actions : ∀ rule ∈ rules, ∀ action ∈ rule.actions, action.Respects view
  /-- The actions on entry do. -/
  entry : ∀ hook ∈ entry, ∀ action ∈ hook.2, action.Respects view
  /-- The actions on exit do. -/
  exit : ∀ hook ∈ exit, ∀ action ∈ hook.2, action.Respects view

/-- What the table consists of notices only the view. -/
def DispatchTable.Respects (view : ω → τ) (t : DispatchTable σ ε χ ω) : Prop :=
  Rule.Respect view (t.entries.map Prod.snd) t.entry t.exit

/-- What the machine works with notices only the view. -/
structure Machine.Respects (view : ω → τ) (m : Machine σ ε χ ω) : Prop where
  /-- The table does, if there is one. -/
  table : ∀ t, m.table? = some t → t.Respects view
  /-- Clock and sink do. -/
  config : m.config.Respects view

/-- If the call is to build a table, what the draft consists of notices only the view. -/
def Call.Respects (view : ω → τ) : Call σ ε χ ω → Prop
  | .build draft _ => Rule.Respect view draft.rules draft.entry draft.exit
  | .dispatch .. => True

/-- The reply, with only the view of the world. -/
def Reply.seen (view : ω → τ) (r : Reply σ ε χ ω α) :
    Except (MachineError σ ε) α × Machine σ ε χ ω × τ :=
  (r.answer, r.machine, view r.world)

variable {view : ω → τ}

/-! ## Guards and actions -/

/-- Two results that look the same hold the same beside worlds of one view. -/
theorem exists_eq_of_map_view {r r' : α × ω} (h : r.map id view = r'.map id view) :
    ∃ a w v, r = (a, w) ∧ r' = (a, v) ∧ view w = view v := by
  obtain ⟨a, w⟩ := r
  obtain ⟨a', v⟩ := r'
  obtain ⟨ha, same⟩ := Prod.mk.inj h
  obtain rfl : a = a' := ha
  exact ⟨a, w, v, rfl, rfl, same⟩

/-- A chain of actions comes to the same in worlds of one view. -/
theorem Action.runChain_respects {mode : Mode χ} {event : ε} {chain : List (Action ε χ ω)}
    (h : ∀ action ∈ chain, action.Respects view) {w v : ω} (same : view w = view v) :
    (runChain mode event chain w).map id view = (runChain mode event chain v).map id view := by
  induction chain generalizing w v with
  | nil => exact Prod.ext rfl same
  | cons action rest ih =>
    obtain ⟨result, w₁, v₁, hw, hv, same₁⟩ :=
      exists_eq_of_map_view (h action List.mem_cons_self mode event w v same)
    rw [runChain, runChain, hw, hv]
    cases result with
    | ok => exact ih (fun a ha => h a (List.mem_cons_of_mem action ha)) same₁
    | error cause => exact Prod.ext rfl same₁

namespace DispatchTable.Respects

variable {t : DispatchTable σ ε χ ω} {rule : Rule σ ε χ ω}

/-- A rule of the table gives the same answer in worlds of one view. -/
theorem canExecute (h : t.Respects view) (hrule : rule ∈ t.entries.map Prod.snd) {w v : ω}
    (same : view w = view v) :
    (rule.canExecute w).map id view = (rule.canExecute v).map id view := by
  unfold Rule.canExecute Guard.allows
  cases hguard : rule.guard? with
  | none => exact Prod.ext rfl same
  | some guard => exact h.guards rule hrule guard hguard w v same

/-- What executing a rule of the table runs notices only the view. -/
theorem chain [DecidableEq σ] (h : t.Respects view) (hrule : rule ∈ t.entries.map Prod.snd)
    (state : σ) : ∀ action ∈ t.chain state rule, action.Respects view := by
  intro action haction
  rcases DispatchTable.mem_chain haction with hown | ⟨hook, hhook, hmem⟩ | ⟨hook, hhook, hmem⟩
  · exact h.actions rule hrule action hown
  · exact h.exit hook hhook action hmem
  · exact h.entry hook hhook action hmem

end DispatchTable.Respects

/-! ## Calls -/

theorem Reply.seen_map {β : Type} (f : α → β) {r r' : Reply σ ε χ ω α}
    (h : r.seen view = r'.seen view) : (r.map f).seen view = (r'.map f).seen view :=
  congrArg (Prod.map (Except.map f) id) h

namespace Machine

variable [State σ] [Event ε] [DecidableEq σ] [DecidableEq ε] {m : Machine σ ε χ ω}

/-- Building a table comes to the same in worlds of one view. -/
theorem seen_build (h : m.config.Respects view) (d : Draft σ ε χ ω) (location : Location) {w v : ω}
    (same : view w = view v) : (m.build d location w).seen view =
      (m.build d location v).seen view := by
  have worlds : view (m.build d location w).world = view (m.build d location v).world := by
    rw [build_keeps h.warning h.debug, build_keeps h.warning h.debug, same]
  unfold build at worlds ⊢
  split at worlds
  · simp only [Reply.seen, worlds]
  · split at worlds
    · simp only [Reply.seen, worlds]
    · simp only [Reply.seen, worlds]

omit [DecidableEq ε] in
/-- Executing a rule comes to the same in worlds of one view. -/
theorem seen_execute (h : m.config.Respects view) {t : DispatchTable σ ε χ ω} (ht : t.Respects view)
    {rule : Rule σ ε χ ω} (hrule : rule ∈ t.entries.map Prod.snd) (mode : Mode χ) (event : ε)
    {w v : ω} (same : view w = view v) :
    (m.execute t rule mode event w).seen view = (m.execute t rule mode event v).seen view := by
  obtain ⟨result, w₁, v₁, hw, hv, same₁⟩ :=
    exists_eq_of_map_view (Action.runChain_respects (ht.chain hrule m.state) same)
  unfold execute
  dsimp only
  split
  · rw [hw, hv]
    cases result with
    | ok => simp only [commit, Reply.seen, h.info, h.clock w₁ v₁ same₁, same₁]
    | error cause => simp only [Reply.seen, same₁]
  · simp only [Reply.seen, same]

/-- Dispatching an event comes to the same in worlds of one view. -/
theorem seen_dispatch (h : m.Respects view) (mode : Mode χ) (event : ε) (values : List Value)
    {w v : ω} (same : view w = view v) :
    (m.dispatch mode event values w).seen view = (m.dispatch mode event values v).seen view := by
  unfold dispatch
  split
  · simp only [Reply.seen, same]
  · next t built =>
    split
    · simp only [Reply.seen, h.config.warning, same]
    · next rule found =>
      have hrule := DispatchTable.mem_of_find? found
      obtain ⟨answer, w₁, v₁, hw, hv, same₁⟩ :=
        exists_eq_of_map_view ((h.table t built).canExecute hrule same)
      rw [hw, hv]
      -- the guard gives one answer in both worlds, so both take the same way from here
      cases answer with
      | true => exact seen_execute h.config (h.table t built) hrule mode event same₁
      | false => simp only [Reply.seen, h.config.info, same₁]

/-- A call comes to the same in worlds of one view. -/
theorem seen_call (h : m.Respects view) (c : Call σ ε χ ω) {w v : ω} (same : view w = view v) :
    (m.call c w).seen view = (m.call c v).seen view := by
  cases c with
  | build draft location => exact Reply.seen_map _ (seen_build h.config draft location same)
  | dispatch mode event values => exact Reply.seen_map _ (seen_dispatch h mode event values same)

omit [State σ] in
/-- A call leaves a machine that works with things that notice only the view. -/
theorem Advance.respects {m' : Machine σ ε χ ω} {c : Call σ ε χ ω}
    {answer : Except (MachineError σ ε) (Success σ ε)} (step : m.Advance c answer m')
    (hc : c.Respects view) (h : m.Respects view) : m'.Respects view := by
  cases step with
  | stay => exact h
  | install t bare compiled =>
    refine ⟨fun t' ht' => ?_, h.config⟩
    obtain rfl : t = t' := Option.some.inj ht'
    obtain ⟨hrules, hentry, hexit⟩ := Draft.subset_of_compile compiled
    exact
      { guards rule hrule := hc.guards rule (hrules hrule)
        actions rule hrule := hc.actions rule (hrules hrule)
        entry := hentry ▸ hc.entry
        exit := hexit ▸ hc.exit }
  | move => exact ⟨h.table, h.config⟩

end Machine

end TableMachine
