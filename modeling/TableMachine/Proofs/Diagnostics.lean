import TableMachine.Proofs.BuildOnce
import TableMachine.Proofs.Chronicle
import TableMachine.Proofs.Vacuity
import TableMachine.Proofs.Wording

/-!
# What a machine reports

A log takes the messages of a machine and whatever its guards and actions note (`Line`). That a call
works by guards and actions first, and reports afterwards, shows in the log: it grows by notes, and
then by messages (`Machine.log_call`). Which messages these are follows from what the call came to
(`Machine.reports`), and the messages of a run are those of its calls one after another
(`Machine.messages_run`). The text of each tells of what is reported (`Report.toldIn_text`).

**Main statements.** The messages of a run mirror what was called and what it came to. Those of
executed transitions go with the records of the history (`Machine.diagnostics_mirror_run`).
-/

namespace TableMachine

variable {σ ε χ ω τ : Type}

/-! ## Logs -/

/-- How urgent a message is. -/
inductive Level where
  /-- It needs attention. -/
  | warning
  /-- It tells what happened. -/
  | info
  /-- It may help to understand what happened. -/
  | debug
deriving DecidableEq

/-- A line of a log. -/
inductive Line (τ : Type) where
  /-- The machine has reported something. -/
  | message (level : Level) (text : String)
  /-- A guard or an action has noted something. -/
  | note (note : τ)

/-- The message, if the line is one. -/
def Line.message? : Line τ → Option (Level × String)
  | message level text => some (level, text)
  | note _ => none

/-- Every message is added to the log. -/
structure Sink.Records (log : ω → List (Line τ)) (sink : Sink ω) : Prop where
  /-- Warnings are. -/
  warning : ∀ text w, log (sink.warning text w) = log w ++ [.message .warning text]
  /-- Information is. -/
  info : ∀ text w, log (sink.info text w) = log w ++ [.message .info text]
  /-- Explanations are. -/
  debug : ∀ text w, log (sink.debug text w) = log w ++ [.message .debug text]

/-- From the one world to the other the log has grown by notes. -/
def Noted (log : ω → List (Line τ)) (w w' : ω) : Prop :=
  ∃ notes : List τ, log w' = log w ++ notes.map .note

variable {log : ω → List (Line τ)}

theorem Noted.refl (w : ω) : Noted log w w :=
  ⟨[], (List.append_nil _).symm⟩

theorem Noted.trans {w w₁ w₂ : ω} (h : Noted log w w₁) (h₁ : Noted log w₁ w₂) : Noted log w w₂ := by
  obtain ⟨notes, hnotes⟩ := h
  obtain ⟨others, hothers⟩ := h₁
  refine ⟨notes ++ others, ?_⟩
  rw [hothers, hnotes, List.map_append, List.append_assoc]

/-! ## Work -/

/-- How guards and actions change the world. -/
inductive Rule.Works (rules : List (Rule σ ε χ ω)) (entry exit : Hooks σ ε χ ω) : ω → ω → Prop
  /-- The guard of a rule is asked. -/
  | guard {rule : Rule σ ε χ ω} {guard : Guard ω} (w : ω) (hrule : rule ∈ rules)
      (bound : rule.guard? = some guard) : Works rules entry exit w (guard.check w).2
  /-- An action of a rule or a hook is run. -/
  | action {action : Action ε χ ω} (mode : Mode χ) (event : ε) (w : ω)
      (planned : (∃ rule ∈ rules, action ∈ rule.actions) ∨ (∃ hook ∈ exit, action ∈ hook.2) ∨
        ∃ hook ∈ entry, action ∈ hook.2) : Works rules entry exit w (action.run mode event w).2

/-- Of fewer rules there is less work. -/
theorem Rule.Works.mono {rules rules' : List (Rule σ ε χ ω)} {entry exit : Hooks σ ε χ ω} {w w' : ω}
    (h : Works rules entry exit w w') (hsub : rules ⊆ rules') : Works rules' entry exit w w' := by
  cases h with
  | guard w hrule bound => exact .guard w (hsub hrule) bound
  | action mode event w planned =>
    exact .action mode event w (planned.imp_left fun ⟨rule, hrule, own⟩ => ⟨rule, hsub hrule, own⟩)

/-- The work of a table. -/
def DispatchTable.Works (t : DispatchTable σ ε χ ω) : ω → ω → Prop :=
  Rule.Works (t.entries.map Prod.snd) t.entry t.exit

/-- The work of a draft. -/
def Draft.Works (d : Draft σ ε χ ω) : ω → ω → Prop :=
  Rule.Works d.rules d.entry d.exit

/-- A table works as its draft does. -/
theorem Draft.works_of_compile [DecidableEq σ] [DecidableEq ε] {d : Draft σ ε χ ω}
    {options : CompileOptions} {t : DispatchTable σ ε χ ω} (h : d.compile options = .ok t)
    {w w' : ω} (hw : t.Works w w') : d.Works w w' := by
  obtain ⟨hrules, hentry, hexit⟩ := subset_of_compile h
  rw [DispatchTable.Works, hentry, hexit] at hw
  exact hw.mono hrules

/-- The sink adds messages to the log, and the guards and actions of the table add notes. -/
structure Machine.Noting (log : ω → List (Line τ)) (m : Machine σ ε χ ω) : Prop where
  /-- The sink adds every message. -/
  sink : m.config.sink.Records log
  /-- Guards and actions add notes. -/
  table : ∀ t, m.table? = some t → ∀ w w', t.Works w w' → Noted log w w'

/-- If the call is to build a table, the guards and actions of the draft add notes. -/
def Call.Noting (log : ω → List (Line τ)) : Call σ ε χ ω → Prop
  | .build draft _ => ∀ w w', draft.Works w w' → Noted log w w'
  | .dispatch .. => True

section

variable [DecidableEq σ] [DecidableEq ε] [Event ε] {m : Machine σ ε χ ω} {mode : Mode χ} {event : ε}
  {values : List Value} {t : DispatchTable σ ε χ ω} {rule : Rule σ ε χ ω} {w w' : ω}

namespace Machine.Noting

/-- Asking the rule that is selected adds notes. -/
theorem asked (h : m.Noting log) (selected : m.Selects event values t rule) {answer : Bool}
    (ha : rule.Answers w answer w') : Noted log w w' := by
  cases ha with
  | unguarded => exact .refl w
  | guarded bound asked =>
    have hrule := DispatchTable.mem_of_find? selected.2
    have worked := h.table t selected.1 w _ (.guard w hrule bound)
    rwa [asked] at worked

/-- So does running an action that its execution takes. -/
theorem ran (h : m.Noting log) (selected : m.Selects event values t rule) {action : Action ε χ ω}
    (ha : action ∈ t.chain m.state rule) {result : Except ActionError Unit}
    (hrun : action.run mode event w = (result, w')) : Noted log w w' := by
  have hrule := DispatchTable.mem_of_find? selected.2
  have worked := h.table t selected.1 w _
    (.action mode event w ((DispatchTable.mem_chain ha).imp_left fun own => ⟨rule, hrule, own⟩))
  rwa [hrun] at worked

/-- So does running several of these actions. -/
theorem succeeded (h : m.Noting log) (selected : m.Selects event values t rule)
    {chain : List (Action ε χ ω)} (hsub : chain ⊆ t.chain m.state rule)
    (hs : Action.Succeed mode event chain w w') : Noted log w w' := by
  induction hs with
  | nil w => exact .refl w
  | cons first _ ih =>
    have now := h.ran selected (hsub List.mem_cons_self) first
    exact now.trans (ih fun _ ha => hsub (List.mem_cons_of_mem _ ha))

end Machine.Noting

end

/-! ## Reports -/

/-- Something that a machine reports. -/
inductive Report (σ ε : Type) where
  /-- A table could not be built. -/
  | rejected (failure : BuildFailure σ ε)
  /-- Something about a table is questionable. -/
  | questioned (fault : Fault σ ε)
  /-- A table with some number of keys was built. -/
  | built (location : Location) (keys : Nat)
  /-- No rule handles an event. -/
  | notFound (event : ε) (values : List Value)
  /-- A guard refused a rule. -/
  | refused (rule : Summary σ ε)
  /-- A rule was executed. -/
  | executed (rule : Summary σ ε)

namespace Report

/-- How urgent it is. -/
def level : Report σ ε → Level
  | rejected _ | questioned _ | notFound .. => .warning
  | refused _ | executed _ => .info
  | built .. => .debug

/-- How it is worded. -/
def text [State σ] [Event ε] : Report σ ε → String
  | rejected failure => failure.message
  | questioned fault => fault.message
  | built location keys => Message.built location keys
  | notFound event values => Message.notFound event values
  | refused rule => Message.refused rule
  | executed rule => Message.executed rule

/-- The text tells of what is reported: of a failed build all faults, of a table its place and its
number of keys, of an event its name and the values supplied, and of a rule all that belongs to
it. -/
def ToldIn [State σ] [Event ε] (text : String) : Report σ ε → Prop
  | rejected failure => failure.ToldIn text
  | questioned fault => fault.ToldIn text
  | built place keys =>
    place.NamedIn text ∧ Text.Mentions text (" with " ++ toString keys ++ " entries")
  | notFound event values =>
    Text.Mentions text (Event.name event) ∧ ∀ v ∈ values, v.NamedIn text
  | refused rule => rule.NamedIn text ∧ Text.Mentions text " not executed"
  | executed rule => rule.NamedIn text ∧ Text.Mentions text " was executed"

/-- The line that it makes in a log. -/
def line [State σ] [Event ε] (r : Report σ ε) : Line τ :=
  .message r.level r.text

/-- The rule, if one was executed. -/
def executed? : Report σ ε → Option (Summary σ ε)
  | executed rule => some rule
  | _ => none

/-- What is reported is worded so that it is told. -/
theorem toldIn_text [State σ] [Event ε] (r : Report σ ε) : r.ToldIn r.text := by
  cases r with
  | rejected failure => exact failure.toldIn_message
  | questioned fault => exact fault.toldIn_message
  | built place keys =>
    have worded : Message.built place keys = "table built at " ++ place.text ++
        (" with " ++ toString keys ++ " entries") := by
      simp only [← String.append_assoc]
      rfl
    change place.NamedIn (Message.built place keys) ∧ Text.Mentions (Message.built place keys) _
    rw [worded]
    exact ⟨(Text.mentions_append_right _ place.text).append_left _, Text.mentions_append_right _ _⟩
  | notFound event values =>
    have named := Text.mentions_append_right "no transition found for event '" (Event.name event)
    refine ⟨(named.append_left _).append_left _, fun v hv => ?_⟩
    have supplied : values.isEmpty = false := List.isEmpty_eq_false_iff.2 (List.ne_nil_of_mem hv)
    have listed : Text.Mentions (Text.bracketed (values.map Value.text)) v.text :=
      Text.mentions_bracketed (List.mem_map_of_mem hv)
    change Text.Mentions (_ ++ if values.isEmpty then "" else _) v.text
    rw [supplied]
    exact (listed.append_right _).append_right _
  | refused rule =>
    have named := (Text.mentions_append_right "conditional transition " rule.text).append_left
      " not executed"
    exact ⟨rule.namedIn_text.trans named, Text.mentions_append_right _ _⟩
  | executed rule =>
    have named := (Text.mentions_append_right "transition " rule.text).append_left " was executed"
    exact ⟨rule.namedIn_text.trans named, Text.mentions_append_right _ _⟩

end Report

namespace Machine

variable [DecidableEq σ] [DecidableEq ε] [Event ε] {m : Machine σ ε χ ω}

/-- What is reported of a call, by its answer: of a build its failure, or else the warnings that
come with the table and then the table; of an event that no rule is found for it, that a rule was
refused, or that the rule found was executed. Nothing else is reported. -/
def reports (m : Machine σ ε χ ω) (c : Call σ ε χ ω)
    (answer : Except (MachineError σ ε) (Success σ ε)) (m' : Machine σ ε χ ω) : List (Report σ ε) :=
  match c, answer with
  | .build .., .error (.build failure) => [.rejected failure]
  | .build _ location, .ok .built =>
    match m'.table? with
    | some t => t.warnings.map .questioned ++ [.built location t.size]
    | none => []
  | .dispatch .., .ok (.handled (.notFound event values)) => [.notFound event values]
  | .dispatch .., .ok (.handled (.notExecuted rule)) => [.refused rule]
  | .dispatch _ event values, .ok (.handled (.executed ..)) =>
    match m.table?.bind fun t => t.find? m.state event values with
    | some rule => [.executed rule.summary]
    | none => []
  | _, _ => []

/-- The rule that is selected is reported if a transition is executed. -/
theorem Selects.reports_eq {mode : Mode χ} {event : ε} {values : List Value}
    {t : DispatchTable σ ε χ ω} {rule : Rule σ ε χ ω} (h : m.Selects event values t rule)
    {source target : σ} {m' : Machine σ ε χ ω} :
    m.reports (.dispatch mode event values) (.ok (.handled (.executed source target event))) m' =
      [.executed rule.summary] := by
  simp only [reports, h.1, h.2, Option.bind_some]

variable [State σ]

omit [DecidableEq σ] [DecidableEq ε] in
/-- The warnings about a table are reported before the table is. -/
theorem log_reportBuilt (h : m.config.sink.Records log) (t : DispatchTable σ ε χ ω)
    (location : Location) (w : ω) :
    log (m.reportBuilt t location w) = log w ++
      (t.warnings.map Report.questioned ++ [Report.built location t.size]).map Report.line := by
  have warned : ∀ (faults : List (Fault σ ε)) w,
      log (faults.foldl (fun w fault => m.config.sink.warning fault.message w) w) =
        log w ++ (faults.map Report.questioned).map Report.line := by
    intro faults
    induction faults with
    | nil => exact fun w => (List.append_nil _).symm
    | cons fault rest ih =>
      intro w
      rw [List.foldl_cons, ih, h.warning, List.append_assoc]
      rfl
  rw [reportBuilt, h.debug, warned, List.map_append, List.append_assoc]
  rfl

/-! ## Single calls -/

/-- A build adds just what is reported of it. -/
theorem log_build (h : m.config.sink.Records log) (draft : Draft σ ε χ ω) (location : Location)
    (w : ω) :
    log (m.call (.build draft location) w).world = log w ++
      (m.reports (.build draft location) (m.call (.build draft location) w).answer
        (m.call (.build draft location) w).machine).map Report.line := by
  rw [call_build]
  rcases build_cases m draft location w with
    ⟨installed, -, refused⟩ | ⟨failure, -, -, refused⟩ | ⟨t, -, -, accepted⟩
  · rw [refused]
    exact (List.append_nil _).symm
  · rw [refused]
    exact h.warning _ w
  · rw [accepted]
    exact log_reportBuilt h t location w

/-- While an event is handled the log grows by notes, and then by what is reported. -/
theorem log_dispatch (h : m.Noting log) (mode : Mode χ) (event : ε) (values : List Value) (w : ω) :
    ∃ notes : List τ, log (m.call (.dispatch mode event values) w).world =
      log w ++ notes.map .note ++ (m.reports (.dispatch mode event values)
        (m.call (.dispatch mode event values) w).answer
        (m.call (.dispatch mode event values) w).machine).map Report.line := by
  -- guards and actions end in some world, in which the outcome is reported, if at all
  have reported : ∀ {w₁ w₂} {lines : List (Line τ)}, Noted log w w₁ → log w₂ = log w₁ ++ lines →
      ∃ notes : List τ, log w₂ = log w ++ notes.map .note ++ lines := by
    rintro w₁ w₂ lines ⟨notes, hnotes⟩ hlines
    exact ⟨notes, by rw [hlines, hnotes]⟩
  have silent : ∀ {w₁}, log w₁ = log w₁ ++ [] := (List.append_nil _).symm
  rw [call]
  generalize hreply : m.dispatch mode event values w = reply
  cases dispatch_eq_iff.1 hreply with
  | notBuilt => exact reported (.refl w) silent
  | notFound => exact reported (.refl w) (h.sink.warning _ w)
  | notExecuted selected refused => exact reported (h.asked selected refused) (h.sink.info _ _)
  | effectInSync selected agreed => exact reported (h.asked selected agreed) silent
  | actionFailed selected agreed permitted split succeeded failed =>
    have before := h.succeeded selected (split ▸ List.subset_append_left _ _) succeeded
    have last := h.ran selected (split ▸ List.mem_append_right _ List.mem_cons_self) failed
    exact reported (((h.asked selected agreed).trans before).trans last) silent
  | executed selected agreed permitted succeeded =>
    have worked := h.succeeded selected (List.Subset.refl _) succeeded
    dsimp only [Reply.map, Except.map]
    rw [selected.reports_eq]
    exact reported ((h.asked selected agreed).trans worked) (h.sink.info _ _)

/-- While a call is made the log grows by notes, and then by what is reported of the call. -/
theorem log_call (h : m.Noting log) (c : Call σ ε χ ω) (w : ω) :
    ∃ notes : List τ, log (m.call c w).world = log w ++ notes.map .note ++
      (m.reports c (m.call c w).answer (m.call c w).machine).map Report.line := by
  cases c with
  | build draft location =>
    refine ⟨[], ?_⟩
    rw [log_build h.sink, List.map_nil, List.append_nil]
  | dispatch mode event values => exact log_dispatch h mode event values w

omit [State σ] in
/-- Calls whose guards and actions add notes leave a machine of which this is true as well. -/
theorem Advance.noting {m' : Machine σ ε χ ω} {c : Call σ ε χ ω}
    {answer : Except (MachineError σ ε) (Success σ ε)} (step : m.Advance c answer m')
    (hc : c.Noting log) (h : m.Noting log) : m'.Noting log := by
  cases step with
  | stay => exact h
  | install t bare compiled =>
    refine ⟨h.sink, fun t' ht' w w' hw => ?_⟩
    obtain rfl : t = t' := Option.some.inj ht'
    exact hc w w' (Draft.works_of_compile compiled hw)
  | move => exact ⟨h.sink, h.table⟩

/-! ## Runs -/

/-- What is reported of the calls of a run one after another. -/
def reported (m : Machine σ ε χ ω) : List (Call σ ε χ ω) → ω → List (Report σ ε)
  | [], _ => []
  | c :: rest, w =>
    m.reports c (m.call c w).answer (m.call c w).machine ++
      (m.call c w).machine.reported rest (m.call c w).world

theorem Noting.run (h : m.Noting log) {calls : List (Call σ ε χ ω)}
    (hcalls : ∀ c ∈ calls, c.Noting log) (w : ω) : (m.run calls w).2.1.Noting log :=
  run_preserves (fun _ _ _ c hc step => step.noting (hcalls c hc)) h w

/-- The messages of a run are what is reported of its calls, in order. -/
theorem messages_run (h : m.Noting log) {calls : List (Call σ ε χ ω)}
    (hcalls : ∀ c ∈ calls, c.Noting log) (w : ω) :
    (log (m.run calls w).2.2).filterMap Line.message? = (log w).filterMap Line.message? ++
      (m.reported calls w).map fun r => (r.level, r.text) := by
  have notes_silent : ∀ notes : List τ, (notes.map Line.note).filterMap Line.message? = [] := by
    intro notes
    rw [List.filterMap_map, List.filterMap_eq_nil_iff]
    exact fun _ _ => rfl
  have reports_told : ∀ reports : List (Report σ ε), (reports.map Report.line).filterMap
      (Line.message? (τ := τ)) = reports.map fun r => (r.level, r.text) := by
    intro reports
    rw [List.filterMap_map]
    exact congrFun List.filterMap_eq_map' reports
  induction calls generalizing m w with
  | nil => exact (List.append_nil _).symm
  | cons c rest ih =>
    have next := (advance_call m c w).noting (hcalls c List.mem_cons_self) h
    obtain ⟨notes, hlog⟩ := log_call h c w
    change (log ((m.call c w).machine.run rest (m.call c w).world).2.2).filterMap _ = _
    rw [ih next (fun c hc => hcalls c (List.mem_cons_of_mem _ hc)), hlog, List.filterMap_append,
      List.filterMap_append, notes_silent, reports_told, List.append_nil, reported, List.map_append,
      List.append_assoc]

/-! ## Executed rules -/

/-- The rules of the table are for the states of their keys. -/
def Keyed (m : Machine σ ε χ ω) : Prop :=
  ∀ t, m.table? = some t → ∀ k r, (k, r) ∈ t.entries → r.state = k.state

omit [DecidableEq σ] [DecidableEq ε] [Event ε] [State σ] in
theorem keyed_start (initial : σ) (config : Config ω) :
    (start initial config : Machine σ ε χ ω).Keyed :=
  fun _ ht => absurd ht (Option.not_mem_none _)

omit [State σ] in
/-- The rule that is selected is for the current state. -/
theorem Selects.state_eq (h : m.Keyed) {event : ε} {values : List Value} {t : DispatchTable σ ε χ ω}
    {rule : Rule σ ε χ ω} (selected : m.Selects event values t rule) : rule.state = m.state := by
  have filed : ∀ {k}, t.at? k = some rule → rule.state = k.state := fun hk =>
    h t selected.1 _ _ (DispatchTable.mem_entries_of_at? hk)
  obtain ⟨c, hc⟩ := DispatchTable.exists_lookup?_of_find? selected.2
  rcases DispatchTable.lookup?_eq_some_iff.1 hc with own | ⟨-, wildcard, -, wild⟩
  · exact filed own
  · exact filed wild

omit [State σ] in
/-- Only tables are installed whose rules are for the states of their keys. -/
theorem Advance.keyed {m' : Machine σ ε χ ω} {c : Call σ ε χ ω}
    {answer : Except (MachineError σ ε) (Success σ ε)} (step : m.Advance c answer m')
    (h : m.Keyed) : m'.Keyed := by
  cases step with
  | stay => exact h
  | install t bare compiled =>
    intro t' ht' k r hentry
    obtain rfl : t = t' := Option.some.inj ht'
    exact (Draft.files_of_mem_entries compiled hentry).2.state
  | move => exact h

theorem Keyed.run (h : m.Keyed) (calls : List (Call σ ε χ ω)) (w : ω) : (m.run calls w).2.1.Keyed :=
  run_preserves (fun _ _ _ _ _ step => step.keyed) h w

omit [State σ] in
/-- Nothing is reported as executed if nothing was executed. -/
theorem filterMap_executed?_reports {m' : Machine σ ε χ ω} {c : Call σ ε χ ω}
    {answer : Except (MachineError σ ε) (Success σ ε)} (idle : hasExecuted answer = false) :
    (m.reports c answer m').filterMap Report.executed? = [] := by
  cases c with
  | build draft location =>
    cases answer with
    | error e => cases e <;> rfl
    | ok success =>
      cases success with
      | handled => rfl
      | built =>
        unfold reports
        cases m'.table? with
        | none => rfl
        | some t => simp [Report.executed?]
  | dispatch mode event values =>
    cases answer with
    | error => rfl
    | ok success =>
      cases success with
      | built => rfl
      | handled outcome =>
        cases outcome with
        | executed => exact Bool.noConfusion idle
        | notFound | notExecuted => rfl

omit [State σ] in
/-- If a call executes a transition, just the rule of the move is reported as executed; else none
is. -/
theorem Advance.executed {m' : Machine σ ε χ ω} {c : Call σ ε χ ω}
    {answer : Except (MachineError σ ε) (Success σ ε)} (step : m.Advance c answer m')
    (h : m.Keyed) :
    ((m.reports c answer m').filterMap Report.executed?).map (fun s => (s.state, s.next)) =
      (m.passage? c answer m').toList.map fun p => (p.source, p.target) := by
  cases step with
  | stay idle =>
    rw [filterMap_executed?_reports idle, passage?, if_neg (by rw [idle]; exact Bool.false_ne_true)]
    rfl
  | install =>
    rw [filterMap_executed?_reports rfl]
    rfl
  | move time selected =>
    rw [selected.reports_eq]
    exact congrArg (fun state => [(state, _)]) (selected.state_eq h)

/-- Of a table that is built its warnings are reported and its number of keys. -/
theorem reports_built {draft : Draft σ ε χ ω} {location : Location} {w : ω}
    (h : (m.call (.build draft location) w).answer = .ok .built) :
    ∃ t, draft.compile m.config.compile = .ok t ∧
      m.reports (.build draft location) (m.call (.build draft location) w).answer
          (m.call (.build draft location) w).machine =
        t.warnings.map .questioned ++ [.built location t.size] := by
  obtain ⟨t, compiled, installed⟩ := build_of_ok (answer_call_build_eq_ok_iff.1 h)
  refine ⟨t, compiled, ?_⟩
  rw [h, call_build, Reply.map, installed]
  rfl

omit [State σ] in
/-- Of a transition that is executed just its rule is reported. -/
theorem Advance.reports_executed {m' : Machine σ ε χ ω} {c : Call σ ε χ ω} {source target : σ}
    {event : ε} (step : m.Advance c (.ok (.handled (.executed source target event))) m')
    (h : m.Keyed) :
    ∃ rule : Rule σ ε χ ω, m.reports c (.ok (.handled (.executed source target event))) m' =
      [.executed rule.summary] ∧ rule.state = source ∧ rule.next = target := by
  cases step with
  | stay idle => exact Bool.noConfusion idle
  | move time selected => exact ⟨_, selected.reports_eq, selected.state_eq h, rfl⟩

/-- The rules reported as executed in a run are those of its moves. -/
theorem executed_reported (h : m.Keyed) (calls : List (Call σ ε χ ω)) (w : ω) :
    ((m.reported calls w).filterMap Report.executed?).map (fun s => (s.state, s.next)) =
      (m.passages calls w).map fun p => (p.source, p.target) := by
  induction calls generalizing m w with
  | nil => rfl
  | cons c rest ih =>
    have step := advance_call m c w
    rw [reported, passages, List.filterMap_append, List.map_append, List.map_append,
      step.executed h, ih (step.keyed h)]

/-- A call shows in the log: notes of its guard and actions come before what is reported of it. A
table that is built is reported with its warnings, one that cannot be built with all its faults, and
an executed transition with the rule of the move. Nothing is reported of other errors. -/
structure Shows (log : ω → List (Line τ)) (m : Machine σ ε χ ω) (c : Call σ ε χ ω)
    (w : ω) : Prop where
  /-- The log grows by notes, and then by what is reported. -/
  order : ∃ notes : List τ, log (m.call c w).world = log w ++ notes.map .note ++
    (m.reports c (m.call c w).answer (m.call c w).machine).map Report.line
  /-- If a table is built, its warnings are reported and its number of keys. -/
  built : ∀ draft location, c = .build draft location → (m.call c w).answer = .ok .built →
    ∃ t, draft.compile m.config.compile = .ok t ∧
      m.reports c (m.call c w).answer (m.call c w).machine =
        t.warnings.map .questioned ++ [.built location t.size]
  /-- If none can be built, the failure of compiling is reported. -/
  rejected : ∀ draft location failure, c = .build draft location →
    (m.call c w).answer = .error (.build failure) →
      draft.compile m.config.compile = .error failure ∧
        m.reports c (m.call c w).answer (m.call c w).machine = [.rejected failure]
  /-- If a transition is executed, a rule is reported that leads where the machine has gone. -/
  executed : ∀ source target event,
    (m.call c w).answer = .ok (.handled (.executed source target event)) →
      ∃ rule, m.reports c (m.call c w).answer (m.call c w).machine = [.executed rule] ∧
        rule.state = source ∧ rule.next = target
  /-- If there is another error, nothing is reported. -/
  silent : ∀ e, (m.call c w).answer = .error e → e.buildFailure? = none →
    m.reports c (m.call c w).answer (m.call c w).machine = []

theorem shows_call (h : m.Noting log) (hk : m.Keyed) (c : Call σ ε χ ω) (w : ω) :
    m.Shows log c w where
  order := log_call h c w
  built := by
    rintro draft location rfl built
    exact reports_built built
  rejected := by
    rintro draft location failure rfl rejected
    obtain ⟨-, ⟨cause, he, faulty, -⟩ | ⟨first, he, -⟩⟩ :=
      build_of_error (answer_call_build_eq_error_iff.1 rejected)
    · obtain rfl := MachineError.build.inj he
      rw [rejected]
      exact ⟨faulty, rfl⟩
    · cases he
  executed := by
    intro source target event executed
    have step := advance_call m c w
    rw [executed] at step ⊢
    obtain ⟨rule, reports, state, next⟩ := step.reports_executed hk
    exact ⟨rule.summary, reports, state, next⟩
  silent := by
    intro e failed other
    rw [failed]
    cases e with
    | build failure => cases other
    | alreadyBuilt | notBuilt | actionFailed | effectInSync =>
      cases c with
      | build | dispatch => rfl

/-- In any run of a machine whose sink records its messages, these are what is reported of the
calls, each of which shows in the log, and their texts tell of it. The rules reported as executed
are, in order, for the states in which the records of the history begin, lead to those in which
these end, and are named by their messages. -/
theorem diagnostics_mirror_run (initial : σ) (config : Config ω) (records : config.sink.Records log)
    (calls : List (Call σ ε χ ω)) (noting : ∀ c ∈ calls, c.Noting log) (w : ω) :
    (log ((start initial config).run calls w).2.2).filterMap Line.message? =
      (log w).filterMap Line.message? ++
        ((start initial config).reported calls w).map (fun r => (r.level, r.text)) ∧
    (∀ r ∈ (start initial config).reported calls w, r.ToldIn r.text) ∧
    (∀ before c after, calls = before ++ c :: after →
      ((start initial config).run before w).2.1.Shows log c
          ((start initial config).run before w).2.2) ∧
    List.Forall₂ (fun rule r => rule.state = r.source ∧ rule.next = r.target ∧
        rule.NamedIn (Report.executed rule).text)
      (((start initial config).reported calls w).filterMap Report.executed?)
      ((start initial config).run calls w).2.1.history.records := by
  have bare : (start initial config : Machine σ ε χ ω).Noting log :=
    ⟨records, fun _ ht => absurd ht (Option.not_mem_none _)⟩
  refine ⟨messages_run bare noting w, fun r _ => r.toldIn_text, ?_, ?_⟩
  · rintro before c after rfl
    have earlier : ∀ c ∈ before, c.Noting log := fun c hc => noting c (List.mem_append_left _ hc)
    exact shows_call (bare.run earlier w) ((keyed_start initial config).run before w) c _
  · obtain ⟨added, hadded, passages, -⟩ := records_run (start initial config) calls w
    have moves := executed_reported (keyed_start initial config) calls w
    rw [← passages, List.map_map, ← List.forall₂_eq_eq_eq, List.forall₂_map_left_iff,
      List.forall₂_map_right_iff] at moves
    rw [hadded]
    refine moves.imp fun rule r same => ?_
    obtain ⟨state, next⟩ := Prod.mk.inj same
    exact ⟨state, next, (Report.executed rule).toldIn_text.1⟩

end Machine

namespace Turnstile

/-- A sink that writes all messages down. -/
def journal : Sink (List (Line String)) where
  warning text w := w ++ [.message .warning text]
  info text w := w ++ [.message .info text]
  debug text w := w ++ [.message .debug text]

/-- The coin slot notes that it was asked, and thanks. -/
def courtesy : Rule Gate Input Unit (List (Line String)) where
  state := .locked
  event := .coin
  next := .unlocked
  guard? := some ⟨fun w => (true, w ++ [.note "asked"])⟩
  actions := [.plain fun _ w => (.ok (), w ++ [.note "thankyou"])]
  location := here 86

/-- Nobody passes. -/
def barred : Rule Gate Input Unit (List (Line String)) where
  state := .unlocked
  event := .pass
  next := .locked
  guard? := some ⟨fun w => (false, w)⟩
  location := here 87

/-- Another coin rule contradicts the first one, which it cannot override as both belong
together. -/
def rudeness : Rule Gate Input Unit (List (Line String)) where
  state := .locked
  event := .coin
  next := .broken
  location := here 88
  overriding := true

/-- A table cannot be built, another one is built, but not twice. A coin is put in, somebody tries
to pass, and kicks the turnstile. -/
def roughVisit : List (Call Gate Input Unit (List (Line String))) :=
  [.build (.ofRules [courtesy, rudeness]) (here 89), .build (.ofRules [courtesy, barred]) (here 90),
    .build (.ofRules [courtesy]) (here 91), .dispatch .sync .coin [], .dispatch .sync .pass [],
    .dispatch .sync .kick []]

/-- The guards and actions of these rules do no more than add notes. -/
theorem noting_of_subset {rules : List (Rule Gate Input Unit (List (Line String)))}
    (known : rules ⊆ [courtesy, barred, rudeness]) (place : Location) :
    (Call.build (.ofRules rules) place).Noting id := by
  intro w w' work
  cases work with
  | guard w hrule bound =>
    have among := known hrule
    simp only [List.mem_cons, List.not_mem_nil, or_false] at among
    rcases among with rfl | rfl | rfl
    · obtain rfl := Option.some.inj bound
      exact ⟨["asked"], rfl⟩
    · obtain rfl := Option.some.inj bound
      exact .refl w
    · exact absurd bound.symm (Option.some_ne_none _)
  | action mode event w planned =>
    obtain ⟨rule, hrule, own⟩ | ⟨hook, hhook, -⟩ | ⟨hook, hhook, -⟩ := planned
    · have among := known hrule
      simp only [List.mem_cons, List.not_mem_nil, or_false] at among
      rcases among with rfl | rfl | rfl
      · obtain rfl := List.mem_singleton.1 own
        exact ⟨["thankyou"], rfl⟩
      · exact absurd own List.not_mem_nil
      · exact absurd own List.not_mem_nil
    · exact absurd hhook List.not_mem_nil
    · exact absurd hhook List.not_mem_nil

theorem roughVisit_noting : ∀ c ∈ roughVisit, c.Noting id := by
  simp only [roughVisit, List.forall_mem_cons]
  refine ⟨noting_of_subset (by simp) _, noting_of_subset (by simp) _, noting_of_subset (by simp) _,
    trivial, trivial, trivial, fun _ h => absurd h List.not_mem_nil⟩

/-- Two faults are reported together, then the table, the coin, the refusal and the kick. One
executed transition goes with one record, and its rule is named. -/
theorem roughVisit_reported :
    ∃ answers m log, (Machine.start .locked { sink := journal }).run roughVisit [] =
      (answers, m, log) ∧
      log.filterMap Line.message? = [
        (.warning, "table build failed with 2 error(s)"
          ++ "\n- overriding transition \x7b define(Locked) | when(Coin) | then(Broken) \x7d"
          ++ " at Turnstile:88 has no inherited transition to override"
          ++ "\n- the same state, match and event cannot lead to more than one next state:"
          ++ "\n    \x7b define(Locked) | condition | when(Coin) | then(Unlocked) \x7d"
          ++ " at Turnstile:86"
          ++ "\n    \x7b define(Locked) | when(Coin) | then(Broken) \x7d at Turnstile:88"),
        (.debug, "table built at Turnstile:90 with 2 entries"),
        (.info, "transition \x7b define(Locked) | condition | when(Coin) | then(Unlocked) \x7d"
          ++ " at Turnstile:86 was executed"),
        (.info, "conditional transition \x7b define(Unlocked) | condition | when(Pass)"
          ++ " | then(Locked) \x7d at Turnstile:87 not executed"),
        (.warning, "no transition found for event 'Kick'")] ∧
      m.history.records.map (fun r => (r.source, r.target)) = [(.locked, .unlocked)] := by
  have records : journal.Records id := ⟨fun _ _ => rfl, fun _ _ => rfl, fun _ _ => rfl⟩
  obtain ⟨messages, -, -, executed⟩ :=
    Machine.diagnostics_mirror_run Gate.locked { sink := journal } records roughVisit
      roughVisit_noting []
  refine ⟨_, _, _, rfl, ?_, ?_⟩
  · refine messages.trans ?_
    decide +kernel
  · have rules : ((Machine.start Gate.locked { sink := journal }).reported roughVisit []).filterMap
        Report.executed? = [courtesy.summary] := by decide +kernel
    rw [rules] at executed
    obtain ⟨record, others, ⟨source, target, -⟩, rest, told⟩ :=
      List.forall₂_cons_left_iff.1 executed
    obtain rfl := List.forall₂_nil_left_iff.1 rest
    refine (congrArg (List.map fun r => (r.source, r.target)) told).trans ?_
    rw [List.map_singleton, ← source, ← target]
    rfl

end Turnstile

end TableMachine
