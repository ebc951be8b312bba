import Mathlib.Data.List.Chain
import TableMachine.Proofs.Calls
import TableMachine.Samples.Turnstile

/-!
# What the history tells of a run

Of the calls of a run only moves are recorded, each by one record. So the records are joined end to
end from the initial state to the current one (`History.Joins`), every one of them can be read off
the table (`DispatchTable.Leads`), and together they tell just what the calls did
(`Machine.passages`).

**Main statements.** Whatever is called, the history stays joined and backed by the table
(`Machine.Chronicled.run`), and it grows by the passages of the run (`Machine.records_run`).
-/

namespace TableMachine

variable {σ ε χ ω : Type}

/-! ## Joined records -/

namespace History

/-- The records lead from the one state to the other, each from where the one before has led. -/
structure Joins (h : History σ ε) (initial current : σ) : Prop where
  /-- Without records nothing has moved. -/
  unmoved : h.records = [] → current = initial
  /-- The first record begins in the initial state. -/
  first : ∀ r ∈ h.records.head?, r.source = initial
  /-- Every record begins where the one before has led. -/
  linked : h.records.IsChain fun r q => r.target = q.source
  /-- The last record has led to the current state. -/
  last : ∀ r ∈ h.last?, r.target = current

variable {h : History σ ε} {initial current : σ}

theorem joins_nil (initial : σ) : ({} : History σ ε).Joins initial initial where
  unmoved _ := rfl
  first r hr := absurd hr (Option.not_mem_none r)
  linked := .nil
  last r hr := absurd hr (Option.not_mem_none r)

/-- A record that begins in the current state can be added. -/
theorem Joins.add (hj : h.Joins initial current) {r : TransitionRecord σ ε}
    (hr : r.source = current) : (h.add r).Joins initial r.target where
  unmoved hnil := absurd hnil (List.concat_ne_nil r h.records)
  first q hq := by
    change q ∈ (h.records ++ [r]).head? at hq
    cases hrecords : h.records with
    | nil =>
      rw [hrecords] at hq
      obtain rfl := Option.some.inj hq
      rw [hr, hj.unmoved hrecords]
    | cons p rest =>
      rw [hrecords] at hq
      apply hj.first q
      rw [hrecords]
      exact hq
  linked := by
    refine hj.linked.append (.singleton r) fun p hp q hq => ?_
    obtain rfl := Option.some.inj hq
    rw [hj.last p hp, hr]
  last q hq := by
    obtain rfl := Option.some.inj (hq.symm.trans List.getLast?_concat)
    rfl

/-- The path of a joined history begins in the initial state, if there is one. -/
theorem Joins.path_eq (hj : h.Joins initial current) :
    h.path = if h.isEmpty then [] else initial :: h.records.map TransitionRecord.target := by
  unfold path isEmpty
  cases hrecords : h.records with
  | nil => rfl
  | cons r rest =>
    obtain rfl := hj.first r (by rw [hrecords]; rfl)
    rfl

end History

/-! ## Passages -/

/-- A move of a machine. -/
structure Passage (σ ε : Type) where
  /-- The state before. -/
  source : σ
  /-- The event that was dispatched. -/
  event : ε
  /-- The state after. -/
  target : σ
deriving DecidableEq

/-- What a record tells besides the time. -/
def TransitionRecord.passage (r : TransitionRecord σ ε) : Passage σ ε :=
  ⟨r.source, r.event, r.target⟩

/-- The event that a call is to dispatch, if any. -/
def Call.event? : Call σ ε χ ω → Option ε
  | .build .. => none
  | .dispatch _ event _ => some event

variable [DecidableEq σ] [DecidableEq ε] [Event ε]

/-- At some combination the table's entry for the event or, if there is none, that for the wildcard
of the event leads from the one state to the other. -/
def DispatchTable.Leads (t : DispatchTable σ ε χ ω) (source : σ) (event : ε) (target : σ) : Prop :=
  ∃ c rule, rule.next = target ∧
    (t.at? ⟨source, event, c⟩ = some rule ∨
      t.at? ⟨source, event, c⟩ = none ∧
        ∃ wildcard, Event.wildcard? event = some wildcard ∧ t.at? ⟨source, wildcard, c⟩ = some rule)

/-- A table leads where the rules that it finds do. -/
theorem DispatchTable.leads_of_find? {t : DispatchTable σ ε χ ω} {state : σ} {event : ε}
    {values : List Value} {rule : Rule σ ε χ ω} (h : t.find? state event values = some rule) :
    t.Leads state event rule.next := by
  obtain ⟨c, hc⟩ := DispatchTable.exists_lookup?_of_find? h
  exact ⟨c, rule, rfl, DispatchTable.lookup?_eq_some_iff.1 hc⟩

namespace Machine

variable {m m' : Machine σ ε χ ω} {c : Call σ ε χ ω}
  {answer : Except (MachineError σ ε) (Success σ ε)}

/-! ## Single calls -/

/-- The history begins in the initial state, and the table leads from record to record. -/
structure Chronicled (m : Machine σ ε χ ω) (initial : σ) : Prop where
  /-- Table and place are recorded together. -/
  placed : m.Placed
  /-- The records are joined up to the current state. -/
  joins : m.history.Joins initial m.state
  /-- Every record is backed by the table. -/
  backed : ∀ r ∈ m.history.records, ∃ t, m.table? = some t ∧ t.Leads r.source r.event r.target

theorem chronicled_start (initial : σ) (config : Config ω) :
    (start initial config : Machine σ ε χ ω).Chronicled initial where
  placed := placed_start initial config
  joins := History.joins_nil initial
  backed _ hr := absurd hr List.not_mem_nil

/-- Calls keep the history in step with state and table. -/
theorem Advance.chronicled {initial : σ} (h : m.Advance c answer m') (hm : m.Chronicled initial) :
    m'.Chronicled initial := by
  have backed : ∀ r ∈ m.history.records,
      ∃ t, m'.table? = some t ∧ t.Leads r.source r.event r.target := by
    intro r hr
    obtain ⟨t, ht, leads⟩ := hm.backed r hr
    exact ⟨t, h.table_eq hm.placed ht, leads⟩
  have placed := h.placed hm.placed
  cases h with
  | stay => exact hm
  | install => exact ⟨placed, hm.joins, backed⟩
  | move time selected =>
    refine ⟨placed, hm.joins.add rfl, fun r hr => ?_⟩
    rcases List.mem_append.1 hr with hold | hnew
    · exact backed r hold
    · obtain rfl := List.mem_singleton.1 hnew
      exact ⟨_, selected.1, DispatchTable.leads_of_find? selected.2⟩

/-- The move that a call makes, seen from outside: where the machine is before and after it, and the
event dispatched, provided that a transition was executed. -/
def passage? (m : Machine σ ε χ ω) (c : Call σ ε χ ω)
    (answer : Except (MachineError σ ε) (Success σ ε)) (m' : Machine σ ε χ ω) :
    Option (Passage σ ε) :=
  if hasExecuted answer then c.event?.map fun event => ⟨m.state, event, m'.state⟩ else none

/-- The history grows by one record for a move, and else not at all. -/
theorem Advance.records (h : m.Advance c answer m') :
    ∃ added, m'.history.records = m.history.records ++ added ∧
      added.map TransitionRecord.passage = (m.passage? c answer m').toList ∧
      added.length = [answer].countP hasExecuted := by
  cases h with
  | stay idle =>
    refine ⟨[], (List.append_nil _).symm, ?_, ?_⟩
    · rw [passage?, if_neg (by rw [idle]; exact Bool.false_ne_true)]
      rfl
    · rw [List.countP_singleton, if_neg (by rw [idle]; exact Bool.false_ne_true)]
      rfl
  | install => exact ⟨[], (List.append_nil _).symm, rfl, rfl⟩
  | move => exact ⟨[_], rfl, rfl, rfl⟩

/-! ## Runs -/

variable [State σ]

/-- The moves of a run one after another. -/
def passages (m : Machine σ ε χ ω) : List (Call σ ε χ ω) → ω → List (Passage σ ε)
  | [], _ => []
  | c :: rest, w =>
    (m.passage? c (m.call c w).answer (m.call c w).machine).toList ++
      (m.call c w).machine.passages rest (m.call c w).world

/-- Whatever is called, the history stays in step with state and table. -/
theorem Chronicled.run {initial : σ} (h : m.Chronicled initial) (calls : List (Call σ ε χ ω))
    (w : ω) : (m.run calls w).2.1.Chronicled initial :=
  run_preserves (fun _ _ _ _ _ step => step.chronicled) h w

/-- The history grows by the moves of a run, one for each call that has executed a transition. -/
theorem records_run (m : Machine σ ε χ ω) (calls : List (Call σ ε χ ω)) (w : ω) :
    ∃ added, (m.run calls w).2.1.history.records = m.history.records ++ added ∧
      added.map TransitionRecord.passage = m.passages calls w ∧
      added.length = (m.run calls w).1.countP hasExecuted := by
  induction calls generalizing m w with
  | nil => exact ⟨[], (List.append_nil _).symm, rfl, rfl⟩
  | cons c rest ih =>
    obtain ⟨now, hnow, pnow, cnow⟩ := (advance_call m c w).records
    obtain ⟨later, hlater, plater, clater⟩ := ih (m.call c w).machine (m.call c w).world
    refine ⟨now ++ later, ?_, ?_, ?_⟩
    · change ((m.call c w).machine.run rest (m.call c w).world).2.1.history.records = _
      rw [hlater, hnow, List.append_assoc]
    · rw [List.map_append, pnow, plater, passages]
    · change _ = ((m.call c w).answer :: ((m.call c w).machine.run rest _).1).countP hasExecuted
      rw [List.length_append, cnow, clater, ← List.countP_append, List.singleton_append]

/-- Later calls leave the records of earlier ones as they are. -/
theorem records_prefix_run (m : Machine σ ε χ ω) (before after : List (Call σ ε χ ω)) (w : ω) :
    (m.run before w).2.1.history.records <+: (m.run (before ++ after) w).2.1.history.records := by
  obtain ⟨added, grown, -⟩ := records_run (m.run before w).2.1 after (m.run before w).2.2
  rw [run_append, grown]
  exact List.prefix_append _ _

/-- After any run from the start the history is joined from the initial state to the current one and
backed by the table. It has one record for each call that executed a transition, of the move that
was made, and still has the records that it had earlier. -/
theorem history_faithful (initial : σ) (config : Config ω) (calls : List (Call σ ε χ ω)) (w : ω)
    {answers : List (Except (MachineError σ ε) (Success σ ε))} {m : Machine σ ε χ ω} {w' : ω}
    (h : (start initial config).run calls w = (answers, m, w')) :
    m.history.Joins initial m.state ∧
    m.history.size = answers.countP hasExecuted ∧
    (∀ before after, calls = before ++ after →
      ((start initial config).run before w).2.1.history.records <+: m.history.records) ∧
    (∀ r ∈ m.history.records, ∃ t, m.table? = some t ∧ t.Leads r.source r.event r.target) ∧
    m.history.records.map TransitionRecord.passage = (start initial config).passages calls w ∧
    m.history.path =
      if ((start initial config).passages calls w).isEmpty then []
      else initial :: ((start initial config).passages calls w).map Passage.target := by
  have chronicled := (chronicled_start initial config).run calls w
  obtain ⟨records, hrecords, passages, count⟩ := records_run (start initial config) calls w
  rw [h] at chronicled hrecords count
  have hrecords : m.history.records = records := hrecords
  have targets : m.history.records.map TransitionRecord.target =
      ((start initial config).passages calls w).map Passage.target := by
    rw [hrecords, ← passages, List.map_map]
    rfl
  refine ⟨chronicled.joins, ?_, ?_, chronicled.backed, ?_, ?_⟩
  · rw [History.size, hrecords, count]
  · rintro before after rfl
    have grown := records_prefix_run (start initial config) before after w
    rw [h] at grown
    exact grown
  · rw [hrecords, passages]
  · rw [chronicled.joins.path_eq, History.isEmpty, targets, hrecords, ← passages, List.isEmpty_map]

end Machine

namespace Turnstile

/-- The turnstile is built, and two coins let somebody pass, who kicks it in between. -/
def visit : List (Call Gate Input Unit Notes) :=
  [.build (draft false) (here 15), .dispatch .sync .coin [], .dispatch .sync .kick [],
    .dispatch .sync .coin [], .dispatch .sync .pass []]

/-- The history tells of the coins and of the passing, but not of the kick. -/
theorem visit_told :
    ∃ answers m w', (Machine.start .locked {}).run visit [] = (answers, m, w') ∧
      m.history.path = [.locked, .unlocked, .unlocked, .locked] ∧
      ((Machine.start .locked {}).run (visit.take 2) []).2.1.history.records <+: m.history.records ∧
      ∃ t, m.table? = some t ∧ t.Leads .unlocked .pass .locked := by
  obtain ⟨answers, m, w', run⟩ : ∃ answers m w',
      (Machine.start .locked {}).run visit [] = (answers, m, w') := ⟨_, _, _, rfl⟩
  obtain ⟨-, -, earlier, backed, passages, path⟩ :=
    Machine.history_faithful Gate.locked {} visit [] run
  refine ⟨answers, m, w', run, ?_, earlier _ _ (List.take_append_drop 2 visit).symm, ?_⟩
  · rw [path]
    decide +kernel
  · have passed : ⟨.unlocked, .pass, .locked⟩ ∈ m.history.records.map TransitionRecord.passage := by
      rw [passages]
      decide +kernel
    obtain ⟨⟨_, _, _, time⟩, hr, he⟩ := List.mem_map.1 passed
    cases he
    exact backed _ hr

end Turnstile

end TableMachine
