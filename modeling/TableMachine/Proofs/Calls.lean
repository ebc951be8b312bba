import TableMachine.Machine.Run
import TableMachine.Proofs.Handling

/-!
# What calls do to a machine

A call leaves the machine as it is, installs the first table, or moves along a rule that the table
finds (`Machine.advance_call`); `Machine.Advance` has one constructor for each. What every such step
keeps is kept by a run (`Machine.run_preserves`).
-/

namespace TableMachine

variable {σ ε χ ω : Type} [DecidableEq σ] [DecidableEq ε] [Event ε]

/-- Whether a call has executed a transition. -/
def hasExecuted : Except (MachineError σ ε) (Success σ ε) → Bool
  | .ok (.handled outcome) => outcome.isExecuted
  | _ => false

namespace Machine

variable {m m' : Machine σ ε χ ω} {c : Call σ ε χ ω}
  {answer : Except (MachineError σ ε) (Success σ ε)}

/-! ## Single calls -/

/-- What a call may answer, and what may become of the machine. -/
inductive Advance (m : Machine σ ε χ ω) :
    Call σ ε χ ω → Except (MachineError σ ε) (Success σ ε) → Machine σ ε χ ω → Prop
  /-- Nothing is executed, and the machine stays as it is. -/
  | stay {c : Call σ ε χ ω} {answer : Except (MachineError σ ε) (Success σ ε)}
      (idle : hasExecuted answer = false) : m.Advance c answer m
  /-- The first table is installed. -/
  | install {draft : Draft σ ε χ ω} {location : Location} (t : DispatchTable σ ε χ ω)
      (bare : m.builtAt? = none) (compiled : draft.compile m.config.compile = .ok t) :
      m.Advance (.build draft location) (.ok .built)
        { m with table? := some t, builtAt? := some location }
  /-- The machine moves along the rule that its table finds. -/
  | move {mode : Mode χ} {event : ε} {values : List Value} {t : DispatchTable σ ε χ ω}
      {rule : Rule σ ε χ ω} (time : Timestamp) (selected : m.Selects event values t rule) :
      m.Advance (.dispatch mode event values) (.ok (.handled (.executed m.state rule.next event)))
        (m.moved rule.next event time)

/-- There is a table just if it is recorded where one was built. -/
def Placed (m : Machine σ ε χ ω) : Prop :=
  m.table?.isSome = m.builtAt?.isSome

omit [DecidableEq σ] [DecidableEq ε] [Event ε] in
theorem placed_start (initial : σ) (config : Config ω) :
    (start initial config : Machine σ ε χ ω).Placed :=
  rfl

omit [DecidableEq σ] [DecidableEq ε] [Event ε] in
theorem Placed.table?_eq_none (h : m.Placed) (bare : m.builtAt? = none) : m.table? = none := by
  rw [Placed, bare] at h
  exact Option.isNone_iff_eq_none.1 (Option.isSome_eq_false_iff.1 h)

/-- Table and place are recorded together. -/
theorem Advance.placed (h : m.Advance c answer m') (hm : m.Placed) : m'.Placed := by
  cases h with
  | stay | move => exact hm
  | install => rfl

/-- An installed table stays. -/
theorem Advance.table_eq (h : m.Advance c answer m') (hm : m.Placed) {t : DispatchTable σ ε χ ω}
    (ht : m.table? = some t) : m'.table? = some t := by
  cases h with
  | stay | move => exact ht
  | install t' bare =>
    rw [hm.table?_eq_none bare] at ht
    exact absurd ht (Option.not_mem_none t)

variable [State σ]

/-- Every call stays, installs or moves. -/
theorem advance_call (m : Machine σ ε χ ω) (c : Call σ ε χ ω) (w : ω) :
    m.Advance c (m.call c w).answer (m.call c w).machine := by
  cases c with
  | build draft location =>
    change m.Advance _ ((m.build draft location w).answer.map _) (m.build draft location w).machine
    unfold build
    split
    · exact .stay rfl
    · next bare =>
      split
      · exact .stay rfl
      · next t compiled => exact .install t bare compiled
  | dispatch mode event values =>
    change m.Advance _ ((m.dispatch mode event values w).answer.map _)
      (m.dispatch mode event values w).machine
    rcases dispatch_cases m mode event values w with
      ⟨kept, idle⟩ | ⟨t, rule, time, selected, ha, hm⟩
    · rw [kept]
      refine .stay ?_
      cases answer : (m.dispatch mode event values w).answer with
      | error e => rfl
      | ok outcome => exact idle outcome answer
    · rw [ha, hm]
      exact .move time selected

/-! ## Building -/

/-- What no message changes stays as it is while a table is built. -/
theorem build_keeps {α : Type} {f : ω → α}
    (warning : ∀ message w, f (m.config.sink.warning message w) = f w)
    (debug : ∀ message w, f (m.config.sink.debug message w) = f w) (draft : Draft σ ε χ ω)
    (location : Location) (w : ω) : f (m.build draft location w).world = f w := by
  have warned : ∀ (faults : List (Fault σ ε)) w,
      f (faults.foldl (fun w fault => m.config.sink.warning fault.message w) w) = f w := by
    intro faults
    induction faults with
    | nil => exact fun w => rfl
    | cons fault rest ih => exact fun w => (ih _).trans (warning _ w)
  unfold build
  split
  · rfl
  · split
    · exact warning _ w
    · exact (debug _ _).trans (warned _ w)

/-! ## Runs -/

/-- Further calls are made on the machine and in the world that the calls before have left. -/
theorem run_append (m : Machine σ ε χ ω) (before after : List (Call σ ε χ ω)) (w : ω) :
    (m.run (before ++ after) w).2 = ((m.run before w).2.1.run after (m.run before w).2.2).2 := by
  induction before generalizing m w with
  | nil => rfl
  | cons c rest ih => exact ih (m.call c w).machine (m.call c w).world

/-- What each of the calls keeps is kept by the run. -/
theorem run_preserves {P : Machine σ ε χ ω → Prop} {calls : List (Call σ ε χ ω)}
    (step : ∀ m m' answer, ∀ c ∈ calls, m.Advance c answer m' → P m → P m') (hm : P m) (w : ω) :
    P (m.run calls w).2.1 := by
  induction calls generalizing m w with
  | nil => exact hm
  | cons c rest ih =>
    have next := step _ _ _ c List.mem_cons_self (advance_call m c w) hm
    exact ih (fun m m' answer c hc => step m m' answer c (List.mem_cons_of_mem _ hc)) next _

end Machine

end TableMachine
