import TableMachine.Proofs.Views
import TableMachine.Samples.Turnstile

/-!
# A table is built once

A *session* is a sequence of calls on one machine, each made in a world of its own
(`Machine.Session`): what happens to the world between two calls is left open. A run is a session in
which every call is made in the world that the call before has left (`Machine.session_turns`).

The first build that succeeds settles the table, and all other builds fail. A failed build leaves
the machine as it is, so failed builds can be left out of a session (`Machine.Session.thinned`). In
a run there are then fewer messages, which makes no difference to a machine that does not notice
them (`Machine.run_thinned`).

**Main statements.** Of the builds in a session at most one succeeds, which fixes table and place
for good, and those that fail leave no trace (`Machine.build_once`).
-/

namespace TableMachine

variable {σ ε χ ω τ : Type}

/-! ## Sessions -/

/-- Whether a call has built a table. -/
def hasBuilt : Except (MachineError σ ε) (Success σ ε) → Bool
  | .ok .built => true
  | _ => false

/-- A call, the world in which it is made, and what it answers. -/
structure Turn (σ ε χ ω : Type) where
  /-- The call. -/
  call : Call σ ε χ ω
  /-- The world in which the call is made. -/
  world : ω
  /-- The answer. -/
  answer : Except (MachineError σ ε) (Success σ ε)

namespace Turn

/-- Whether the call is to build a table, and fails. -/
def isFailedBuild (turn : Turn σ ε χ ω) : Bool :=
  match turn.call, turn.answer with
  | .build .., .error _ => true
  | _, _ => false

theorem isFailedBuild_iff {turn : Turn σ ε χ ω} :
    turn.isFailedBuild = true ↔
      ∃ draft location e, turn.call = .build draft location ∧ turn.answer = .error e := by
  unfold isFailedBuild
  constructor
  · intro h
    split at h
    · next draft location e hcall hanswer => exact ⟨draft, location, e, hcall, hanswer⟩
    · exact absurd h Bool.false_ne_true
  · rintro ⟨draft, location, e, hcall, hanswer⟩
    rw [hcall, hanswer]

/-- The turns kept are all but some failed builds. -/
inductive Thinned : List (Turn σ ε χ ω) → List (Turn σ ε χ ω) → Prop
  /-- There is nothing to keep. -/
  | nil : Thinned [] []
  /-- The first turn is kept. -/
  | keep (turn : Turn σ ε χ ω) {turns kept : List (Turn σ ε χ ω)} (others : Thinned turns kept) :
      Thinned (turn :: turns) (turn :: kept)
  /-- The first turn is a failed build and left out. -/
  | drop {turn : Turn σ ε χ ω} {turns kept : List (Turn σ ε χ ω)}
      (failed : turn.isFailedBuild = true) (others : Thinned turns kept) :
      Thinned (turn :: turns) kept

end Turn

namespace Machine

variable [DecidableEq σ] [DecidableEq ε] [State σ] [Event ε]

/-- The calls are made on the machine one after another, and lead to the last machine. -/
inductive Session : Machine σ ε χ ω → List (Turn σ ε χ ω) → Machine σ ε χ ω → Prop
  /-- No call is made. -/
  | nil (m : Machine σ ε χ ω) : Session m [] m
  /-- A call is made in its world, and the others on the machine after it. -/
  | cons {m last : Machine σ ε χ ω} {turn : Turn σ ε χ ω} {rest : List (Turn σ ε χ ω)}
      (answered : (m.call turn.call turn.world).answer = turn.answer)
      (others : Session (m.call turn.call turn.world).machine rest last) :
      Session m (turn :: rest) last

/-- The turns of a run: every call is made in the world that the call before has left. -/
def turns (m : Machine σ ε χ ω) : List (Call σ ε χ ω) → ω → List (Turn σ ε χ ω)
  | [], _ => []
  | c :: rest, w => ⟨c, w, (m.call c w).answer⟩ ::
      (m.call c w).machine.turns rest (m.call c w).world

/-- A run is a session. -/
theorem session_turns (m : Machine σ ε χ ω) (calls : List (Call σ ε χ ω)) (w : ω) :
    m.Session (m.turns calls w) (m.run calls w).2.1 := by
  induction calls generalizing m w with
  | nil => exact .nil m
  | cons c rest ih => exact .cons rfl (ih (m.call c w).machine (m.call c w).world)

variable {m last : Machine σ ε χ ω}

/-- Of a session the first part is one, and so is the second on the machine that the first has
left. -/
theorem Session.split {before after : List (Turn σ ε χ ω)} (h : m.Session (before ++ after) last) :
    ∃ mid, m.Session before mid ∧ mid.Session after last := by
  induction before generalizing m with
  | nil => exact ⟨m, .nil m, h⟩
  | cons turn rest ih =>
    obtain _ | ⟨answered, others⟩ := h
    obtain ⟨mid, hbefore, hafter⟩ := ih others
    exact ⟨mid, .cons answered hbefore, hafter⟩

/-- A session leads to one machine. -/
theorem Session.unique {turns : List (Turn σ ε χ ω)} {last' : Machine σ ε χ ω}
    (h : m.Session turns last) (h' : m.Session turns last') : last = last' := by
  induction h with
  | nil m =>
    cases h'
    rfl
  | cons _ _ ih =>
    obtain _ | ⟨-, others⟩ := h'
    exact ih others

/-- What each call keeps is kept by a session. -/
theorem Session.preserves {P : Machine σ ε χ ω → Prop} {turns : List (Turn σ ε χ ω)}
    (h : m.Session turns last) (step : ∀ m m' c answer, m.Advance c answer m' → P m → P m')
    (hm : P m) : P last := by
  induction h with
  | nil => exact hm
  | cons answered others ih => exact ih (step _ _ _ _ (advance_call _ _ _) hm)

/-! ## Single builds -/

/-- A build is refused if there is a table, and else comes to what compiling the draft does. -/
theorem build_cases (m : Machine σ ε χ ω) (draft : Draft σ ε χ ω) (location : Location) (w : ω) :
    (∃ first, m.builtAt? = some first ∧
      m.build draft location w = ⟨.error (.alreadyBuilt first location), m, w⟩) ∨
    (∃ failure, m.builtAt? = none ∧ draft.compile m.config.compile = .error failure ∧
      m.build draft location w =
        ⟨.error (.build failure), m, m.config.sink.warning failure.message w⟩) ∨
    ∃ t, m.builtAt? = none ∧ draft.compile m.config.compile = .ok t ∧
      m.build draft location w =
        ⟨.ok (), { m with table? := some t, builtAt? := some location },
          m.reportBuilt t location w⟩ := by
  unfold build
  split
  · next first built => exact Or.inl ⟨first, built, rfl⟩
  · next bare =>
    split
    · next failure failed => exact Or.inr (Or.inl ⟨failure, bare, failed, rfl⟩)
    · next t compiled => exact Or.inr (Or.inr ⟨t, bare, compiled, rfl⟩)

/-- A failed build leaves the machine as it is. Either the draft has faults and nothing was built,
or something was built already. -/
theorem build_of_error {draft : Draft σ ε χ ω} {location : Location} {w : ω} {e : MachineError σ ε}
    (h : (m.build draft location w).answer = .error e) :
    (m.build draft location w).machine = m ∧
      ((∃ failure, e = .build failure ∧ draft.compile m.config.compile = .error failure ∧
          m.builtAt? = none) ∨
        ∃ first, e = .alreadyBuilt first location ∧ m.builtAt? = some first) := by
  rcases build_cases m draft location w with
    ⟨first, built, refused⟩ | ⟨failure, bare, failed, refused⟩ | ⟨t, -, -, accepted⟩
  · rw [refused] at h
    exact ⟨by rw [refused], Or.inr ⟨first, (Except.error.inj h).symm, built⟩⟩
  · rw [refused] at h
    exact ⟨by rw [refused], Or.inl ⟨failure, (Except.error.inj h).symm, failed, bare⟩⟩
  · rw [accepted] at h
    cases h

/-- A successful build is the first, and installs the table of its draft. -/
theorem build_of_ok {draft : Draft σ ε χ ω} {location : Location} {w : ω}
    (h : (m.build draft location w).answer = .ok ()) :
    ∃ t, draft.compile m.config.compile = .ok t ∧
      (m.build draft location w).machine =
        { m with table? := some t, builtAt? := some location } := by
  rcases build_cases m draft location w with
    ⟨first, -, refused⟩ | ⟨failure, -, -, refused⟩ | ⟨t, -, compiled, accepted⟩
  · rw [refused] at h
    cases h
  · rw [refused] at h
    cases h
  · exact ⟨t, compiled, by rw [accepted]⟩

/-! ## Single calls -/

/-- A call to build comes to what the build does. -/
theorem call_build (m : Machine σ ε χ ω) (draft : Draft σ ε χ ω) (location : Location) (w : ω) :
    m.call (.build draft location) w = (m.build draft location w).map fun () => .built :=
  rfl

theorem answer_call_build_eq_error_iff {draft : Draft σ ε χ ω} {location : Location} {w : ω}
    {e : MachineError σ ε} :
    (m.call (.build draft location) w).answer = .error e ↔
      (m.build draft location w).answer = .error e := by
  rw [call_build, Reply.map]
  cases (m.build draft location w).answer with
  | error e' => simp [Except.map]
  | ok => simp [Except.map]

theorem answer_call_build_eq_ok_iff {draft : Draft σ ε χ ω} {location : Location} {w : ω} :
    (m.call (.build draft location) w).answer = .ok .built ↔
      (m.build draft location w).answer = .ok () := by
  rw [call_build, Reply.map]
  cases (m.build draft location w).answer with
  | error e' => simp [Except.map]
  | ok => simp [Except.map]

/-- Only a successful build installs a table, and only if there is none. -/
theorem isBuilt_call (hm : m.Placed) (c : Call σ ε χ ω) (w : ω) :
    (m.call c w).machine.isBuilt.toNat =
      m.isBuilt.toNat + (hasBuilt (m.call c w).answer).toNat := by
  cases c with
  | build draft location =>
    rw [call_build]
    rcases build_cases m draft location w with
      ⟨first, -, refused⟩ | ⟨failure, -, -, refused⟩ | ⟨t, bare, -, accepted⟩
    · rw [refused]
      rfl
    · rw [refused]
      rfl
    · have bare : m.isBuilt = false := by rw [isBuilt, hm, bare, Option.isSome_none]
      rw [accepted, bare]
      rfl
  | dispatch mode event values =>
    have handled : hasBuilt (m.call (.dispatch mode event values) w).answer = false := by
      change hasBuilt ((m.dispatch mode event values w).answer.map .handled) = false
      cases (m.dispatch mode event values w).answer with
      | error e => rfl
      | ok outcome => rfl
    rw [handled]
    exact congrArg (fun table? => table?.isSome.toNat) (dispatch_keeps m mode event values w).1

/-- A call that is a failed build leaves the machine as it is. -/
theorem call_of_isFailedBuild {turn : Turn σ ε χ ω} (failed : turn.isFailedBuild = true)
    (answered : (m.call turn.call turn.world).answer = turn.answer) :
    (m.call turn.call turn.world).machine = m := by
  obtain ⟨draft, location, e, hcall, hanswer⟩ := Turn.isFailedBuild_iff.1 failed
  rw [hcall, hanswer, answer_call_build_eq_error_iff] at answered
  rw [hcall]
  exact (build_of_error answered).1

/-! ## Builds in a session -/

/-- Table and place are recorded together. -/
theorem Session.placed {turns : List (Turn σ ε χ ω)} (h : m.Session turns last) (hm : m.Placed) :
    last.Placed :=
  h.preserves (fun _ _ _ _ step => step.placed) hm

/-- In a session the table is installed by the successful builds. -/
theorem Session.isBuilt {turns : List (Turn σ ε χ ω)} (h : m.Session turns last) (hm : m.Placed) :
    last.isBuilt.toNat = m.isBuilt.toNat + turns.countP fun turn => hasBuilt turn.answer := by
  induction h with
  | nil => rfl
  | @cons m last turn rest answered others ih =>
    rw [ih ((advance_call _ _ _).placed hm), isBuilt_call hm, answered, List.countP_cons]
    cases hasBuilt turn.answer with
    | true => exact Nat.add_right_comm _ _ _
    | false => rfl

/-- The configuration stays as it is. -/
theorem Session.config_eq {turns : List (Turn σ ε χ ω)} (h : m.Session turns last) :
    last.config = m.config := by
  refine h.preserves (P := fun m' => m'.config = m.config) ?_ rfl
  rintro _ _ _ _ (_ | _ | _) same
  · exact same
  · exact same
  · exact same

/-- Once a build has succeeded there is its table, at its place. -/
theorem Session.installed_of_built {before after : List (Turn σ ε χ ω)} {draft : Draft σ ε χ ω}
    {location : Location} {w : ω}
    (h : m.Session (before ++ ⟨.build draft location, w, .ok .built⟩ :: after) last) :
    ∃ t, draft.compile m.config.compile = .ok t ∧ last.table? = some t ∧
      last.builtAt? = some location := by
  obtain ⟨mid, hbefore, hafter⟩ := h.split
  obtain _ | ⟨answered, others⟩ := hafter
  obtain ⟨t, compiled, installed⟩ := build_of_ok (answer_call_build_eq_ok_iff.1 answered)
  have table : (mid.call (.build draft location) w).machine.table? = some t :=
    congrArg Machine.table? installed
  have place : (mid.call (.build draft location) w).machine.builtAt? = some location :=
    congrArg Machine.builtAt? installed
  refine ⟨t, hbefore.config_eq ▸ compiled, ?_⟩
  -- no later call installs another table over it
  refine others.preserves (P := fun m' => m'.table? = some t ∧ m'.builtAt? = some location) ?_
    ⟨table, place⟩
  rintro _ _ _ _ (_ | ⟨_, bare, _⟩ | _) built
  · exact built
  · rw [bare] at built
    cases built.2
  · exact built

/-- Failed builds can be left out of a session. -/
theorem Session.thinned {turns kept : List (Turn σ ε χ ω)} (h : m.Session turns last)
    (thinned : Turn.Thinned turns kept) : m.Session kept last := by
  induction thinned generalizing m with
  | nil => exact h
  | keep turn others ih =>
    obtain _ | ⟨answered, rest⟩ := h
    exact .cons answered (ih rest)
  | drop failed others ih =>
    obtain _ | ⟨answered, rest⟩ := h
    rw [call_of_isFailedBuild failed answered] at rest
    exact ih rest

/-- Failed builds can be left out of a run on a machine that does not notice messages. -/
theorem run_thinned {view : ω → τ} (hm : m.Respects view) {calls : List (Call σ ε χ ω)}
    (hcalls : ∀ c ∈ calls, c.Respects view) {w v : ω} (same : view w = view v)
    {kept : List (Turn σ ε χ ω)} (thinned : Turn.Thinned (m.turns calls w) kept) :
    ∃ v', m.run (kept.map Turn.call) v = (kept.map Turn.answer, (m.run calls w).2.1, v') ∧
      view (m.run calls w).2.2 = view v' := by
  induction calls generalizing m w v kept with
  | nil =>
    cases thinned
    exact ⟨v, rfl, same⟩
  | cons c rest ih =>
    have hrest : ∀ c ∈ rest, c.Respects view := fun c hc => hcalls c (List.mem_cons_of_mem _ hc)
    have next := (advance_call m c w).respects (hcalls c List.mem_cons_self) hm
    cases thinned with
    | keep _ others =>
      obtain ⟨answer, hseen⟩ := Prod.mk.inj (seen_call hm c same)
      obtain ⟨machine, worlds⟩ := Prod.mk.inj hseen
      obtain ⟨v', hrun, hview⟩ := ih next hrest worlds others
      refine ⟨v', ?_, hview⟩
      rw [List.map_cons, List.map_cons, run, ← machine, ← answer, hrun]
      rfl
    | drop failed others =>
      have unchanged : (m.call c w).machine = m := call_of_isFailedBuild failed rfl
      obtain ⟨draft, location, e, hcall, -⟩ := Turn.isFailedBuild_iff.1 failed
      obtain rfl : c = .build draft location := hcall
      -- all that the failed build leaves behind is a message
      have unnoticed := build_keeps hm.config.warning hm.config.debug draft location w
      obtain ⟨v', hrun, hview⟩ := ih next hrest (unnoticed.trans same) others
      refine ⟨v', Eq.trans ?_ hrun, hview⟩
      rw [unchanged]

/-- In any session of a new machine at most one build succeeds, and there are a table and its place
just if one has. Then the table is that of the draft built, with its warnings, and every further
build is refused at once, with both places. A build that fails leaves the machine as it is. So
failed builds can be left out of the session, and also of a run if the machine does not notice
messages. -/
theorem build_once {initial : σ} {config : Config ω} {turns : List (Turn σ ε χ ω)}
    {last : Machine σ ε χ ω} (h : (start initial config).Session turns last) :
    (turns.countP fun turn => hasBuilt turn.answer) ≤ 1 ∧
    (last.table?.isSome ↔ last.builtAt?.isSome) ∧
    (last.table?.isSome ↔ ∃ turn ∈ turns, hasBuilt turn.answer) ∧
    (∀ before after draft location w,
      turns = before ++ ⟨.build draft location, w, .ok .built⟩ :: after →
      ∃ t, draft.compile config.compile = .ok t ∧ last.table? = some t ∧
        last.warnings = t.warnings ∧ last.builtAt? = some location ∧
        ∀ draft' location' w', last.build draft' location' w' =
          ⟨.error (.alreadyBuilt location location'), last, w'⟩) ∧
    (∀ draft location w e, (last.build draft location w).answer = .error e →
      (last.build draft location w).machine = last ∧
        ((∃ failure, e = .build failure ∧ draft.compile config.compile = .error failure ∧
            last.table? = none ∧ last.builtAt? = none) ∨
          ∃ first, e = .alreadyBuilt first location ∧ last.builtAt? = some first)) ∧
    (∀ kept, Turn.Thinned turns kept → (start initial config).Session kept last) ∧
    ∀ (calls : List (Call σ ε χ ω)) (w : ω), turns = (start initial config).turns calls w →
      ∀ view : ω → τ, config.Respects view → (∀ c ∈ calls, c.Respects view) →
        ∀ kept, Turn.Thinned turns kept → ∀ v, view w = view v →
          ∃ v', (start initial config).run (kept.map Turn.call) v =
              (kept.map Turn.answer, last, v') ∧
            view ((start initial config).run calls w).2.2 = view v' := by
  have config_eq : last.config = config := h.config_eq
  have placed : last.Placed := h.placed (placed_start initial config)
  have count : last.isBuilt.toNat = turns.countP fun turn => hasBuilt turn.answer :=
    (h.isBuilt (placed_start initial config)).trans (Nat.zero_add _)
  refine ⟨?_, ?_, ?_, ?_, ?_, fun kept thinned => h.thinned thinned, ?_⟩
  · rw [← count]
    exact Bool.toNat_le _
  · rw [placed]
  · change last.isBuilt ↔ _
    rw [← List.countP_pos_iff, ← count]
    cases last.isBuilt with
    | true => simp
    | false => simp
  · rintro before after draft location w rfl
    obtain ⟨t, compiled, table, place⟩ := h.installed_of_built
    refine ⟨t, compiled, table, ?_, place, ?_⟩
    · rw [warnings, table]
      rfl
    · intro draft' location' w'
      rw [build, place]
  · intro draft location w e failed
    obtain ⟨kept, ⟨failure, he, faulty, bare⟩ | refused⟩ := build_of_error failed
    · exact ⟨kept, Or.inl ⟨failure, he, config_eq ▸ faulty, placed.table?_eq_none bare, bare⟩⟩
    · exact ⟨kept, Or.inr refused⟩
  · rintro calls w rfl view hconfig hcalls kept thinned v same
    have respects : (start initial config : Machine σ ε χ ω).Respects view :=
      ⟨fun t ht => absurd ht (Option.not_mem_none t), hconfig⟩
    obtain rfl := h.unique (session_turns _ calls w)
    exact run_thinned respects hcalls same thinned

end Machine

namespace Turnstile

/-- A log of messages, and the number of coins taken. -/
abbrev Till :=
  Notes × Nat

/-- Writes a message into the log. -/
def Till.log (message : String) (w : Till) : Till :=
  (w.1 ++ [message], w.2)

/-- All messages go to the log. -/
def logging : Config Till where
  sink := ⟨Till.log, Till.log, Till.log⟩

/-- A coin that leads to some state. -/
def coinTo (next : Gate) (line : Nat) : Rule Gate Input Unit Till where
  state := .locked
  event := .coin
  next
  location := here line

/-- Only one coin is taken. -/
def singleCoin : Draft Gate Input Unit Till :=
  .ofRules [{ coinTo .unlocked 39 with
    guard? := some (.reading fun w => w.2 = 0)
    actions := [.plain fun _ w => (.ok (), w.1, w.2 + 1)] }]

/-- A coin leads to two states. -/
def splitCoin : Draft Gate Input Unit Till :=
  .ofRules [coinTo .unlocked 40, coinTo .broken 41]

/-- A table cannot be built, another one is built, but not twice, and a coin is put in. -/
def attempts : List (Call Gate Input Unit Till) :=
  [.build splitCoin (here 42), .build singleCoin (here 43), .build singleCoin (here 44),
    .dispatch .sync .coin []]

theorem attempts_respect : ∀ c ∈ attempts, c.Respects Prod.snd := by
  have single : Rule.Respect Prod.snd singleCoin.rules singleCoin.entry singleCoin.exit := by
    refine ⟨?_, ?_, fun _ h => absurd h List.not_mem_nil, fun _ h => absurd h List.not_mem_nil⟩
    · intro rule hrule guard hguard w v same
      obtain rfl := List.mem_singleton.1 hrule
      obtain rfl := Option.some.inj hguard
      exact Prod.ext (congrArg (fun coins => decide (coins = 0)) same) same
    · intro rule hrule action haction mode event w v same
      obtain rfl := List.mem_singleton.1 hrule
      obtain rfl := List.mem_singleton.1 haction
      exact Prod.ext rfl (congrArg (· + 1) same)
  have split : Rule.Respect Prod.snd splitCoin.rules splitCoin.entry splitCoin.exit := by
    have plain : ∀ rule ∈ splitCoin.rules, rule.guard? = none ∧ rule.actions = [] := by
      unfold splitCoin Draft.ofRules
      rw [List.forall_mem_cons, List.forall_mem_singleton]
      exact ⟨⟨rfl, rfl⟩, rfl, rfl⟩
    refine ⟨?_, ?_, fun _ h => absurd h List.not_mem_nil, fun _ h => absurd h List.not_mem_nil⟩
    · intro rule hrule guard hguard
      rw [(plain rule hrule).1] at hguard
      exact absurd hguard.symm (Option.some_ne_none guard)
    · intro rule hrule action haction
      rw [(plain rule hrule).2] at haction
      exact absurd haction List.not_mem_nil
  unfold attempts
  rw [List.forall_mem_cons, List.forall_mem_cons, List.forall_mem_cons, List.forall_mem_singleton]
  exact ⟨split, single, single, trivial⟩

/-- Without the two builds that fail, the other two calls give the same answers and the same
turnstile. -/
theorem attempts_builtAt :
    ∃ turns last, (Machine.start .locked logging).Session turns last ∧ turns.length = 4 ∧
      last.builtAt? = some (here 43) ∧
      ∃ v', (Machine.start .locked logging).run
          [.build singleCoin (here 43), .dispatch .sync .coin []] ([], 0) =
        ([.ok .built, .ok (.handled (.executed .locked .unlocked .coin))], last, v') := by
  have session := Machine.session_turns (Machine.start .locked logging) attempts ([], 0)
  obtain ⟨-, -, -, built, -, -, thinned⟩ := Machine.build_once (τ := Nat) session
  have respects : logging.Respects Prod.snd :=
    ⟨fun _ _ _ => rfl, fun _ _ => rfl, fun _ _ => rfl, fun _ _ => rfl⟩
  obtain ⟨t, -, -, -, place, -⟩ := built [_] _ singleCoin (here 43) _ rfl
  obtain ⟨v', run, -⟩ := thinned attempts ([], 0) rfl Prod.snd respects attempts_respect _
    (.drop rfl (.keep _ (.drop rfl (.keep _ .nil)))) ([], 0) rfl
  exact ⟨_, _, session, rfl, place, v', run⟩

end Turnstile

end TableMachine
