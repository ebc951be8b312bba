import TableMachine.Behaviour.Action

/-!
# What a chain of actions comes to

A chain *succeeds* if each action does so in the world that the one before it left
(`Action.Succeed`). `Action.runChain` gets to the end of such a chain (`Action.runChain_eq_ok_iff`).
It fails exactly at an action before which the chain succeeds, with the error of this action, and no
action after it is run (`Action.runChain_eq_error_iff`).
-/

namespace TableMachine.Action

variable {ε χ ω : Type} {mode : Mode χ} {event : ε}

/-- The actions succeed one after another, which takes the first world to the second. -/
inductive Succeed (mode : Mode χ) (event : ε) : List (Action ε χ ω) → ω → ω → Prop
  /-- Nothing is to be done. -/
  | nil (w : ω) : Succeed mode event [] w w
  /-- The first action succeeds, and the others do so after it. -/
  | cons {action : Action ε χ ω} {rest : List (Action ε χ ω)} {w w₁ w₂ : ω}
      (first : action.run mode event w = (.ok (), w₁)) (others : Succeed mode event rest w₁ w₂) :
      Succeed mode event (action :: rest) w w₂

theorem runChain_eq_ok_iff {chain : List (Action ε χ ω)} {w w' : ω} :
    runChain mode event chain w = (.ok (), w') ↔ Succeed mode event chain w w' := by
  induction chain generalizing w with
  | nil =>
    refine ⟨fun h => ?_, fun h => ?_⟩
    · obtain rfl : w = w' := (Prod.mk.inj h).2
      exact .nil w
    · cases h
      rfl
  | cons action rest ih =>
    rw [runChain]
    refine ⟨fun h => ?_, fun h => ?_⟩
    · split at h
      · next w₁ hrun => exact .cons hrun (ih.1 h)
      · next hrun => simp at h
    · rcases h with _ | ⟨hrun, hrest⟩
      rw [hrun]
      exact ih.2 hrest

/-- A chain fails at the first action that fails, and only the actions before it were run. -/
theorem runChain_eq_error_iff {chain : List (Action ε χ ω)} {w w' : ω} {cause : ActionError} :
    runChain mode event chain w = (.error cause, w') ↔
      ∃ before action after w₁, chain = before ++ action :: after ∧
        Succeed mode event before w w₁ ∧ action.run mode event w₁ = (.error cause, w') := by
  induction chain generalizing w with
  | nil => simp [runChain]
  | cons action rest ih =>
    rw [runChain]
    refine ⟨fun h => ?_, ?_⟩
    · split at h
      · next w₁ hrun =>
        obtain ⟨before, failing, after, w₂, rfl, hbefore, hfail⟩ := ih.1 h
        exact ⟨action :: before, failing, after, w₂, rfl, .cons hrun hbefore, hfail⟩
      · next e w₁ hrun =>
        obtain ⟨he, rfl⟩ := Prod.mk.inj h
        obtain rfl := Except.error.inj he
        exact ⟨[], action, rest, w, rfl, .nil w, hrun⟩
    · rintro ⟨before, failing, after, w₂, hsplit, hbefore, hfail⟩
      rcases hbefore with _ | ⟨hrun, hothers⟩
      · obtain ⟨rfl, rfl⟩ := List.cons.inj hsplit
        rw [hfail]
      · obtain ⟨rfl, rfl⟩ := List.cons.inj hsplit
        rw [hrun]
        exact ih.2 ⟨_, failing, after, w₂, rfl, hothers, hfail⟩

end TableMachine.Action
