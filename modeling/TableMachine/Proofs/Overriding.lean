import Mathlib.Tactic.ByContra
import TableMachine.Table.Survivors

/-!
# What overriding does to a list of rules

The rules that survive are some of those declared, in the order of declaration
(`Rule.survivors_sublist`). Whether a rule does so is up to the rules after it alone
(`Rule.survivors_append`), and overriding rules always do (`Rule.filter_overriding_survivors`). An
overriding rule is idle exactly if it replaces none of the rules before it (`Rule.idle_eq_nil_iff`).
Where no rule is overriding, all survive and none is idle.
-/

namespace TableMachine

namespace Rule

variable {σ ε χ ω : Type}

/-- Every overriding rule replaces some rule that is declared before it. -/
def AllReplace (rules : List (Rule σ ε χ ω)) : Prop :=
  ∀ earlier r later, rules = earlier ++ r :: later → r.overriding →
    ∃ e ∈ earlier, r.Replaces e

/-- Without overriding rules none is idle. -/
theorem allReplace_of_not_overriding {rules : List (Rule σ ε χ ω)}
    (h : ∀ r ∈ rules, r.overriding = false) : AllReplace rules := by
  intro earlier r later hsplit hr
  rw [h r (by rw [hsplit]; simp)] at hr
  exact absurd hr Bool.false_ne_true

variable [DecidableEq σ] [DecidableEq ε]

/-- Overriding drops rules and changes nothing else. -/
theorem survivors_sublist (rules : List (Rule σ ε χ ω)) : (survivors rules).Sublist rules := by
  induction rules with
  | nil => exact List.Sublist.refl _
  | cons r later ih =>
    rw [survivors]
    by_cases h : ∃ o ∈ later, o.Replaces r
    · rw [if_pos h]
      exact ih.cons r
    · rw [if_neg h]
      exact ih.cons_cons r

/-- Without overriding rules all rules survive. -/
theorem survivors_eq_self {rules : List (Rule σ ε χ ω)} (h : ∀ r ∈ rules, r.overriding = false) :
    survivors rules = rules := by
  induction rules with
  | nil => rfl
  | cons r later ih =>
    have none : ¬∃ o ∈ later, o.Replaces r := by
      rintro ⟨o, ho, hor⟩
      have hov : o.overriding = true := hor.1
      rw [h o (List.mem_cons_of_mem r ho)] at hov
      exact Bool.false_ne_true hov
    rw [survivors, if_neg none, ih fun q hq => h q (List.mem_cons_of_mem r hq)]

/-- Of two parts of a list the second keeps its survivors, and the first those that no rule of the
second replaces. -/
theorem survivors_append (before later : List (Rule σ ε χ ω)) :
    survivors (before ++ later) =
      (survivors before).filter (fun r => ¬∃ o ∈ later, o.Replaces r) ++ survivors later := by
  induction before with
  | nil => rfl
  | cons r rest ih =>
    rw [List.cons_append, survivors, survivors, ih]
    simp only [List.mem_append, or_and_right, exists_or]
    by_cases hrest : ∃ o ∈ rest, o.Replaces r
    · rw [if_pos (Or.inl hrest), if_pos hrest]
    · by_cases hlater : ∃ o ∈ later, o.Replaces r
      · rw [if_pos (Or.inr hlater), if_neg hrest, List.filter_cons_of_neg (by simpa using hlater)]
      · rw [if_neg (not_or_intro hrest hlater), if_neg hrest,
          List.filter_cons_of_pos (by simpa using hlater), List.cons_append]

/-- A rule that a later one replaces is dropped: what survives is among the other rules. -/
theorem survivors_sublist_of_replaced {before later : List (Rule σ ε χ ω)} {r o : Rule σ ε χ ω}
    (ho : o ∈ later) (h : o.Replaces r) :
    (survivors (before ++ r :: later)).Sublist (before ++ later) := by
  rw [survivors_append, survivors, if_pos ⟨o, ho, h⟩]
  exact (List.filter_sublist.trans (survivors_sublist before)).append (survivors_sublist later)

/-- Overriding rules are not replaced, whatever comes after them. -/
theorem filter_overriding_survivors (rules : List (Rule σ ε χ ω)) :
    (survivors rules).filter overriding = rules.filter overriding := by
  induction rules with
  | nil => rfl
  | cons r later ih =>
    rw [survivors]
    by_cases h : ∃ o ∈ later, o.Replaces r
    · have plain : ¬r.overriding = true := by
        obtain ⟨o, -, hor⟩ := h
        exact hor.2.1
      rw [if_pos h, ih, List.filter_cons_of_neg plain]
    · rw [if_neg h, List.filter_cons, List.filter_cons, ih]

/-- An overriding rule is idle if it replaces neither one of `earlier` nor one before it. -/
theorem idleAfter_eq_nil_iff {earlier rules : List (Rule σ ε χ ω)} :
    idleAfter earlier rules = [] ↔
      ∀ before r later, rules = before ++ r :: later → r.overriding →
        ∃ e, (e ∈ earlier ∨ e ∈ before) ∧ r.Replaces e := by
  induction rules generalizing earlier with
  | nil =>
    constructor
    · intro _ before r later h
      simp at h
    · intro _
      rfl
  | cons q rest ih =>
    rw [idleAfter]
    constructor
    · intro h before r later hsplit hr
      by_cases hq : q.overriding ∧ ¬∃ e ∈ earlier, q.Replaces e
      · rw [if_pos hq] at h
        simp at h
      · rw [if_neg hq] at h
        cases before with
        | nil =>
          obtain ⟨rfl, rfl⟩ : q = r ∧ rest = later := by simpa using hsplit
          obtain ⟨e, he, hre⟩ : ∃ e ∈ earlier, q.Replaces e := by
            by_contra hn
            exact hq ⟨hr, hn⟩
          exact ⟨e, Or.inl he, hre⟩
        | cons b before =>
          obtain ⟨rfl, hrest⟩ : q = b ∧ rest = before ++ r :: later := by simpa using hsplit
          obtain ⟨e, he, hre⟩ := ih.1 h before r later hrest hr
          refine ⟨e, ?_, hre⟩
          rcases he with he | he
          · rcases List.mem_cons.1 he with rfl | he
            · exact Or.inr List.mem_cons_self
            · exact Or.inl he
          · exact Or.inr (List.mem_cons_of_mem _ he)
    · intro h
      have hq : ¬(q.overriding ∧ ¬∃ e ∈ earlier, q.Replaces e) := by
        rintro ⟨hov, hn⟩
        obtain ⟨e, he, hqe⟩ := h [] q rest rfl hov
        rcases he with he | he
        · exact hn ⟨e, he, hqe⟩
        · simp at he
      rw [if_neg hq, ih]
      intro before r later hrest hr
      obtain ⟨e, he, hre⟩ := h (q :: before) r later (by rw [hrest, List.cons_append]) hr
      refine ⟨e, ?_, hre⟩
      rcases he with he | he
      · exact Or.inl (List.mem_cons_of_mem q he)
      · rcases List.mem_cons.1 he with rfl | he
        · exact Or.inl List.mem_cons_self
        · exact Or.inr he

theorem idle_eq_nil_iff {rules : List (Rule σ ε χ ω)} : idle rules = [] ↔ AllReplace rules := by
  rw [idle, idleAfter_eq_nil_iff]
  unfold AllReplace
  simp

end Rule

end TableMachine
