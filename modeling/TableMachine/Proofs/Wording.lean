import TableMachine.Condition.Lemmas
import TableMachine.Machine.Message
import TableMachine.Table.Fault
import Mathlib.Data.List.Forall2

/-!
# What messages tell

A text *mentions* what stands in it in one piece (`Text.Mentions`). What the text of a message has
to mention is said here by what the message is about, and not by how the message is put together: of
a value its family and label, of a place its file and line, of a rule its state, event, next state,
place, values and guard (`Summary.NamedIn`), of a fault all that it carries (`Fault.ToldIn`), and of
a failed build one fault after another (`BuildFailure.ToldIn`).

**Main statements.** Rules, faults and failed builds are worded so that nothing is left out
(`Summary.namedIn_text`, `Fault.toldIn_message`, `BuildFailure.toldIn_message`).
-/

namespace TableMachine

/-! ## Texts in texts -/

/-- The part stands in the text in one piece. -/
def Text.Mentions (text part : String) : Prop :=
  ∃ before after, text = before ++ part ++ after

namespace Text

variable {s t part : String}

theorem Mentions.refl (t : String) : Mentions t t :=
  ⟨"", "", by rw [String.empty_append, String.append_empty]⟩

theorem Mentions.trans (hs : Mentions s t) (ht : Mentions t part) : Mentions s part := by
  obtain ⟨before, after, rfl⟩ := hs
  obtain ⟨inner, rest, rfl⟩ := ht
  exact ⟨before ++ inner, rest ++ after, by simp only [String.append_assoc]⟩

theorem mentions_append_left (s t : String) : Mentions (s ++ t) s :=
  ⟨"", t, by rw [String.empty_append]⟩

theorem mentions_append_right (s t : String) : Mentions (s ++ t) t :=
  ⟨s, "", by rw [String.append_empty]⟩

/-- What stands in the first of two texts stands in both together. -/
theorem Mentions.append_left (h : Mentions s part) (t : String) : Mentions (s ++ t) part :=
  (mentions_append_left s t).trans h

/-- What stands in the second of two texts stands in both together. -/
theorem Mentions.append_right (h : Mentions t part) (s : String) : Mentions (s ++ t) part :=
  (mentions_append_right s t).trans h

theorem append_of_eq_append {s a b : String} (h : s = a ++ b) (t : String) :
    s ++ t = a ++ (b ++ t) := by
  rw [h, String.append_assoc]

theorem mentions_join {items : List String} (h : t ∈ items) : Mentions (String.join items) t := by
  induction items with
  | nil => exact absurd h List.not_mem_nil
  | cons item rest ih =>
    rw [String.join_cons]
    rcases List.mem_cons.1 h with rfl | later
    · exact mentions_append_left t _
    · exact (ih later).append_right item

/-- A text that is put together of parts mentions each of them. -/
theorem mentions_of_eq_join {items : List String} (h : t = String.join items)
    (hpart : part ∈ items) : Mentions t part :=
  h ▸ mentions_join hpart

theorem mentions_joined {separator : String} {items : List String} (h : t ∈ items) :
    Mentions (joined separator items) t := by
  unfold joined
  induction items with
  | nil => exact absurd h List.not_mem_nil
  | cons item rest ih =>
    by_cases last : rest = []
    · subst last
      obtain rfl := List.mem_singleton.1 h
      rw [String.intercalate_singleton]
      exact .refl t
    · rw [String.intercalate_cons_of_ne_nil last]
      rcases List.mem_cons.1 h with rfl | later
      · exact (mentions_append_left t separator).append_left _
      · exact (ih later).append_right _

theorem mentions_bracketed {items : List String} (h : t ∈ items) :
    Mentions (bracketed items) t :=
  ((mentions_joined h).append_right "[").append_left "]"

end Text

open Text

/-! ## Values and places -/

/-- The text names a value by family and label. -/
def Value.NamedIn (v : Value) (text : String) : Prop :=
  Mentions text (v.family.name ++ "." ++ v.label)

/-- The text names a place by file and line. -/
def Location.NamedIn (l : Location) (text : String) : Prop :=
  Mentions text (l.file ++ ":" ++ toString l.number)

theorem Value.NamedIn.trans {v : Value} {s t : String} (h : v.NamedIn t) (hs : Mentions s t) :
    v.NamedIn s :=
  Mentions.trans hs h

/-- A combination is worded with all its values. -/
theorem Combination.namedIn_text {c : Combination} {v : Value} (hv : v ∈ c) : v.NamedIn c.text :=
  mentions_bracketed (List.mem_map_of_mem hv)

/-- A condition that mentions a value is not trivial. -/
theorem Condition.isTrivial_of_mem_values {m : Condition} {v : Value} (hv : v ∈ m.values) :
    m.isTrivial = false := by
  have full : ∀ c : Combination, v ∈ c → c.isEmpty = false := fun c hc =>
    List.isEmpty_eq_false_iff.2 (List.ne_nil_of_mem hc)
  rw [isTrivial, Bool.and_eq_false_iff]
  rcases mem_values.1 hv with required | ⟨a, ha, alternative⟩
  · exact Or.inl (full _ required)
  · exact Or.inr (List.all_eq_false.2 ⟨a, ha, by rw [full a alternative]; exact Bool.false_ne_true⟩)

/-- A condition is worded with all its values. -/
theorem Condition.namedIn_text {m : Condition} {v : Value} (hv : v ∈ m.values) :
    v.NamedIn m.text := by
  rw [text, if_neg (by rw [isTrivial_of_mem_values hv]; exact Bool.false_ne_true)]
  dsimp only
  rcases mem_values.1 hv with required | ⟨a, ha, alternative⟩
  · have demanding : m.required.isEmpty = false :=
      List.isEmpty_eq_false_iff.2 (List.ne_nil_of_mem required)
    rw [demanding]
    exact (Combination.namedIn_text required).trans <|
      (mentions_joined (List.mem_append_left _ (List.mem_singleton_self _))).trans
        (mentions_append_right "all: " _)
  · have choosing : m.alternatives.isEmpty = false :=
      List.isEmpty_eq_false_iff.2 (List.ne_nil_of_mem ha)
    rw [choosing]
    exact (Combination.namedIn_text alternative).trans <|
      (mentions_joined (List.mem_append_right _ (List.mem_singleton_self _))).trans <|
        (mentions_joined (List.mem_map_of_mem ha)).append_right "any: "

/-! ## Rules -/

section

variable {σ ε : Type} [State σ] [Event ε]

/-- The text names a rule. -/
structure Summary.NamedIn (s : Summary σ ε) (text : String) : Prop where
  /-- It names the state. -/
  state : Mentions text ("define(" ++ State.name s.state ++ ")")
  /-- It names the event. -/
  event : Mentions text ("when(" ++ Event.text s.event ++ ")")
  /-- It names the next state. -/
  next : Mentions text ("then(" ++ State.name s.next ++ ")")
  /-- It names the place. -/
  place : s.location.NamedIn text
  /-- It names the values of the condition. -/
  values : ∀ v ∈ s.condition.values, v.NamedIn text
  /-- It says that there is a guard, if there is one. -/
  guarded : s.conditional = true → Mentions text "condition"

theorem Summary.NamedIn.trans {r : Summary σ ε} {s t : String} (h : r.NamedIn t)
    (hs : Mentions s t) : r.NamedIn s where
  state := hs.trans h.state
  event := hs.trans h.event
  next := hs.trans h.next
  place := Mentions.trans hs h.place
  values v hv := (h.values v hv).trans hs
  guarded bound := hs.trans (h.guarded bound)

/-- The parts of a rule's text. -/
theorem Summary.text_eq_join (s : Summary σ ε) :
    s.text = String.join [
      "\x7b ", "define(" ++ State.name s.state ++ ")",
      if s.condition.isTrivial then "" else " | matching(" ++ s.condition.text ++ ")",
      if s.conditional then " | condition" else "",
      " | ", "when(" ++ Event.text s.event ++ ")",
      " | ", "then(" ++ State.name s.next ++ ")",
      " \x7d at ", s.location.text] := by
  have opening := append_of_eq_append (by decide : "\x7b define(" = "\x7b " ++ "define(")
  have onEvent := append_of_eq_append (by decide : " | when(" = " | " ++ "when(")
  have ending := append_of_eq_append (by decide : ") | then(" = ")" ++ " | then(")
  have leading := append_of_eq_append (by decide : " | then(" = " | " ++ "then(")
  have closing := append_of_eq_append (by decide : ") \x7d at " = ")" ++ " \x7d at ")
  calc s.text
    _ = "\x7b define(" ++ State.name s.state ++ ")"
        ++ (if s.condition.isTrivial then "" else " | matching(" ++ s.condition.text ++ ")")
        ++ (if s.conditional then " | condition" else "")
        ++ " | when(" ++ Event.text s.event ++ ") | then(" ++ State.name s.next ++ ") \x7d at "
        ++ s.location.text := rfl
    _ = _ := by
      simp only [String.join_cons, String.join_nil, String.append_assoc, String.append_empty,
        opening, onEvent, ending, leading, closing]

/-- A rule is worded with all that belongs to it. -/
theorem Summary.namedIn_text (s : Summary σ ε) : s.NamedIn s.text where
  state := mentions_of_eq_join s.text_eq_join (by simp)
  event := mentions_of_eq_join s.text_eq_join (by simp)
  next := mentions_of_eq_join s.text_eq_join (by simp)
  place := (mentions_of_eq_join s.text_eq_join (by simp) : Mentions s.text s.location.text)
  values v hv := by
    have worded : Mentions s.text (" | matching(" ++ s.condition.text ++ ")") :=
      mentions_of_eq_join s.text_eq_join (by simp [Condition.isTrivial_of_mem_values hv])
    exact (Condition.namedIn_text hv).trans <|
      worded.trans ((mentions_append_right _ s.condition.text).append_left ")")
  guarded bound := by
    have worded : Mentions s.text " | condition" :=
      mentions_of_eq_join s.text_eq_join (by simp [bound])
    exact worded.trans ⟨" | ", "", by decide⟩

/-- Rules on lines of their own are all named. -/
theorem Summary.namedIn_lines {rules : List (Summary σ ε)} {r : Summary σ ε} (h : r ∈ rules) :
    r.NamedIn (lines rules) :=
  r.namedIn_text.trans <|
    (mentions_join (List.mem_map_of_mem h)).trans (mentions_append_right "\n    " r.text)

/-- Rules in groups are all named. -/
theorem Summary.namedIn_groupLines {groups : List (List (Summary σ ε))}
    {group : List (Summary σ ε)} (hgroup : group ∈ groups) {r : Summary σ ε} (h : r ∈ group) :
    r.NamedIn (groupLines groups) :=
  (namedIn_lines h).trans (mentions_joined (List.mem_map_of_mem hgroup))

/-! ## Faults -/

/-- The text tells of a contested key: its state, event and values, and the rules that meet
there. -/
structure Contest.ToldIn (c : Contest σ ε) (text : String) : Prop where
  /-- It names the state. -/
  state : Mentions text (State.name c.state)
  /-- It names the event. -/
  event : Mentions text (Event.text c.event)
  /-- It names the values. -/
  values : ∀ v ∈ c.combination, v.NamedIn text
  /-- It names the rules. -/
  rules : ∀ r ∈ c.rules, r.NamedIn text

theorem Contest.ToldIn.trans {c : Contest σ ε} {s t : String} (h : c.ToldIn t)
    (hs : Mentions s t) : c.ToldIn s where
  state := hs.trans h.state
  event := hs.trans h.event
  values v hv := (h.values v hv).trans hs
  rules r hr := (h.rules r hr).trans hs

/-- A contested key is worded with all that belongs to it. -/
theorem Contest.toldIn_lines (c : Contest σ ε) : c.ToldIn c.lines := by
  have worded : c.lines = String.join ["\n  ", State.name c.state, " | ", c.combination.text, " | ",
      Event.text c.event, ":", Summary.lines c.rules] := by
    simp only [lines, String.join_cons, String.join_nil, String.append_assoc, String.append_empty]
  have values : Mentions c.lines c.combination.text := mentions_of_eq_join worded (by simp)
  have rules : Mentions c.lines (Summary.lines c.rules) := mentions_of_eq_join worded (by simp)
  exact ⟨mentions_of_eq_join worded (by simp), mentions_of_eq_join worded (by simp),
    fun _ hv => (Combination.namedIn_text hv).trans values,
    fun _ hr => (Summary.namedIn_lines hr).trans rules⟩

/-- The text tells of a fault: what kind it is, and all that it carries. -/
def Fault.ToldIn (text : String) : Fault σ ε → Prop
  | .emptyBlock note => Mentions text note.block ∧ note.location.NamedIn text
  | .emptyTable => Mentions text "no transitions"
  | .unlistedValue v place => v.NamedIn text ∧ place.NamedIn text
  | .contradiction cause =>
    (∀ v ∈ cause.condition.values, v.NamedIn text) ∧
      (∀ place ∈ cause.condition.location?, place.NamedIn text) ∧
      ∀ pair ∈ cause.conflicts, pair.1.NamedIn text ∧ pair.2.NamedIn text
  | .nothingToOverride r => r.NamedIn text ∧ Mentions text "no inherited transition to override"
  | .duplicates groups =>
    Mentions text "duplicate transitions" ∧ ∀ group ∈ groups, ∀ r ∈ group, r.NamedIn text
  | .clashes groups =>
    Mentions text "more than one next state" ∧ ∀ group ∈ groups, ∀ r ∈ group, r.NamedIn text
  | .contests keys => Mentions text "overlapping matches" ∧ ∀ key ∈ keys, key.ToldIn text

/-- A contradiction is worded with the values of its condition, its place and its pairs. -/
theorem Contradiction.toldIn_message (e : Contradiction) :
    (∀ v ∈ e.condition.values, v.NamedIn e.message) ∧
      (∀ place ∈ e.condition.location?, place.NamedIn e.message) ∧
      ∀ pair ∈ e.conflicts, pair.1.NamedIn e.message ∧ pair.2.NamedIn e.message := by
  have worded : e.message = String.join ["matching(", e.condition.text, ")",
      e.condition.location?.elim "" (" at " ++ ·.text),
      " can never be satisfied: ",
      joined "; " (e.conflicts.map fun pair => pair.1.text ++ ", " ++ pair.2.text)] := by
    unfold message
    cases e.condition.location? <;>
      simp only [Option.elim_none, Option.elim_some, String.join_cons, String.join_nil,
        String.append_assoc, String.empty_append, String.append_empty]
  refine ⟨fun v hv => ?_, fun place hplace => ?_, fun pair hpair => ?_⟩
  · exact (Condition.namedIn_text hv).trans (mentions_of_eq_join worded (by simp))
  · rw [Option.mem_def] at hplace
    rw [hplace] at worded
    have placed : Mentions e.message (" at " ++ place.text) :=
      mentions_of_eq_join worded (by simp)
    exact placed.trans (mentions_append_right " at " place.text)
  · have listed : Mentions
        (joined "; " (e.conflicts.map fun pair => pair.1.text ++ ", " ++ pair.2.text))
        (pair.1.text ++ ", " ++ pair.2.text) := mentions_joined (List.mem_map.2 ⟨pair, hpair, rfl⟩)
    have told := (mentions_of_eq_join worded (by simp)).trans listed
    exact ⟨told.trans ((mentions_append_left pair.1.text ", ").append_left _),
      told.trans (mentions_append_right _ pair.2.text)⟩

/-- A fault is worded with all that it carries. -/
theorem Fault.toldIn_message (f : Fault σ ε) : f.ToldIn f.message := by
  cases f with
  | emptyBlock note =>
    have worded : note.message =
        String.join ["empty '", note.block, "' block at ", note.location.text] := by
      simp only [EmptyBlock.message, String.join_cons, String.join_nil, String.append_assoc,
        String.append_empty]
    have place : Mentions note.message note.location.text := mentions_of_eq_join worded (by simp)
    exact ⟨mentions_of_eq_join worded (by simp), place⟩
  | emptyTable =>
    exact ⟨"the table contains ", "", (by decide : "the table contains no transitions" = _)⟩
  | unlistedValue v place =>
    have worded : "predicate " ++ v.text ++ " at " ++ place.text
        ++ " is missing from its family's case list" = String.join ["predicate ", v.text, " at ",
          place.text, " is missing from its family's case list"] := by
      simp only [String.join_cons, String.join_nil, String.append_assoc, String.append_empty]
    have value : Mentions _ v.text := mentions_of_eq_join worded (by simp)
    have placed : Mentions _ place.text := mentions_of_eq_join worded (by simp)
    exact ⟨value, placed⟩
  | contradiction cause => exact cause.toldIn_message
  | nothingToOverride r =>
    have worded : Mentions ("overriding transition " ++ r.text
        ++ " has no inherited transition to override") r.text :=
      (mentions_append_right _ r.text).append_left _
    refine ⟨r.namedIn_text.trans worded, Mentions.append_right ⟨" has ", "", by decide⟩ _⟩
  | duplicates groups =>
    refine ⟨Mentions.append_left ⟨"", ":", by decide⟩ _, fun group hgroup r hr => ?_⟩
    exact (Summary.namedIn_groupLines hgroup hr).trans (mentions_append_right _ _)
  | clashes groups =>
    refine ⟨Mentions.append_left ⟨"the same state, match and event cannot lead to ", ":",
      by decide⟩ _, fun group hgroup r hr => ?_⟩
    exact (Summary.namedIn_groupLines hgroup hr).trans (mentions_append_right _ _)
  | contests keys =>
    refine ⟨Mentions.append_left ⟨"", " lead to different next states:", by decide⟩ _,
      fun key hkey => ?_⟩
    have worded : Mentions (Fault.contests keys).message key.lines :=
      (mentions_join (List.mem_map_of_mem hkey)).append_right _
    exact key.toldIn_lines.trans worded

/-! ## Failed builds -/

/-- The text tells of a failed build: the number of its faults, and then of one fault after
another. -/
def BuildFailure.ToldIn (f : BuildFailure σ ε) (text : String) : Prop :=
  ∃ parts, List.Forall₂ Fault.ToldIn parts f.faults ∧
    text = "table build failed with " ++ toString f.faults.length ++ " error(s)"
      ++ String.join (parts.map ("\n- " ++ ·))

/-- A failed build is worded with all its faults. -/
theorem BuildFailure.toldIn_message (f : BuildFailure σ ε) : f.ToldIn f.message := by
  refine ⟨f.faults.map Fault.message, ?_, ?_⟩
  · rw [List.forall₂_map_left_iff, List.forall₂_same]
    exact fun fault _ => fault.toldIn_message
  · rw [List.map_map]
    rfl

end

end TableMachine
