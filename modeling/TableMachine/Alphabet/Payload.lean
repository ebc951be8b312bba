import TableMachine.Document.Basic

/-!
# Payloads of events

An event may carry a payload, which is either a given value or stands for *any* value. A rule
written for any value serves every event of that name for which no rule of its own exists.
-/

namespace TableMachine

/-- A given value, or any value. -/
inductive Payload (α : Type) where
  /-- A given value. -/
  | some (value : α)
  /-- Whatever value. -/
  | any
deriving DecidableEq

namespace Payload

variable {α : Type}

/-- Asking a payload that stands for any value for the value it carries. -/
inductive NoValue where
  /-- There is none. -/
  | noValue
deriving DecidableEq

/-- The text shown for a missing value. -/
def NoValue.message : NoValue → String
  | .noValue => "FsmValue::Any has no value"

/-- The given value, if there is one. -/
def value? : Payload α → Option α
  | some a => Option.some a
  | any => none

/-- The given value, or the reason why there is none. -/
def value : Payload α → Except NoValue α
  | some a => .ok a
  | any => .error .noValue

/-- Whether a value is given. -/
def isSome (p : Payload α) : Bool :=
  p.value?.isSome

/-- Whether the payload stands for any value. -/
def isAny (p : Payload α) : Bool :=
  !p.isSome

/-- The payload with its value forgotten. -/
def widened (_ : Payload α) : Payload α :=
  any

/-- Two payloads match if a common value fits both. -/
def Matches : Payload α → Payload α → Prop
  | some a, some b => a = b
  | _, _ => True

instance [DecidableEq α] : (p q : Payload α) → Decidable (p.Matches q)
  | some a, some b => inferInstanceAs (Decidable (a = b))
  | some _, any => .isTrue trivial
  | any, some _ => .isTrue trivial
  | any, any => .isTrue trivial

/-- The payload is exactly the given value. -/
def Is (p : Payload α) (a : α) : Prop :=
  p.value? = Option.some a

instance [DecidableEq α] (p : Payload α) (a : α) : Decidable (p.Is a) :=
  inferInstanceAs (Decidable (_ = _))

/-- The value's text, or `any`. -/
def text (render : α → String) : Payload α → String
  | some a => render a
  | any => "any"

/-- The constructor with the value's text in parentheses. -/
def inspect (render : α → String) : Payload α → String
  | some a => "Some(" ++ render a ++ ")"
  | any => "Any"

/-- A payload is exported as its constructor, with the value as a field if there is one. -/
instance [Exported α] : Exported (Payload α) where
  document
    | some a => .record [("Some", Exported.document a)]
    | any => .text "Any"
  ofDocument?
    | .text "Any" => Option.some any
    | .record [("Some", d)] => (Exported.ofDocument? d).map some
    | _ => none

end Payload

end TableMachine
