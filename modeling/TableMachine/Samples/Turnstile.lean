import TableMachine.Condition.Predicate
import TableMachine.Machine.Dispatch

/-!
# A turnstile

A coin unlocks the turnstile, passing locks it again, and passing a locked turnstile sets off the
alarm. Kicking the alarming turnstile breaks it, and nothing can be done after that. If enforcement
is told apart, a weak one lets people pass a locked turnstile unnoticed.

In all states but the last a reset leads back to the locked turnstile. The actions only note on the
world that they ran.
-/

namespace TableMachine.Turnstile

/-- The states of the turnstile. -/
inductive Gate where
  /-- Nobody may pass. -/
  | locked
  /-- Somebody may pass. -/
  | unlocked
  /-- Somebody passed who must not. -/
  | alarming
  /-- Nothing works any more. -/
  | broken
deriving DecidableEq

/-- What happens at the turnstile. -/
inductive Input where
  /-- A coin is put in. -/
  | coin
  /-- Somebody passes. -/
  | pass
  /-- The turnstile is reset. -/
  | reset
  /-- The turnstile is kicked. -/
  | kick
deriving DecidableEq

/-- How strictly the turnstile is watched. -/
inductive Enforcement where
  /-- Not at all. -/
  | weak
  /-- Very. -/
  | strong
deriving DecidableEq

/-- The names of the states. -/
def Gate.name : Gate → String
  | locked => "Locked"
  | unlocked => "Unlocked"
  | alarming => "Alarming"
  | broken => "Broken"

/-- The names of the events. -/
def Input.name : Input → String
  | coin => "Coin"
  | pass => "Pass"
  | reset => "Reset"
  | kick => "Kick"

/-- The names of the cases. -/
def Enforcement.name : Enforcement → String
  | weak => "Weak"
  | strong => "Strong"

instance : State Gate where
  name := Gate.name
  isFinal gate := gate = .broken

instance : Event Input where
  name := Input.name

instance : Predicate Enforcement where
  familyName := "Enforcement"
  cases := [.weak, .strong]
  label := Enforcement.name

/-- The notes of the actions that ran. -/
abbrev Notes :=
  List String

/-- An action that leaves a note. -/
def note (label : String) : Action Input Unit Notes :=
  .plain fun _ w => (.ok (), w ++ [label])

/-- Where the table is written down. -/
def here (line : Nat) : Location :=
  .line "Turnstile" line

/-- What all working states share. -/
def resettable (group : Group) : SuperState Gate Input Unit Notes :=
  .mk group [] [.transition { events := [.reset], next? := some .locked, location := here 1 }] [] []

/-- What passing the locked turnstile comes to. -/
def passLocked (enforced : Bool) : List (Block Gate Input Unit Notes) :=
  if enforced then
    [.when (here 2) [.pass] [
      .matching (here 3) (.allOf [Predicate.value Enforcement.weak]) [
        .transition { location := here 4 }],
      .matching (here 5) (.allOf [Predicate.value Enforcement.strong]) [
        .transition { next? := some .alarming, location := here 6 }]]]
  else
    [.transition { events := [.pass], next? := some .alarming, location := here 7 }]

/-- The locked turnstile. -/
def locked (enforced : Bool) : StateDefinition Gate Input Unit Notes where
  states := [.locked]
  adopted := [resettable 1]
  blocks :=
    .transition { events := [.coin], next? := some .unlocked, location := here 8 }
      :: passLocked enforced
  entry := [note "lock"]
  location := here 9

/-- The unlocked turnstile. -/
def unlocked : StateDefinition Gate Input Unit Notes where
  states := [.unlocked]
  adopted := [resettable 2]
  blocks := [
    .transition { events := [.coin], actions := [note "thankyou"], location := here 10 },
    .transition { events := [.pass], next? := some .locked, location := here 11 }]
  entry := [note "unlock"]
  location := here 12

/-- The alarming turnstile. -/
def alarming : StateDefinition Gate Input Unit Notes where
  states := [.alarming]
  adopted := [resettable 3]
  blocks := [.transition { events := [.kick], next? := some .broken, location := here 13 }]
  entry := [note "alarmOn"]
  exit := [note "alarmOff"]
  location := here 14

/-- The whole table. -/
def draft (enforced : Bool) : Draft Gate Input Unit Notes :=
  .ofSteps [.define (locked enforced), .define unlocked, .define alarming]

/-- A turnstile in some state, its table installed. -/
def machine (initial : Gate) (enforced : Bool) : Machine Gate Input Unit Notes :=
  ((Machine.start initial {}).build (draft enforced) (here 15) []).machine

end TableMachine.Turnstile
