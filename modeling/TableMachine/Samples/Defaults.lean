import TableMachine.Alphabet.Basic

/-!
# The smallest alphabets

What the classes of states and events provide by themselves: a state is not final and an event has
no wildcard unless the instance says so.
-/

namespace TableMachine.Samples

/-- A state and event of which only the name is given. -/
inductive Plain where
  /-- The only element. -/
  | plain
deriving DecidableEq

instance : State Plain where
  name _ := "Plain"

instance : Event Plain where
  name _ := "Plain"

/-- A lamp that can burn out. -/
inductive Lamp where
  /-- The lamp works. -/
  | working
  /-- The lamp is of no more use. -/
  | burntOut
deriving DecidableEq

instance : State Lamp where
  name
    | .working => "Working"
    | .burntOut => "BurntOut"
  isFinal lamp := lamp = .burntOut

end TableMachine.Samples
