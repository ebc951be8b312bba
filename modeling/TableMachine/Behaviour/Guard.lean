/-!
# Guards

A guard decides, when an event is dispatched, whether the rule found may be executed. It may read
and change the world, so its answer can differ from one dispatch to the next. Unlike a condition on
predicate values it plays no part in compiling a table.
-/

namespace TableMachine

/-- A test on the world, which the test may change. -/
structure Guard (ω : Type) where
  /-- The answer and the world after the test. -/
  check : ω → Bool × ω

namespace Guard

variable {ω : Type}

/-- The guard that reads the world and leaves it as it is. -/
def reading (p : ω → Bool) : Guard ω where
  check w := (p w, w)

/-- An optional guard allows execution if it is absent. -/
def allows (guard? : Option (Guard ω)) (w : ω) : Bool × ω :=
  match guard? with
  | some guard => guard.check w
  | none => (true, w)

/-- The text that stands for any guard. -/
def inspect (_ : Guard ω) : String :=
  "Guard(..)"

end Guard

end TableMachine
