import TableMachine.Machine.Config

/-!
# The world of scripted behaviour

Scripted guards and actions, and the sink that records, write lines to one log in the order in which
they run. They share named flags, and they can count how often they ran: a counter has a number, and
whoever uses that number uses that counter.
-/

namespace TableMachine.Scripted

/-- What scripted behaviour reads and changes. -/
structure World where
  /-- The lines written so far. -/
  log : List String := []
  /-- The flags, the latest setting of each first; a flag that was never set is unset. -/
  flags : List (String × Bool) := []
  /-- The counts, the latest count of each counter first. -/
  counts : List (Nat × Nat) := []
deriving DecidableEq

namespace World

/-- Writes a line. -/
def write (w : World) (line : String) : World :=
  { w with log := w.log ++ [line] }

/-- The world with an empty log. -/
def withoutLog (w : World) : World :=
  { w with log := [] }

/-- Reads a flag. -/
def flag (w : World) (name : String) : Bool :=
  (w.flags.lookup name).getD false

/-- Sets a flag. -/
def setFlag (w : World) (name : String) (value : Bool) : World :=
  { w with flags := (name, value) :: w.flags }

/-- Reads a counter. -/
def count (w : World) (counter : Nat) : Nat :=
  (w.counts.lookup counter).getD 0

/-- Counts one up. -/
def countUp (w : World) (counter : Nat) : World :=
  { w with counts := (counter, w.count counter + 1) :: w.counts }

/-- The sink that writes every message to the log, after its level. -/
def recorder : Sink World where
  warning message w := w.write ("warn: " ++ message)
  info message w := w.write ("info: " ++ message)
  debug message w := w.write ("debug: " ++ message)

end World

end TableMachine.Scripted
