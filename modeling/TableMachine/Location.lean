import TableMachine.Text.Quoted

/-!
# Places in a source text

Every rule, condition and definition carries the place where it was written, so that a message can
name it. A place is a line of a file, if one is given. If none is, it is the call by which the thing
was written; all calls count as one place, which differs from every line of every file.
-/

namespace TableMachine

/-- Where something was written. -/
inductive Location where
  /-- A line of a file. -/
  | line (file : String) (number : Nat)
  /-- The call that wrote it. -/
  | call
deriving DecidableEq

namespace Location

/-- The file's name as it is shown in messages. -/
def file : Location → String
  | line file _ => file
  | call => "<caller>"

/-- The line's number as it is shown in messages. -/
def number : Location → Nat
  | line _ number => number
  | call => 0

/-- The short form `file:line`. -/
def text (l : Location) : String :=
  l.file ++ ":" ++ toString l.number

/-- The long form, which names both parts and quotes the file. -/
def inspect (l : Location) : String :=
  "SourceLocation \x7b file: " ++ Text.quoted l.file ++ ", line: " ++ toString l.number ++ " \x7d"

end Location

end TableMachine
