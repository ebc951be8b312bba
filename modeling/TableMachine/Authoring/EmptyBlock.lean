import TableMachine.Location

/-!
# Empty blocks

A block that is written around nothing, or that supplies nothing, is almost surely a mistake. It is
noted with the name of the block and the place where it stands, and reported when a table is
compiled.
-/

namespace TableMachine

/-- A note of a block that has nothing to apply, or nothing to apply it to. -/
structure EmptyBlock where
  /-- What kind of block it is. -/
  block : String
  /-- Where it was written. -/
  location : Location
deriving DecidableEq

/-- The text of the note. -/
def EmptyBlock.message (e : EmptyBlock) : String :=
  "empty '" ++ e.block ++ "' block at " ++ e.location.text

end TableMachine
