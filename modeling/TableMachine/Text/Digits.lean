/-!
# Numbers of a fixed width

Numbers written with a least number of digits, and the reading of digits.
-/

namespace TableMachine.Text

/-- The decimal digits of a number, with zeros in front up to a least width. -/
def padded (width n : Nat) : String :=
  let digits := toString n
  "".pushn '0' (width - digits.length) ++ digits

/-- The number that decimal digits write; nothing if there is no digit, or another character. -/
def natOf? (cs : List Char) : Option Nat :=
  if cs.isEmpty then none
  else
    cs.foldlM (fun n c => if c.isDigit then some (10 * n + (c.toNat - '0'.toNat)) else none) 0

end TableMachine.Text
