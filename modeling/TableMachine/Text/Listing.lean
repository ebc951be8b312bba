/-!
# Texts of lists

Messages write a list of texts between square brackets, its items apart by a comma and a blank.
-/

namespace TableMachine.Text

/-- The texts one after another with a separator between neighbours. -/
def joined (separator : String) (items : List String) : String :=
  separator.intercalate items

/-- A bracketed list such as `[a, b]`; the empty list is `[]`. -/
def bracketed (items : List String) : String :=
  "[" ++ joined ", " items ++ "]"

@[simp]
theorem bracketed_nil : bracketed [] = "[]" :=
  rfl

end TableMachine.Text
