/-!
# Policies of compilation

Rules may repeat each other, and the combinations that their conditions cover may overlap. Two
policies say what is to be made of that.
-/

namespace TableMachine

/-- What becomes of rules that say the same. -/
inductive DuplicatePolicy where
  /-- The first is kept, and a warning lists them. -/
  | warn
  /-- The table is refused. -/
  | reject
deriving DecidableEq

/-- Which of several rules that cover one combination has the say. -/
inductive OverlapPolicy where
  /-- All of them, so they must agree. -/
  | strict
  /-- Those that demand most there, and these must agree. -/
  | mostSpecific
deriving DecidableEq

/-- Both policies. -/
structure CompileOptions where
  /-- What becomes of rules that say the same. -/
  duplicates : DuplicatePolicy := .warn
  /-- Which of several rules that cover one combination has the say. -/
  overlap : OverlapPolicy := .strict
deriving DecidableEq

/-- The name of the policy. -/
def DuplicatePolicy.name : DuplicatePolicy → String
  | warn => "Warn"
  | reject => "Reject"

/-- The name of the policy. -/
def OverlapPolicy.name : OverlapPolicy → String
  | strict => "Strict"
  | mostSpecific => "MostSpecific"

/-- The long form of the options. -/
def CompileOptions.inspect (o : CompileOptions) : String :=
  "CompileOptions \x7b duplicates: " ++ o.duplicates.name ++ ", overlap: " ++ o.overlap.name
    ++ " \x7d"

end TableMachine
