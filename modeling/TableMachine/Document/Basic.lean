/-!
# Documents

A document is structured data in the form in which it is exported: texts, whole numbers, lists, and
records whose fields keep their order. A type is *exported* if its values can be turned into
documents and read back.
-/

namespace TableMachine

/-- Structured data to be exported. -/
inductive Document where
  /-- A text. -/
  | text (value : String)
  /-- A whole number. -/
  | number (value : Int)
  /-- A list. -/
  | list (items : List Document)
  /-- Named fields in order. -/
  | record (fields : List (String × Document))

/-- A type whose values are exported as documents. -/
class Exported (α : Type) where
  /-- The document of a value. -/
  document : α → Document
  /-- The value of a document, if it is one. -/
  ofDocument? : Document → Option α

namespace Document

/-- The text that a document is. -/
def asText? : Document → Option String
  | text value => some value
  | _ => none

/-- The items of a list. -/
def asList? : Document → Option (List Document)
  | list items => some items
  | _ => none

/-- A field of a record. -/
def field? (name : String) : Document → Option Document
  | record fields => fields.lookup name
  | _ => none

end Document

/-- A whole number is exported as itself. -/
instance : Exported Int where
  document := .number
  ofDocument?
    | .number n => some n
    | _ => none

/-- A text is exported as itself. -/
instance : Exported String where
  document := .text
  ofDocument? := Document.asText?

end TableMachine
