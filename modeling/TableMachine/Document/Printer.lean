import TableMachine.Document.Basic
import TableMachine.Text.Listing

/-!
# Documents as text

A document is written as indented JSON: every item of a list and every field of a record stands on a
line of its own, two blanks further in than its list or record; an empty list or record is a pair of
brackets.
-/

namespace TableMachine.Document

/-- The digits of a number below 16 in lower case. -/
def hexDigit (n : Nat) : Char :=
  Nat.digitChar n

/-- How a character stands inside a text. -/
def escapedChar (c : Char) : String :=
  match c with
  | '"' => "\\\""
  | '\\' => "\\\\"
  | '\n' => "\\n"
  | '\r' => "\\r"
  | '\t' => "\\t"
  | '\x08' => "\\b"
  | '\x0c' => "\\f"
  | c =>
    if c.toNat < 0x20 then
      "\\u00" ++ String.ofList [hexDigit (c.toNat / 16), hexDigit (c.toNat % 16)]
    else c.toString

/-- A text with its quotes. -/
def quotedText (s : String) : String :=
  "\"" ++ String.join (s.toList.map escapedChar) ++ "\""

/-- The beginning of a line at a depth. -/
def newLine (depth : Nat) : String :=
  "\n" ++ "".pushn ' ' (2 * depth)

/-- Entries on lines of their own between brackets. -/
def enclosed (depth : Nat) (opening closing : String) (entries : List String) : String :=
  if entries.isEmpty then opening ++ closing
  else
    opening ++ Text.joined "," (entries.map fun entry => newLine (depth + 1) ++ entry)
      ++ newLine depth ++ closing

mutual

/-- The text of a document at a depth. -/
def printed (depth : Nat) : Document → String
  | text value => quotedText value
  | number value => toString value
  | list items => enclosed depth "[" "]" (printedItems (depth + 1) items)
  | record fields => enclosed depth "\x7b" "\x7d" (printedFields (depth + 1) fields)

/-- The texts of the items of a list. -/
def printedItems (depth : Nat) : List Document → List String
  | [] => []
  | item :: rest => printed depth item :: printedItems depth rest

/-- The texts of the fields of a record. -/
def printedFields (depth : Nat) : List (String × Document) → List String
  | [] => []
  | (name, value) :: rest =>
    (quotedText name ++ ": " ++ printed depth value) :: printedFields depth rest

end

/-- The text of a document. -/
def toText (d : Document) : String :=
  printed 0 d

end TableMachine.Document
