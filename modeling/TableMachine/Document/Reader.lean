import TableMachine.Document.Basic
import TableMachine.Text.Digits

/-!
# Reading documents

Reading goes in two steps. The characters are first cut into tokens by one pass with a small state
(`Scan`), then the tokens are assembled into a document. Assembly consumes at least one token for
each call, so the number of tokens bounds its depth.
-/

namespace TableMachine.Document

/-- The smallest parts of a written document. -/
inductive Token where
  /-- The beginning of a record. -/
  | openRecord
  /-- The end of a record. -/
  | closeRecord
  /-- The beginning of a list. -/
  | openList
  /-- The end of a list. -/
  | closeList
  /-- What stands between entries. -/
  | comma
  /-- What stands between a field's name and its value. -/
  | colon
  /-- A text. -/
  | text (value : String)
  /-- A whole number. -/
  | number (value : Int)
deriving DecidableEq

/-- What the scanner is in the middle of; characters are held in reverse order. -/
inductive Scan where
  /-- Nothing. -/
  | idle
  /-- A text. -/
  | inText (read : List Char)
  /-- A text, after a backslash. -/
  | escaped (read : List Char)
  /-- A text, after some of the four digits of a code point. -/
  | codePoint (read : List Char) (digits value : Nat)
  /-- A number. -/
  | inNumber (read : List Char)

/-- The value of a hexadecimal digit. -/
def hexValue? (c : Char) : Option Nat :=
  if c.isDigit then some (c.toNat - '0'.toNat)
  else if 'a' ≤ c ∧ c ≤ 'f' then some (c.toNat - 'a'.toNat + 10)
  else if 'A' ≤ c ∧ c ≤ 'F' then some (c.toNat - 'A'.toNat + 10)
  else none

/-- The character that stands for itself after a backslash, or for which a letter stands there. -/
def unescaped? (c : Char) : Option Char :=
  match c with
  | '"' => some '"'
  | '\\' => some '\\'
  | '/' => some '/'
  | 'n' => some '\n'
  | 'r' => some '\r'
  | 't' => some '\t'
  | 'b' => some '\x08'
  | 'f' => some '\x0c'
  | _ => none

/-- The number that was read, sign included. -/
def numberOf? (read : List Char) : Option Int :=
  match read.reverse with
  | '-' :: digits => (Text.natOf? digits).map fun n => -(n : Int)
  | digits => (Text.natOf? digits).map fun n => (n : Int)

/-- A token that is a single character. -/
def punctuation? (c : Char) : Option Token :=
  if c = '\x7b' then some .openRecord
  else if c = '\x7d' then some .closeRecord
  else if c = '[' then some .openList
  else if c = ']' then some .closeList
  else if c = ',' then some .comma
  else if c = ':' then some .colon
  else none

/-- A character between tokens: it begins a text or a number, is a token, or is blank. -/
def begin? (tokens : List Token) (c : Char) : Option (List Token × Scan) :=
  if c = '"' then some (tokens, .inText [])
  else if c = '-' || c.isDigit then some (tokens, .inNumber [c])
  else if c = ' ' || c = '\n' || c = '\r' || c = '\t' then some (tokens, .idle)
  else (punctuation? c).map fun token => (token :: tokens, .idle)

/-- One character further. The tokens are held in reverse order. -/
def scan? (state : List Token × Scan) (c : Char) : Option (List Token × Scan) :=
  let (tokens, mode) := state
  match mode with
  | .idle => begin? tokens c
  | .inText read =>
    if c = '"' then some (.text (String.ofList read.reverse) :: tokens, .idle)
    else if c = '\\' then some (tokens, .escaped read)
    else some (tokens, .inText (c :: read))
  | .escaped read =>
    if c = 'u' then some (tokens, .codePoint read 0 0)
    else (unescaped? c).map fun plain => (tokens, .inText (plain :: read))
  | .codePoint read digits value => do
    let value := 16 * value + (← hexValue? c)
    if digits < 3 then some (tokens, .codePoint read (digits + 1) value)
    else some (tokens, .inText (Char.ofNat value :: read))
  | .inNumber read =>
    if c.isDigit then some (tokens, .inNumber (c :: read))
    else do begin? (.number (← numberOf? read) :: tokens) c

/-- The tokens of a written document. -/
def tokens? (s : String) : Option (List Token) := do
  match ← s.toList.foldlM scan? ([], .idle) with
  | (tokens, .idle) => some tokens.reverse
  | (tokens, .inNumber read) => some (.number (← numberOf? read) :: tokens).reverse
  | _ => none

mutual

/-- Assembles one document and hands on the tokens after it. -/
def assemble? : Nat → List Token → Option (Document × List Token)
  | _, .text value :: rest => some (.text value, rest)
  | _, .number value :: rest => some (.number value, rest)
  | _, .openList :: .closeList :: rest => some (.list [], rest)
  | _, .openRecord :: .closeRecord :: rest => some (.record [], rest)
  | fuel + 1, .openList :: rest => do
    let (items, rest) ← assembleItems? fuel rest
    some (.list items, rest)
  | fuel + 1, .openRecord :: rest => do
    let (fields, rest) ← assembleFields? fuel rest
    some (.record fields, rest)
  | _, _ => none

/-- Assembles the items of a list up to its end. -/
def assembleItems? : Nat → List Token → Option (List Document × List Token)
  | 0, _ => none
  | fuel + 1, tokens => do
    match ← assemble? fuel tokens with
    | (item, .comma :: rest) =>
      let (items, rest) ← assembleItems? fuel rest
      some (item :: items, rest)
    | (item, .closeList :: rest) => some ([item], rest)
    | _ => none

/-- Assembles the fields of a record up to its end. -/
def assembleFields? : Nat → List Token → Option (List (String × Document) × List Token)
  | 0, _ => none
  | fuel + 1, .text name :: .colon :: tokens => do
    match ← assemble? fuel tokens with
    | (value, .comma :: rest) =>
      let (fields, rest) ← assembleFields? fuel rest
      some ((name, value) :: fields, rest)
    | (value, .closeRecord :: rest) => some ([(name, value)], rest)
    | _ => none
  | _, _ => none

end

/-- Reads a written document. -/
def ofText? (s : String) : Option Document := do
  let tokens ← tokens? s
  match ← assemble? (tokens.length + 1) tokens with
  | (document, []) => some document
  | _ => none

end TableMachine.Document
