import TableMachine.Text.Invisible

/-!
# Quoted text

A quoted text stands between double quotes. Inside, a double quote and a backslash are preceded by a
backslash, four common control characters have short escapes, and every other character that shows
nothing is written as its hexadecimal code point in braces. All other characters stand for
themselves.
-/

namespace TableMachine.Text

/-- The lower-case hexadecimal digits of a number, without leading zeros. -/
def hexadecimal (n : Nat) : String :=
  String.ofList (Nat.toDigits 16 n)

/-- How one character is written inside a quoted text. -/
def quotedChar (c : Char) : String :=
  match c with
  | '"' => "\\\""
  | '\\' => "\\\\"
  | '\n' => "\\n"
  | '\r' => "\\r"
  | '\t' => "\\t"
  | '\x00' => "\\0"
  | c => if isInvisible c then "\\u\x7b" ++ hexadecimal c.toNat ++ "\x7d" else c.toString

/-- A text between double quotes, with escapes. -/
def quoted (s : String) : String :=
  "\"" ++ String.join (s.toList.map quotedChar) ++ "\""

end TableMachine.Text
