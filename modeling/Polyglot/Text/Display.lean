import Polyglot.Text.Unprintable

/-!
This module contains the form in which a text is shown inside a message: between double quotes, with
escapes for whatever would not show.
-/

namespace Polyglot.Text

/--
A character inside a shown text.
-/
def displayChar (c : Char) : String :=
  match c with
  | '"' => "\\\""
  | '\\' => "\\\\"
  | '\n' => "\\n"
  | '\r' => "\\r"
  | '\t' => "\\t"
  | '\x00' => "\\0"
  | c =>
    if isUnprintable c then
      "\\u\x7b" ++ String.ofList (Nat.toDigits 16 c.toNat) ++ "\x7d"
    else c.toString

def display (s : String) : String := "\"" ++ String.join (s.toList.map displayChar) ++ "\""

end Polyglot.Text
