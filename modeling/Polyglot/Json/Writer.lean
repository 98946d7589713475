import Polyglot.Json.Basic

/-!
This module contains the writing of JSON texts, without blanks. Numbers have all their digits, so
that the text names exactly the value written; numbers that are not finite are written as null.
-/

namespace Polyglot.Json

/--
The fraction `num / 2 ^ places` in decimal notation.
-/
def decimal (num places : Nat) : String :=
  if places = 0 then toString num ++ ".0"
  else
    let scaled := num * Nat.pow 5 places
    let digits := (Nat.toDigits 10 (scaled % Nat.pow 10 places))
    let fraction := List.replicate (places - digits.length) '0' ++ digits
    toString (scaled / Nat.pow 10 places) ++ "." ++ String.ofList fraction

def realText (x : Binary64) : String :=
  if x.isFinite then
    let (num, den) := x.toRatio
    (if x.isNegative then "-" else "") ++ decimal num den.log2
  else "null"

/--
The last four hexadecimal digits of a number.
-/
def hex4 (n : Nat) : String :=
  String.ofList ([n / 4096, n / 256, n / 16, n].map fun d => Nat.digitChar (d % 16))

def escape (c : Char) : String :=
  match c with
  | '"' => "\\\""
  | '\\' => "\\\\"
  | '\n' => "\\n"
  | '\r' => "\\r"
  | '\t' => "\\t"
  | c => if c.toNat < 0x20 then "\\u" ++ hex4 c.toNat else c.toString

def quote (s : String) : String := "\"" ++ String.join (s.toList.map escape) ++ "\""

mutual

/--
The text of a value.
-/
def render : Json → String
  | null => "null"
  | bool true => "true"
  | bool false => "false"
  | int i => toString i
  | real x => realText x
  | str s => quote s
  | arr items => "[" ++ String.intercalate "," (renderItems items) ++ "]"
  | obj fields => "\x7b" ++ String.intercalate "," (renderFields fields) ++ "\x7d"

def renderItems : List Json → List String
  | [] => []
  | item :: items => render item :: renderItems items

def renderFields : List (String × Json) → List String
  | [] => []
  | (key, value) :: fields => (quote key ++ ":" ++ render value) :: renderFields fields

end

end Polyglot.Json
