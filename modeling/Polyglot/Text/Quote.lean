import Polyglot.Text.Affix
import Polyglot.Text.Blank

/-!
This module contains `unquote`, which strips the delimiters of a string literal in any of the
supported languages. Escapes inside the literal are kept as written.
-/

namespace Polyglot.Text

/--
The delimiters of string literals, tried in this order.
-/
def quotes : List (List Char) :=
  ["\"\"\"", "'''", "\"", "'", "\x60"].map String.toList

/--
The text between two occurrences of `quote` that open and close `cs` without sharing a character.
-/
def between? (quote cs : List Char) : Option (List Char) :=
  (dropHead? quote cs).bind (dropTail? quote)

/--
A literal without the letters and hashes that may stand before its opening quote, and without as
many characters at its end as there are closing hashes.
-/
def literalBody (cs : List Char) : List Char :=
  let closing := (cs.reverse.takeWhile (· == '#')).length
  let body := (cs.dropWhile Char.isAlpha).dropWhile (· == '#')
  body.take (body.length - closing)

def unquoteChars (cs : List Char) : List Char :=
  let body := literalBody (trimChars cs)
  (quotes.findSome? (between? · body)).getD body

/--
Strip the delimiters of a string literal: an alphabetic marker such as `r` or `b`, the hashes of a
raw string, and one pair of quotes. Text that is not a literal only loses marker and hashes.
-/
def unquote (s : String) : String := String.ofList (unquoteChars s.toList)

end Polyglot.Text
