import Polyglot.Text.Affix
import Polyglot.Text.Blank

/-!
This module contains the operations on the text of type annotations, and qualified names.
-/

namespace Polyglot.Text

/--
Drop the leading `->` or `:` of an annotation and collapse its blanks.
-/
def cleanType (s : String) : String :=
  let cs := trimChars s.toList
  let body := ((dropHead? ['-', '>'] cs).or (dropHead? [':'] cs)).getD cs
  collapse (String.ofList body)

/--
Drop a leading lifetime: a quote and everything up to the next blank.
-/
def dropLifetime (cs : List Char) : List Char :=
  if cs.head? == some '\x27' then dropBlanks (cs.dropWhile (!isBlank ·)) else cs

/--
Drop a leading `word` if a blank follows it.
-/
def dropKeyword (cs : List Char) (word : String) : List Char :=
  match dropHead? word.toList cs with
  | some (c :: rest) => if isBlank c then dropBlanks rest else cs
  | _ => cs

/--
One round of peeling: references, then a lifetime, then each keyword once.
-/
def peelOnce (cs : List Char) : List Char :=
  ["mut", "dyn", "impl"].foldl dropKeyword
    (dropLifetime (dropBlanks (cs.dropWhile (· == '&'))))

/--
Peel references, lifetimes and keywords until nothing is left to peel.
-/
def peel (cs : List Char) : List Char :=
  if (peelOnce cs).length < cs.length then peel (peelOnce cs) else cs
termination_by cs.length

/--
The name of a type without references, lifetimes, keywords, blanks and generic arguments:
`&mut Foo<T>` gives `Foo`.
-/
def baseTypeName (s : String) : String :=
  String.ofList ((withoutBlanks (peel (trimChars s.toList))).takeWhile (· != '<'))

/--
The name `name` behind its enclosing scopes, outermost first.
-/
def qualify (scopes : List String) (name separator : String) : String :=
  String.intercalate separator (scopes ++ [name])

end Polyglot.Text
