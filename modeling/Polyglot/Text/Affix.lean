/-!
This module contains the removal of a given beginning or end from a list or a text.
-/

namespace Polyglot.Text

/--
What follows `start` in `cs`, if `cs` begins with it.
-/
def dropHead? [BEq α] : (start cs : List α) → Option (List α)
  | [], cs => some cs
  | _ :: _, [] => none
  | a :: start, c :: cs => if a == c then dropHead? start cs else none

/--
What precedes `tail` in `cs`, if `cs` ends with it.
-/
def dropTail? [BEq α] (tail cs : List α) : Option (List α) :=
  (dropHead? tail.reverse cs.reverse).map List.reverse

/--
What follows `start` in the text `s`, if it begins with it.
-/
def dropStart? (s start : String) : Option String :=
  (dropHead? start.toList s.toList).map String.ofList

def startsWith (s start : String) : Bool := (dropHead? start.toList s.toList).isSome

def endsWith (s tail : String) : Bool := (dropTail? tail.toList s.toList).isSome

end Polyglot.Text
