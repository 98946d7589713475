import Polyglot.Ignore.Glob

/-!
This module contains how deep a pattern nests. A pattern is an expression built from runs, sets,
sequences and choices; one that nests too deep is refused.
-/

namespace Polyglot.Ignore

/--
How many members a part adds to the sequence that it is in. A closing `/**` is a slash and a run.
-/
def Part.width : Part → Nat
  | .anyBelow => 2
  | .oneOf choices => if allVacant choices then 0 else 1
  | _ => 1

def width : Glob → Nat
  | [] => 0
  | part :: rest => part.width + width rest

/--
The choices that do not stand for nothing.
-/
def solidChoices (choices : List Glob) : List Glob := choices.filter (!isVacant ·)

/--
The level that several members take up. One member alone takes up none.
-/
def levelFor (members : Nat) : Nat := if members ≤ 1 then 0 else 1

mutual

/--
How many levels a part takes up. A set is a level, and one more if it has several ranges; a run of
a set is one more. Both ways to match whole directories are a bracketed choice whose second member
is a sequence with a run.
-/
def Part.depth : Part → Nat
  | .byte _ => 0
  | .any => 1
  | .star => 2
  | .anyParents => 4
  | .anyBelow => 1
  | .anyBetween => 4
  | .set _ ranges => 1 + levelFor ranges.length
  | .oneOf choices =>
    if allVacant choices then 0
    else 1 + levelFor (solidChoices choices).length + choicesDepth choices

/--
How deep the deepest part of a pattern is.
-/
def partsDepth : Glob → Nat
  | [] => 0
  | part :: rest => max part.depth (partsDepth rest)

/--
How deep the deepest of some choices is.
-/
def choicesDepth : List Glob → Nat
  | [] => 0
  | choice :: rest => max (levelFor (width choice) + partsDepth choice) (choicesDepth rest)

end

/--
How deep a pattern is. The whole pattern is a sequence, as both ends of the path belong to it.
-/
def depth (glob : Glob) : Nat := 1 + partsDepth glob

def maxDepth : Nat := 250

def isTooDeep (glob : Glob) : Bool := maxDepth < depth glob

end Polyglot.Ignore
