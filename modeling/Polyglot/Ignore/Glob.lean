/-!
This module contains glob patterns over paths, which are sequences of bytes: what they are made of,
and which paths they match. A match always covers the whole path.
-/

namespace Polyglot.Ignore

abbrev Bytes := List UInt8

def slash : UInt8 := 47

/--
One part of a pattern.
-/
inductive Part where
  | byte (b : UInt8)
  /-- `?`: any byte but a slash. -/
  | any
  /-- `*`: any bytes but slashes. -/
  | star
  /-- A leading `**/`: nothing, a slash, or anything that ends with a slash. -/
  | anyParents
  /-- A closing `/**`: everything below. -/
  | anyBelow
  /-- `/**/`: a slash, or anything between two slashes. -/
  | anyBetween
  /-- `[a-z]`: a byte inside one of the ranges, or in none of them; it may be a slash. -/
  | set (isNegated : Bool) (ranges : List (UInt8 × UInt8))
  /-- A choice between patterns. -/
  | oneOf (choices : List (List Part))
deriving Repr

abbrev Glob := List Part

/--
All ends of a list, from the list itself to the empty one.
-/
def tails : Bytes → List Bytes
  | [] => [[]]
  | b :: rest => (b :: rest) :: tails rest

/--
The ends that a run of bytes other than slashes leaves, the empty run included.
-/
def afterRun : Bytes → List Bytes
  | [] => [[]]
  | b :: rest => (b :: rest) :: if b = slash then [] else afterRun rest

/--
What follows each slash.
-/
def afterSlashes : Bytes → List Bytes
  | [] => []
  | b :: rest => if b = slash then rest :: afterSlashes rest else afterSlashes rest

def inRanges (ranges : List (UInt8 × UInt8)) (b : UInt8) : Bool :=
  ranges.any fun (low, high) => low ≤ b && b ≤ high

mutual

/--
Whether a pattern has no parts, apart from choices between nothing.
-/
def isVacant : Glob → Bool
  | [] => true
  | part :: rest => isVacantPart part && isVacant rest

def isVacantPart : Part → Bool
  | .oneOf choices => allVacant choices
  | _ => false

def allVacant : List Glob → Bool
  | [] => true
  | choice :: rest => isVacant choice && allVacant rest

end

mutual

/--
What is left of a path after a part has matched its start, for each way to match.
-/
def Part.rests (path : Bytes) : Part → List Bytes
  | .byte b =>
    match path with
    | c :: rest => if c = b then [rest] else []
    | [] => []
  | .any =>
    match path with
    | c :: rest => if c = slash then [] else [rest]
    | [] => []
  | .star => afterRun path
  | .anyParents => path :: afterSlashes path
  | .anyBelow =>
    match path with
    | c :: rest => if c = slash then tails rest else []
    | [] => []
  | .anyBetween =>
    match path with
    | c :: rest => if c = slash then rest :: afterSlashes rest else []
    | [] => []
  | .set isNegated ranges =>
    match path with
    | c :: rest => if inRanges ranges c != isNegated then [rest] else []
    | [] => []
  | .oneOf choices => if allVacant choices then [path] else choiceRests path choices

def globRests (paths : List Bytes) : Glob → List Bytes
  | [] => paths
  | part :: rest => globRests (paths.flatMap fun path => part.rests path).eraseDups rest

/--
What any of the choices leaves. A choice of nothing does not count.
-/
def choiceRests (path : Bytes) : List Glob → List Bytes
  | [] => []
  | choice :: rest =>
    (if isVacant choice then [] else globRests [path] choice) ++ choiceRests path rest

end

/--
Whether a pattern matches a path. A pattern that is only `**` matches every path.
-/
def globMatches (glob : Glob) (path : Bytes) : Bool :=
  match glob with
  | [.anyParents] => true
  | glob => (globRests [path] glob).any List.isEmpty

end Polyglot.Ignore
