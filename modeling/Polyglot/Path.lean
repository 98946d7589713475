/-!
This module contains file paths as sequences of components. Two spellings of a path are the same
path if their components agree: `a//b`, `a/./b` and `a/b/` all name `a/b`, while a leading `./` is
a component of its own.
-/

namespace Polyglot

/--
One component of a path. The constructors stand in the order in which components compare.
-/
inductive Component where
  | root
  | current
  | parent
  | name (text : String)
deriving DecidableEq, Repr, Hashable

namespace Component

def rank : Component → Nat
  | root => 0
  | current => 1
  | parent => 2
  | name _ => 3

def compare : Component → Component → Ordering
  | name a, name b => Ord.compare a b
  | a, b => Ord.compare a.rank b.rank

end Component

namespace Path

/--
Split at every slash, keeping empty pieces.
-/
def pieces (path : String) : List String :=
  (go [] path.toList).map String.ofList
where
  go (current : List Char) : List Char → List (List Char)
    | [] => [current.reverse]
    | c :: rest => if c == '/' then current.reverse :: go [] rest else go (c :: current) rest

def isAbsolute (path : String) : Bool := path.toList.head? == some '/'

/--
The component that a piece stands for; empty pieces and dots stand for none.
-/
def piece? (text : String) : Option Component :=
  if text = "" ∨ text = "." then none
  else if text = ".." then some .parent
  else some (.name text)

/--
The components of a path.
-/
def components (path : String) : List Component :=
  let parts := pieces path
  let lead :=
    if isAbsolute path then [Component.root]
    else if parts.head? = some "." then [Component.current]
    else []
  lead ++ parts.filterMap piece?

/--
The last component, if it is a name.
-/
def fileName? (path : String) : Option String :=
  match (components path).getLast? with
  | some (.name text) => some text
  | _ => none

/--
What follows the last dot of a file name. A name without a dot, or with a leading one only, has no
extension.
-/
def extensionOf? (name : String) : Option String :=
  let cs := name.toList.reverse
  let tail := cs.takeWhile (· != '.')
  if tail.length + 1 < cs.length then some (String.ofList tail.reverse) else none

def extension? (path : String) : Option String := (fileName? path).bind extensionOf?

/--
Append a name to a path; a slash is added unless the path ends with one or is empty.
-/
def join (path name : String) : String :=
  if path = "" ∨ path.toList.getLast? = some '/' then path ++ name
  else path ++ "/" ++ name

/--
Paths compare by their components, first difference first.
-/
def compare (p q : String) : Ordering :=
  go (components p) (components q)
where
  go : List Component → List Component → Ordering
    | [], [] => .eq
    | [], _ :: _ => .lt
    | _ :: _, [] => .gt
    | a :: as, b :: bs =>
      match a.compare b with
      | .eq => go as bs
      | order => order

end Path

end Polyglot
