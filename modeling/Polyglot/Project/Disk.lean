import Polyglot.Path
import Polyglot.Project.FileError

/-!
This module contains the files that a project is made of: a tree of directories with files and
symbolic links, and the way from a path to what it names.
-/

namespace Polyglot

/--
The place of an item: the names that lead to it from the top directory.
-/
abbrev Location := List String

inductive Disk.Item where
  | file (content : List UInt8)
  | directory
  | link (target : String)
deriving DecidableEq, Repr

/--
A tree of directories. The top directory is always there; every other item is listed with its place.
-/
structure Disk where
  items : List (Location × Disk.Item) := []
  /-- The directory that paths start from unless they are absolute. -/
  workingDirectory : Location := []

namespace Disk

def item? (d : Disk) (loc : Location) : Option Item :=
  if loc.isEmpty then some .directory else d.items.lookup loc

def isDirectory (d : Disk) (loc : Location) : Bool := d.item? loc == some .directory

/--
The names of what a directory holds.
-/
def names (d : Disk) (loc : Location) : List String :=
  d.items.filterMap fun (place, _) =>
    match place.getLast? with
    | some name => if place.dropLast = loc then some name else none
    | none => none

/--
The size of an item in bytes. A directory takes one block.
-/
def Item.size : Item → Nat
  | file content => content.length
  | directory => 4096
  | link target => target.utf8ByteSize

/-! Paths -/

/--
How many links are followed on the way to an item.
-/
def maxLinks : Nat := 40

/--
The directory that a path starts from, given the one that it is seen from. An absolute path starts
from the top directory.
-/
def origin (here : Location) (path : String) : Location := if Path.isAbsolute path then [] else here

/--
The place that the pieces of a path lead to. Nothing needs to be there, but everything before the
last piece does. A link is followed if more pieces come after it, or if `followLast` says so;
`follow` goes on with its target and the pieces after it.
-/
def walkAlong (d : Disk) (followLast : Bool)
    (follow : Location → String → List String → Except ReadError Location) (here : Location) :
    List String → Except ReadError Location
  | [] => return here
  | piece :: rest =>
    if !d.isDirectory here then throw .notDirectory
    else if piece = "" ∨ piece = "." then d.walkAlong followLast follow here rest
    else if piece = ".." then d.walkAlong followLast follow here.dropLast rest
    else if 255 < piece.utf8ByteSize then throw .nameTooLong
    else
      match d.item? (here ++ [piece]) with
      | none => if rest.isEmpty then return here ++ [piece] else throw .notFound
      | some (.link target) =>
        if rest.isEmpty ∧ !followLast then return here ++ [piece] else follow here target rest
      | some _ => d.walkAlong followLast follow (here ++ [piece]) rest

/--
The place that the pieces of a path lead to if no more than the given number of links is followed.
-/
def walkTo (d : Disk) (followLast : Bool) :
    Nat → Location → List String → Except ReadError Location
  | 0 => d.walkAlong followLast fun _ _ _ => throw .tooManyLinks
  | links + 1 =>
    d.walkAlong followLast fun here target rest =>
      d.walkTo followLast links (origin here target) (Path.pieces target ++ rest)

/--
The place that a path leads to from a directory.
-/
def locate (d : Disk) (followLast : Bool) (here : Location) (path : String) :
    Except ReadError Location :=
  if path.toList.contains '\x00' then throw .nulInName
  else if path = "" then throw .notFound
  else if 4095 < path.utf8ByteSize then throw .nameTooLong
  else d.walkTo followLast maxLinks (origin here path) (Path.pieces path)

/--
The place of an item that exists, links followed.
-/
def resolve (d : Disk) (here : Location) (path : String) : Except ReadError Location := do
  let loc ← d.locate true here path
  if (d.item? loc).isSome then return loc else throw .notFound

/--
The item that a path leads to.
-/
def itemAt (d : Disk) (here : Location) (path : String) : Except ReadError Item := do
  match d.item? (← d.locate true here path) with
  | some item => return item
  | none => throw .notFound

/--
The item that a path names, seen from the working directory.
-/
def itemNamed (d : Disk) (path : String) : Except ReadError Item := d.itemAt d.workingDirectory path

/--
The size of what a path names by itself, that is of the link if it is one.
-/
def ownSize? (d : Disk) (path : String) : Option Nat :=
  match d.locate false d.workingDirectory path with
  | .ok loc => (d.item? loc).map Item.size
  | .error _ => none

/-! Reading -/

def readBytes (d : Disk) (here : Location) (path : String) : Except ReadError (List UInt8) := do
  match ← d.itemAt here path with
  | .file content => return content
  | .directory => throw .isDirectory
  | .link _ => throw .tooManyLinks

def readText (d : Disk) (path : String) : Except ReadError String := do
  let content ← d.readBytes d.workingDirectory path
  match String.fromUTF8? ⟨content.toArray⟩ with
  | some text => return text
  | none => throw .invalidText

/-! Changes -/

def put (d : Disk) (loc : Location) (item : Item) : Disk :=
  if d.items.any (·.1 = loc) then
    { d with items := d.items.map fun (place, old) => (place, if place = loc then item else old) }
  else { d with items := d.items ++ [(loc, item)] }

/--
Make a directory and those it lies in, as far as they are missing.
-/
def makeDirectory (d : Disk) (path : String) : Disk :=
  let pieces := Path.pieces path
  (List.range pieces.length).foldl step d
where
  step (d : Disk) (i : Nat) : Disk :=
    match d.walkTo true maxLinks (origin d.workingDirectory path)
        ((Path.pieces path).take (i + 1)) with
    | .ok loc => if (d.item? loc).isSome then d else d.put loc .directory
    | .error _ => d

/--
The path of the directory that a path lies in.
-/
def parentPath (path : String) : String := String.intercalate "/" (Path.pieces path).dropLast

/--
Write a file. The directory for it is made, and a link is written through.
-/
def write (d : Disk) (path : String) (content : List UInt8) : Disk :=
  let d := d.makeDirectory (parentPath path)
  match d.locate true d.workingDirectory path with
  | .ok loc => d.put loc (.file content)
  | .error _ => d

def makeLink (d : Disk) (path target : String) : Disk :=
  let d := d.makeDirectory (parentPath path)
  match d.locate false d.workingDirectory path with
  | .ok loc => d.put loc (.link target)
  | .error _ => d

/--
Remove an item with everything below it. A link is removed and not followed.
-/
def remove (d : Disk) (path : String) : Disk :=
  match d.locate false d.workingDirectory path with
  | .ok loc => { d with items := d.items.filter (!loc.isPrefixOf ·.1) }
  | .error _ => d

end Disk

end Polyglot
