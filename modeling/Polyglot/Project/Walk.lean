import Polyglot.Ignore.Override
import Polyglot.Project.IgnoreFiles
import Polyglot.Project.Walker

/-!
This module contains a walker for directories with ignore files.
-/

namespace Polyglot.Walk

/--
A directory that a search has entered.
-/
structure Place where
  path : String
  location : Location
  /-- The way from the root, as patterns see it. -/
  lead : String
  /-- Whether the directory's own ignore files see that way too. -/
  showsLead : Bool
  /-- The directories entered on the way, this one first. -/
  entered : List Location
  /-- The ignore rules that hold here, nearest first. -/
  levels : List IgnoreLevel

/--
Enter a directory by the name that it has in another one.
-/
def Place.enter (disk : Disk) (p : Place) (name : String) (location : Location) : Place where
  path := Path.join p.path name
  location
  lead := Path.join p.lead name
  showsLead := p.showsLead
  entered := location :: p.entered
  levels :=
    .ofDirectory disk location (if p.showsLead then Path.join p.lead name else "")
      :: p.levels.map (·.descend name)

/--
The directory itself, as something that is come across.
-/
def Place.entry (p : Place) : Entry := ⟨p.path, .directory, some Disk.Item.directory.size⟩

/--
Whether an entry of a directory is left out. The overrides are asked first, and where they say
nothing the ignore files decide.
-/
def isIgnored (overrides : List Ignore.Rule) (p : Place) (name : String) (isDirectory : Bool) :
    Bool :=
  let path := pathBytes (Path.join p.lead name)
  (Ignore.precedence? overrides path isDirectory
    <|> IgnoreLevel.verdict? p.levels name isDirectory) == some .ignore

/--
What an entry of a directory stands for. Links stand for themselves unless they are to be followed;
one that leads nowhere, or back to a directory that the search is in, cannot be listed.
-/
inductive Target where
  | nothing
  | broken
  | leaf (kind : Entry.Kind) (size : Nat)
  | directory (location : Location)

def target (s : FileSearch) (p : Place) (name : String) : Target :=
  match s.disk.item? (p.location ++ [name]) with
  | none => .nothing
  | some (.file content) => .leaf .file content.length
  | some .directory => .directory (p.location ++ [name])
  | some (.link target) =>
    if !s.followLinks then .leaf .other target.utf8ByteSize
    else
      match s.disk.resolve p.location name with
      | .error _ => .broken
      | .ok location =>
        match s.disk.item? location with
        | some (.file content) => .leaf .file content.length
        | some .directory => if p.entered.contains location then .broken else .directory location
        | _ => .broken

/--
What there is below a directory, to a given depth.
-/
def below (s : FileSearch) (overrides : List Ignore.Rule) : Nat → Place → List (Option Entry)
  | 0, _ => []
  | depth + 1, p =>
    (s.disk.names p.location).flatMap fun name =>
      match target s p name with
      | .nothing => []
      | .broken => [none]
      | .leaf kind size =>
        if isIgnored overrides p name false || s.maxSize < size then []
        else [some ⟨Path.join p.path name, kind, some size⟩]
      | .directory location =>
        if isIgnored overrides p name true then []
        else
          let place := p.enter s.disk name location
          some place.entry :: below s overrides depth place

/--
A depth that no search exceeds: it follows a link only to a directory that it is not in, so it
follows each of them once, and between two links it goes down once.
-/
def maxDepth (disk : Disk) : Nat := (disk.items.length + 1) * (disk.items.length + 1)

/--
What follows if a root, written as a directory, begins with `./` twice. Patterns take such a path as
it is behind these, whereas they see any other path from the directory that they belong to.
-/
def doubledLead? (root : String) : Option String :=
  (Text.dropHead? "././".toList (Path.join root "").toList).map String.ofList

/--
The place where a search begins. Rules of the directories above the root count as well.
-/
def start (s : FileSearch) (location : Location) : Place where
  path := s.root
  location
  lead := (doubledLead? s.root).getD ""
  showsLead := (doubledLead? s.root).isSome
  entered := [location]
  levels :=
    .ofDirectory s.disk location ((doubledLead? s.root).getD "")
      :: IgnoreLevel.above s.disk location

/--
What a search comes across. A root that is a file is listed as it is. A dash names no file.
-/
def entries (s : FileSearch) (overrides : List Ignore.Rule) : List (Option Entry) :=
  if s.root = "-" then [some ⟨s.root, .other, none⟩]
  else
    match s.disk.resolve s.disk.workingDirectory s.root with
    | .error _ => [none]
    | .ok location =>
      if s.disk.isDirectory location then
        let place := start s location
        (if IgnoreLevel.hasFaultAbove s.disk location then [none] else [])
          ++ some place.entry :: below s overrides (maxDepth s.disk) place
      else [some ⟨s.root, .file, s.disk.ownSize? s.root⟩]

/--
The walker that reads overrides and ignore files as rules.
-/
def walker : Walker where
  readOverride text := ((Ignore.override? text).mapError Ignore.GlobError.message).map fun _ => ()
  joinOverrides texts :=
    if (Ignore.overrideRules texts).any fun rule => Ignore.isTooDeep rule.glob then
      throw "a pattern nests too deep"
    else return ()
  entries s texts := entries s (Ignore.overrideRules texts)

end Polyglot.Walk
