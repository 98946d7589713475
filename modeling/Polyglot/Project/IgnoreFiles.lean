import Polyglot.Ignore.Rule
import Polyglot.Project.Disk
import Polyglot.Project.GitDirectory

/-!
This module contains the ignore files of directories, and what those of a directory and of all the
directories above it say about an entry.
-/

namespace Polyglot

/--
The kinds of ignore files. The constructors stand in the order in which the kinds are asked.
-/
inductive IgnoreFile where
  | own
  | plain
  | git
  | gitExclude
deriving DecidableEq, Repr

namespace IgnoreFile

def all : List IgnoreFile := [own, plain, git, gitExclude]

/--
Read the ignore file that a path leads to. A file that is missing or unreadable has no rules.
-/
def readAt (disk : Disk) (here : Location) (path : String) : Ignore.RuleFile :=
  match disk.readBytes here path with
  | .ok content => .ofContent content
  | .error _ => {}

/--
Read the ignore file of a directory.
-/
def read (disk : Disk) (dir : Location) : IgnoreFile → Ignore.RuleFile
  | own => readAt disk dir ".driftignore"
  | plain => readAt disk dir ".ignore"
  | git => readAt disk dir ".gitignore"
  | gitExclude =>
    match GitDirectory.ofDirectory disk dir with
    | .found here path => readAt disk here (Path.join path "info/exclude")
    | .unknown => {}
    | .unreadable => { isFaulty := true }

end IgnoreFile

def pathBytes (path : String) : Ignore.Bytes := path.toUTF8.toList

/--
The rules of one directory, seen from a directory below it (or from itself). `lead` is the way down,
as the rules see it.
-/
structure IgnoreLevel where
  lead : String
  own : List Ignore.Rule
  plain : List Ignore.Rule
  git : List Ignore.Rule
  gitExclude : List Ignore.Rule

namespace IgnoreLevel

def ofDirectory (disk : Disk) (dir : Location) (lead : String) : IgnoreLevel where
  lead
  own := (IgnoreFile.read disk dir .own).rules
  plain := (IgnoreFile.read disk dir .plain).rules
  git := (IgnoreFile.read disk dir .git).rules
  gitExclude := (IgnoreFile.read disk dir .gitExclude).rules

def rules (level : IgnoreLevel) : IgnoreFile → List Ignore.Rule
  | .own => level.own
  | .plain => level.plain
  | .git => level.git
  | .gitExclude => level.gitExclude

/--
The same rules seen from a directory one step further down.
-/
def descend (level : IgnoreLevel) (name : String) : IgnoreLevel :=
  { level with lead := Path.join level.lead name }

/--
What the rules of some levels, nearest first, say about an entry. Kinds of files are asked in their
order, and of each kind the nearest file that says anything decides.
-/
def verdict? (levels : List IgnoreLevel) (name : String) (isDirectory : Bool) :
    Option Ignore.Verdict :=
  IgnoreFile.all.findSome? fun kind =>
    levels.findSome? fun level =>
      Ignore.verdict? (level.rules kind) (pathBytes (Path.join level.lead name)) isDirectory

/--
The directories above a place, nearest first, each with the way down from it.
-/
def parents (loc : Location) : List (Location × String) :=
  (List.range loc.length).reverse.map fun n => (loc.take n, String.intercalate "/" (loc.drop n))

/--
The levels of the directories above a place.
-/
def above (disk : Disk) (loc : Location) : List IgnoreLevel :=
  (parents loc).map fun (dir, lead) => ofDirectory disk dir lead

/--
Whether something is wrong with an ignore file above a place.
-/
def hasFaultAbove (disk : Disk) (loc : Location) : Bool :=
  (parents loc).any fun (dir, _) =>
    IgnoreFile.all.any fun kind => (IgnoreFile.read disk dir kind).isFaulty

end IgnoreLevel

end Polyglot
