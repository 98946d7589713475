import Polyglot.Ignore.Rule
import Polyglot.Project.Disk
import Polyglot.Text.Affix

/-!
This module contains the way from a directory to the one that holds what git keeps about it. That is
`.git` inside the directory, or, if `.git` is a file, the directory that the file leads to.
-/

namespace Polyglot

inductive GitDirectory where
  /-- The path of the directory, seen from a place. -/
  | found (here : Location) (path : String)
  /-- A file on the way says nothing about the directory. -/
  | unknown
  /-- A file on the way cannot be read. -/
  | unreadable
deriving DecidableEq, Repr

namespace GitDirectory

/--
Go on with the first line of a file. An empty file has none, and the line has to be valid text.
-/
def withFirstLine (content : List UInt8) (next : String → GitDirectory) : GitDirectory :=
  match Ignore.fileLines content with
  | [] => unknown
  | line :: _ =>
    match String.fromUTF8? ⟨line.toArray⟩ with
    | some text => next text
    | none => unreadable

/--
The text in front of the path in a `.git` file.
-/
def mark : List Char := "gitdir: ".toList

/--
The directory that a work tree shares with others. The file `commondir` names it; a path that begins
with a dot counts from where that file is, any other one from the working directory.
-/
def shared (disk : Disk) (path : String) : GitDirectory :=
  match disk.itemNamed (Path.join path "commondir") with
  | .ok (.file content) =>
    withFirstLine content fun line =>
      found disk.workingDirectory
        (if line.toList.head? = some '.' then Path.join path line else line)
  | .ok _ => unreadable
  | .error _ => unknown

/--
The directory that belongs to another one. Paths in files count from the working directory.
-/
def ofDirectory (disk : Disk) (dir : Location) : GitDirectory :=
  match disk.itemAt dir ".git" with
  | .ok (.file content) =>
    withFirstLine content fun line =>
      match Text.dropHead? mark line.toList with
      | some path => shared disk (String.ofList path)
      | none => unknown
  | _ => found dir ".git"

end GitDirectory

end Polyglot
