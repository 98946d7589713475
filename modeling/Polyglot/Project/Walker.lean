import Polyglot.Config.Validate
import Polyglot.Project.Disk

/-!
This module contains what the search for the files of a project takes from elsewhere: a walker that
lists what is below a root. What it is told to leave out is chosen here.
-/

namespace Polyglot

inductive Entry.Kind where
  | file
  | directory
  | other
deriving DecidableEq, Repr

/--
Something that a walker comes across. The path continues the spelling of the root.
-/
structure Entry where
  path : String
  kind : Entry.Kind
  /-- The size in bytes, if it can be told. -/
  size : Option Nat
deriving DecidableEq, Repr

/--
What a walker is to search.
-/
structure FileSearch where
  disk : Disk
  root : String
  followLinks : Bool
  /-- The size of the largest files that are listed below the root. -/
  maxSize : Nat

/--
A walker. It is given overrides, which are patterns that come before all ignore files, and says what
is wrong with them. Of a search it gives what it comes across, in any order; `none` stands for
something that could not be listed.
-/
structure Walker where
  readOverride : String → Except String Unit
  joinOverrides : List String → Except String Unit
  entries : FileSearch → (overrides : List String) → List (Option Entry)

/--
A file that a search was made for.
-/
structure FoundFile where
  path : String
  size : Nat
  language : Language
deriving DecidableEq, Repr

/-! Exclusions -/

/--
Names of files and directories that are always left out.
-/
def defaultNames : List String :=
  ["node_modules", ".git", "dist", "build", "target", ".next", "__pycache__", ".pytest_cache",
    "coverage", "vendor", ".venv", "venv", ".tox", ".mypy_cache"]

/--
The overrides that leave something out, each with the pattern that it is made of. An override keeps
what it matches, unless it begins with a mark of negation.
-/
def exclusions (extra : List String) : List (String × String) :=
  defaultNames.flatMap (fun name => [(name, "!" ++ name ++ "/**"), (name, "!" ++ name)])
    ++ extra.map fun pattern => (pattern, "!" ++ pattern)

/--
Have the exclusions read, one by one and then together.
-/
def Walker.overrides (w : Walker) (extra : List String) :
    Except InvalidSetting (List String) := do
  (exclusions extra).forM fun (pattern, text) =>
    (w.readOverride text).mapError (.badPattern pattern)
  let texts := (exclusions extra).map (·.2)
  (w.joinOverrides texts).mapError .badPatterns
  return texts

end Polyglot
