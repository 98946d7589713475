import Polyglot.Text.Binary64

/-!
This module contains TOML values, and how the tables of a document come about: from headers, from
dotted keys and from inline tables. Where a table comes from decides what may still be added to it.
-/

namespace Polyglot.Toml

/--
Where a table comes from.
-/
inductive Origin where
  /-- Written between braces. -/
  | inline
  /-- Opened by a header of its own. -/
  | header
  /-- Only passed by the header of another table. -/
  | implied
  /-- Passed by a dotted key. -/
  | dotted
deriving DecidableEq, Repr

/--
A TOML value. Of dates and times only their presence is kept.
-/
inductive Value where
  | string (value : String)
  | integer (value : Int)
  | float (value : Binary64)
  | boolean (value : Bool)
  | datetime
  | array (items : List Value)
  | table (origin : Origin) (entries : List (String × Value))
  /-- An array of tables, each opened by a header. -/
  | tables (members : List (List (String × Value)))
deriving Repr

abbrev Entries := List (String × Value)

namespace Entries

def find? (entries : Entries) (key : String) : Option Value :=
  (List.find? (·.1 == key) entries).map (·.2)

/--
Replace the value of a key in place, or add it at the end.
-/
def set (key : String) (value : Value) : Entries → Entries
  | [] => [(key, value)]
  | (k, v) :: rest => if k = key then (key, value) :: rest else (k, v) :: set key value rest

/--
Change the table that `path` leads to. Tables that are missing on the way are added with the origin
`made`. A path does not lead through other values, nor through inline tables, and that of a dotted
key does not lead through tables with a header. It leads to the last of an array of tables.
-/
def modifyAt (made : Origin) (change : Origin → Entries → Option Entries) :
    (path : List String) → Origin → Entries → Option Entries
  | [], origin, entries => change origin entries
  | key :: path, _, entries =>
    match entries.find? key with
    | none => do
      let inner ← modifyAt made change path made []
      return entries.set key (.table made inner)
    | some (.table origin inner) =>
      if origin = .inline ∨ (made = .dotted ∧ origin = .header) then none
      else do
        let inner ← modifyAt made change path origin inner
        return entries.set key (.table origin inner)
    | some (.tables members) => do
      let inner ← modifyAt made change path .header (members.getLast?.getD [])
      return entries.set key (.tables (members.dropLast ++ [inner]))
    | some _ => none

/--
Add a value under a dotted key, all but the last part of which is `path`. No key is given twice, and
a dotted key adds only to tables that dotted keys have made.
-/
def put (entries : Entries) (path : List String) (key : String) (value : Value) : Option Entries :=
  modifyAt .dotted
    (fun origin entries =>
      if (origin = .dotted) = path.isEmpty ∨ (entries.find? key).isSome then none
      else some (entries ++ [(key, value)]))
    path .header entries

end Entries

end Polyglot.Toml
