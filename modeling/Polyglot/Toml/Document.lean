import Polyglot.Toml.Scan

/-!
This module contains the reading of whole TOML documents: values, the lines of a document, and the
tables that the lines make up.
-/

namespace Polyglot.Toml

open Reader

/--
How many parts a key has at most, and how many levels arrays and inline tables may nest.
-/
def maxNesting : Nat := 79

/--
A dotted key, with blanks around each of its parts. `read` has the parts so far, last first.
-/
def keyParts (read : List String) (cs : List Char) : Option (List String × List Char) := do
  let (part, rest) ← (do blanks; let part ← simpleKey; blanks; return part : Reader String).run cs
  match rest with
  | '.' :: rest =>
    if rest.length < cs.length then keyParts (part :: read) rest else none
  | rest => some ((part :: read).reverse, rest)
termination_by cs.length

/--
A dotted key as the path to a table and the key in it.
-/
def key : Reader (List String × String) := do
  let parts ← lift (keyParts [])
  guard (parts.length ≤ maxNesting)
  match parts.getLast? with
  | some last => return (parts.dropLast, last)
  | none => failure

/--
The items of an array up to the closing bracket. A comma may follow the last one.
-/
def arrayItems (value : Reader Value) (read : List Value) (cs : List Char) :
    Option (Value × List Char) := do
  let start ← skipFiller false cs
  match start with
  | ']' :: rest => some (.array read.reverse, rest)
  | start =>
    let (item, rest) ← value.run start
    match ← skipFiller false rest with
    | ']' :: rest => some (.array (item :: read).reverse, rest)
    | ',' :: rest =>
      if rest.length < cs.length then arrayItems value (item :: read) rest else none
    | _ => none
termination_by cs.length

/--
A key and its value, with blanks after it.
-/
def pair (value : Reader Value) : Reader ((List String × String) × Value) := do
  let k ← key
  literal "="
  blanks
  let v ← value
  return (k, v)

/--
The pairs of an inline table up to the closing brace. No comma follows the last one.
-/
def inlinePairs (value : Reader Value) (read : Entries) (cs : List Char) :
    Option (Value × List Char) := do
  let (((path, k), v), rest) ← (pair value).run cs
  let entries ← read.put path k v
  match rest.dropWhile isBlankChar with
  | '\x7d' :: rest => some (.table .inline entries, rest)
  | ',' :: rest =>
    if rest.length < cs.length then inlinePairs value entries rest else none
  | _ => none
termination_by cs.length

def inlineTable (value : Reader Value) (cs : List Char) : Option (Value × List Char) :=
  match cs.dropWhile isBlankChar with
  | '\x7d' :: rest => some (.table .inline [], rest)
  | cs => inlinePairs value [] cs

/--
A value that nests at most the given number of levels.
-/
def value : (levels : Nat) → Reader Value
  | 0 => scalar
  | levels + 1 => do
    match ← get with
    | '[' :: rest => set rest; lift (arrayItems (value levels) [])
    | '\x7b' :: rest => set rest; lift (inlineTable (value levels))
    | _ => scalar
where
  scalar : Reader Value :=
    (.string <$> string)
      <|> (do literal "true"; return .boolean true)
      <|> (do literal "false"; return .boolean false)
      <|> datetime
      <|> number

/--
One line of a document.
-/
inductive Line where
  | pair (path : List String) (key : String) (value : Value)
  | header (path : List String) (key : String)
  | arrayHeader (path : List String) (key : String)
  | empty

def headerLine : Reader Line := do
  if "[[".toList.isPrefixOf (← get) then
    literal "[["
    let (path, k) ← key
    literal "]]"
    lineEnd
    return .arrayHeader path k
  else
    literal "["
    let (path, k) ← key
    literal "]"
    lineEnd
    return .header path k

def pairLine : Reader Line := do
  let ((path, k), v) ← pair (value maxNesting)
  lineEnd
  return .pair path k v

/--
One line. Something has to be left of the text.
-/
def line : Reader Line := do
  match ← peek? with
  | none => failure
  | some '[' => headerLine
  | some '#' | some '\n' | some '\r' => do lineEnd; return .empty
  | some _ => pairLine

/--
The lines of a text. `read` has the lines so far, last first. Every line takes at least one
character; a line that took none would end the reading.
-/
def lines (read : List Line) (cs : List Char) : Option (List Line) :=
  match cs.dropWhile isBlankChar with
  | [] => some read.reverse
  | start =>
    match line.run start with
    | none => none
    | some (l, rest) => if rest.length < cs.length then lines (l :: read) rest else none
termination_by cs.length

/--
The table that a document is building: all tables before the last header, and the last header with
the entries below it.
-/
structure Draft where
  closed : Entries := []
  header : Option (Bool × List String × String) := none
  entries : Entries := []

namespace Draft

/--
Put the entries below the last header in their place.
-/
def close (d : Draft) : Option Entries :=
  match d.header with
  | none => some d.entries
  | some (isArray, path, key) =>
    let place (_ : Origin) (parent : Entries) : Option Entries :=
      match isArray, parent.find? key with
      | false, none | false, some (.table .implied _) =>
        some (parent.set key (.table .header d.entries))
      | true, none => some (parent.set key (.tables [d.entries]))
      | true, some (.tables members) => some (parent.set key (.tables (members ++ [d.entries])))
      | _, _ => none
    d.closed.modifyAt .implied place path .header

/--
The entries that a table has before its header: those of its subtables.
-/
def before (closed : Entries) : (path : List String) → (key : String) → Entries
  | [], key =>
    match closed.find? key with
    | some (.table .implied entries) => entries
    | _ => []
  | outer :: path, key =>
    match closed.find? outer with
    | some (.table _ entries) => before entries path key
    | some (.tables members) => before (members.getLast?.getD []) path key
    | _ => []

def add (d : Draft) : Line → Option Draft
  | .empty => some d
  | .pair path key v => do
    return { d with entries := ← d.entries.put path key v }
  | .header path key => do
    let closed ← d.close
    return { closed, header := some (false, path, key), entries := before closed path key }
  | .arrayHeader path key => do
    let closed ← d.close
    return { closed, header := some (true, path, key) }

end Draft

/--
Read a TOML text into the entries of its root table.
-/
def parse? (text : String) : Option Entries := do
  let cs := text.toList
  let cs := if cs.head? = some '\uFEFF' then cs.tail else cs
  let draft ← (← lines [] cs).foldlM Draft.add {}
  draft.close

end Polyglot.Toml
