import Polyglot.Record.Position

/-!
This module contains source texts: cutting out a range of bytes, and turning a byte offset into a
position.
-/

namespace Polyglot

/--
The offsets of the newlines among the bytes from `offset` on.
-/
def newlineOffsets (offset : Nat) : List UInt8 → List Nat
  | [] => []
  | b :: rest =>
    if b = 10 then offset :: newlineOffsets (offset + 1) rest else newlineOffsets (offset + 1) rest

/--
A source text with the offsets of its newlines.
-/
structure Source where
  text : String
  newlines : List Nat
  newlines_eq : newlines = newlineOffsets 0 text.toUTF8.toList

namespace Source

def ofString (text : String) : Source where
  text
  newlines := newlineOffsets 0 text.toUTF8.toList
  newlines_eq := rfl

/--
The text from byte `start` up to byte `stop`; empty if these bounds do not delimit whole characters
of the text.
-/
def slice (source : Source) (start stop : Nat) : String :=
  let bytes := source.text.toUTF8
  if start ≤ stop ∧ stop ≤ bytes.size then
    (String.fromUTF8? (bytes.extract start stop)).getD ""
  else ""

/--
The row and the column of a byte offset, both from zero: how many newlines stand before it, and how
many bytes since the last of them.
-/
def rowColumn (source : Source) (offset : Nat) : Nat × Nat :=
  let rows := source.newlines.takeWhile (· < offset)
  match rows.getLast? with
  | none => (0, offset)
  | some newline => (rows.length, offset - (newline + 1))

def position (source : Source) (offset : Nat) : Position :=
  let (row, column) := source.rowColumn offset
  Position.ofRowColumn row column

end Source

end Polyglot
