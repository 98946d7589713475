/-!
This module contains the class of blank characters (the Unicode property `White_Space`) and the
operations that trim, split and squeeze text at blanks.
-/

namespace Polyglot.Text

/--
The characters of the Unicode property `White_Space`.
-/
def isBlank (c : Char) : Bool :=
  let n := c.toNat
  (9 ≤ n && n ≤ 13) || n == 0x20 || n == 0x85 || n == 0xA0 || n == 0x1680
    || (0x2000 ≤ n && n ≤ 0x200A) || n == 0x2028 || n == 0x2029 || n == 0x202F || n == 0x205F
    || n == 0x3000

def dropBlanks (cs : List Char) : List Char := cs.dropWhile isBlank

/--
Drop the longest suffix all of whose characters satisfy `p`.
-/
def dropEndWhile (p : Char → Bool) (cs : List Char) : List Char :=
  (cs.reverse.dropWhile p).reverse

def dropBlanksEnd (cs : List Char) : List Char := dropEndWhile isBlank cs

def trimChars (cs : List Char) : List Char := dropBlanksEnd (dropBlanks cs)

/--
Remove the blanks at both ends.
-/
def trim (s : String) : String := String.ofList (trimChars s.toList)

/--
The maximal runs of characters that are not blank, in order.
-/
def words (cs : List Char) : List (List Char) :=
  go [] cs
where
  go (current : List Char) : List Char → List (List Char)
    | [] => if current.isEmpty then [] else [current.reverse]
    | c :: rest =>
      if isBlank c then
        if current.isEmpty then go [] rest else current.reverse :: go [] rest
      else
        go (c :: current) rest

/--
Replace every run of blanks by one space and drop those at the ends.
-/
def collapse (s : String) : String :=
  String.intercalate " " ((words s.toList).map String.ofList)

def withoutBlanks (cs : List Char) : List Char := cs.filter (!isBlank ·)

/--
Remove every blank.
-/
def strip (s : String) : String := String.ofList (withoutBlanks s.toList)

end Polyglot.Text
