import Polyglot.Ignore.Glob

/-!
This module contains the reading of glob patterns.
-/

namespace Polyglot.Ignore

/--
What may be wrong with a pattern.
-/
inductive GlobError where
  | unclosedSet
  | unclosedChoice
  | unopenedChoice
  | invalidRange
  | danglingEscape
deriving DecidableEq, Repr

def GlobError.message : GlobError → String
  | unclosedSet => "a bracket is not closed"
  | unclosedChoice => "a brace is not closed"
  | unopenedChoice => "a brace is not opened"
  | invalidRange => "the ends of a range are in the wrong order"
  | danglingEscape => "nothing follows the escape at the end"

/--
The bytes of a character.
-/
def charBytes (c : Char) : Bytes := c.toString.toUTF8.toList

/--
The ranges of bytes for a range of characters. A range between characters of several bytes reaches
from the last byte of the one to the first byte of the other.
-/
def byteRanges (range : Char × Char) : List (UInt8 × UInt8) :=
  let single (b : UInt8) := (b, b)
  if range.1 = range.2 then (charBytes range.1).map single
  else
    let low := charBytes range.1
    let high := charBytes range.2
    low.dropLast.map single ++ [(low.getLast?.getD 0, high.head?.getD 0)] ++ high.tail.map single

/--
The state inside brackets: the ranges so far, last first, and whether a hyphen asks for the other
end of the last one.
-/
structure SetDraft where
  ranges : List (Char × Char) := []
  isOpen : Bool := false

/--
Add a character to a set.
-/
def SetDraft.add (d : SetDraft) (c : Char) : Except GlobError SetDraft :=
  match d.isOpen, d.ranges with
  | true, (low, _) :: rest =>
    if c < low then throw .invalidRange else return { ranges := (low, c) :: rest }
  | _, ranges => return { ranges := (c, c) :: ranges }

/--
Read the inside of brackets up to the closing one. A closing bracket that comes first is part of the
set, and so is a hyphen that comes first or last.
-/
def setRanges (d : SetDraft) (isFirst : Bool) :
    List Char → Except GlobError (List (Char × Char) × List Char)
  | [] => throw .unclosedSet
  | c :: rest =>
    if c = ']' ∧ !isFirst then
      return (((if d.isOpen then ('-', '-') :: d.ranges else d.ranges).reverse), rest)
    else if c = '-' ∧ !isFirst ∧ !d.isOpen then
      setRanges { d with isOpen := true } false rest
    else do
      setRanges (← d.add c) false rest

/--
Read a set behind its opening bracket.
-/
def bracketSet (cs : List Char) : Except GlobError (Part × List Char) := do
  let isNegated := cs.head? == some '!' || cs.head? == some '^'
  let (ranges, rest) ← setRanges {} true (if isNegated then cs.tail else cs)
  return (.set isNegated (ranges.flatMap byteRanges), rest)

/--
The state of reading a pattern: the parts of the current choice, last first, and for each open brace
the parts before it and the choices that are complete.
-/
structure Draft where
  parts : Glob := []
  pending : List (Glob × List Glob) := []

namespace Draft

def push (d : Draft) (part : Part) : Draft := { d with parts := part :: d.parts }

def pushChar (d : Draft) (c : Char) : Draft :=
  { d with parts := ((charBytes c).map Part.byte).reverse ++ d.parts }

/--
Put a part in place of the last one, unless that stands for whole directories already.
-/
def replaceLast (d : Draft) (part : Part) : Draft :=
  match d.parts with
  | .anyParents :: _ | .anyBelow :: _ => d
  | parts => { d with parts := part :: parts.tail }

def openBrace (d : Draft) : Draft := { parts := [], pending := (d.parts, []) :: d.pending }

def comma (d : Draft) : Draft :=
  match d.pending with
  | [] => d.pushChar ','
  | (before, choices) :: pending =>
    { parts := [], pending := (before, d.parts.reverse :: choices) :: pending }

def closeBrace (d : Draft) : Except GlobError Draft :=
  match d.pending with
  | [] => throw .unopenedChoice
  | (before, choices) :: pending =>
    return { parts := .oneOf (d.parts.reverse :: choices).reverse :: before, pending }

end Draft

/--
Read a pattern. `last` is the character before, and `bracketsOpen` says that an earlier bracket was
never closed, so that brackets stand for themselves from there on.
-/
def readGlob (allowUnclosed : Bool) (d : Draft) (last : Option Char) (bracketsOpen : Bool)
    (cs : List Char) : Except GlobError Glob :=
  match cs with
  | [] => if d.pending.isEmpty then return d.parts.reverse else throw .unclosedChoice
  | '*' :: '*' :: rest =>
    let twoStars := (d.push .star).push .star
    if d.parts.isEmpty then
      match rest with
      | [] => readGlob allowUnclosed (d.push .anyParents) (some '*') bracketsOpen []
      | '/' :: rest => readGlob allowUnclosed (d.push .anyParents) (some '/') bracketsOpen rest
      | rest => readGlob allowUnclosed twoStars (some '*') bracketsOpen rest
    else if last ≠ some '/' ∧ (d.pending.isEmpty ∨ (last ≠ some ',' ∧ last ≠ some '\x7b')) then
      readGlob allowUnclosed twoStars (some '*') bracketsOpen rest
    else
      match rest with
      | [] => readGlob allowUnclosed (d.replaceLast .anyBelow) (some '*') bracketsOpen []
      | '/' :: rest =>
        readGlob allowUnclosed (d.replaceLast .anyBetween) (some '/') bracketsOpen rest
      | c :: rest =>
        if !d.pending.isEmpty ∧ (c = ',' ∨ c = '\x7d') then
          readGlob allowUnclosed (d.replaceLast .anyBelow) (some '*') bracketsOpen (c :: rest)
        else readGlob allowUnclosed twoStars (some '*') bracketsOpen (c :: rest)
  | '\\' :: c :: rest => readGlob allowUnclosed (d.pushChar c) (some c) bracketsOpen rest
  | c :: rest =>
    match c with
    | '?' => readGlob allowUnclosed (d.push .any) (some c) bracketsOpen rest
    | '*' => readGlob allowUnclosed (d.push .star) (some c) bracketsOpen rest
    | '\x7b' => readGlob allowUnclosed d.openBrace (some c) bracketsOpen rest
    | '\x7d' => do readGlob allowUnclosed (← d.closeBrace) (some c) bracketsOpen rest
    | ',' => readGlob allowUnclosed d.comma (some c) bracketsOpen rest
    | '\\' => throw .danglingEscape
    | '[' =>
      if bracketsOpen then readGlob allowUnclosed (d.pushChar c) (some c) true rest
      else
        match bracketSet rest with
        | .ok (part, after) =>
          if after.length ≤ rest.length then
            readGlob allowUnclosed (d.push part) (some ']') false after
          else throw .unclosedSet
        | .error .unclosedSet =>
          if allowUnclosed then readGlob allowUnclosed (d.pushChar c) (some c) true rest
          else throw .unclosedSet
        | .error e => throw e
    | c => readGlob allowUnclosed (d.pushChar c) (some c) bracketsOpen rest
termination_by cs.length
decreasing_by
  all_goals
    simp only [List.length_cons]
    omega

/--
Read a pattern. An unclosed bracket may be allowed to stand for itself.
-/
def Glob.ofText (allowUnclosed : Bool) (text : String) : Except GlobError Glob :=
  readGlob allowUnclosed {} none false text.toList

end Polyglot.Ignore
