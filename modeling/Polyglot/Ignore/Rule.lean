import Polyglot.Ignore.Depth
import Polyglot.Ignore.Pattern
import Polyglot.Text.Affix
import Polyglot.Text.Blank

/-!
This module contains ignore rules, the lines of ignore files. Each line is a pattern; of the lines
that apply to a path the last one decides.
-/

namespace Polyglot.Ignore

structure Rule where
  glob : Glob
  /-- The rule keeps what it matches. -/
  isNegated : Bool
  /-- The rule applies to directories only. -/
  onlyDirectories : Bool
deriving Repr

inductive Verdict where
  | ignore
  | keep
deriving DecidableEq, Repr

def Verdict.opposite : Verdict → Verdict
  | ignore => keep
  | keep => ignore

def Rule.verdict (r : Rule) : Verdict := if r.isNegated then .keep else .ignore

def Rule.applies (r : Rule) (path : Bytes) (isDirectory : Bool) : Bool :=
  (!r.onlyDirectories || isDirectory) && globMatches r.glob path

/--
What a list of rules says about a path, if it says anything.
-/
def verdict? (rules : List Rule) (path : Bytes) (isDirectory : Bool) : Option Verdict :=
  (rules.reverse.find? (·.applies path isDirectory)).map Rule.verdict

/--
The pattern behind the text of a line. Text without a slash is looked for in every directory, unless
it was tied to its place. A closing `/**` stands for what is below a directory, without the
directory.
-/
def patternText (isAnchored : Bool) (cs : List Char) : List Char :=
  let anywhere :=
    !isAnchored && !cs.contains '/' && (Text.dropHead? "**/".toList cs).isNone
      && cs != "**".toList
  let cs := if anywhere then "**/".toList ++ cs else cs
  if (Text.dropTail? "/**".toList cs).isSome then cs ++ "/*".toList else cs

/--
Split off a closing slash, which limits a rule to directories; an escape before it goes with it.
-/
def splitDirectoryMark (cs : List Char) : Bool × List Char :=
  match Text.dropTail? ['/'] cs with
  | none => (false, cs)
  | some cs => (true, (Text.dropTail? ['\\'] cs).getD cs)

/--
Read a line. Comments and blank lines hold no rule. Blanks at the end do not count unless a
backslash stands before the last one.
-/
def Rule.ofLine? (allowUnclosed : Bool) (line : List Char) : Except GlobError (Option Rule) :=
  if line.head? = some '#' then return none
  else
    let cs := if (Text.dropTail? "\\ ".toList line).isSome then line else Text.dropBlanksEnd line
    match cs with
    | [] => return none
    | '\\' :: '!' :: _ | '\\' :: '#' :: _ => rule false false cs.tail
    | '!' :: '/' :: rest => rule true true rest
    | '!' :: rest => rule true false rest
    | '/' :: rest => rule false true rest
    | cs => rule false false cs
where
  rule (isNegated isAnchored : Bool) (cs : List Char) : Except GlobError (Option Rule) := do
    let (onlyDirectories, cs) := splitDirectoryMark cs
    let glob ← readGlob allowUnclosed {} none false (patternText isAnchored cs)
    return some { glob, isNegated, onlyDirectories }

/--
The lines of a file. A carriage return before a line feed does not count, and what follows the last
line feed is a line if it is not empty.
-/
def fileLines (content : Bytes) : List Bytes :=
  go [] content
where
  go (current : Bytes) : Bytes → List Bytes
    | [] => if current.isEmpty then [] else [current.reverse]
    | b :: rest =>
      if b = 10 then
        (if current.head? = some 13 then current.tail else current).reverse :: go [] rest
      else go (b :: current) rest

/--
The text of the lines up to the first one that is not valid text, without byte order marks at the
very start.
-/
def textLines (content : Bytes) : List (List Char) :=
  let lines := (fileLines content).map fun line =>
    (String.fromUTF8? ⟨line.toArray⟩).map String.toList
  match (lines.takeWhile Option.isSome).filterMap id with
  | [] => []
  | first :: rest => first.dropWhile (· = '\ufeff') :: rest

/--
The rules of an ignore file, and whether something is wrong with it.
-/
structure RuleFile where
  rules : List Rule := []
  isFaulty : Bool := false

namespace RuleFile

/--
The rules of some lines. A line that cannot be read is left out.
-/
def ofLines (lines : List (Except GlobError (Option Rule))) : RuleFile where
  rules := lines.filterMap fun
    | .ok rule => rule
    | .error _ => none
  isFaulty := lines.any fun
    | .ok _ => false
    | .error _ => true

/--
Read an ignore file. A pattern that nests too deep takes all other rules of the file with it.
-/
def ofContent (content : Bytes) : RuleFile :=
  let file := ofLines ((textLines content).map (Rule.ofLine? true))
  if file.rules.any fun rule => isTooDeep rule.glob then { isFaulty := true } else file

end RuleFile

end Polyglot.Ignore
