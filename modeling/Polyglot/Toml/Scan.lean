import Polyglot.Toml.Value

/-!
This module contains the smallest parts of TOML texts: blanks and comments, keys, strings, numbers,
dates and times.
-/

namespace Polyglot.Toml

/--
A reader takes something from the start of a text, or fails.
-/
abbrev Reader := StateT (List Char) Option

namespace Reader

def peek? : Reader (Option Char) := return (← get).head?

/--
Take the longest start whose characters satisfy `p`.
-/
def takeWhile (p : Char → Bool) : Reader (List Char) := do
  let cs ← get
  set (cs.dropWhile p)
  return cs.takeWhile p

/--
Take exactly `s`.
-/
def literal (s : String) : Reader Unit := do
  let cs ← get
  guard (s.toList.isPrefixOf cs)
  set (cs.drop s.length)

/--
Take one of the given characters.
-/
def oneOf (allowed : List Char) : Reader Char := do
  match ← get with
  | c :: rest =>
    guard (allowed.contains c)
    set rest
    return c
  | [] => failure

/--
Run a function that reads from a list of characters.
-/
def lift (read : List Char → Option (α × List Char)) : Reader α := read

end Reader

open Reader

def isBlankChar (c : Char) : Bool := c == ' ' || c == '\t'

def blanks : Reader Unit := discard (takeWhile isBlankChar)

/--
The characters of comments: no controls but the tab.
-/
def isCommentChar (c : Char) : Bool := c == '\t' || (0x20 ≤ c.toNat && c.toNat != 0x7F)

def newline : Reader Unit := literal "\n" <|> literal "\r\n"

def atEnd : Reader Unit := do guard (← get).isEmpty

/--
The end of a line, possibly after blanks and a comment.
-/
def lineEnd : Reader Unit := do
  blanks
  if (← peek?) = some '#' then discard (takeWhile isCommentChar)
  newline <|> atEnd

/--
Skip blanks and newlines.
-/
def skipLines : List Char → List Char
  | ' ' :: rest => skipLines rest
  | '\t' :: rest => skipLines rest
  | '\n' :: rest => skipLines rest
  | '\r' :: '\n' :: rest => skipLines rest
  | cs => cs

theorem length_skipLines (cs : List Char) : (skipLines cs).length ≤ cs.length := by
  fun_induction skipLines cs with
  | case5 => exact Nat.le_refl _
  | _ =>
    simp only [List.length_cons]
    omega

/--
Skip blanks, newlines and comments, each of which has to end with a newline.
-/
def skipFiller (inComment : Bool) : List Char → Option (List Char)
  | [] => if inComment then none else some []
  | '\n' :: rest => skipFiller false rest
  | '\r' :: '\n' :: rest => skipFiller false rest
  | c :: rest =>
    if inComment then
      if isCommentChar c then skipFiller true rest else none
    else if isBlankChar c then skipFiller false rest
    else if c = '#' then skipFiller true rest
    else some (c :: rest)

def filler : Reader Unit := do set (← skipFiller false (← get))

/-! Strings -/

/--
The characters that stand for themselves between double quotes.
-/
def isBasicChar (c : Char) : Bool := isCommentChar c && c != '"' && c != '\\'

/--
The characters that stand for themselves between single quotes.
-/
def isLiteralChar (c : Char) : Bool := isCommentChar c && c != '\x27'

def hexValue? (c : Char) : Option Nat :=
  if c.isDigit then some (c.toNat - '0'.toNat)
  else if 'a' ≤ c ∧ c ≤ 'f' then some (c.toNat - 'a'.toNat + 10)
  else if 'A' ≤ c ∧ c ≤ 'F' then some (c.toNat - 'A'.toNat + 10)
  else none

/--
The character with the given code in hexadecimal digits.
-/
def codePoint? (digits : List Char) : Option Char := do
  let code ← digits.foldlM (fun n d => (hexValue? d).map (16 * n + ·)) 0
  guard code.isValidChar
  return Char.ofNat code

/--
The character that the text behind a backslash stands for, and what follows.
-/
def escape? : List Char → Option (Char × List Char)
  | 'b' :: rest => some ('\x08', rest)
  | 't' :: rest => some ('\t', rest)
  | 'n' :: rest => some ('\n', rest)
  | 'f' :: rest => some ('\x0c', rest)
  | 'r' :: rest => some ('\r', rest)
  | '"' :: rest => some ('"', rest)
  | '\\' :: rest => some ('\\', rest)
  | 'u' :: rest => code 4 rest
  | 'U' :: rest => code 8 rest
  | _ => none
where
  code (length : Nat) (cs : List Char) : Option (Char × List Char) := do
    guard (length ≤ cs.length)
    return (← codePoint? (cs.take length), cs.drop length)

theorem length_of_escape? {cs rest : List Char} {c : Char} (h : escape? cs = some (c, rest)) :
    rest.length < cs.length := by
  have hcode : ∀ {length : Nat} {cs : List Char}, escape?.code length cs = some (c, rest) →
      rest.length ≤ cs.length := by
    intro length cs h
    unfold escape?.code at h
    obtain ⟨_, -, h⟩ := Option.bind_eq_some_iff.1 h
    obtain ⟨_, -, h⟩ := Option.bind_eq_some_iff.1 h
    cases h
    simp
  unfold escape? at h
  split at h
  any_goals
    simp only [Option.some.injEq, Prod.mk.injEq] at h
    obtain ⟨_, rfl⟩ := h
    simp
  · have := hcode h
    simp only [List.length_cons]
    omega
  · have := hcode h
    simp only [List.length_cons]
    omega
  · simp at h

/--
Read up to the closing double quote. `read` has the characters so far, last first.
-/
def basicBody (read : List Char) (cs : List Char) : Option (String × List Char) :=
  match cs with
  | [] => none
  | '"' :: rest => some (String.ofList read.reverse, rest)
  | '\\' :: rest =>
    match _h : escape? rest with
    | some (c, rest) => basicBody (c :: read) rest
    | none => none
  | c :: rest => if isBasicChar c then basicBody (c :: read) rest else none
termination_by cs.length
decreasing_by
  · have := length_of_escape? ‹_›
    simp only [List.length_cons]
    omega
  · simp

/--
Close a string of several lines at a run of `quote`s: the last three of at most five close it, and
the others belong to the string.
-/
def closeRun (quote : Char) (read cs : List Char) : Option (String × List Char) :=
  let run := (cs.takeWhile (· == quote)).length
  let inside := min (run - 3) 2
  some (String.ofList (List.replicate inside quote ++ read).reverse, cs.drop (inside + 3))

/--
Read up to three closing double quotes. A backslash at the end of a line skips to the next character
that is not blank.
-/
def longBasicBody (read : List Char) (cs : List Char) : Option (String × List Char) :=
  match cs with
  | [] => none
  | '"' :: '"' :: '"' :: _ => closeRun '"' read cs
  | '"' :: rest => longBasicBody ('"' :: read) rest
  | '\n' :: rest => longBasicBody ('\n' :: read) rest
  | '\r' :: '\n' :: rest => longBasicBody ('\n' :: read) rest
  | '\\' :: rest =>
    match _h : rest.dropWhile isBlankChar with
    | '\n' :: after => longBasicBody read (skipLines after)
    | '\r' :: '\n' :: after => longBasicBody read (skipLines after)
    | _ =>
      match _h : escape? rest with
      | some (c, rest) => longBasicBody (c :: read) rest
      | none => none
  | c :: rest => if isBasicChar c then longBasicBody (c :: read) rest else none
termination_by cs.length
decreasing_by
  · simp
  · simp
  · simp only [List.length_cons]
    omega
  · have hdrop : (rest.dropWhile isBlankChar).length ≤ rest.length :=
      (List.dropWhile_sublist _).length_le
    rw [_h] at hdrop
    have := length_skipLines after
    simp only [List.length_cons] at *
    omega
  · have hdrop : (rest.dropWhile isBlankChar).length ≤ rest.length :=
      (List.dropWhile_sublist _).length_le
    rw [_h] at hdrop
    have := length_skipLines after
    simp only [List.length_cons] at *
    omega
  · have := length_of_escape? ‹_›
    simp only [List.length_cons]
    omega
  · simp

def longLiteralBody (read : List Char) : List Char → Option (String × List Char)
  | [] => none
  | '\x27' :: '\x27' :: '\x27' :: rest =>
    closeRun '\x27' read ('\x27' :: '\x27' :: '\x27' :: rest)
  | '\x27' :: rest => longLiteralBody ('\x27' :: read) rest
  | '\n' :: rest => longLiteralBody ('\n' :: read) rest
  | '\r' :: '\n' :: rest => longLiteralBody ('\n' :: read) rest
  | c :: rest => if isLiteralChar c then longLiteralBody (c :: read) rest else none

def basicString : Reader String := do
  literal "\""
  lift (basicBody [])

def literalString : Reader String := do
  literal "'"
  let body ← takeWhile isLiteralChar
  literal "'"
  return String.ofList body

/--
A string of several lines. A newline directly after the opening quotes is not part of it.
-/
def longString (quotes : String) (body : List Char → Option (String × List Char)) :
    Reader String := do
  literal quotes
  discard (optional newline)
  lift body

def string : Reader String :=
  longString "\"\"\"" (longBasicBody []) <|> basicString
    <|> longString "'''" (longLiteralBody []) <|> literalString

/-! Keys -/

def isBareKeyChar (c : Char) : Bool := c.isAlphanum || c == '-' || c == '_'

def bareKey : Reader String := do
  let cs ← takeWhile isBareKeyChar
  guard (!cs.isEmpty)
  return String.ofList cs

def simpleKey : Reader String := basicString <|> literalString <|> bareKey

/-! Numbers -/

/--
Digits, between which single underscores may stand. The underscores are dropped.
-/
def digitRun (isDigit : Char → Bool) : Reader (List Char) := do
  let run ← takeWhile fun c => isDigit c || c == '_'
  guard (run.head? != some '_' && run.getLast? != some '_' && !run.isEmpty)
  guard (!(run.zip run.tail).contains ('_', '_'))
  return run.filter (· != '_')

def valueInBase (base : Nat) (digits : List Char) : Nat :=
  digits.foldl (fun n d => base * n + (hexValue? d).getD 0) 0

/--
An integer that fits into 64 bits with a sign.
-/
def integerValue (i : Int) : Reader Value := do
  guard (-0x8000000000000000 ≤ i ∧ i < 0x8000000000000000)
  return .integer i

def isDigitInBase (base : Nat) (c : Char) : Bool := (hexValue? c).any (· < base)

def radixInteger (mark : String) (base : Nat) : Reader Value := do
  literal mark
  let digits ← digitRun (isDigitInBase base)
  integerValue (valueInBase base digits)

def sign : Reader Bool := return (← optional (oneOf ['+', '-'])) == some '-'

/--
An exponent with its digits, as in `e-5`.
-/
def exponent : Reader Int := do
  discard (oneOf ['e', 'E'])
  let isNegative ← sign
  let n : Int := valueInBase 10 (← digitRun Char.isDigit)
  return if isNegative then -n else n

def fraction : Reader (List Char) := do
  literal "."
  digitRun Char.isDigit

/--
A number in decimal notation. Only zero begins with a zero, and a number that is too large to be
finite is refused.
-/
def decimalNumber : Reader Value := do
  let isNegative ← sign
  let whole ← digitRun Char.isDigit
  guard (whole.head? != some '0' || whole.length == 1)
  let fraction? ← optional fraction
  let exponent? ← optional exponent
  if fraction?.isNone && exponent?.isNone then
    let n : Int := valueInBase 10 whole
    integerValue (if isNegative then -n else n)
  else
    let places := fraction?.getD []
    let x :=
      Binary64.ofDecimal (valueInBase 10 (whole ++ places)) (exponent?.getD 0 - places.length)
    guard (isNegative || x.isFinite)
    return .float (if isNegative then x.neg else x)

def specialNumber : Reader Value := do
  let isNegative ← sign
  let x ← (do literal "inf"; pure Binary64.infinity) <|> (do literal "nan"; pure Binary64.nan)
  return .float (if isNegative then x.neg else x)

def number : Reader Value :=
  radixInteger "0x" 16 <|> radixInteger "0o" 8 <|> radixInteger "0b" 2 <|> decimalNumber
    <|> specialNumber

/-! Dates and times -/

/--
A number of exactly `count` digits between two bounds.
-/
def fixedDigits (count low high : Nat) : Reader Nat := do
  let cs ← get
  let digits := cs.take count
  guard (digits.length == count && digits.all Char.isDigit)
  set (cs.drop count)
  let n := valueInBase 10 digits
  guard (low ≤ n && n ≤ high)
  return n

def daysOf (year month : Nat) : Nat :=
  if month = 2 then
    if year % 4 = 0 ∧ (year % 100 ≠ 0 ∨ year % 400 = 0) then 29 else 28
  else if [4, 6, 9, 11].contains month then 30
  else 31

def date : Reader Unit := do
  let year ← fixedDigits 4 0 9999
  literal "-"
  let month ← fixedDigits 2 1 12
  literal "-"
  discard (fixedDigits 2 1 (daysOf year month))

/--
A time of day. A minute may have a sixty-first second.
-/
def time : Reader Unit := do
  discard (fixedDigits 2 0 23)
  literal ":"
  discard (fixedDigits 2 0 59)
  literal ":"
  discard (fixedDigits 2 0 60)
  discard (optional do
    literal "."
    guard (!(← takeWhile Char.isDigit).isEmpty))

def timeOffset : Reader Unit :=
  discard (oneOf ['Z', 'z'])
    <|> (do
      discard (oneOf ['+', '-'])
      discard (fixedDigits 2 0 23)
      literal ":"
      discard (fixedDigits 2 0 59))

def datetime : Reader Value := do
  (do date
      discard (optional do
        discard (oneOf ['T', 't', ' '])
        time
        discard (optional timeOffset)))
    <|> time
  return .datetime

end Polyglot.Toml
