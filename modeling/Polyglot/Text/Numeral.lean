import Polyglot.Text.Affix
import Polyglot.Text.Binary64
import Polyglot.Text.Blank

/-!
This module contains the reading of number literals as the supported languages write them: digit
separators, a sign, the radixes `0x`, `0o` and `0b`, type suffixes and the big integer mark `n`.
-/

namespace Polyglot.Text

/--
The value of a digit in bases up to 16, lower case only.
-/
def digitValue? (c : Char) : Option Nat :=
  if '0' ≤ c ∧ c ≤ '9' then some (c.toNat - '0'.toNat)
  else if 'a' ≤ c ∧ c ≤ 'f' then some (c.toNat - 'a'.toNat + 10)
  else none

/--
The number that a sequence of digits denotes in `base`, if all of them are digits there.
-/
def digitsValue? (base : Nat) (cs : List Char) : Option Nat :=
  cs.foldl (fun value? c => do
    let value ← value?
    let digit ← digitValue? c
    guard (digit < base)
    return value * base + digit) (some 0)

/--
A non-empty sequence of digits that denotes a number of 64 bits; one plus sign may lead it.
-/
def natural64? (base : Nat) (cs : List Char) : Option Nat := do
  let digits := (dropHead? ['+'] cs).getD cs
  guard (!digits.isEmpty)
  let value ← digitsValue? base digits
  guard (value < UInt64.size)
  return value

/--
Split off a sign: whether it is a minus, and the rest.
-/
def splitSign : List Char → Bool × List Char
  | '-' :: rest => (true, rest)
  | '+' :: rest => (false, rest)
  | cs => (false, cs)

/--
The exponent part of a decimal, which is empty or a mark `e` with a signed integer.
-/
def exponent? : List Char → Option Int
  | [] => some 0
  | 'e' :: rest => do
    let (negative, digits) := splitSign rest
    guard (!digits.isEmpty)
    let value ← digitsValue? 10 digits
    return if negative then -(value : Int) else value
  | _ => none

/--
A decimal without a sign: digits, at most one point, an optional exponent, and one digit at least.
-/
def unsignedDecimal? (cs : List Char) : Option Binary64 := do
  let whole := cs.takeWhile Char.isDigit
  let rest := cs.dropWhile Char.isDigit
  let afterPoint := (dropHead? ['.'] rest).getD []
  let fraction := afterPoint.takeWhile Char.isDigit
  guard (!(whole ++ fraction).isEmpty)
  let tail := if rest.head? == some '.' then afterPoint.dropWhile Char.isDigit else rest
  let exponent ← exponent? tail
  let digits ← digitsValue? 10 (whole ++ fraction)
  return Binary64.ofDecimal digits (exponent - fraction.length)

/--
A decimal with an optional sign, or one of the words for infinity and not-a-number.
-/
def decimal? (cs : List Char) : Option Binary64 := do
  let (negative, body) := splitSign cs
  let value ←
    if body = ['i', 'n', 'f'] ∨ body = ['i', 'n', 'f', 'i', 'n', 'i', 't', 'y'] then
      some Binary64.infinity
    else if body = ['n', 'a', 'n'] then some Binary64.nan
    else unsignedDecimal? body
  return if negative then value.neg else value

/--
Drop the first of the given suffixes that leaves something.
-/
def dropSuffix (suffixes : List String) (cs : List Char) : List Char :=
  (suffixes.findSome? fun suffix =>
    (dropTail? suffix.toList cs).filter (!·.isEmpty)).getD cs

def integerSuffixes : List String :=
  ["i128", "u128", "isize", "usize", "i64", "u64", "i32", "u32", "i16", "u16", "i8", "u8", "n"]

def floatSuffixes : List String := ["f32", "f64"]

/--
The base that a radix mark announces, and the digits after the mark.
-/
def splitRadix? (cs : List Char) : Option (Nat × List Char) :=
  [("0x", 16), ("0o", 8), ("0b", 2)].findSome? fun (mark, base) =>
    (dropHead? mark.toList cs).map (base, ·)

def unsignedNumeral? (cs : List Char) : Option Binary64 :=
  match splitRadix? cs with
  | some (base, digits) =>
    (natural64? base (dropSuffix integerSuffixes digits)).map Binary64.ofNat
  | none => decimal? (dropSuffix floatSuffixes (dropSuffix integerSuffixes cs))

def numeralChars? (cs : List Char) : Option Binary64 :=
  let cleaned := cs.filter fun c => c != '_' && !isBlank c
  match dropHead? ['-'] cleaned with
  | some digits => (unsignedNumeral? (digits.map Char.toLower)).map Binary64.neg
  | none => unsignedNumeral? (cleaned.map Char.toLower)

/--
The value of a number literal, or `none` for text of another form.
-/
def numeral? (s : String) : Option Binary64 := numeralChars? s.toList

end Polyglot.Text
