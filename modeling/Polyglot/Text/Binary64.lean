/-!
This module contains the values of number literals: the binary64 floating point numbers of
IEEE 754, with rounding of exact quotients to the nearest number, ties to the even one.
-/

namespace Polyglot

/--
A binary64 number, given by its bits.
-/
structure Binary64 where
  bits : UInt64
deriving DecidableEq, Repr, Inhabited

namespace Binary64

def infinity : Binary64 := ⟨0x7FF0000000000000⟩

def nan : Binary64 := ⟨0x7FF8000000000000⟩

def zero : Binary64 := ⟨0⟩

def isNaN (x : Binary64) : Bool := x.bits &&& 0x7FFFFFFFFFFFFFFF > infinity.bits

def isFinite (x : Binary64) : Bool := x.bits &&& infinity.bits != infinity.bits

def neg (x : Binary64) : Binary64 := ⟨x.bits ^^^ 0x8000000000000000⟩

/--
The integer nearest to `num / den`, the even one of two equally near.
-/
def roundQuotient (num den : Nat) : Nat :=
  let q := num / den
  let twice := 2 * (num % den)
  if twice < den then q
  else if den < twice then q + 1
  else q + q % 2

/--
The exponent of the last place of the numbers around `num / den`: the largest power of two that
leaves a quotient of at least `2 ^ 52`, and never less than the place of the subnormal numbers.
-/
def lastPlace (num den : Nat) : Int :=
  let guess : Int := (num.log2 : Int) - den.log2 - 52
  -- `num / den` lies between `2 ^ (guess + 51)` and `2 ^ (guess + 53)`.
  let atLeast : Bool :=
    if 0 ≤ guess then den <<< (guess.toNat + 52) ≤ num
    else den <<< 52 ≤ num <<< (-guess).toNat
  max (if atLeast then guess else guess - 1) (-1074)

/--
The number nearest to `num / den`; infinity if that lies beyond the largest number.
-/
def ofRatio (num den : Nat) : Binary64 :=
  if num = 0 then zero
  else
    let place := lastPlace num den
    let significand :=
      if 0 ≤ place then roundQuotient num (den <<< place.toNat)
      else roundQuotient (num <<< (-place).toNat) den
    let bits := (place + 1074).toNat <<< 52 + significand
    if bits < infinity.bits.toNat then ⟨UInt64.ofNat bits⟩ else infinity

def ofNat (n : Nat) : Binary64 := ofRatio n 1

/--
The number nearest to `digits * 10 ^ exponent`. The two bounds on the exponent keep the powers of
ten small: beyond them the result is infinite or zero.
-/
def ofDecimal (digits : Nat) (exponent : Int) : Binary64 :=
  if digits = 0 then zero
  else
    let magnitude : Int := (Nat.toDigits 10 digits).length + exponent
    if 309 < magnitude then infinity
    else if magnitude < -323 then zero
    else if 0 ≤ exponent then ofRatio (digits * Nat.pow 10 exponent.toNat) 1
    else ofRatio digits (Nat.pow 10 (-exponent).toNat)

/--
The absolute value of a finite number as an exact quotient.
-/
def toRatio (x : Binary64) : Nat × Nat :=
  let fraction := x.bits.toNat % 1 <<< 52
  let exponent := x.bits.toNat >>> 52 % 1 <<< 11
  if exponent = 0 then (fraction, 1 <<< 1074)
  else if 1075 ≤ exponent then ((1 <<< 52 + fraction) <<< (exponent - 1075), 1)
  else (1 <<< 52 + fraction, 1 <<< (1075 - exponent))

def isNegative (x : Binary64) : Bool := x.bits &&& 0x8000000000000000 != 0

/--
The product of two finite numbers that are not negative.
-/
def mulAbs (x y : Binary64) : Binary64 :=
  let (a, b) := x.toRatio
  let (c, d) := y.toRatio
  ofRatio (a * c) (b * d)

/--
The quotient of two finite numbers that are not negative.
-/
def divAbs (x y : Binary64) : Binary64 :=
  let (a, b) := x.toRatio
  let (c, d) := y.toRatio
  ofRatio (a * d) (b * c)

end Binary64

end Polyglot
