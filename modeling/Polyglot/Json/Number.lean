import Polyglot.Json.Basic

/-!
This module contains the reading of JSON numbers. Integers that fit into 64 bits are exact. For any
other number the leading digits are read as a word of 64 bits, and the power of ten is applied in
floating point, with a rounding at each step.
-/

namespace Polyglot.Json

/--
The parts of a number as written: the sign, the digits of the integer part and of the fraction, and
the exponent, if there is one.
-/
structure NumberText where
  isNegative : Bool
  whole : List Char
  fraction : Option (List Char)
  exponent : Option Int
deriving DecidableEq, Repr

def digitValue (c : Char) : Nat := c.toNat - '0'.toNat

def digitsValue (ds : List Char) : Nat := ds.foldl (fun n d => 10 * n + digitValue d) 0

/--
Split the digits at the start from the rest. There must be at least one.
-/
def digits? (cs : List Char) : Option (List Char × List Char) :=
  match cs.takeWhile Char.isDigit with
  | [] => none
  | ds => some (ds, cs.dropWhile Char.isDigit)

/--
Read the digits of an exponent behind its sign.
-/
def exponentDigits? (isNegative : Bool) (cs : List Char) : Option (Int × List Char) := do
  let (ds, rest) ← digits? cs
  let n : Int := digitsValue ds
  return (if isNegative then -n else n, rest)

def exponent? : List Char → Option (Option Int × List Char)
  | c :: cs =>
    if c = 'e' ∨ c = 'E' then do
      let (n, rest) ←
        match cs with
        | '-' :: cs => exponentDigits? true cs
        | '+' :: cs => exponentDigits? false cs
        | cs => exponentDigits? false cs
      return (some n, rest)
    else some (none, c :: cs)
  | [] => some (none, [])

def fraction? : List Char → Option (Option (List Char) × List Char)
  | '.' :: cs => (digits? cs).map fun (ds, rest) => (some ds, rest)
  | cs => some (none, cs)

/--
Read a number from the start of a text. Only zero itself begins with a zero.
-/
def numberText? (cs : List Char) : Option (NumberText × List Char) := do
  let (isNegative, cs) := if cs.head? = some '-' then (true, cs.tail) else (false, cs)
  let (whole, cs) ← digits? cs
  guard (whole.head? ≠ some '0' ∨ whole.length = 1)
  let (fraction, cs) ← fraction? cs
  let (exponent, cs) ← exponent? cs
  return ({ isNegative, whole, fraction, exponent }, cs)

theorem length_of_digits? {cs ds rest : List Char} (h : digits? cs = some (ds, rest)) :
    rest.length < cs.length := by
  unfold digits? at h
  split at h
  · simp at h
  · simp only [Option.some.injEq, Prod.mk.injEq] at h
    obtain ⟨_, rfl⟩ := h
    have hpos : 0 < (cs.takeWhile Char.isDigit).length := List.length_pos_iff.mpr ‹_›
    have hsplit :=
      congrArg List.length (List.takeWhile_append_dropWhile (p := Char.isDigit) (l := cs))
    simp only [List.length_append] at hsplit
    omega

theorem length_of_exponentDigits? {isNegative : Bool} {cs rest : List Char} {n : Int}
    (h : exponentDigits? isNegative cs = some (n, rest)) : rest.length < cs.length := by
  simp only [exponentDigits?, Option.bind_eq_bind, Option.bind_eq_some_iff, Option.pure_def,
    Option.some.injEq, Prod.mk.injEq] at h
  obtain ⟨⟨ds, rest'⟩, h, _, rfl⟩ := h
  exact length_of_digits? h

theorem length_of_exponent? {cs rest : List Char} {e : Option Int}
    (h : exponent? cs = some (e, rest)) : rest.length ≤ cs.length := by
  unfold exponent? at h
  split at h
  · split at h
    · simp only [Option.bind_eq_bind, Option.pure_def] at h
      split at h
      all_goals
        simp only [Option.bind_eq_some_iff, Option.some.injEq, Prod.mk.injEq] at h
        obtain ⟨⟨n, rest'⟩, h, _, rfl⟩ := h
        have := length_of_exponentDigits? h
        simp only [List.length_cons]
        omega
    · simp only [Option.some.injEq, Prod.mk.injEq] at h
      exact Nat.le_of_eq (congrArg List.length h.2.symm)
  · simp only [Option.some.injEq, Prod.mk.injEq] at h
    exact Nat.le_of_eq (congrArg List.length h.2.symm)

theorem length_of_fraction? {cs rest : List Char} {f : Option (List Char)}
    (h : fraction? cs = some (f, rest)) : rest.length ≤ cs.length := by
  unfold fraction? at h
  split at h
  · simp only [Option.map_eq_some_iff, Prod.mk.injEq] at h
    obtain ⟨⟨ds, rest'⟩, h, _, rfl⟩ := h
    have := length_of_digits? h
    simp only [List.length_cons]
    omega
  · simp only [Option.some.injEq, Prod.mk.injEq] at h
    exact Nat.le_of_eq (congrArg List.length h.2.symm)

theorem length_of_numberText? {cs rest : List Char} {n : NumberText}
    (h : numberText? cs = some (n, rest)) : rest.length < cs.length := by
  unfold numberText? at h
  obtain ⟨⟨whole, rest₁⟩, h₁, h⟩ := Option.bind_eq_some_iff.1 h
  obtain ⟨_, -, h⟩ := Option.bind_eq_some_iff.1 h
  obtain ⟨⟨f, rest₂⟩, h₂, h⟩ := Option.bind_eq_some_iff.1 h
  obtain ⟨⟨e, rest₃⟩, h₃, h⟩ := Option.bind_eq_some_iff.1 h
  cases h
  have hsign :
      (if cs.head? = some '-' then (true, cs.tail) else (false, cs)).2.length ≤ cs.length := by
    split
    · simp
    · exact Nat.le_refl _
  have : rest₁.length <
      (if cs.head? = some '-' then (true, cs.tail) else (false, cs)).2.length :=
    length_of_digits? h₁
  have := length_of_fraction? h₂
  have := length_of_exponent? h₃
  dsimp only at *
  omega

/--
Read digits into a word of 64 bits for as long as they fit. The result is the word and the digits
that are left.
-/
def fillWord (word : Nat) : List Char → Nat × List Char
  | [] => (word, [])
  | d :: ds =>
    if 10 * word + digitValue d < UInt64.size then fillWord (10 * word + digitValue d) ds
    else (word, d :: ds)

def largestPower : Nat := 308

def powerOfTen (n : Nat) : Binary64 := Binary64.ofDecimal 1 n

/--
Divide by `10 ^ exponent`, in steps that are as large as possible.
-/
def divideByPower (x : Binary64) (exponent : Nat) : Binary64 :=
  if x = .zero then x
  else if _h : exponent ≤ largestPower then x.divAbs (powerOfTen exponent)
  else divideByPower (x.divAbs (powerOfTen largestPower)) (exponent - largestPower)
termination_by exponent
decreasing_by
  simp only [largestPower] at *
  omega

/--
The word times a power of ten, none if that is too large.
-/
def scale? (word : Nat) (exponent : Int) : Option Binary64 :=
  let x := Binary64.ofNat word
  if x = .zero then some x
  else if exponent < 0 then some (divideByPower x exponent.natAbs)
  else if exponent ≤ largestPower then
    let product := x.mulAbs (powerOfTen exponent.toNat)
    if product.isFinite then some product else none
  else none

def NumberText.real? (n : NumberText) : Option Binary64 := do
  let (word, rest) := fillWord 0 n.whole
  let (word, shift) : Nat × Int :=
    match rest, n.fraction with
    | [], some fraction =>
      let (word, left) := fillWord word fraction
      (word, -((fraction.length - left.length : Nat) : Int))
    | [], none => (word, 0)
    | rest, none => (word, rest.length)
    | rest, some fraction =>
      -- Digits behind the point still enter a word that a later digit does not overflow.
      let (word, left) := fillWord word fraction
      (word, rest.length - ((fraction.length - left.length : Nat) : Int))
  let magnitude ← scale? word (shift + n.exponent.getD 0)
  return if n.isNegative then magnitude.neg else magnitude

/--
The value of a number. Zero with a sign is not an integer.
-/
def NumberText.value? (n : NumberText) : Option Json :=
  if n.fraction.isNone ∧ n.exponent.isNone then
    let magnitude := digitsValue n.whole
    if n.isNegative then
      if 0 < magnitude ∧ magnitude ≤ 0x8000000000000000 then some (.int (-magnitude))
      else n.real?.map .real
    else if magnitude < UInt64.size then some (.int magnitude)
    else n.real?.map .real
  else n.real?.map .real

end Polyglot.Json
