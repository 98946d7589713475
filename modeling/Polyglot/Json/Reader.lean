import Polyglot.Json.Number

/-!
This module contains the reading of JSON texts: first into tokens, then from tokens into a value.
-/

namespace Polyglot.Json

inductive Token where
  | openArr
  | closeArr
  | openObj
  | closeObj
  | comma
  | colon
  /-- A string, a number or one of the three words. -/
  | scalar (value : Json)
deriving Repr

/--
The value of four hexadecimal digits.
-/
def hex4? : List Char → Option (Nat × List Char)
  | a :: b :: c :: d :: rest => do
    let value :=
      16 * (16 * (16 * (← hexDigit? a) + (← hexDigit? b)) + (← hexDigit? c)) + (← hexDigit? d)
    return (value, rest)
  | _ => none
where
  hexDigit? (c : Char) : Option Nat :=
    if c.isDigit then some (c.toNat - '0'.toNat)
    else if 'a' ≤ c ∧ c ≤ 'f' then some (c.toNat - 'a'.toNat + 10)
    else if 'A' ≤ c ∧ c ≤ 'F' then some (c.toNat - 'A'.toNat + 10)
    else none

/--
The character behind `\u`: one unit, or a pair of surrogates.
-/
def unicode? (cs : List Char) : Option (Char × List Char) := do
  let (high, rest) ← hex4? cs
  if 0xD800 ≤ high ∧ high < 0xDC00 then
    match rest with
    | '\\' :: 'u' :: rest =>
      let (low, rest) ← hex4? rest
      if 0xDC00 ≤ low ∧ low < 0xE000 then
        return (Char.ofNat (0x10000 + 0x400 * (high - 0xD800) + (low - 0xDC00)), rest)
      else none
    | _ => none
  else if 0xDC00 ≤ high ∧ high < 0xE000 then none
  else return (Char.ofNat high, rest)

/--
The character that a short escape stands for.
-/
def shortEscape? : Char → Option Char
  | '"' => some '"'
  | '\\' => some '\\'
  | '/' => some '/'
  | 'b' => some '\x08'
  | 'f' => some '\x0c'
  | 'n' => some '\n'
  | 'r' => some '\r'
  | 't' => some '\t'
  | _ => none

theorem length_of_hex4? {cs rest : List Char} {n : Nat} (h : hex4? cs = some (n, rest)) :
    rest.length < cs.length := by
  unfold hex4? at h
  split at h
  · simp only [Option.bind_eq_bind, Option.bind_eq_some_iff, Option.pure_def, Option.some.injEq,
      Prod.mk.injEq] at h
    obtain ⟨_, _, _, _, _, _, _, _, _, rfl⟩ := h
    simp only [List.length_cons]
    omega
  · simp at h

theorem length_of_unicode? {cs rest : List Char} {c : Char} (h : unicode? cs = some (c, rest)) :
    rest.length < cs.length := by
  unfold unicode? at h
  obtain ⟨⟨high, rest₁⟩, h₁, h⟩ := Option.bind_eq_some_iff.1 h
  have := length_of_hex4? h₁
  dsimp only at h
  split at h
  · split at h
    · obtain ⟨⟨low, rest₂⟩, h₂, h⟩ := Option.bind_eq_some_iff.1 h
      dsimp only at h
      split at h
      · obtain ⟨_, rfl⟩ := Prod.mk.inj (Option.some.inj h)
        have := length_of_hex4? h₂
        simp only [List.length_cons] at *
        omega
      · cases h
    · cases h
  · split at h
    · cases h
    · obtain ⟨_, rfl⟩ := Prod.mk.inj (Option.some.inj h)
      exact this

/--
Read the inside of a string and its closing quote. `read` has the characters so far, last first.
-/
def string? (read : List Char) (cs : List Char) : Option (String × List Char) :=
  match cs with
  | [] => none
  | '"' :: rest => some (String.ofList read.reverse, rest)
  | '\\' :: 'u' :: rest =>
    match _h : unicode? rest with
    | some (c, rest) => string? (c :: read) rest
    | none => none
  | '\\' :: c :: rest =>
    match shortEscape? c with
    | some c => string? (c :: read) rest
    | none => none
  | c :: rest => if c.toNat < 0x20 ∨ c = '\\' then none else string? (c :: read) rest
termination_by cs.length
decreasing_by
  · have := length_of_unicode? ‹_›
    simp only [List.length_cons]
    omega
  all_goals
    simp only [List.length_cons]
    omega

/--
The rest behind `word`, if the text begins with it.
-/
def constant? (word : String) (cs : List Char) : Option (List Char) :=
  if word.toList.isPrefixOf cs then some (cs.drop word.toList.length) else none

/--
Read one token other than punctuation.
-/
def scalar? (cs : List Char) : Option (Json × List Char) :=
  match cs with
  | '"' :: rest => (string? [] rest).map fun (s, rest) => (.str s, rest)
  | 't' :: _ => (constant? "true" cs).map (.bool true, ·)
  | 'f' :: _ => (constant? "false" cs).map (.bool false, ·)
  | 'n' :: _ => (constant? "null" cs).map (.null, ·)
  | _ => do
    let (number, rest) ← numberText? cs
    return (← number.value?, rest)

def token? (cs : List Char) : Option (Token × List Char) :=
  match cs with
  | '[' :: rest => some (.openArr, rest)
  | ']' :: rest => some (.closeArr, rest)
  | '\x7b' :: rest => some (.openObj, rest)
  | '\x7d' :: rest => some (.closeObj, rest)
  | ',' :: rest => some (.comma, rest)
  | ':' :: rest => some (.colon, rest)
  | cs => (scalar? cs).map fun (value, rest) => (.scalar value, rest)

theorem length_of_string? {read cs rest : List Char} {s : String}
    (h : string? read cs = some (s, rest)) : rest.length < cs.length := by
  fun_induction string? read cs with
  | case1 => simp at h
  | case2 =>
    simp only [Option.some.injEq, Prod.mk.injEq] at h
    rw [← h.2]
    exact Nat.lt_succ_self _
  | case3 read rest' c after hu ih =>
    have := length_of_unicode? hu
    have := ih h
    simp only [List.length_cons]
    omega
  | case4 => simp at h
  | case5 read c rest' _ c' _ ih =>
    have := ih h
    simp only [List.length_cons]
    omega
  | case6 => simp at h
  | case7 => simp at h
  | case8 read c rest' _ _ _ _ ih =>
    have := ih h
    simp only [List.length_cons]
    omega

theorem length_of_constant? {word : String} {cs rest : List Char} (hw : 0 < word.toList.length)
    (h : constant? word cs = some rest) : rest.length < cs.length := by
  unfold constant? at h
  split at h
  · have hle := (List.isPrefixOf_iff_prefix.mp ‹_›).length_le
    simp only [Option.some.injEq] at h
    rw [← h, List.length_drop]
    omega
  · simp at h

theorem length_of_scalar? {cs rest : List Char} {j : Json} (h : scalar? cs = some (j, rest)) :
    rest.length < cs.length := by
  unfold scalar? at h
  split at h
  · simp only [Option.map_eq_some_iff, Prod.mk.injEq] at h
    obtain ⟨⟨s, rest'⟩, h, _, rfl⟩ := h
    have := length_of_string? h
    simp only [List.length_cons]
    omega
  iterate 3
    · simp only [Option.map_eq_some_iff, Prod.mk.injEq] at h
      obtain ⟨rest', h, _, rfl⟩ := h
      exact length_of_constant? (by decide) h
  · simp only [Option.bind_eq_bind, Option.bind_eq_some_iff, Option.pure_def, Option.some.injEq,
      Prod.mk.injEq] at h
    obtain ⟨⟨n, rest'⟩, h, _, _, _, rfl⟩ := h
    exact length_of_numberText? h

theorem length_of_token? {cs rest : List Char} {t : Token} (h : token? cs = some (t, rest)) :
    rest.length < cs.length := by
  unfold token? at h
  split at h
  iterate 6
    · simp only [Option.some.injEq, Prod.mk.injEq] at h
      rw [← h.2]
      exact Nat.lt_succ_self _
  · simp only [Option.map_eq_some_iff, Prod.mk.injEq] at h
    obtain ⟨⟨j, rest'⟩, h, _, rfl⟩ := h
    exact length_of_scalar? h

def isSpace (c : Char) : Bool := c == ' ' || c == '\t' || c == '\n' || c == '\r'

/--
Read a text into tokens. `read` has the tokens so far, last first.
-/
def tokens? (read : List Token) (cs : List Char) : Option (List Token) :=
  match _hs : cs.dropWhile isSpace with
  | [] => some read.reverse
  | c :: rest =>
    match _ht : token? (c :: rest) with
    | none => none
    | some (t, after) => tokens? (t :: read) after
termination_by cs.length
decreasing_by
  have hle := (List.dropWhile_sublist isSpace (l := cs)).length_le
  have hlt := length_of_token? _ht
  rw [_hs] at hle
  omega

/--
A container that is not closed yet, with its contents so far, last first. An object also has the
key of the value to come.
-/
inductive Open where
  | arr (items : List Json)
  | obj (fields : List (String × Json)) (key : String)

/--
What may come next.
-/
inductive Expect where
  /-- A value, or the end of an array that has just begun. -/
  | value (mayClose : Bool)
  /-- A key of the object with these fields, or its end if it has just begun. -/
  | key (fields : List (String × Json)) (mayClose : Bool)
  | colon
  /-- A comma or the end of the innermost container. -/
  | next
  | nothing (result : Json)

structure State where
  pending : List Open := []
  expect : Expect := .value false

namespace State

/--
Put a value into the innermost container, or finish.
-/
def put (pending : List Open) (value : Json) : Option State :=
  match pending with
  | [] => some { pending := [], expect := .nothing value }
  | .arr items :: pending => some { pending := .arr (value :: items) :: pending, expect := .next }
  | .obj fields key :: pending =>
    some { pending := .obj ((key, value) :: fields) key :: pending, expect := .next }

def step (s : State) (t : Token) : Option State :=
  match s.expect, t with
  | .value _, .scalar value => put s.pending value
  | .value _, .openArr => some { pending := .arr [] :: s.pending, expect := .value true }
  | .value _, .openObj => some { s with expect := .key [] true }
  | .value true, .closeArr =>
    match s.pending with
    | .arr items :: pending => put pending (.arr items.reverse)
    | _ => none
  | .key fields _, .scalar (.str key) =>
    some { pending := .obj fields key :: s.pending, expect := .colon }
  | .key fields true, .closeObj => put s.pending (.obj fields.reverse)
  | .colon, .colon => some { s with expect := .value false }
  | .next, .comma =>
    match s.pending with
    | .arr _ :: _ => some { s with expect := .value false }
    | .obj fields _ :: pending => some { pending, expect := .key fields false }
    | [] => none
  | .next, .closeArr =>
    match s.pending with
    | .arr items :: pending => put pending (.arr items.reverse)
    | _ => none
  | .next, .closeObj =>
    match s.pending with
    | .obj fields _ :: pending => put pending (.obj fields.reverse)
    | _ => none
  | _, _ => none

end State

/--
Read a JSON text.
-/
def parse? (text : String) : Option Json := do
  let tokens ← tokens? [] text.toList
  let state ← tokens.foldlM State.step {}
  match state.expect with
  | .nothing result => some result
  | _ => none

end Polyglot.Json
